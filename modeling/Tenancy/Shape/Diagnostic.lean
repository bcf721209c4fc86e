import Tenancy.Json.Printer
import Tenancy.Shape.Path

/-!
# Diagnostics

Why a value was refused and where. A diagnostic has causes when it sums up others: a verbose union
keeps what each of its branches said. `flatten` lists a diagnostic before its causes.
-/

namespace Tenancy

open Json

inductive Complaint where
  | required
  | stringExpected
  | numberExpected
  | booleanExpected
  | nullExpected
  | nothingExpected
  | arrayExpected
  | objectExpected
  | literalExpected (expected : Value)
  | memberExpected (members : List Value)
  | noBranchMatched

def Complaint.message : Complaint → String
  | .required => "property is required"
  | .stringExpected => "must be a string"
  | .numberExpected => "must be a number"
  | .booleanExpected => "must be a boolean"
  | .nullExpected => "must be null"
  | .nothingExpected => "must be nothing"
  | .arrayExpected => "must be an array"
  | .objectExpected => "must be an object"
  | .literalExpected expected => "must equal " ++ expected.compact
  | .memberExpected members =>
      "must be one of " ++ String.intercalate ", " (members.map Value.compact)
  | .noBranchMatched => "no branch matched"

/-- A refusal: the place, the reason, and the refusals it sums up. -/
inductive Diagnostic where
  | mk (path : Path) (message : String) (causes : List Diagnostic)

namespace Diagnostic

def path : Diagnostic → Path
  | mk path _ _ => path

def message : Diagnostic → String
  | mk _ message _ => message

def causes : Diagnostic → List Diagnostic
  | mk _ _ causes => causes

/-- A complaint about the value at a place. -/
def of (path : Path) (complaint : Complaint) : Diagnostic :=
  mk path complaint.message []

def render (diagnostic : Diagnostic) : String :=
  diagnostic.path.render ++ ": (" ++ diagnostic.message ++ ")"

end Diagnostic

/-- One line of a rejection: a rendered place and what is wrong there. -/
structure PropertyError where
  property : String
  message : String
  deriving DecidableEq, Repr

def PropertyError.render (error : PropertyError) : String :=
  error.property ++ ": (" ++ error.message ++ ")"

mutual

/-- The diagnostic and then its causes, each with its own causes after it. -/
def Diagnostic.flatten : Diagnostic → List PropertyError
  | .mk path message causes => ⟨path.render, message⟩ :: Diagnostic.flattenAll causes

def Diagnostic.flattenAll : List Diagnostic → List PropertyError
  | [] => []
  | diagnostic :: rest => diagnostic.flatten ++ Diagnostic.flattenAll rest

end

/-- A refused document as its sender sees it. -/
structure Rejection where
  errors : List PropertyError
  message : String
  deriving DecidableEq, Repr

namespace Rejection

/-- A rejection whose message is all of its lines in one. -/
def ofErrors (errors : List PropertyError) : Rejection :=
  ⟨errors, String.intercalate "; " (errors.map PropertyError.render)⟩

def ofDiagnostic (diagnostic : Diagnostic) : Rejection :=
  ofErrors diagnostic.flatten

end Rejection

end Tenancy
