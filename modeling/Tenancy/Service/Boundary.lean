import Tenancy.Json.Document
import Tenancy.Service.Error
import Tenancy.Shape.Validation

/-!
# The boundary

How bodies, path parameters and answers pass their contracts. What comes in is checked, pruned and
only then read as a record; what goes out is written, checked and pruned.
-/

namespace Tenancy

open Json

namespace Boundary

def isAsciiSpace (byte : UInt8) : Bool :=
  byte = 0x20 || byte = 0x09 || byte = 0x0A || byte = 0x0C || byte = 0x0D

/-- The document of a body; a body of blanks alone holds none. -/
def parseBody (body : List UInt8) : Except ServiceError (Option Value) :=
  if body.all isAsciiSpace then .ok none
  else
    match readDocument body with
    | .ok value => .ok (some value)
    | .error error => .error (.badRequest ("body is not valid JSON: " ++ error.message))

/-- What a shape makes of a document, or of its absence. -/
def prune (shape : Shape) (input : Option Value) : Except ServiceError Value :=
  (shape.checkAndPrune input).mapError .validation

def extract (shape : Shape) (body : List UInt8) : Except ServiceError Value := do
  prune shape (← parseBody body)

/-- The record of a pruned document. A contract that lets other documents pass is the service's
mistake. -/
def toRecord (α : Type) [Record α] (pruned : Value) : Except ServiceError α :=
  match Record.read? pruned with
  | some record => .ok record
  | none => .error (.internal "pruned value does not match")

def extractRecord (α : Type) [Record α] (shape : Shape) (body : List UInt8) :
    Except ServiceError α := do
  toRecord α (← extract shape body)

def pathDocument (parameters : List (String × String)) : Value :=
  .object (Entries.sorted (parameters.map fun (name, text) => (name, Value.string text)))

def extractPath (α : Type) [Record α] (shape : Shape) (parameters : List (String × String)) :
    Except ServiceError α := do
  toRecord α (← prune shape (some (pathDocument parameters)))

/-- A document as the answer's shape lets it pass. -/
def respondValue (shape : Shape) (value : Value) : Except ServiceError Value :=
  (shape.checkAndPrune (some value)).mapError fun rejection =>
    .internal ("response violates its contract: " ++ rejection.message)

/-- A record as the answer's shape lets it pass. -/
def respond {α : Type} [Record α] (shape : Shape) (record : α) : Except ServiceError Value :=
  respondValue shape (Record.toValue record)

end Boundary

end Tenancy
