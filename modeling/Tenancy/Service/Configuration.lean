import Tenancy.Text.AsciiCase
import Tenancy.Text.WhiteSpace

/-!
# Configuration

What the service reads from its environment. A variable that is not set has a default; a value is read
without the white space at its ends but reported as it stands.
-/

namespace Tenancy

open Text

inductive LogFormat where
  | pretty
  | json
  deriving DecidableEq, Repr

structure Configuration where
  port : Nat
  bodyLimit : Nat
  logFormat : LogFormat
  deriving DecidableEq, Repr

inductive ValueFault where
  | empty
  | invalidDigit
  | tooLarge
  | unknownFormat (value : String)
  deriving DecidableEq, Repr

def ValueFault.message : ValueFault → String
  | .empty => "cannot parse integer from empty string"
  | .invalidDigit => "invalid digit found in string"
  | .tooLarge => "number too large to fit in target type"
  | .unknownFormat value => s!"expected 'pretty' or 'json', got '{value}'"

/-- A variable whose value cannot be read. -/
structure ConfigurationError where
  name : String
  value : String
  fault : ValueFault
  deriving DecidableEq, Repr

def ConfigurationError.message (error : ConfigurationError) : String :=
  let name := error.name
  let value := error.value
  let reason := error.fault.message
  s!"{name} has invalid value '{value}': {reason}"

namespace Configuration

def default : Configuration := ⟨8080, 2 * 1024 * 1024, .pretty⟩

/-- Append digits to a number up to a limit. The first character at fault decides. -/
def readDigits (limit value : Nat) : List Char → Except ValueFault Nat
  | [] => .ok value
  | c :: rest =>
      if c.isDigit then
        let longer := value * 10 + (c.toNat - '0'.toNat)
        if longer ≤ limit then readDigits limit longer rest else .error .tooLarge
      else .error .invalidDigit

/-- A number up to a limit: digits, perhaps after a plus sign. -/
def readNumber (limit : Nat) (text : String) : Except ValueFault Nat :=
  match text.toList with
  | [] => .error .empty
  | '+' :: c :: rest => readDigits limit 0 (c :: rest)
  | digits => readDigits limit 0 digits

def readFormat (text : String) : Except ValueFault LogFormat :=
  let name := asciiLower text
  if name = "pretty" ∨ name = "text" then .ok .pretty
  else if name = "json" then .ok .json
  else .error (.unknownFormat name)

def portLimit : Nat := Nat.pow 2 16 - 1

def sizeLimit : Nat := Nat.pow 2 64 - 1

/-- The value of a variable, or its default. -/
def readVariable {α : Type} (lookup : String → Option String) (name : String) (default : α)
    (read : String → Except ValueFault α) : Except ConfigurationError α :=
  match lookup name with
  | none => .ok default
  | some value => (read (trim value)).mapError (⟨name, value, ·⟩)

/-- The configuration of an environment, or the first variable at fault. -/
def ofEnvironment (lookup : String → Option String) : Except ConfigurationError Configuration := do
  let port ← readVariable lookup "OMS_PORT" default.port (readNumber portLimit)
  let bodyLimit ← readVariable lookup "OMS_BODY_LIMIT_BYTES" default.bodyLimit
    (readNumber sizeLimit)
  let logFormat ← readVariable lookup "OMS_LOG_FORMAT" default.logFormat readFormat
  return ⟨port, bodyLimit, logFormat⟩

end Configuration

end Tenancy
