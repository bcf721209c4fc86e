import Tenancy.Dictionary
import Tenancy.Json.Value

/-!
# Records

Types whose values are written as documents and read back from them. A record is written with its
fields in the order declared; `toValue` is the same document by ascending key. It is read from an
object by the names of its fields, or from an array by their positions.
-/

namespace Tenancy

open Json

class Record (α : Type) where
  /-- The document of a value, with fields in the order declared. -/
  write : α → Value
  /-- The value of a document, if it is the document of one. -/
  read? : Value → Option α

namespace Record

def toValue {α : Type} [Record α] (record : α) : Value :=
  (write record).canonical

/-- The fields of a record as a document holds them. An array may be shorter than the fields, never
longer. -/
def fields? (names : List String) : Value → Option (List (Option Value))
  | .object entries => some (names.map (Entries.find? entries))
  | .array items =>
      if items.length ≤ names.length then
        some (items.map some ++ List.replicate (names.length - items.length) none)
      else none
  | _ => none

def required {α : Type} (read? : Value → Option α) (field : Option Value) : Option α :=
  field.bind read?

/-- A field that may be absent and then has a default. -/
def defaulted {α : Type} (default : α) (read? : Value → Option α) : Option Value → Option α
  | none => some default
  | some value => read? value

/-- A value, or null for none. -/
def nullable {α : Type} (read? : Value → Option α) : Value → Option (Option α)
  | .null => some none
  | value => (read? value).map some

/-- A field that may be absent or null. -/
def optional {α : Type} (read? : Value → Option α) : Option Value → Option (Option α) :=
  defaulted none (nullable read?)

def text? : Value → Option String :=
  Value.text?

def flag? : Value → Option Bool
  | .bool value => some value
  | _ => none

/-- A count: an integer that is not negative and not written as a float. -/
def count? : Value → Option Nat
  | .number (.integer (.ofNat value)) => some value
  | _ => none

def list? {α : Type} (read? : Value → Option α) : Value → Option (List α)
  | .array items => items.mapM read?
  | _ => none

/-- The entries of an object, each value read in the same way. -/
def dictionary? {α : Type} (read? : Value → Option α) : Value → Option (Dictionary α)
  | .object entries =>
      (entries.mapM fun entry => (read? entry.2).map fun value => (entry.1, value)).map .ofEntries
  | _ => none

/-- The name of a choice: a string, or an object that holds nothing but null under the name. -/
def choice? : Value → Option String
  | .string name => some name
  | .object [(name, .null)] => some name
  | _ => none

end Record

end Tenancy
