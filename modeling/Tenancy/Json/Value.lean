import Tenancy.Entries
import Tenancy.Json.Number

/-!
# JSON values

A value as documents hold it. The keys of an object ascend strictly at every depth of a value that was
read (`Value.Canonical`), so such values are equal exactly when they list the same things.
-/

namespace Tenancy.Json

inductive Value where
  | null
  | bool (value : Bool)
  | number (value : Number)
  | string (value : String)
  | array (items : List Value)
  | object (entries : List (String × Value))

abbrev Object := Entries Value

namespace Value

instance : Inhabited Value := ⟨null⟩

def ofNat (value : Nat) : Value := .number (.integer value)

mutual

/-- Every object in the value lists its keys in strictly ascending order. -/
def Canonical : Value → Prop
  | .null | .bool _ | .number _ | .string _ => True
  | .array items => CanonicalItems items
  | .object entries => Entries.Ascending entries ∧ CanonicalEntries entries

def CanonicalItems : List Value → Prop
  | [] => True
  | item :: rest => item.Canonical ∧ CanonicalItems rest

def CanonicalEntries : List (String × Value) → Prop
  | [] => True
  | (_, value) :: rest => value.Canonical ∧ CanonicalEntries rest

end

mutual

def canonical : Value → Value
  | .null => .null
  | .bool value => .bool value
  | .number value => .number value
  | .string value => .string value
  | .array items => .array (canonicalItems items)
  | .object entries => .object (Entries.sorted (canonicalEntries entries))

def canonicalItems : List Value → List Value
  | [] => []
  | item :: rest => item.canonical :: canonicalItems rest

def canonicalEntries : List (String × Value) → List (String × Value)
  | [] => []
  | (key, value) :: rest => (key, value.canonical) :: canonicalEntries rest

end

mutual

/-- Equality of meaning: numbers by value, arrays item by item, objects when they have the same
count of entries and each entry of the left one has an equal one under its key on the right. -/
def deepEqual : Value → Value → Bool
  | .null, .null => true
  | .bool left, .bool right => left == right
  | .number left, .number right => left.sameValue right
  | .string left, .string right => left == right
  | .array left, .array right => deepEqualItems left right
  | .object left, .object right =>
      left.length == right.length && deepEqualEntries left right
  | _, _ => false

def deepEqualItems : List Value → List Value → Bool
  | [], [] => true
  | left :: lefts, right :: rights => left.deepEqual right && deepEqualItems lefts rights
  | _, _ => false

/-- Each of the entries has an equal one under its key among the others. -/
def deepEqualEntries : List (String × Value) → List (String × Value) → Bool
  | [], _ => true
  | (key, left) :: rest, others =>
      (match Entries.find? others key with
        | some right => left.deepEqual right
        | none => false) && deepEqualEntries rest others

end

def text? : Value → Option String
  | .string value => some value
  | _ => none

end Value

end Tenancy.Json
