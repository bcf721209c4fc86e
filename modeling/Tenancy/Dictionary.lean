import Tenancy.Entries

/-!
# Dictionaries

Finite maps from text to values. A dictionary holds its entries by strictly ascending key, so two
dictionaries with the same value under every key are equal (`Dictionary.ext_find?`).
-/

namespace Tenancy

universe u

@[ext]
structure Dictionary (α : Type u) where
  entries : Entries α
  ascending : Entries.Ascending entries

namespace Dictionary

variable {α : Type u}

instance [DecidableEq α] : DecidableEq (Dictionary α) := fun left right =>
  decidable_of_iff (left.entries = right.entries) Dictionary.ext_iff.symm

def empty : Dictionary α := ⟨[], Entries.ascending_nil⟩

instance : Inhabited (Dictionary α) := ⟨empty⟩

/-- Of a key listed twice the later value stays. -/
def ofEntries (entries : Entries α) : Dictionary α :=
  ⟨Entries.sorted entries, Entries.ascending_sorted entries⟩

def find? (dictionary : Dictionary α) (key : String) : Option α :=
  dictionary.entries.find? key

def insert (dictionary : Dictionary α) (key : String) (value : α) : Dictionary α :=
  ⟨dictionary.entries.insert key value, dictionary.ascending.insert key value⟩

def keys (dictionary : Dictionary α) : List String :=
  dictionary.entries.keys

def values (dictionary : Dictionary α) : List α :=
  dictionary.entries.map Prod.snd

def size (dictionary : Dictionary α) : Nat :=
  dictionary.entries.length

def isEmpty (dictionary : Dictionary α) : Bool :=
  dictionary.entries.isEmpty

@[simp]
theorem find?_empty (key : String) : (empty : Dictionary α).find? key = none := rfl

@[simp]
theorem find?_insert (dictionary : Dictionary α) (key : String) (value : α) (sought : String) :
    (dictionary.insert key value).find? sought =
      if key = sought then some value else dictionary.find? sought :=
  Entries.find?_insert key value dictionary.entries sought

theorem ext_find? {left right : Dictionary α} (same : ∀ key, left.find? key = right.find? key) :
    left = right :=
  Dictionary.ext (left.ascending.ext right.ascending same)

end Dictionary

end Tenancy
