import Mathlib.Data.List.Perm.Basic
import Tenancy.Dictionary
import Tenancy.Proofs.Entries

/-!
# Values of a dictionary

A dictionary lists the values found under its keys, and inserting exchanges the value under one
key for another (`Dictionary.values_insert_perm`).
-/

namespace Tenancy

universe u

variable {α : Type u}

theorem Entries.insert_perm {entries : Entries α} (ascending : Ascending entries) (key : String)
    (value : α) : ((find? entries key).toList ++ (insert key value entries).map Prod.snd).Perm
      (value :: entries.map Prod.snd) := by
  induction entries with
  | nil => exact .refl _
  | cons entry rest inductionHypothesis =>
      obtain ⟨other, present⟩ := entry
      rw [insert]
      split
      · next below =>
          have absent : find? ((other, present) :: rest) key = none := by
            rw [find?_cons, if_neg (Std.ne_of_lt below).symm,
              ascending.find?_eq_none (Std.le_of_lt below)]
          rw [absent]
          exact .refl _
      · split
        · next same =>
            subst same
            rw [find?_cons, if_pos rfl]
            exact .swap _ _ _
        · next different =>
            have later := inductionHypothesis ascending.tail
            rw [find?_cons, if_neg (Ne.symm different)]
            exact List.perm_middle.trans ((later.cons present).trans (.swap _ _ _))

namespace Dictionary

variable {dictionary : Dictionary α} {key : String} {value : α}

/-- Whatever is found after an insertion was inserted, or was there before. -/
theorem eq_or_find?_of_insert {sought : String} {found : α}
    (after : (dictionary.insert key value).find? sought = some found) :
    (key = sought ∧ value = found) ∨ dictionary.find? sought = some found := by
  rw [find?_insert] at after
  split at after
  · next same => exact .inl ⟨same, Option.some.inj after⟩
  · exact .inr after

theorem find?_eq_some_iff_mem :
    dictionary.find? key = some value ↔ (key, value) ∈ dictionary.entries :=
  ⟨Entries.mem_of_find?_eq_some, Entries.find?_eq_some_of_mem dictionary.ascending.nodup⟩

theorem find?_eq_none_iff : dictionary.find? key = none ↔ key ∉ dictionary.keys :=
  Entries.find?_eq_none_iff

theorem mem_values_iff : value ∈ dictionary.values ↔ ∃ key, dictionary.find? key = some value := by
  constructor
  · intro member
    obtain ⟨⟨key, _⟩, listed, rfl⟩ := List.mem_map.mp member
    exact ⟨key, find?_eq_some_iff_mem.mpr listed⟩
  · rintro ⟨key, found⟩
    exact List.mem_map.mpr ⟨_, find?_eq_some_iff_mem.mp found, rfl⟩

/-- Inserting puts one value in the stead of the one that was there. -/
theorem values_insert_perm (dictionary : Dictionary α) (key : String) (value : α) :
    ((dictionary.find? key).toList ++ (dictionary.insert key value).values).Perm
      (value :: dictionary.values) :=
  Entries.insert_perm dictionary.ascending key value

end Dictionary

end Tenancy
