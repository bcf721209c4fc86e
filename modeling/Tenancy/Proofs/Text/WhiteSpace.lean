import Mathlib.Data.List.TakeWhile
import Tenancy.Text.WhiteSpace

/-!
# Trimming

A text is trimmed to the part of it that neither starts nor ends with white space and has nothing
but white space around it. There is one such part (`trims_iff`).
-/

namespace Tenancy.Text

section StripEnds

variable {α : Type} {test : α → Bool}

theorem dropWhile_append_of_head? {before rest : List α} (passed : ∀ item ∈ before, test item = true)
    (stops : ∀ item ∈ rest.head?, test item = false) : (before ++ rest).dropWhile test = rest := by
  rw [List.dropWhile_append_of_pos passed]
  cases rest with
  | nil => rfl
  | cons item rest => exact List.dropWhile_cons_of_neg (Bool.eq_false_iff.mp (stops item rfl))

/-- What the test does not hold of at either end is all that is left between items it holds of. -/
theorem stripEnds_append {before core after : List α}
    (outside : ∀ item ∈ before ++ after, test item = true)
    (starts : ∀ item ∈ core.head?, test item = false)
    (ends : ∀ item ∈ core.getLast?, test item = false) :
    stripEnds test (before ++ core ++ after) = core := by
  obtain ⟨ofBefore, ofAfter⟩ := List.forall_mem_append.mp outside
  rcases List.eq_nil_or_concat core with rfl | ⟨init, last, rfl⟩
  · rw [List.append_nil, stripEnds, List.dropWhile_eq_nil_iff.mpr outside]
    rfl
  · rw [List.concat_eq_append] at starts ends ⊢
    have front : (before ++ (init ++ [last]) ++ after).dropWhile test = init ++ [last] ++ after := by
      rw [List.append_assoc]
      refine dropWhile_append_of_head? ofBefore fun item first => starts item ?_
      cases init <;> exact first
    have back : ((init ++ [last] ++ after).reverse).dropWhile test = (init ++ [last]).reverse := by
      rw [List.reverse_append]
      refine dropWhile_append_of_head? (by simpa using ofAfter) fun item first => ends item ?_
      rwa [List.head?_reverse] at first
    rw [stripEnds, front, back, List.reverse_reverse]

theorem head?_dropWhile_eq_false {items : List α} :
    ∀ item ∈ (items.dropWhile test).head?, test item = false := by
  intro item first
  have stops := List.head?_dropWhile_not test items
  rwa [first] at stops

/-- What is dropped from the ends lies around what is left. -/
theorem exists_append_stripEnds (test : α → Bool) (items : List α) :
    ∃ before after, items = before ++ stripEnds test items ++ after ∧
      (∀ item ∈ before ++ after, test item = true) ∧
      (∀ item ∈ (stripEnds test items).head?, test item = false) ∧
      ∀ item ∈ (stripEnds test items).getLast?, test item = false := by
  let rest := items.dropWhile test
  have front : items = items.takeWhile test ++ rest := List.takeWhile_append_dropWhile.symm
  have back : rest = stripEnds test items ++ (rest.reverse.takeWhile test).reverse := by
    rw [stripEnds, ← List.reverse_append, List.takeWhile_append_dropWhile, List.reverse_reverse]
  refine ⟨items.takeWhile test, (rest.reverse.takeWhile test).reverse, ?_, ?_, ?_, ?_⟩
  · rw [List.append_assoc, ← back]
    exact front
  · refine List.forall_mem_append.mpr ⟨fun item => List.mem_takeWhile_imp, fun item listed => ?_⟩
    exact List.mem_takeWhile_imp (List.mem_reverse.mp listed)
  · intro item first
    have same := congrArg List.head? back
    rw [List.head?_append, first] at same
    exact head?_dropWhile_eq_false item same
  · intro item last
    rw [stripEnds, List.getLast?_reverse] at last
    exact head?_dropWhile_eq_false item last

end StripEnds

/-- The second text is the first one without the white space at its ends. -/
structure Trims (text core : String) : Prop where
  around : ∃ before after, text.toList = before ++ core.toList ++ after ∧
    ∀ c ∈ before ++ after, isWhiteSpace c = true
  starts : ∀ c ∈ core.toList.head?, isWhiteSpace c = false
  ends : ∀ c ∈ core.toList.getLast?, isWhiteSpace c = false

theorem trims_iff {text core : String} : Trims text core ↔ trim text = core := by
  constructor
  · rintro ⟨⟨before, after, split, outside⟩, starts, ends⟩
    rw [trim, split, stripEnds_append outside starts ends, String.ofList_toList]
  · rintro rfl
    obtain ⟨before, after, split, outside, starts, ends⟩ :=
      exists_append_stripEnds isWhiteSpace text.toList
    refine ⟨⟨before, after, ?_, outside⟩, ?_, ?_⟩
    all_goals rw [trim, String.toList_ofList]
    · exact split
    · exact starts
    · exact ends

end Tenancy.Text
