import Tenancy.Entries

/-!
# Merging entries

What is found after entries were merged: the later value wins under every key
(`Entries.find?_merge`). Sorting is merging into nothing, so it changes no view and leaves
ascending entries alone.
-/

namespace Tenancy.Entries

universe u

variable {α : Type u}

theorem mem_keys_of_find?_eq_some {entries : Entries α} {key : String} {value : α}
    (found : find? entries key = some value) : key ∈ keys entries :=
  List.mem_map.mpr ⟨_, mem_of_find?_eq_some found, rfl⟩

theorem Ascending.nodup {entries : Entries α} (ascending : Ascending entries) :
    (keys entries).Nodup :=
  List.Pairwise.imp Std.ne_of_lt ascending

/-- Entries stand in the order of their keys. -/
theorem Ascending.position_lt_iff {entries : Entries α}
    (ascending : Ascending entries) {first second : Nat} {key other : String} {value present : α}
    (found : entries[first]? = some (key, value)) (also : entries[second]? = some (other, present)) :
    first < second ↔ key < other := by
  have inOrder {first second : Nat} {key other : String} {value present : α}
      (found : entries[first]? = some (key, value))
      (also : entries[second]? = some (other, present)) (before : first < second) : key < other := by
    obtain ⟨within, entry⟩ := List.getElem?_eq_some_iff.mp found
    obtain ⟨within', entry'⟩ := List.getElem?_eq_some_iff.mp also
    have below := List.pairwise_iff_getElem.mp (List.pairwise_map.mp ascending) first second within
      within' before
    rwa [entry, entry'] at below
  refine ⟨inOrder found also, fun below => ?_⟩
  rcases Nat.lt_trichotomy first second with before | rfl | after
  · exact before
  · cases found.symm.trans also
    exact absurd below (String.lt_irrefl _)
  · exact absurd (String.lt_trans below (inOrder also found after)) (String.lt_irrefl _)

/-- Without a repeated key, every listed value is the one found under its key. -/
theorem find?_eq_some_of_mem {entries : Entries α} (distinct : (keys entries).Nodup) {key : String}
    {value : α} (listed : (key, value) ∈ entries) : find? entries key = some value := by
  induction entries with
  | nil => simp at listed
  | cons entry rest inductionHypothesis =>
      obtain ⟨other, present⟩ := entry
      have fresh := List.nodup_cons.mp distinct
      rcases List.mem_cons.mp listed with same | later
      · cases same
        simp [find?_cons]
      · have different : other ≠ key := fun same =>
          fresh.1 (same ▸ List.mem_map.mpr ⟨_, later, rfl⟩)
        rw [find?_cons, if_neg different]
        exact inductionHypothesis fresh.2 later

theorem find?_append (left right : Entries α) (key : String) :
    find? (left ++ right) key = (find? left key).or (find? right key) := by
  induction left with
  | nil => rfl
  | cons entry rest inductionHypothesis =>
      rw [List.cons_append, find?_cons, find?_cons, inductionHypothesis]
      split <;> rfl

theorem find?_filter {entries : Entries α} (distinct : (keys entries).Nodup) (keeps : α → Bool)
    (key : String) :
    find? (entries.filter fun entry => keeps entry.2) key = (find? entries key).filter keeps := by
  induction entries with
  | nil => rfl
  | cons entry rest inductionHypothesis =>
      obtain ⟨other, value⟩ := entry
      have fresh := List.nodup_cons.mp distinct
      have later := inductionHypothesis fresh.2
      rw [List.filter_cons, find?_cons]
      by_cases kept : keeps value
      · rw [if_pos kept, find?_cons, later]
        split
        · simp [Option.filter, kept]
        · rfl
      · rw [if_neg kept, later]
        split
        · next same =>
            subst same
            have absent : find? rest other = none := find?_eq_none_iff.mpr fresh.1
            simp [Option.filter, kept, absent]
        · rfl

theorem Ascending.filter {entries : Entries α} (ascending : Ascending entries)
    (keeps : String × α → Bool) : Ascending (entries.filter keeps) :=
  List.Pairwise.sublist (List.filter_sublist.map Prod.fst) ascending

theorem eq_or_mem_of_mem_insert {entries : Entries α} {key : String} {value : α}
    {entry : String × α} (listed : entry ∈ insert key value entries) :
    entry = (key, value) ∨ entry ∈ entries := by
  induction entries with
  | nil => exact .inl (List.mem_singleton.mp listed)
  | cons first rest inductionHypothesis =>
      obtain ⟨other, present⟩ := first
      rw [insert] at listed
      split at listed
      · exact List.mem_cons.mp listed
      · split at listed
        · exact (List.mem_cons.mp listed).imp_right (List.mem_cons_of_mem _)
        · rcases List.mem_cons.mp listed with rfl | later
          · exact .inr List.mem_cons_self
          · exact (inductionHypothesis later).imp_right (List.mem_cons_of_mem _)

/-- Merging lists no entry anew. -/
theorem mem_or_mem_of_mem_merge {earlier later : Entries α} {entry : String × α}
    (listed : entry ∈ merge earlier later) : entry ∈ earlier ∨ entry ∈ later := by
  induction later generalizing earlier with
  | nil => exact .inl listed
  | cons first rest inductionHypothesis =>
      rcases inductionHypothesis listed with inserted | later
      · exact (eq_or_mem_of_mem_insert inserted).elim
          (fun same => .inr (same ▸ List.mem_cons_self)) .inl
      · exact .inr (List.mem_cons_of_mem _ later)

theorem merge_append (earlier middle later : Entries α) :
    merge earlier (middle ++ later) = merge (merge earlier middle) later := by
  induction middle generalizing earlier with
  | nil => rfl
  | cons entry rest inductionHypothesis => exact inductionHypothesis _

/-- The later value wins; where there is none the earlier one stays. -/
theorem find?_merge (earlier : Entries α) {later : Entries α} (distinct : (keys later).Nodup)
    (key : String) :
    find? (merge earlier later) key = (find? later key).or (find? earlier key) := by
  induction later generalizing earlier with
  | nil => rfl
  | cons entry rest inductionHypothesis =>
      obtain ⟨other, value⟩ := entry
      have fresh := List.nodup_cons.mp distinct
      rw [merge, inductionHypothesis _ fresh.2, find?_insert, find?_cons]
      by_cases same : other = key
      · have absent : find? rest key = none := find?_eq_none_iff.mpr (same ▸ fresh.1)
        simp [same, absent]
      · simp [same]

theorem find?_sorted {entries : Entries α} (distinct : (keys entries).Nodup) (key : String) :
    find? (sorted entries) key = find? entries key := by
  simp [sorted, find?_merge _ distinct]

theorem Ascending.sorted_eq {entries : Entries α} (ascending : Ascending entries) :
    sorted entries = entries :=
  (ascending_sorted entries).ext ascending (find?_sorted ascending.nodup)

end Tenancy.Entries
