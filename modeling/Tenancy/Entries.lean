/-!
# Entries

Values listed under text keys. The operations that build entries keep the keys strictly ascending in
code point order, which is also the order of their UTF-8 bytes; `find?` is the view through which the
other operations are described.
-/

namespace Tenancy

universe u v

/-- Values listed under text keys. -/
abbrev Entries (α : Type u) := List (String × α)

namespace Entries

variable {α : Type u} {β : Type v}

def keys (entries : Entries α) : List String :=
  entries.map Prod.fst

def find? (entries : Entries α) (key : String) : Option α :=
  match entries with
  | [] => none
  | (other, value) :: rest => if other = key then some value else find? rest key

def has (entries : Entries α) (key : String) : Bool :=
  (entries.find? key).isSome

/-- Put a value under a key at the key's place, in the stead of the value that was there. -/
def insert (key : String) (value : α) : Entries α → Entries α
  | [] => [(key, value)]
  | (other, present) :: rest =>
      if key < other then (key, value) :: (other, present) :: rest
      else if key = other then (key, value) :: rest
      else (other, present) :: insert key value rest

/-- Insert each entry of `later`, from left to right. -/
def merge (earlier : Entries α) : Entries α → Entries α
  | [] => earlier
  | (key, value) :: rest => merge (insert key value earlier) rest

/-- The entries by ascending key; of a key listed twice the later value stays. -/
def sorted (entries : Entries α) : Entries α :=
  merge [] entries

/-- The keys ascend strictly, so none is listed twice. -/
def Ascending (entries : Entries α) : Prop :=
  (keys entries).Pairwise (· < ·)

instance (entries : Entries α) : Decidable (Ascending entries) :=
  inferInstanceAs (Decidable (List.Pairwise _ _))

@[simp]
theorem find?_nil (key : String) : find? ([] : Entries α) key = none := rfl

theorem find?_cons (other : String) (value : α) (rest : Entries α) (key : String) :
    find? ((other, value) :: rest) key = if other = key then some value else find? rest key := rfl

theorem find?_eq_none_iff {entries : Entries α} {key : String} :
    find? entries key = none ↔ key ∉ keys entries := by
  induction entries with
  | nil => simp [keys]
  | cons entry rest inductionHypothesis =>
      obtain ⟨other, value⟩ := entry
      by_cases same : other = key
      · simp [find?_cons, keys, same]
      · simpa [find?_cons, keys, same, Ne.symm same] using inductionHypothesis

theorem mem_of_find?_eq_some {entries : Entries α} {key : String} {value : α}
    (found : find? entries key = some value) : (key, value) ∈ entries := by
  induction entries with
  | nil => simp at found
  | cons entry rest inductionHypothesis =>
      obtain ⟨other, present⟩ := entry
      by_cases same : other = key
      · simp_all [find?_cons]
      · simp only [find?_cons, same, if_false] at found
        exact List.mem_cons_of_mem _ (inductionHypothesis found)

@[simp]
theorem find?_insert (key : String) (value : α) (entries : Entries α) (sought : String) :
    find? (insert key value entries) sought =
      if key = sought then some value else find? entries sought := by
  induction entries with
  | nil => rfl
  | cons entry rest inductionHypothesis =>
      obtain ⟨other, present⟩ := entry
      unfold insert
      split
      · rfl
      · split
        · next same => subst same; simp only [find?_cons]; split <;> rfl
        · next distinct =>
            simp only [find?_cons, inductionHypothesis]
            split
            · next same => subst same; simp [distinct]
            · rfl

theorem mem_keys_insert {key other : String} {value : α} {entries : Entries α} :
    other ∈ keys (insert key value entries) ↔ other = key ∨ other ∈ keys entries := by
  have absent : other ∉ keys (insert key value entries) ↔ ¬(other = key ∨ other ∈ keys entries) := by
    rw [← find?_eq_none_iff, find?_insert]
    split
    · next same => simp [same]
    · next distinct => simp [find?_eq_none_iff, Ne.symm distinct]
  exact Decidable.not_iff_not.mp absent

theorem ascending_nil : Ascending ([] : Entries α) := List.Pairwise.nil

theorem Ascending.tail {entry : String × α} {rest : Entries α}
    (ascending : Ascending (entry :: rest)) : Ascending rest :=
  (List.pairwise_cons.mp ascending).2

theorem Ascending.insert {entries : Entries α} (ascending : Ascending entries) (key : String)
    (value : α) : Ascending (Entries.insert key value entries) := by
  induction entries with
  | nil => exact List.pairwise_singleton _ _
  | cons entry rest inductionHypothesis =>
      obtain ⟨other, present⟩ := entry
      have above := (List.pairwise_cons.mp ascending).1
      unfold Entries.insert
      split
      · next below =>
          refine List.pairwise_cons.mpr ⟨fun later member => ?_, ascending⟩
          rcases List.mem_cons.mp member with same | member
          · exact same ▸ below
          · exact String.lt_trans below (above later member)
      · next notBelow =>
          split
          · next same =>
              subst same
              exact List.pairwise_cons.mpr ⟨above, ascending.tail⟩
          · next distinct =>
              refine List.pairwise_cons.mpr ⟨fun later member => ?_,
                inductionHypothesis ascending.tail⟩
              rcases mem_keys_insert.mp member with same | member
              · exact same ▸ Std.lt_of_le_of_ne (String.not_lt.mp notBelow) (Ne.symm distinct)
              · exact above later member

/-- What follows an entry has no key up to the entry's own. -/
theorem Ascending.find?_eq_none {entry : String × α} {rest : Entries α}
    (ascending : Ascending (entry :: rest)) {key : String} (upTo : key ≤ entry.1) :
    find? rest key = none :=
  find?_eq_none_iff.mpr fun member =>
    String.not_lt.mpr upTo ((List.pairwise_cons.mp ascending).1 key member)

/-- The first key of one list is not below the first key of another one with the same view. -/
theorem Ascending.first_le {key other : String} {value present : α} {rest more : Entries α}
    (ascending : Ascending ((other, present) :: more))
    (same : ∀ sought, find? ((key, value) :: rest) sought = find? ((other, present) :: more) sought) :
    other ≤ key := by
  refine String.not_lt.mp fun below => ?_
  have listed := same key
  rw [find?_cons, find?_cons, if_pos rfl, if_neg (Std.ne_of_lt below).symm,
    ascending.find?_eq_none (Std.le_of_lt below)] at listed
  simp at listed

/-- Ascending entries are determined by what is found under each key. -/
theorem Ascending.ext {left right : Entries α} (leftAscending : Ascending left)
    (rightAscending : Ascending right) (same : ∀ key, find? left key = find? right key) :
    left = right := by
  induction left generalizing right with
  | nil =>
      cases right with
      | nil => rfl
      | cons entry rest => simpa [find?_cons entry.1 entry.2 rest] using same entry.1
  | cons entry rest inductionHypothesis =>
      obtain ⟨key, value⟩ := entry
      cases right with
      | nil => simpa [find?_cons] using same key
      | cons entry more =>
          obtain ⟨other, present⟩ := entry
          have sameKey : other = key := String.le_antisymm (rightAscending.first_le same)
            (leftAscending.first_le fun sought => (same sought).symm)
          subst sameKey
          have sameValue : value = present := by simpa [find?_cons] using same other
          subst sameValue
          refine congrArg _ (inductionHypothesis leftAscending.tail rightAscending.tail fun key => ?_)
          by_cases upTo : key ≤ other
          · rw [leftAscending.find?_eq_none upTo, rightAscending.find?_eq_none upTo]
          · have above := same key
            rwa [find?_cons, find?_cons, if_neg, if_neg] at above <;>
              exact fun equal => upTo (equal ▸ String.le_refl _)

theorem Ascending.merge {earlier : Entries α} (ascending : Ascending earlier)
    (later : Entries α) : Ascending (Entries.merge earlier later) := by
  induction later generalizing earlier with
  | nil => exact ascending
  | cons entry rest inductionHypothesis =>
      exact inductionHypothesis (ascending.insert entry.1 entry.2)

theorem ascending_sorted (entries : Entries α) : Ascending (sorted entries) :=
  ascending_nil.merge entries

end Entries

end Tenancy
