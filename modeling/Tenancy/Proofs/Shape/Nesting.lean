import Tenancy.Proofs.Shape.Intersection

/-!
# Nested unions and intersections

A union among the branches of a union, or an intersection among those of an intersection, can be
replaced by its own branches: the verdict stays what it was (`Shape.validate_nested`). What the
branches of the inner union said is lost with or without it. The outputs of the inner intersection
are merged before the others are; that makes no difference where all of them are objects or none is
(`combine_append`), and outputs for one input are of one kind (`Shape.uniform_of_validateAll`).
-/

namespace Tenancy

open Json Outcome

/-! ### Merging a part of the outputs first -/

/-- Outputs of one kind: all of them are objects, with ascending keys, or none is. -/
inductive Uniform (outputs : List Value) : Prop where
  | objects : (∀ output ∈ outputs, ∃ part : Dictionary Value, output = .object part.entries) →
      Uniform outputs
  | others : (∀ output ∈ outputs, ∀ entries, output ≠ .object entries) → Uniform outputs

/-- What stands for itself among outputs takes the place of the earlier ones. -/
theorem overlay_of_not_object {output : Value} (noObject : ∀ entries, output ≠ .object entries)
    (earlier : Option Value) : overlay earlier output = output := by
  unfold overlay
  split
  · exact absurd rfl (noObject _)
  · rfl

/-- Objects may be merged in two groups: the later value wins under each key either way. -/
theorem combine_append_of_objects {earlier later : List Object} (nonempty : later ≠ [])
    (ascending : ∀ object ∈ earlier ++ later, Entries.Ascending object) :
    ∃ merged, combine (later.map .object) = some merged ∧
      combine ((earlier ++ later).map .object) =
        some (overlay (combine (earlier.map .object)) merged) := by
  obtain ⟨earlierAscending, laterAscending⟩ := List.forall_mem_append.mp ascending
  obtain ⟨second, ofLater, secondAscending, foundSecond⟩ :=
    combine_objects nonempty laterAscending
  refine ⟨.object second, ofLater, ?_⟩
  rcases eq_or_ne earlier [] with rfl | some
  · exact ofLater
  · obtain ⟨first, ofEarlier, firstAscending, foundFirst⟩ := combine_objects some earlierAscending
    obtain ⟨all, ofAll, allAscending, foundAll⟩ :=
      combine_objects (List.append_ne_nil_of_right_ne_nil earlier nonempty) ascending
    rw [ofAll, ofEarlier]
    have same : all = Entries.merge first second := by
      refine allAscending.ext (firstAscending.merge second) fun key => ?_
      rw [foundAll, Entries.find?_merge _ secondAscending.nodup, foundFirst, foundSecond,
        List.reverse_append, List.findSome?_append]
    rw [same]
    rfl

/-- Outputs of one kind may be merged in two groups. -/
theorem combine_append {earlier later : List Value} (nonempty : later ≠ [])
    (uniform : Uniform (earlier ++ later)) :
    ∃ merged, combine later = some merged ∧
      combine (earlier ++ later) = combine (earlier ++ [merged]) := by
  simp only [combine_append_singleton]
  cases uniform with
  | objects each =>
      obtain ⟨parts, given⟩ := exists_forall₂_iff.mpr each
      have listed : earlier ++ later = parts.map fun part => .object part.entries := by
        rw [← List.forall₂_eq_eq_eq]
        exact List.forall₂_map_right_iff.mpr given
      obtain ⟨first, second, rfl, rfl, rfl⟩ := List.append_eq_map_iff.mp listed
      have ascending : ∀ object ∈ first.map Dictionary.entries ++ second.map Dictionary.entries,
          Entries.Ascending object := by
        rw [← List.map_append]
        exact List.forall_mem_map.mpr fun part _ => part.ascending
      have merges := combine_append_of_objects (by simpa using nonempty) ascending
      simpa only [List.map_append, List.map_map, Function.comp_def] using merges
  | others noObject =>
      have standing := combine_eq_getLast? noObject
      have last := List.getLast?_eq_some_getLast nonempty
      have ofLater := combine_eq_getLast? (List.forall_mem_append.mp noObject).2
      refine ⟨later.getLast nonempty, ofLater.trans last, ?_⟩
      rw [standing, List.getLast?_append, last, overlay_of_not_object]
      · rfl
      · exact noObject _ (List.mem_append_right _ (List.getLast_mem nonempty))

/-- What follows is merged into what came of the outputs before. -/
theorem combine_append_congr {outputs others : List Value}
    (same : combine outputs = combine others) (later : List Value) :
    combine (outputs ++ later) = combine (others ++ later) := by
  simp only [combine, List.foldl_append] at same ⊢
  rw [same]

namespace Shape

variable {input : Option Value} {path : Path}

/-! ### Unions -/

theorem validateAny_append (before after : List Shape) (input : Option Value) (path : Path) :
    validateAny (before ++ after) input path =
      match validateAny before input path with
      | .ok accepted => .ok accepted
      | .error refusals => (validateAny after input path).mapError (refusals ++ ·) := by
  induction before with
  | nil =>
      rw [List.nil_append, validateAny]
      cases validateAny after input path <;> rfl
  | cons branch rest inductionHypothesis =>
      rw [List.cons_append, validateAny, validateAny, inductionHypothesis]
      cases branch.validate input path with
      | ok accepted => rfl
      | error refusal =>
          cases validateAny rest input path with
          | ok accepted => rfl
          | error refusals => cases validateAny after input path <;> rfl

/-- A union that does not keep what its branches said does not depend on what they said. -/
theorem validate_union_append (before after : List Shape) (input : Option Value) (path : Path) :
    (union false (before ++ after)).validate input path =
      match (union false before).validate input path with
      | .ok accepted => .ok accepted
      | .error _ => (union false after).validate input path := by
  simp only [validate, validateAny_append]
  cases validateAny before input path with
  | ok accepted => rfl
  | error refusals => cases validateAny after input path <;> rfl

/-- A union of one union is that union, but for what its branches said. -/
theorem validate_union_singleton (verbose : Bool) (inner : List Shape) (input : Option Value)
    (path : Path) : (union false [union verbose inner]).validate input path =
      (union false inner).validate input path := by
  simp only [validate, validateAny]
  cases validateAny inner input path <;> rfl

theorem validate_nested_union (before inner after : List Shape) (verbose : Bool)
    (input : Option Value) (path : Path) :
    (union false (before ++ [union verbose inner] ++ after)).validate input path =
      (union false (before ++ inner ++ after)).validate input path := by
  simp only [validate_union_append, validate_union_singleton]

/-! ### Intersections -/

theorem validateAll_append (before after : List Shape) (input : Option Value) (path : Path) :
    validateAll (before ++ after) input path = do
      let earlier ← validateAll before input path
      let later ← validateAll after input path
      return earlier ++ later := by
  induction before with
  | nil =>
      rw [List.nil_append, validateAll, ok_bind]
      cases validateAll after input path <;> rfl
  | cons branch rest inductionHypothesis =>
      rw [List.cons_append, validateAll, validateAll, inductionHypothesis]
      simp

theorem validateAll_eq_ok_iff {branches : List Shape} {outputs : List Value} :
    validateAll branches input path = .ok outputs ↔
      List.Forall₂ (fun branch output => branch.validate input path = .ok output)
        branches outputs := by
  induction branches generalizing outputs with
  | nil => simp [validateAll, eq_comm]
  | cons branch rest inductionHypothesis =>
      simp only [validateAll, bind_eq_ok_iff, List.forall₂_cons_left_iff, inductionHypothesis]
      constructor
      · rintro ⟨output, first, later, given, ⟨⟩⟩
        exact ⟨output, later, first, given, rfl⟩
      · rintro ⟨output, later, first, given, rfl⟩
        exact ⟨output, first, later, given, rfl⟩

/-- All outputs for one input are objects, or none is. -/
theorem uniform_of_validateAll (canonical : ∀ value ∈ input, value.Canonical)
    {branches : List Shape} {outputs : List Value}
    (accepted : validateAll branches input path = .ok outputs) : Uniform outputs := by
  have given := validateAll_eq_ok_iff.mp accepted
  by_cases isObject : ∃ whole, input = some (.object whole)
  · obtain ⟨entries, rfl⟩ := isObject
    let whole : Dictionary Value := ⟨entries, (canonical _ rfl).1⟩
    refine .objects fun output listed => ?_
    obtain ⟨branch, -, accepts⟩ := exists_mem_of_forall₂ given listed
    exact @exists_dictionary_of_prune? branch whole output (validate_eq_ok_iff.mp accepts)
  · refine .others ?_
    rintro output listed entries rfl
    obtain ⟨branch, -, accepts⟩ := exists_mem_of_forall₂ given listed
    exact isObject (exists_object_of_prune? (validate_eq_ok_iff.mp accepts))

theorem validate_nested_intersection {inner : List Shape} (nonempty : inner ≠ [])
    (before after : List Shape) (canonical : ∀ value ∈ input, value.Canonical) (path : Path) :
    (intersection (before ++ [intersection inner] ++ after)).validate input path =
      (intersection (before ++ inner ++ after)).validate input path := by
  simp only [validate, validateAll_append, validateAll]
  cases ofBefore : validateAll before input path with
  | error refusal => rfl
  | ok earlier =>
      cases ofInner : validateAll inner input path with
      | error refusal => rfl
      | ok outputs =>
          have accepted : validateAll (before ++ inner) input path = .ok (earlier ++ outputs) := by
            rw [validateAll_append, ofBefore, ofInner]
            rfl
          have outputsNonempty : outputs ≠ [] := by
            rintro rfl
            exact nonempty (List.forall₂_nil_right_iff.mp (validateAll_eq_ok_iff.mp ofInner))
          obtain ⟨merged, ofOutputs, same⟩ :=
            combine_append outputsNonempty (uniform_of_validateAll canonical accepted)
          cases validateAll after input path with
          | error refusal => rfl
          | ok later =>
              have merges := combine_append_congr same later
              simp only [ok_bind, pure, Except.pure, Except.map, ofOutputs, Option.getD_some, merges]

/-- The branches of a nested union or intersection can stand in its place. -/
theorem validate_nested (before inner after : List Shape) (path : Path) :
    (∀ verbose input, (union false (before ++ [union verbose inner] ++ after)).validate input path =
      (union false (before ++ inner ++ after)).validate input path) ∧
    (inner ≠ [] → ∀ input, (∀ value ∈ input, value.Canonical) →
      (intersection (before ++ [intersection inner] ++ after)).validate input path =
        (intersection (before ++ inner ++ after)).validate input path) :=
  ⟨fun verbose input => validate_nested_union before inner after verbose input path,
    fun nonempty _ canonical => validate_nested_intersection nonempty before after canonical path⟩

/-- Three branches give a label. The one of the last branch stays, whether the inner intersection
has merged it with the name before or not. -/
theorem validate_nested_paints :
    let label : Value := .object [("colour", .string "red"), ("name", .string "poppy")]
    let paint : Value := .object [("label", label), ("name", .string "oil"), ("stock", .null)]
    paints ≠ [] ∧ paint.Canonical ∧
      (intersection (paints ++ [intersection paints] ++ [.object []])).validate (some paint) .root =
        (intersection (paints ++ paints ++ [.object []])).validate (some paint) .root ∧
      (intersection (paints ++ paints ++ [.object []])).validate (some paint) .root = .ok (.object
        [("label", .object [("colour", .string "red")]), ("name", .string "oil")]) := by
  intro label paint
  have nonempty : paints ≠ [] := List.cons_ne_nil _ _
  have canonical : paint.Canonical :=
    ⟨by decide, ⟨by decide, trivial, trivial, trivial⟩, trivial, trivial, trivial⟩
  refine ⟨nonempty, canonical, ?_, rfl⟩
  refine (validate_nested paints paints [.object []] .root).2 nonempty (some paint) ?_
  rintro _ ⟨⟩
  exact canonical

/-- An intersection of nothing hands its input on, so leaving it out drops what it would keep. -/
example :
    (intersection [.object [], intersection []]).validate (some (.object [("a", .null)])) .root =
        .ok (.object [("a", .null)]) ∧
      (intersection [.object []]).validate (some (.object [("a", .null)])) .root =
        .ok (.object []) := ⟨rfl, rfl⟩

end Shape

end Tenancy
