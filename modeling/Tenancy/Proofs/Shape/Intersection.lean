import Tenancy.Proofs.Dictionary
import Tenancy.Proofs.Shape.Projection
import Tenancy.Proofs.Shape.Refusal

/-!
# Intersections

An intersection accepts what all its branches accept. Its loop merges two outputs that follow each
other if both are objects, and otherwise keeps the later one. All outputs for one input are of the
input's kind: they are objects when the input is one (`Shape.exists_dictionary_of_prune?`), and none
is when it is not (`Shape.exists_object_of_prune?`). So the loop merges all outputs or none of them,
as `Shape.Intersects` says. No shape puts keys out of order (`Shape.canonical_of_prune?`).
-/

namespace Tenancy

open Json Outcome

/-- A dictionary has the keys of all the parts, and under each the value of the last part that has
it. -/
structure LastWins (parts : List (Dictionary Value)) (merged : Dictionary Value) : Prop where
  keys : ∀ key, key ∈ merged.keys ↔ ∃ part ∈ parts, key ∈ part.keys
  values : ∀ key value, merged.find? key = some value ↔ ∃ before part after,
    parts = before ++ part :: after ∧ part.find? key = some value ∧
      ∀ later ∈ after, key ∉ later.keys

namespace Shape

/-- Validation of an input by every branch of an intersection. -/
structure Intersects (branches : List Shape) (input : Option Value) (path : Path) : Prop where
  accepts : (∃ output, (intersection branches).validate input path = .ok output) ↔
    ∀ branch ∈ branches, ∃ output, branch.validate input path = .ok output
  /-- Of an object every branch makes an object, and these are merged. -/
  merges : ∀ whole output, input = some (.object whole) →
    (intersection branches).validate input path = .ok output →
      ∃ (parts : List (Dictionary Value)) (merged : Dictionary Value),
        List.Forall₂ (fun branch part =>
          branch.validate input path = .ok (.object part.entries)) branches parts ∧
        output = .object merged.entries ∧ LastWins parts merged
  /-- For anything else, or nothing, the last output stands. -/
  stands : ∀ output, (∀ whole, input ≠ some (.object whole)) →
    (intersection branches).validate input path = .ok output →
      ∃ last, branches.getLast? = some last ∧ last.validate input path = .ok output
  refuses : ∀ refusal, (intersection branches).validate input path = .error refusal ↔
    ∃ (position : Nat) (branch : Shape), branches[position]? = some branch ∧
      branch.validate input path = .error refusal ∧
      ∀ earlier < position, ∀ other, branches[earlier]? = some other →
        ∃ accepted, other.validate input path = .ok accepted

/-! ### Outputs for one input -/

theorem ascending_of_pruneFields {fields : List (Field Shape)} {whole pruned : Object}
    (accepted : pruneFields fields whole = some pruned) : Entries.Ascending pruned := by
  induction fields generalizing pruned with
  | nil =>
      cases accepted
      exact Entries.ascending_nil
  | cons field rest inductionHypothesis =>
      rw [pruneFields] at accepted
      split at accepted
      · rw [Option.ite_none_left_eq_some] at accepted
        exact inductionHypothesis accepted.2
      · simp only [Option.pure_def, Option.bind_eq_bind, Option.bind_eq_some_iff,
          Option.some.injEq] at accepted
        obtain ⟨output, -, others, later, rfl⟩ := accepted
        exact (inductionHypothesis later).insert _ _

/-- A leaf gives an object back as it is. -/
theorem Leaf.prune?_object {shape : Shape} (leaf : Leaf shape) {whole : Object} {pruned : Value}
    (accepted : shape.prune? (some (.object whole)) = some pruned) : pruned = .object whole := by
  rcases leaf.prune?_cases accepted with same | ⟨_, _, isText, _⟩
  · exact same
  · exact nomatch isText

/-- What comes of an object whose keys ascend is another one. -/
theorem exists_dictionary_of_prune? {shape : Shape} {whole : Dictionary Value} {pruned : Value}
    (accepted : shape.prune? (some (.object whole.entries)) = some pruned) :
    ∃ part : Dictionary Value, pruned = .object part.entries := by
  induction shape generalizing pruned with
  | kind expected => exact ⟨whole, (Leaf.kind expected).prune?_object accepted⟩
  | literal expected => exact ⟨whole, (Leaf.literal expected).prune?_object accepted⟩
  | oneOf members => exact ⟨whole, (Leaf.oneOf members).prune?_object accepted⟩
  | enumeration name variants ignoresCase =>
      exact ⟨whole, (Leaf.enumeration name variants ignoresCase).prune?_object accepted⟩
  | arrayOf element => exact nomatch accepted
  | mapOf shape =>
      obtain ⟨_, outputs, ⟨⟩, given, rfl⟩ := prune?_mapOf_eq_some_iff.mp accepted
      exact ⟨⟨outputs, ascending_of_forall₂ given whole.ascending⟩, rfl⟩
  | union verbose branches inductionHypothesis =>
      obtain ⟨before, branch, after, rfl, accepts, -⟩ := prune?_union_eq_some_iff.mp accepted
      exact inductionHypothesis branch (by simp) accepts
  | intersection branches inductionHypothesis =>
      obtain ⟨outputs, given, combines⟩ := prune?_intersection_eq_some_iff.mp accepted
      cases combined : combine outputs with
      | none =>
          rw [combined] at combines
          exact ⟨whole, combines.symm⟩
      | some merged =>
          obtain rfl : merged = pruned := by simpa [combined] using combines
          refine @combine_induction (fun value => ∃ part : Dictionary Value,
            value = .object part.entries) ?_ _ ?_ _ combined
          · rintro _ later ⟨earlier, ⟨⟩⟩ -
            exact ⟨⟨_, earlier.ascending.merge later⟩, rfl⟩
          · intro output member
            obtain ⟨branch, listed, accepts⟩ := exists_mem_of_forall₂ given member
            exact inductionHypothesis branch listed accepts
  | object fields =>
      obtain ⟨outputs, accepts, rfl⟩ := Option.map_eq_some_iff.mp accepted
      exact ⟨⟨outputs, ascending_of_pruneFields accepts⟩, rfl⟩

theorem Leaf.canonical {shape : Shape} (leaf : Leaf shape) {value pruned : Value}
    (canonical : value.Canonical) (accepted : shape.prune? (some value) = some pruned) :
    pruned.Canonical := by
  rcases leaf.prune?_cases accepted with rfl | ⟨_, _, _, rfl, _⟩
  · exact canonical
  · trivial

/-- Pruning keeps the keys in order, at every depth. -/
theorem canonical_of_prune? {shape : Shape} {value pruned : Value} (canonical : value.Canonical)
    (accepted : shape.prune? (some value) = some pruned) : pruned.Canonical := by
  induction shape generalizing value pruned with
  | kind expected => exact (Leaf.kind expected).canonical canonical accepted
  | literal expected => exact (Leaf.literal expected).canonical canonical accepted
  | oneOf members => exact (Leaf.oneOf members).canonical canonical accepted
  | enumeration name variants ignoresCase =>
      exact (Leaf.enumeration name variants ignoresCase).canonical canonical accepted
  | arrayOf element inductionHypothesis =>
      obtain ⟨items, outputs, ⟨rfl⟩, given, rfl⟩ := prune?_arrayOf_eq_some_iff.mp accepted
      rw [Value.Canonical, Value.canonicalItems_iff] at canonical ⊢
      intro output member
      obtain ⟨item, listed, accepts⟩ := exists_mem_of_forall₂ given member
      exact inductionHypothesis (canonical item listed) accepts
  | mapOf shape inductionHypothesis =>
      obtain ⟨entries, outputs, ⟨rfl⟩, given, rfl⟩ := prune?_mapOf_eq_some_iff.mp accepted
      rw [Value.Canonical, Value.canonicalEntries_iff] at canonical ⊢
      refine ⟨ascending_of_forall₂ given canonical.1, ?_⟩
      intro output member
      obtain ⟨entry, listed, accepts, -⟩ := exists_mem_of_forall₂ given member
      exact inductionHypothesis (canonical.2 entry listed) accepts
  | union verbose branches inductionHypothesis =>
      obtain ⟨before, branch, after, rfl, accepts, -⟩ := prune?_union_eq_some_iff.mp accepted
      exact inductionHypothesis branch (by simp) canonical accepts
  | intersection branches inductionHypothesis =>
      obtain ⟨outputs, given, combines⟩ := prune?_intersection_eq_some_iff.mp accepted
      cases combined : combine outputs with
      | none =>
          rw [combined] at combines
          exact combines ▸ canonical
      | some merged =>
          obtain rfl : merged = pruned := by simpa [combined] using combines
          refine @combine_induction Value.Canonical ?_ _ ?_ _ combined
          · intro earlier later ofEarlier ofLater
            rw [Value.Canonical, Value.canonicalEntries_iff] at ofEarlier ofLater ⊢
            refine ⟨ofEarlier.1.merge later, ?_⟩
            intro entry member
            rcases Entries.mem_or_mem_of_mem_merge member with member | member
            · exact ofEarlier.2 entry member
            · exact ofLater.2 entry member
          · intro output member
            obtain ⟨branch, listed, accepts⟩ := exists_mem_of_forall₂ given member
            exact inductionHypothesis branch listed canonical accepts
  | object fields inductionHypothesis =>
      cases value with
      | object whole =>
          obtain ⟨outputs, accepts, rfl⟩ := Option.map_eq_some_iff.mp accepted
          rw [Value.Canonical, Value.canonicalEntries_iff]
          refine ⟨ascending_of_pruneFields accepts, ?_⟩
          intro entry member
          obtain ⟨field, listed, -, value, found, given⟩ :=
            exists_field_of_mem_pruneFields accepts entry member
          exact inductionHypothesis field listed (Value.canonical_of_find? canonical found) given
      | null | bool | number | string | array => cases accepted

/-- Only of an object comes an object. -/
theorem exists_object_of_prune? {shape : Shape} {input : Option Value} {entries : Object}
    (accepted : shape.prune? input = some (.object entries)) :
    ∃ whole, input = some (.object whole) := by
  cases input with
  | none => exact nomatch eq_null_of_prune?_none accepted
  | some value =>
      obtain ⟨whole, rfl, -⟩ := Value.projects_object_iff.mp (projects_of_prune? accepted)
      exact ⟨whole, rfl⟩

end Shape

/-! ### Combining outputs -/

/-- Without an object among the outputs the last one stands. -/
theorem combine_eq_getLast? {outputs : List Value}
    (noObject : ∀ output ∈ outputs, ∀ entries, output ≠ .object entries) :
    combine outputs = outputs.getLast? := by
  rcases List.eq_nil_or_concat outputs with rfl | ⟨earlier, last, rfl⟩
  · rfl
  · rw [List.concat_eq_append, combine_append_singleton, List.getLast?_concat]
    have noObject := noObject last (by simp)
    congr 1
    unfold overlay
    split
    · exact absurd rfl (noObject _)
    · rfl

theorem exists_getLast?_of_forall₂ {α β : Type} {related : α → β → Prop} {items : List α}
    {results : List β} (pairs : List.Forall₂ related items results) {result : β}
    (last : results.getLast? = some result) :
    ∃ item, items.getLast? = some item ∧ related item result := by
  have reversed := List.forall₂_reverse_iff.mpr pairs
  rw [← List.head?_reverse] at last ⊢
  generalize items.reverse = items at reversed ⊢
  generalize results.reverse = results at reversed last
  cases reversed with
  | nil => exact nomatch last
  | cons first rest =>
      cases last
      exact ⟨_, rfl, first⟩

theorem findSome?_reverse_eq_some_iff {α β : Type} {f : α → Option β} {items : List α} {found : β} :
    items.reverse.findSome? f = some found ↔ ∃ before item after,
      items = before ++ item :: after ∧ f item = some found ∧ ∀ later ∈ after, f later = none := by
  rw [List.findSome?_eq_some_iff]
  constructor
  · rintro ⟨after, item, before, split, chosen, passed⟩
    refine ⟨before.reverse, item, after.reverse, ?_, chosen, by simpa using passed⟩
    simpa using congrArg List.reverse split
  · rintro ⟨before, item, after, rfl, chosen, passed⟩
    exact ⟨after.reverse, item, before.reverse, by simp, chosen, by simpa using passed⟩

/-- Dictionaries are merged key by key. -/
theorem exists_combine_dictionaries {parts : List (Dictionary Value)} (nonempty : parts ≠ []) :
    ∃ merged : Dictionary Value,
      combine (parts.map fun part => .object part.entries) = some (.object merged.entries) ∧
        LastWins parts merged := by
  have ascending : ∀ object ∈ parts.map Dictionary.entries, Entries.Ascending object :=
    List.forall_mem_map.mpr fun part _ => part.ascending
  obtain ⟨entries, combined, mergedAscending, found⟩ :=
    combine_objects (mt List.map_eq_nil_iff.mp nonempty) ascending
  let merged : Dictionary Value := ⟨entries, mergedAscending⟩
  have found (key : String) : merged.find? key = parts.reverse.findSome? (·.find? key) := by
    rw [Dictionary.find?, found, ← List.map_reverse, List.findSome?_map]
    rfl
  refine ⟨merged, by rwa [List.map_map] at combined, fun key => ?_, fun key value => ?_⟩
  · rw [← Decidable.not_iff_not, ← Dictionary.find?_eq_none_iff, found,
      List.findSome?_eq_none_iff]
    simp [Dictionary.find?_eq_none_iff]
  · rw [found, findSome?_reverse_eq_some_iff]
    simp only [Dictionary.find?_eq_none_iff]

namespace Shape

variable {branches : List Shape} {input : Option Value} {path : Path}

/-- The branches make dictionaries of a dictionary, and the intersection merges them. -/
theorem exists_merged (nonempty : branches ≠ []) (whole : Dictionary Value)
    (accepts : ∀ branch ∈ branches, ∃ output,
      branch.prune? (some (.object whole.entries)) = some output) :
    ∃ (parts : List (Dictionary Value)) (merged : Dictionary Value),
      List.Forall₂ (fun branch part =>
        branch.prune? (some (.object whole.entries)) = some (.object part.entries)) branches parts ∧
      (intersection branches).prune? (some (.object whole.entries)) =
        some (.object merged.entries) ∧ LastWins parts merged := by
  have each : ∀ branch ∈ branches, ∃ part : Dictionary Value,
      branch.prune? (some (.object whole.entries)) = some (.object part.entries) := by
    intro branch listed
    obtain ⟨output, accepted⟩ := accepts branch listed
    obtain ⟨part, rfl⟩ := exists_dictionary_of_prune? accepted
    exact ⟨part, accepted⟩
  obtain ⟨parts, given⟩ := exists_forall₂_iff.mpr each
  have partsNonempty : parts ≠ [] := by
    rintro rfl
    exact nonempty (List.forall₂_nil_right_iff.mp given)
  obtain ⟨merged, combined, lastWins⟩ := exists_combine_dictionaries partsNonempty
  refine ⟨parts, merged, given, ?_, lastWins⟩
  exact prune?_intersection_eq_some_iff.mpr
    ⟨_, List.forall₂_map_right_iff.mpr given, by rw [combined, Option.getD_some]⟩

/-- Where no branch has an object to make something of, the last one decides. -/
theorem exists_last_of_not_object (nonempty : branches ≠ []) {output : Value}
    (noObject : ∀ whole, input ≠ some (.object whole))
    (accepted : (intersection branches).prune? input = some output) :
    ∃ last, branches.getLast? = some last ∧ last.prune? input = some output := by
  obtain ⟨outputs, given, combines⟩ := prune?_intersection_eq_some_iff.mp accepted
  have noOutput : ∀ output ∈ outputs, ∀ entries, output ≠ .object entries := by
    rintro output listed entries rfl
    obtain ⟨branch, -, accepts⟩ := exists_mem_of_forall₂ given listed
    obtain ⟨whole, isObject⟩ := exists_object_of_prune? accepts
    exact noObject whole isObject
  have outputsNonempty : outputs ≠ [] := by
    rintro rfl
    exact nonempty (List.forall₂_nil_right_iff.mp given)
  have last := List.getLast?_eq_some_getLast outputsNonempty
  rw [combine_eq_getLast? noOutput, last, Option.getD_some] at combines
  exact exists_getLast?_of_forall₂ given (combines ▸ last)

/-- An intersection merges all outputs of its branches, or gives the last one. -/
theorem intersects (nonempty : branches ≠ []) (canonical : ∀ value ∈ input, value.Canonical)
    (path : Path) : Intersects branches input path where
  accepts := by
    simp only [validate_eq_ok_iff, prune?_intersection_eq_some_iff, ← exists_forall₂_iff]
    constructor
    · rintro ⟨_, outputs, given, -⟩
      exact ⟨outputs, given⟩
    · rintro ⟨outputs, given⟩
      exact ⟨_, outputs, given, rfl⟩
  merges := by
    rintro entries output rfl accepted
    let whole : Dictionary Value := ⟨entries, (canonical _ rfl).1⟩
    rw [validate_eq_ok_iff] at accepted
    obtain ⟨outputs, given, -⟩ := prune?_intersection_eq_some_iff.mp accepted
    obtain ⟨parts, merged, given, merges, lastWins⟩ :=
      exists_merged nonempty whole (exists_forall₂_iff.mp ⟨outputs, given⟩)
    exact ⟨parts, merged, given.imp fun _ _ => validate_eq_ok_iff.mpr,
      Option.some.inj (accepted.symm.trans merges), lastWins⟩
  stands output noObject accepted := by
    rw [validate_eq_ok_iff] at accepted
    obtain ⟨last, isLast, accepts⟩ := exists_last_of_not_object nonempty noObject accepted
    exact ⟨last, isLast, validate_eq_ok_iff.mpr accepts⟩
  refuses refusal := by
    rw [validate, map_eq_error_iff, validateAll_eq_error_iff, firstRefused_iff_getElem?]
    simp only [exists_eq_ok_iff, ne_eq]

/-- Paints have a name and a label, of which one branch asks for a name and the other for a colour. -/
def paints : List Shape :=
  [.object [.required "name" string, .required "label" (.object [.required "name" string])],
    .object [.required "label" (.object [.required "colour" string])]]

/-- Both branches give a label, and the later one stays. -/
theorem intersects_paints :
    let label : Value := .object [("colour", .string "red"), ("name", .string "poppy")]
    let paint : Value := .object [("label", label), ("name", .string "oil")]
    (intersection paints).validate (some paint) .root = .ok (.object
        [("label", .object [("colour", .string "red")]), ("name", .string "oil")]) ∧
      Intersects paints (some paint) .root := by
  intro label paint
  have canonical : paint.Canonical := by
    refine ⟨by decide, ⟨⟨by decide, trivial, trivial, trivial⟩, trivial, trivial⟩⟩
  refine ⟨rfl, intersects (List.cons_ne_nil _ _) ?_ .root⟩
  rintro _ ⟨⟩
  exact canonical

end Shape

end Tenancy
