import Tenancy.Contract.Catalogue
import Tenancy.Proofs.Json.Meaning
import Tenancy.Proofs.Shape.Pruning

/-!
# Conformance

What it means that an input conforms to a shape, without an order in which anything is tried:
`Shape.Conforms` asks for the kind, for a value of the same meaning, for all items, entries and
fields, for some branch or for all branches. Validation accepts exactly the inputs that conform
(`Shape.exists_prune?_iff_conforms`), so shapes that differ in the order of their fields and
branches only (`Shape.Rearranged`) accept the same inputs.
-/

namespace Tenancy

open Json

namespace Shape

/-- An input, or its absence, is as a shape describes it. -/
inductive Conforms : Shape → Option Value → Prop where
  | string (text : String) : Conforms (.kind .string) (some (.string text))
  | number (number : Number) : Conforms (.kind .number) (some (.number number))
  | boolean (flag : Bool) : Conforms (.kind .boolean) (some (.bool flag))
  | null : Conforms (.kind .null) (some .null)
  | nothing : Conforms (.kind .nothing) (some .null)
  | absent : Conforms (.kind .nothing) none
  | literal {expected value : Value} : value.SameMeaning expected →
      Conforms (.literal expected) (some value)
  | oneOf {members : List Value} {member value : Value} : member ∈ members →
      member.SameMeaning value → Conforms (.oneOf members) (some value)
  | variant {name : String} {variants : List Value} {ignoresCase : Bool} {variant value : Value} :
      variant ∈ variants → variant.SameMeaning value →
      Conforms (.enumeration name variants ignoresCase) (some value)
  | respelled {name : String} {variants : List Value} {spelling text : String} :
      .string spelling ∈ variants → Text.sameIgnoringCase spelling text = true →
      Conforms (.enumeration name variants true) (some (.string text))
  | arrayOf {element : Shape} {items : List Value} :
      (∀ item ∈ items, Conforms element (some item)) →
      Conforms (.arrayOf element) (some (.array items))
  | mapOf {value : Shape} {entries : Object} :
      (∀ entry ∈ entries, Conforms value (some entry.2)) →
      Conforms (.mapOf value) (some (.object entries))
  | union {verbose : Bool} {branches : List Shape} {branch : Shape} {input : Option Value} :
      branch ∈ branches → Conforms branch input → Conforms (.union verbose branches) input
  | intersection {branches : List Shape} {input : Option Value} :
      (∀ branch ∈ branches, Conforms branch input) → Conforms (.intersection branches) input
  /-- The fields that are there conform, and no other field has to be there. -/
  | object {fields : List (Field Shape)} {whole : Object} :
      (∀ field ∈ fields, ∀ value, whole.find? field.name = some value →
        Conforms field.shape (some value)) →
      (∀ field ∈ fields, whole.find? field.name = none →
        field.requiredness.holds none whole = false) →
      Conforms (.object fields) (some (.object whole))

/-! ### What shapes of each form accept -/

theorem conforms_arrayOf_iff {element : Shape} {input : Option Value} :
    Conforms (.arrayOf element) input ↔ ∃ items, input = some (.array items) ∧
      ∀ item ∈ items, Conforms element (some item) :=
  ⟨fun | .arrayOf conforms => ⟨_, rfl, conforms⟩, fun ⟨_, isArray, conforms⟩ =>
    isArray ▸ .arrayOf conforms⟩

theorem conforms_mapOf_iff {value : Shape} {input : Option Value} :
    Conforms (.mapOf value) input ↔ ∃ entries, input = some (.object entries) ∧
      ∀ entry ∈ entries, Conforms value (some entry.2) :=
  ⟨fun | .mapOf conforms => ⟨_, rfl, conforms⟩, fun ⟨_, isObject, conforms⟩ =>
    isObject ▸ .mapOf conforms⟩

theorem conforms_union_iff {verbose : Bool} {branches : List Shape} {input : Option Value} :
    Conforms (.union verbose branches) input ↔ ∃ branch ∈ branches, Conforms branch input :=
  ⟨fun | .union member conforms => ⟨_, member, conforms⟩,
    fun ⟨_, member, conforms⟩ => .union member conforms⟩

theorem conforms_intersection_iff {branches : List Shape} {input : Option Value} :
    Conforms (.intersection branches) input ↔ ∀ branch ∈ branches, Conforms branch input :=
  ⟨fun | .intersection conforms => conforms, .intersection⟩

theorem conforms_object_iff {fields : List (Field Shape)} {input : Option Value} :
    Conforms (.object fields) input ↔ ∃ whole : Object,
      input = some (.object whole) ∧ ∀ field ∈ fields,
      (∀ value, whole.find? field.name = some value → Conforms field.shape (some value)) ∧
      (whole.find? field.name = none → field.requiredness.holds none whole = false) := by
  constructor
  · intro conforms
    cases conforms with
    | object present absent =>
        exact ⟨_, rfl, fun field member => ⟨present field member, absent field member⟩⟩
  · rintro ⟨whole, rfl, conforms⟩
    exact .object (fun field member => (conforms field member).1)
      fun field member => (conforms field member).2

theorem accepts_iff_conforms {expected : Kind} {value : Value} :
    expected.accepts value = true ↔ Conforms (.kind expected) (some value) := by
  constructor
  · intro accepts
    cases expected <;> cases value <;> first | constructor | exact nomatch accepts
  · intro conforms
    cases conforms <;> rfl

theorem any_deepEqual_iff {members : List Value} {value : Value} :
    members.any (·.deepEqual value) = true ↔ ∃ member ∈ members, member.SameMeaning value := by
  simp only [List.any_eq_true, Value.deepEqual_iff]

theorem exists_variantIgnoringCase?_iff {variants : List Value} {text : String} :
    (∃ accepted, variantIgnoringCase? variants text = some accepted) ↔ ∃ spelling,
      .string spelling ∈ variants ∧ Text.sameIgnoringCase spelling text = true := by
  rw [← Option.isSome_iff_exists, variantIgnoringCase?, List.find?_isSome]
  constructor
  · rintro ⟨variant, listed, same⟩
    cases variant with
    | string spelling => exact ⟨spelling, listed, same⟩
    | null | bool | number | array | object => exact nomatch same
  · rintro ⟨spelling, listed, same⟩
    exact ⟨.string spelling, listed, same⟩

theorem exists_acceptMember?_iff {members : List Value} {ignoresCase : Bool} {value : Value} :
    (∃ accepted, acceptMember? members ignoresCase value = some accepted) ↔
      (∃ member ∈ members, member.SameMeaning value) ∨ ignoresCase = true ∧
        ∃ spelling text, value = .string text ∧ .string spelling ∈ members ∧
          Text.sameIgnoringCase spelling text = true := by
  rw [← any_deepEqual_iff, acceptMember?]
  split
  · next listed => exact iff_of_true ⟨value, rfl⟩ (.inl listed)
  · next unlisted =>
      rw [or_iff_right unlisted]
      cases ignoresCase with
      | false => simp
      | true =>
          cases value with
          | string text => simp [Value.text?, exists_variantIgnoringCase?_iff]
          | null | bool | number | array | object => simp [Value.text?]

theorem exists_pruneFields_iff {fields : List (Field Shape)} {whole : Object} :
    (∃ pruned, pruneFields fields whole = some pruned) ↔ ∀ field ∈ fields,
      (∀ value, whole.find? field.name = some value →
        ∃ accepted, field.shape.prune? (some value) = some accepted) ∧
      (whole.find? field.name = none → field.requiredness.holds none whole = false) := by
  induction fields with
  | nil => exact iff_of_true ⟨[], rfl⟩ (List.forall_mem_nil _)
  | cons field rest inductionHypothesis =>
      rw [List.forall_mem_cons, ← inductionHypothesis, pruneFields]
      cases Entries.find? whole field.name with
      | none => simp
      | some value =>
          simp only [Option.some.injEq, forall_eq', reduceCtorEq, false_implies, and_true]
          cases field.shape.prune? (some value) <;> cases pruneFields rest whole <;> simp

/-! ### What pruning has an output for -/

theorem exists_prune?_kind_iff {expected : Kind} {input : Option Value} :
    (∃ pruned, (kind expected).prune? input = some pruned) ↔ Conforms (.kind expected) input := by
  cases input with
  | none =>
      cases expected with
      | nothing => exact iff_of_true ⟨.null, rfl⟩ .absent
      | string | number | boolean | null =>
          constructor
          · rintro ⟨_, ⟨⟩⟩
          · rintro ⟨⟩
  | some value =>
      rw [prune?, ← accepts_iff_conforms]
      simp

theorem exists_prune?_literal_iff {expected : Value} {input : Option Value} :
    (∃ pruned, (literal expected).prune? input = some pruned) ↔
      Conforms (.literal expected) input := by
  cases input with
  | none =>
      constructor
      · rintro ⟨_, ⟨⟩⟩
      · rintro ⟨⟩
  | some value =>
      simp only [prune?, Value.deepEqual_iff, Option.ite_none_right_eq_some, exists_and_left,
        Option.some.injEq, exists_eq', and_true]
      constructor
      · exact .literal
      · intro conforms
        cases conforms with
        | literal same => exact same

theorem exists_prune?_oneOf_iff {members : List Value} {input : Option Value} :
    (∃ pruned, (oneOf members).prune? input = some pruned) ↔ Conforms (.oneOf members) input := by
  cases input with
  | none =>
      constructor
      · rintro ⟨_, ⟨⟩⟩
      · rintro ⟨⟩
  | some value =>
      rw [prune?, exists_acceptMember?_iff]
      simp only [Bool.false_eq_true, false_and, or_false]
      constructor
      · rintro ⟨_, listed, same⟩
        exact .oneOf listed same
      · intro conforms
        cases conforms with
        | oneOf listed same => exact ⟨_, listed, same⟩

theorem exists_prune?_enumeration_iff {name : String} {variants : List Value} {ignoresCase : Bool}
    {input : Option Value} :
    (∃ pruned, (enumeration name variants ignoresCase).prune? input = some pruned) ↔
      Conforms (.enumeration name variants ignoresCase) input := by
  cases input with
  | none =>
      constructor
      · rintro ⟨_, ⟨⟩⟩
      · rintro ⟨⟩
  | some value =>
      rw [prune?, exists_acceptMember?_iff]
      constructor
      · rintro (⟨_, listed, same⟩ | ⟨rfl, _, _, rfl, listed, same⟩)
        · exact .variant listed same
        · exact .respelled listed same
      · intro conforms
        cases conforms with
        | variant listed same => exact .inl ⟨_, listed, same⟩
        | respelled listed same => exact .inr ⟨rfl, _, _, rfl, listed, same⟩

theorem exists_prune?_arrayOf_iff {element : Shape} {input : Option Value} :
    (∃ pruned, (arrayOf element).prune? input = some pruned) ↔ ∃ items,
      input = some (.array items) ∧
        ∀ item ∈ items, ∃ pruned, element.prune? (some item) = some pruned := by
  simp only [prune?_arrayOf_eq_some_iff, ← exists_forall₂_iff]
  constructor
  · rintro ⟨_, items, outputs, rfl, given, rfl⟩
    exact ⟨items, rfl, outputs, given⟩
  · rintro ⟨items, rfl, outputs, given⟩
    exact ⟨_, items, outputs, rfl, given, rfl⟩

theorem exists_prune?_mapOf_iff {value : Shape} {input : Option Value} :
    (∃ pruned, (mapOf value).prune? input = some pruned) ↔ ∃ entries,
      input = some (.object entries) ∧
        ∀ entry ∈ entries, ∃ pruned, value.prune? (some entry.2) = some pruned := by
  simp only [prune?_mapOf_eq_some_iff]
  constructor
  · rintro ⟨_, entries, outputs, rfl, given, rfl⟩
    refine ⟨entries, rfl, fun entry member => ?_⟩
    obtain ⟨output, accepts, -⟩ := exists_forall₂_iff.mp ⟨outputs, given⟩ entry member
    exact ⟨output.2, accepts⟩
  · rintro ⟨entries, rfl, accepts⟩
    have keyed : ∀ entry ∈ entries, ∃ output : String × Value,
        value.prune? (some entry.2) = some output.2 ∧ entry.1 = output.1 := by
      intro entry member
      obtain ⟨pruned, accepted⟩ := accepts entry member
      exact ⟨(entry.1, pruned), accepted, rfl⟩
    obtain ⟨outputs, given⟩ := exists_forall₂_iff.mpr keyed
    exact ⟨_, entries, outputs, rfl, given, rfl⟩

theorem exists_prune?_union_iff {verbose : Bool} {branches : List Shape} {input : Option Value} :
    (∃ pruned, (union verbose branches).prune? input = some pruned) ↔
      ∃ branch ∈ branches, ∃ pruned, branch.prune? input = some pruned := by
  simp only [← Option.isSome_iff_exists]
  rw [prune?, pruneAny_eq_findSome?, List.findSome?_isSome_iff]

theorem exists_prune?_intersection_iff {branches : List Shape} {input : Option Value} :
    (∃ pruned, (intersection branches).prune? input = some pruned) ↔
      ∀ branch ∈ branches, ∃ pruned, branch.prune? input = some pruned := by
  simp only [prune?_intersection_eq_some_iff]
  rw [exists_comm]
  simp only [exists_and_left, exists_eq', and_true, exists_forall₂_iff]

theorem exists_prune?_object_iff {fields : List (Field Shape)} {input : Option Value} :
    (∃ pruned, (Shape.object fields).prune? input = some pruned) ↔ ∃ whole : Object,
      input = some (.object whole) ∧ ∀ field ∈ fields,
      (∀ value, whole.find? field.name = some value →
        ∃ accepted, field.shape.prune? (some value) = some accepted) ∧
      (whole.find? field.name = none → field.requiredness.holds none whole = false) := by
  match input with
  | some (.object whole) =>
      simp only [prune?, Option.map_eq_some_iff, exists_comm (α := Value), exists_and_left,
        exists_eq', and_true, exists_pruneFields_iff, Option.some.injEq, Value.object.injEq,
        exists_eq_left']
  | none | some .null | some (.bool _) | some (.number _) | some (.string _)
  | some (.array _) => simp [prune?]

/-- A shape has an output for exactly the inputs that conform to it. -/
theorem exists_prune?_iff_conforms {shape : Shape} {input : Option Value} :
    (∃ pruned, shape.prune? input = some pruned) ↔ shape.Conforms input := by
  induction shape generalizing input with
  | kind expected => exact exists_prune?_kind_iff
  | literal expected => exact exists_prune?_literal_iff
  | oneOf members => exact exists_prune?_oneOf_iff
  | enumeration name variants ignoresCase => exact exists_prune?_enumeration_iff
  | arrayOf element inductionHypothesis =>
      simp only [exists_prune?_arrayOf_iff, conforms_arrayOf_iff, inductionHypothesis]
  | mapOf value inductionHypothesis =>
      simp only [exists_prune?_mapOf_iff, conforms_mapOf_iff, inductionHypothesis]
  | union verbose branches inductionHypothesis =>
      rw [exists_prune?_union_iff, conforms_union_iff]
      exact exists_congr fun branch => and_congr_right fun member =>
        inductionHypothesis branch member
  | intersection branches inductionHypothesis =>
      rw [exists_prune?_intersection_iff, conforms_intersection_iff]
      exact forall₂_congr fun branch member => inductionHypothesis branch member
  | object fields inductionHypothesis =>
      rw [exists_prune?_object_iff, conforms_object_iff]
      refine exists_congr fun whole => and_congr_right fun _ => ?_
      refine forall₂_congr fun field member => and_congr_left fun _ => ?_
      exact forall₂_congr fun value _ => inductionHypothesis field member

theorem prune?_eq_none_iff {shape : Shape} {input : Option Value} :
    shape.prune? input = none ↔ ¬shape.Conforms input := by
  rw [← exists_prune?_iff_conforms, ← Option.isSome_iff_exists, Option.not_isSome_iff_eq_none]

/-- One shape is another one with fields and branches in another order, at any depth. -/
inductive Rearranged : Shape → Shape → Prop where
  | refl (shape : Shape) : Rearranged shape shape
  | trans {shape middle other : Shape} : Rearranged shape middle → Rearranged middle other →
      Rearranged shape other
  | fields {fields others : List (Field Shape)} : fields.Perm others →
      Rearranged (.object fields) (.object others)
  | ofUnion {verbose : Bool} {branches others : List Shape} : branches.Perm others →
      Rearranged (.union verbose branches) (.union verbose others)
  | ofIntersection {branches others : List Shape} : branches.Perm others →
      Rearranged (.intersection branches) (.intersection others)
  | inElement {element other : Shape} : Rearranged element other →
      Rearranged (.arrayOf element) (.arrayOf other)
  | inValue {value other : Shape} : Rearranged value other →
      Rearranged (.mapOf value) (.mapOf other)
  | inField {before after : List (Field Shape)} {name : String} {shape other : Shape}
      {requiredness : Requiredness} : Rearranged shape other →
      Rearranged (.object (before ++ ⟨name, shape, requiredness⟩ :: after))
        (.object (before ++ ⟨name, other, requiredness⟩ :: after))
  | inUnion {verbose : Bool} {before after : List Shape} {branch other : Shape} :
      Rearranged branch other →
      Rearranged (.union verbose (before ++ branch :: after))
        (.union verbose (before ++ other :: after))
  | inIntersection {before after : List Shape} {branch other : Shape} : Rearranged branch other →
      Rearranged (.intersection (before ++ branch :: after))
        (.intersection (before ++ other :: after))

/-- The order of fields and branches does not decide what conforms. -/
theorem Rearranged.conforms_iff {shape other : Shape} (rearranged : Rearranged shape other)
    {input : Option Value} : shape.Conforms input ↔ other.Conforms input := by
  induction rearranged generalizing input with
  | refl shape => exact Iff.rfl
  | trans _ _ first second => exact first.trans second
  | fields permuted => simp only [conforms_object_iff, permuted.mem_iff]
  | ofUnion permuted => simp only [conforms_union_iff, permuted.mem_iff]
  | ofIntersection permuted => simp only [conforms_intersection_iff, permuted.mem_iff]
  | inElement _ inductionHypothesis => simp only [conforms_arrayOf_iff, inductionHypothesis]
  | inValue _ inductionHypothesis => simp only [conforms_mapOf_iff, inductionHypothesis]
  | inField _ inductionHypothesis =>
      simp only [conforms_object_iff, List.forall_mem_append, List.forall_mem_cons,
        inductionHypothesis]
  | inUnion _ inductionHypothesis =>
      simp only [conforms_union_iff, List.mem_append, List.mem_cons, or_and_right, exists_or,
        exists_eq_left, inductionHypothesis]
  | inIntersection _ inductionHypothesis =>
      simp only [conforms_intersection_iff, List.forall_mem_append, List.forall_mem_cons,
        inductionHypothesis]

/-- Validation accepts exactly the inputs that conform, so in whatever order a shape has its fields
and branches. -/
theorem accepts_iff_conforms_in_any_order :
    (∀ (shape : Shape) (input : Option Value) (path : Path),
      (∃ pruned, shape.validate input path = .ok pruned) ↔ shape.Conforms input) ∧
    ∀ shape other : Shape, shape.Rearranged other → ∀ (input : Option Value) (path : Path),
      (∃ pruned, shape.validate input path = .ok pruned) ↔
        ∃ pruned, other.validate input path = .ok pruned := by
  simp only [validate_eq_ok_iff, exists_prune?_iff_conforms, implies_true, true_and]
  intro shape other rearranged input _
  exact rearranged.conforms_iff

/-- Scores with the field that must be there first, and null as the last resort. -/
def scores : Shape :=
  .arrayOf (.object [.required "name" string, .optional "score" (.union false [number, nothing])])

/-- The same scores, the other way round at both levels. -/
def scoresReversed : Shape :=
  .arrayOf (.object [.optional "score" (.union false [nothing, number]), .required "name" string])

theorem accepts_scores_in_any_order :
    scores.Rearranged scoresReversed ∧
      (∃ pruned, scores.validate (some (.array [.object [("name", .string "a"), ("score", .null)]]))
        .root = .ok pruned) ∧
      ∃ pruned, scoresReversed.validate
        (some (.array [.object [("name", .string "a"), ("score", .null)]])) .root = .ok pruned := by
  have branches : (union false [number, nothing]).Rearranged (.union false [nothing, number]) :=
    .ofUnion (.swap _ _ _)
  have rearranged : scores.Rearranged scoresReversed :=
    .inElement (.trans (.fields (.swap _ _ _)) (@Rearranged.inField [] _ _ _ _ _ branches))
  have accepted : ∃ pruned, scores.validate
      (some (.array [.object [("name", .string "a"), ("score", .null)]])) .root = .ok pruned :=
    ⟨_, rfl⟩
  exact ⟨rearranged, accepted,
    (accepts_iff_conforms_in_any_order.2 _ _ rearranged _ _).mp accepted⟩

end Shape

end Tenancy
