import Mathlib.Data.List.Pairwise
import Tenancy.Proofs.Shape.Pruning

/-!
# Idempotence of pruning

A second check gives what the first one gave on the regular shapes (`Shape.Regular`): leaves and
unions of leaves, containers, and objects or intersections of objects without a shared name. The
invariant behind it is that pruning neither makes nor unmakes a scalar
(`Shape.Regular.eq_of_isScalar`), so a condition on a scalar sibling says of the pruned object
what it said of the whole one.
-/

namespace Tenancy

open Json

def Json.Value.IsScalar : Value → Prop
  | .null | .bool _ | .number _ => True
  | .string _ | .array _ | .object _ => False

theorem Json.Value.IsScalar.of_deepEqual {value expected : Value} (scalar : expected.IsScalar)
    (same : value.deepEqual expected = true) : value.IsScalar := by
  cases expected <;> first | exact scalar.elim | (cases value <;> simp_all [deepEqual, IsScalar])

/-- Requiredness that is fixed, or hangs on a sibling that is null, a boolean or a number. -/
inductive Requiredness.Regular : Requiredness → Prop where
  | required : Regular .required
  | optional : Regular .optional
  | requiredIf (field : String) {expected : Value} :
      expected.IsScalar → Regular (.requiredIf (siblingEquals field expected))

/-- A condition does not awake in an object that has its scalars from the one before. -/
theorem Requiredness.Regular.holds_eq_false {requiredness : Requiredness}
    (regular : requiredness.Regular) {whole seen : Object}
    (scalars : ∀ key value, seen.find? key = some value → value.IsScalar →
      whole.find? key = some value)
    (free : requiredness.holds none whole = false) : requiredness.holds none seen = false := by
  cases regular with
  | required => exact free
  | optional => rfl
  | requiredIf field scalar =>
      simp only [Requiredness.holds, siblingEquals] at free ⊢
      cases found : Entries.find? seen field with
      | none => rfl
      | some value =>
          rw [Bool.eq_false_iff]
          intro same
          rw [scalars field value found (scalar.of_deepEqual same)] at free
          exact Bool.false_ne_true (free.symm.trans same)

def ObjectShape.Apart (left right : ObjectShape) : Prop :=
  left.names.Disjoint right.names

instance : Std.Symm ObjectShape.Apart := ⟨fun _ _ => List.disjoint_symm⟩

namespace Shape

/-- The shapes that judge a value as a whole. -/
inductive Leaf : Shape → Prop where
  | kind (expected : Kind) : Leaf (.kind expected)
  | literal (expected : Value) : Leaf (.literal expected)
  | oneOf (members : List Value) : Leaf (.oneOf members)
  | enumeration (name : String) (variants : List Value) (ignoresCase : Bool) :
      Leaf (.enumeration name variants ignoresCase)

/-- The shapes whose outputs pass a second check unchanged. -/
inductive Regular : Shape → Prop where
  | leaf {shape : Shape} : Leaf shape → Regular shape
  | union {verbose : Bool} {branches : List Shape} :
      (∀ branch ∈ branches, Leaf branch) → Regular (.union verbose branches)
  | arrayOf {element : Shape} : Regular element → Regular (.arrayOf element)
  | mapOf {value : Shape} : Regular value → Regular (.mapOf value)
  | nullable {inner : Shape} : Regular inner → Regular (.nullable inner)
  | object (object : ObjectShape) : (∀ field ∈ object.fields, Regular field.shape) →
      (∀ field ∈ object.fields, field.requiredness.Regular) → Regular object.toShape
  | intersection (objects : List ObjectShape) : objects ≠ [] →
      objects.Pairwise ObjectShape.Apart →
      (∀ object ∈ objects, ∀ field ∈ object.fields, Regular field.shape) →
      (∀ object ∈ objects, ∀ field ∈ object.fields, field.requiredness.Regular) →
      Regular (.intersection (objects.map ObjectShape.toShape))

/-! ### Leaves -/

theorem acceptMember?_eq_self {members : List Value} {ignoresCase : Bool} {value : Value}
    (listed : value ∈ members) (reflexive : value.deepEqual value = true) :
    acceptMember? members ignoresCase value = some value := by
  have found : members.any (·.deepEqual value) = true :=
    List.any_eq_true.mpr ⟨value, listed, reflexive⟩
  rw [acceptMember?, if_pos found]

/-- What equals a member is given back, and any other text in a spelling that is listed. -/
theorem acceptMember?_cases {members : List Value} {ignoresCase : Bool} {value accepted : Value}
    (found : acceptMember? members ignoresCase value = some accepted) :
    (accepted = value ∧ ∃ member ∈ members, member.deepEqual value = true) ∨
      ∃ text spelling, value = .string text ∧ accepted = .string spelling ∧
      Text.sameIgnoringCase spelling text = true ∧ accepted ∈ members := by
  unfold acceptMember? at found
  split at found
  · next listed => exact .inl ⟨(Option.some.inj found).symm, List.any_eq_true.mp listed⟩
  · simp only [Option.ite_none_right_eq_some, Option.bind_eq_some_iff] at found
    obtain ⟨-, text, read, chosen⟩ := found
    obtain rfl : value = .string text := by cases value <;> simp_all [Value.text?]
    have listed := List.mem_of_find?_eq_some chosen
    have same := List.find?_some chosen
    cases accepted <;> simp_all [Value.text?]

/-- A list that refuses a text refuses its other spellings, or lists them as strings. -/
theorem acceptMember?_respelled {members : List Value} {ignoresCase : Bool} {text spelling : String}
    (same : Text.sameIgnoringCase spelling text = true)
    (refused : acceptMember? members ignoresCase (.string text) = none) {accepted : Value}
    (found : acceptMember? members ignoresCase (.string spelling) = some accepted) :
    accepted = .string spelling := by
  unfold acceptMember? at found refused
  split at found
  · exact (Option.some.inj found).symm
  · simp only [Option.ite_none_right_eq_some] at found
    obtain ⟨ignores, found⟩ := found
    have sameFold : variantIgnoringCase? members spelling = variantIgnoringCase? members text := by
      simp only [variantIgnoringCase?, Text.sameIgnoringCase, Text.sameIgnoringCase_iff.mp same]
    simp only [Value.text?, Option.bind_some, sameFold] at found
    split at refused
    · cases refused
    · simp [Value.text?, found] at refused

namespace Leaf

variable {shape : Shape} {value pruned : Value}

/-- A leaf tests a value, or looks for it in a list. -/
theorem prune?_form (leaf : Leaf shape) :
    (∃ test : Value → Bool, ∀ value,
      shape.prune? (some value) = if test value then some value else none) ∨
    ∃ members ignoresCase, ∀ value,
      shape.prune? (some value) = acceptMember? members ignoresCase value := by
  cases leaf with
  | kind expected => exact .inl ⟨expected.accepts, fun value => by rw [prune?]⟩
  | literal expected => exact .inl ⟨(·.deepEqual expected), fun value => by rw [prune?]⟩
  | oneOf members => exact .inr ⟨members, false, fun value => by rw [prune?]⟩
  | enumeration name variants ignoresCase =>
      exact .inr ⟨variants, ignoresCase, fun value => by rw [prune?]⟩

theorem prune?_none (leaf : Leaf shape) (accepted : shape.prune? none = some pruned) :
    shape = nothing ∧ pruned = .null := by
  cases leaf with
  | kind expected => cases expected <;> simp_all [prune?, nothing]
  | literal expected => simp [prune?] at accepted
  | oneOf members => simp [prune?] at accepted
  | enumeration name variants ignoresCase => simp [prune?] at accepted

/-- A leaf gives back what it accepts, or another spelling of a text. -/
theorem prune?_cases (leaf : Leaf shape) (accepted : shape.prune? (some value) = some pruned) :
    pruned = value ∨ ∃ text spelling, value = .string text ∧ pruned = .string spelling ∧
      Text.sameIgnoringCase spelling text = true := by
  rcases leaf.prune?_form with ⟨test, form⟩ | ⟨members, ignoresCase, form⟩
  · rw [form, Option.ite_none_right_eq_some] at accepted
    exact .inl (Option.some.inj accepted.2).symm
  · rw [form] at accepted
    rcases acceptMember?_cases accepted with ⟨same, -⟩ | ⟨text, spelling, isText, isSpelling, same, -⟩
    · exact .inl same
    · exact .inr ⟨text, spelling, isText, isSpelling, same⟩

theorem eq_of_isScalar (leaf : Leaf shape) (accepted : shape.prune? (some value) = some pruned)
    (scalar : value.IsScalar ∨ pruned.IsScalar) : pruned = value := by
  rcases leaf.prune?_cases accepted with same | ⟨text, spelling, rfl, rfl, -⟩
  · exact same
  · exact scalar.elim False.elim False.elim

theorem prune?_again (leaf : Leaf shape) {input : Option Value}
    (accepted : shape.prune? input = some pruned) : shape.prune? (some pruned) = some pruned := by
  cases input with
  | none =>
      obtain ⟨rfl, rfl⟩ := leaf.prune?_none accepted
      rfl
  | some value =>
      rcases leaf.prune?_form with ⟨test, form⟩ | ⟨members, ignoresCase, form⟩
      · rw [form, Option.ite_none_right_eq_some] at accepted
        obtain ⟨passed, same⟩ := accepted
        rw [form, ← Option.some.inj same, if_pos passed]
      · rw [form] at accepted ⊢
        rcases acceptMember?_cases accepted with ⟨rfl, -⟩ | ⟨text, spelling, -, rfl, -, listed⟩
        · exact accepted
        · exact acceptMember?_eq_self listed (by simp [Value.deepEqual])

/-- A leaf that refused a text does not change the text's other spellings. -/
theorem prune?_respelled (leaf : Leaf shape) {text spelling : String}
    (same : Text.sameIgnoringCase spelling text = true)
    (refused : shape.prune? (some (.string text)) = none)
    (accepted : shape.prune? (some (.string spelling)) = some pruned) :
    pruned = .string spelling := by
  rcases leaf.prune?_form with ⟨test, form⟩ | ⟨members, ignoresCase, form⟩
  · rw [form, Option.ite_none_right_eq_some] at accepted
    exact (Option.some.inj accepted.2).symm
  · rw [form] at accepted refused
    exact acceptMember?_respelled same refused accepted

/-- A leaf that refused an input does not change what another leaf made of it. -/
theorem prune?_of_refused {other : Shape} (leaf : Leaf shape) (otherLeaf : Leaf other)
    {input : Option Value} (refused : shape.prune? input = none)
    (accepted : other.prune? input = some pruned) {output : Value}
    (again : shape.prune? (some pruned) = some output) : output = pruned := by
  cases input with
  | none =>
      obtain ⟨-, rfl⟩ := otherLeaf.prune?_none accepted
      exact leaf.eq_of_isScalar again (.inl trivial)
  | some value =>
      rcases otherLeaf.prune?_cases accepted with rfl | ⟨text, spelling, rfl, rfl, same⟩
      · rw [refused] at again
        exact nomatch again
      · exact leaf.prune?_respelled same refused again

end Leaf

/-! ### Unions -/

/-- A search finds the output of a later branch that the earlier ones give too, if anything. -/
theorem prune?_union_eq_some {verbose : Bool} {before after : List Shape} {branch : Shape}
    {input : Option Value} {output : Value} (accepted : branch.prune? input = some output)
    (agree : ∀ earlier ∈ before, ∀ other, earlier.prune? input = some other → other = output) :
    (union verbose (before ++ branch :: after)).prune? input = some output := by
  rw [prune?, pruneAny_eq_findSome?]
  induction before with
  | nil => simp [accepted]
  | cons first rest inductionHypothesis =>
      obtain ⟨ofFirst, ofRest⟩ := List.forall_mem_cons.mp agree
      rw [List.cons_append, List.findSome?_cons]
      cases found : first.prune? input with
      | none => exact inductionHypothesis ofRest
      | some other => exact congrArg some (ofFirst other found)

theorem prune?_union_again {verbose : Bool} {branches : List Shape}
    (leaves : ∀ branch ∈ branches, Leaf branch) {input : Option Value} {pruned : Value}
    (accepted : (union verbose branches).prune? input = some pruned) :
    (union verbose branches).prune? (some pruned) = some pruned := by
  obtain ⟨before, branch, after, rfl, accepts, refused⟩ := prune?_union_eq_some_iff.mp accepted
  have leaf : Leaf branch := leaves branch (by simp)
  apply prune?_union_eq_some (leaf.prune?_again accepts)
  intro earlier member other again
  have earlierLeaf : Leaf earlier := leaves earlier (by simp [member])
  exact earlierLeaf.prune?_of_refused leaf (refused earlier member) accepts again

theorem prune?_nullable_eq_some_iff {inner : Shape} {input : Option Value} {pruned : Value} :
    (nullable inner).prune? input = some pruned ↔ inner.prune? input = some pruned ∨
      inner.prune? input = none ∧ (input = none ∨ input = some .null) ∧ pruned = .null := by
  rw [nullable, prune?, pruneAny, pruneAny, pruneAny]
  cases inner.prune? input with
  | some output => simp
  | none =>
      cases input with
      | none => simp [nothing, prune?, eq_comm]
      | some value => cases value <;> simp [nothing, prune?, Kind.accepts, eq_comm]

/-! ### Intersections of objects -/

variable {objects : List ObjectShape}

theorem pruneAll_map_eq_some {ι : Type} {items : List ι} {branch : ι → Shape} {output : ι → Value}
    {input : Option Value}
    (accepts : ∀ item ∈ items, (branch item).prune? input = some (output item)) :
    pruneAll (items.map branch) input = some (items.map output) := by
  induction items with
  | nil => rfl
  | cons item rest inductionHypothesis =>
      obtain ⟨ofItem, ofRest⟩ := List.forall_mem_cons.mp accepts
      simp [pruneAll, ofItem, inductionHypothesis ofRest]

theorem exists_prune?_of_pruneAll {branches : List Shape} {input : Option Value}
    {outputs : List Value} (accepted : pruneAll branches input = some outputs) :
    ∀ branch ∈ branches, ∃ output, branch.prune? input = some output := by
  rw [pruneAll_eq_mapM, mapM_eq_some_iff] at accepted
  induction accepted with
  | nil => simp
  | cons first rest inductionHypothesis =>
      exact List.forall_mem_cons.mpr ⟨⟨_, first⟩, inductionHypothesis⟩

/-- A key that the other objects lack, or hold the same under, is merged as it stands. -/
theorem find?_merged_of_agree {outputs : List Object} {merged output : Object}
    (ascending : ∀ object ∈ outputs, Entries.Ascending object)
    (combines : combine (outputs.map .object) = some (.object merged)) (member : output ∈ outputs)
    {key : String}
    (agree : ∀ other ∈ outputs, other.find? key = none ∨ other.find? key = output.find? key) :
    merged.find? key = output.find? key := by
  rw [find?_merged ascending combines]
  cases found : output.find? key with
  | none =>
      apply List.findSome?_eq_none_iff.mpr
      intro other listed
      exact (agree other (List.mem_reverse.mp listed)).elim id (·.trans found)
  | some value =>
      have holds : (outputs.reverse.findSome? (Entries.find? · key)).isSome := by
        simp only [List.findSome?_isSome_iff, List.mem_reverse]
        exact ⟨output, member, by simp [found]⟩
      obtain ⟨other, given⟩ := Option.isSome_iff_exists.mp holds
      obtain ⟨source, listed, present⟩ := List.exists_of_findSome?_eq_some given
      rcases agree source (List.mem_reverse.mp listed) with absent | same
      · exact nomatch absent.symm.trans present
      · rw [given, ← present, same, found]

/-- Object shapes accept together what each of them accepts, and give it merged. -/
theorem prune?_intersection_objects_eq_some_iff (nonempty : objects ≠ []) {input : Option Value}
    {pruned : Value} :
    (intersection (objects.map ObjectShape.toShape)).prune? input = some pruned ↔
      ∃ (whole merged : Object) (output : ObjectShape → Object), input = some (.object whole) ∧
        (∀ object ∈ objects, Prunes object.fields whole (output object)) ∧
        combine ((objects.map output).map .object) = some (.object merged) ∧
        .object merged = pruned := by
  constructor
  · intro accepted
    rw [prune?, Option.map_eq_some_iff] at accepted
    obtain ⟨outputs, accepted, combined⟩ := accepted
    have accepts := List.forall_mem_map.mp (exists_prune?_of_pruneAll accepted)
    have isObject : ∀ object ∈ objects, ∃ whole pruned, input = some (.object whole) ∧
        Prunes object.fields whole pruned := by
      intro object member
      obtain ⟨output, given⟩ := accepts object member
      obtain ⟨whole, pruned, isWhole, prunes, -⟩ :=
        (prune?_object_eq_some_iff object.distinct).mp given
      exact ⟨whole, pruned, isWhole, prunes⟩
    obtain ⟨first, member⟩ := List.exists_mem_of_ne_nil objects nonempty
    obtain ⟨whole, -, rfl, -⟩ := isObject first member
    have prunes : ∀ object ∈ objects, ∃ output, Prunes object.fields whole output := by
      intro object member
      obtain ⟨_, output, ⟨rfl⟩, prunes⟩ := isObject object member
      exact ⟨output, prunes⟩
    choose! output prunes using prunes
    have outputs_eq : outputs = objects.map fun object => .object (output object) := by
      refine Option.some.inj (accepted.symm.trans (pruneAll_map_eq_some fun object member => ?_))
      exact (prune?_object_eq_some_iff object.distinct).mpr ⟨_, _, rfl, prunes object member, rfl⟩
    obtain ⟨merged, combines, -, -⟩ := @combine_objects (objects.map output) (by simpa)
      (List.forall_mem_map.mpr fun object member => (prunes object member).ascending)
    refine ⟨whole, merged, output, rfl, prunes, combines, ?_⟩
    rw [outputs_eq, ← Function.comp_def, ← List.map_map, combines] at combined
    exact combined
  · rintro ⟨whole, merged, output, rfl, prunes, combines, rfl⟩
    have accepts : ∀ object ∈ objects, object.toShape.prune? (some (.object whole)) =
        some (.object (output object)) := fun object member =>
      (prune?_object_eq_some_iff object.distinct).mpr ⟨_, _, rfl, prunes object member, rfl⟩
    rw [prune?, pruneAll_map_eq_some accepts, Option.map_some, ← Function.comp_def,
      ← List.map_map, combines, Option.getD_some]

/-! ### Regular shapes -/

/-- Pruning neither makes nor unmakes a scalar. -/
theorem Regular.eq_of_isScalar {shape : Shape} (regular : Regular shape) {value pruned : Value}
    (accepted : shape.prune? (some value) = some pruned)
    (scalar : value.IsScalar ∨ pruned.IsScalar) : pruned = value := by
  induction regular generalizing value pruned with
  | leaf leaf => exact leaf.eq_of_isScalar accepted scalar
  | union leaves =>
      obtain ⟨before, branch, after, rfl, accepts, -⟩ := prune?_union_eq_some_iff.mp accepted
      exact (leaves branch (by simp)).eq_of_isScalar accepts scalar
  | arrayOf regular inductionHypothesis =>
      obtain ⟨items, outputs, ⟨rfl⟩, -, rfl⟩ := prune?_arrayOf_eq_some_iff.mp accepted
      exact scalar.elim False.elim False.elim
  | mapOf regular inductionHypothesis =>
      obtain ⟨entries, outputs, ⟨rfl⟩, -, rfl⟩ := prune?_mapOf_eq_some_iff.mp accepted
      exact scalar.elim False.elim False.elim
  | nullable regular inductionHypothesis =>
      rcases prune?_nullable_eq_some_iff.mp accepted with accepts | ⟨-, absent | present, rfl⟩
      · exact inductionHypothesis accepts scalar
      · exact nomatch absent
      · exact (Option.some.inj present).symm
  | object object regular conditions inductionHypothesis =>
      obtain ⟨whole, output, ⟨rfl⟩, -, rfl⟩ :=
        (prune?_object_eq_some_iff object.distinct).mp accepted
      exact scalar.elim False.elim False.elim
  | intersection objects nonempty apart regular conditions inductionHypothesis =>
      obtain ⟨whole, merged, output, ⟨rfl⟩, -, -, rfl⟩ :=
        (prune?_intersection_objects_eq_some_iff nonempty).mp accepted
      exact scalar.elim False.elim False.elim

/-- Whatever field has put a scalar into an object, the scalar was there before. -/
theorem Prunes.find?_of_isScalar {fields : List (Field Shape)} {whole pruned : Object}
    (prunes : Prunes fields whole pruned) (regular : ∀ field ∈ fields, Regular field.shape)
    {key : String} {value : Value} (found : pruned.find? key = some value)
    (scalar : value.IsScalar) : whole.find? key = some value := by
  have declared := prunes.declared key (Entries.mem_keys_of_find?_eq_some found)
  obtain ⟨field, member, rfl⟩ := List.mem_map.mp declared
  cases prunes.ofField field member with
  | absent missing free left => exact nomatch left.symm.trans found
  | present listed accepts kept =>
      obtain rfl := Option.some.inj (kept.symm.trans found)
      rw [(regular field member).eq_of_isScalar accepts (.inr scalar), listed]

/-- An object is pruned to the same entries when the fields find their own outputs in it. -/
theorem Prunes.again {fields : List (Field Shape)} {whole pruned seen : Object}
    (prunes : Prunes fields whole pruned)
    (conditions : ∀ field ∈ fields, field.requiredness.Regular)
    (idempotent : ∀ field ∈ fields, ∀ input output, field.shape.prune? input = some output →
      field.shape.prune? (some output) = some output)
    (same : ∀ field ∈ fields, seen.find? field.name = pruned.find? field.name)
    (scalars : ∀ key value, seen.find? key = some value → value.IsScalar →
      whole.find? key = some value) : Prunes fields seen pruned := by
  refine ⟨prunes.ascending, prunes.declared, ?_⟩
  intro field member
  cases prunes.ofField field member with
  | absent missing free left =>
      exact .absent ((same field member).trans left)
        ((conditions field member).holds_eq_false scalars free) left
  | present found accepts kept =>
      exact .present ((same field member).trans kept) (idempotent field member _ _ accepts) kept

theorem forall₂_same_of_forall₂ {α β : Type} {related : α → β → Prop} {same : β → β → Prop}
    {items : List α} {outputs : List β} (pairs : List.Forall₂ related items outputs)
    (step : ∀ item output, related item output → same output output) :
    List.Forall₂ same outputs outputs := by
  induction pairs with
  | nil => exact .nil
  | cons first rest inductionHypothesis => exact .cons (step _ _ first) inductionHypothesis

section Merged

variable {objects : List ObjectShape} {whole merged : Object} {output : ObjectShape → Object}

/-- Under a declared name the merged output holds what the declaring object has put there. -/
theorem find?_merged_of_apart (apart : objects.Pairwise ObjectShape.Apart)
    (prunes : ∀ object ∈ objects, Prunes object.fields whole (output object))
    (combines : combine ((objects.map output).map .object) = some (.object merged))
    {object : ObjectShape} (member : object ∈ objects) {field : Field Shape}
    (listed : field ∈ object.fields) :
    merged.find? field.name = (output object).find? field.name := by
  have ascending : ∀ object ∈ objects.map output, Entries.Ascending object :=
    List.forall_mem_map.mpr fun object member => (prunes object member).ascending
  apply find?_merged_of_agree ascending combines (List.mem_map_of_mem member)
  intro source given
  obtain ⟨other, otherMember, rfl⟩ := List.mem_map.mp given
  by_cases same : other = object
  · subst same
    exact .inr rfl
  · -- no other object declares the field, so none of them gives an entry for it
    have apart : other.Apart object := apart.forall otherMember member same
    left
    apply (prunes other otherMember).find?_eq_none
    intro declared
    exact apart declared (List.mem_map_of_mem listed)

/-- A scalar of the merged output was in the object before. -/
theorem find?_of_merged_of_isScalar
    (regular : ∀ object ∈ objects, ∀ field ∈ object.fields, Regular field.shape)
    (prunes : ∀ object ∈ objects, Prunes object.fields whole (output object))
    (combines : combine ((objects.map output).map .object) = some (.object merged))
    {key : String} {value : Value} (found : merged.find? key = some value)
    (scalar : value.IsScalar) : whole.find? key = some value := by
  have ascending : ∀ object ∈ objects.map output, Entries.Ascending object :=
    List.forall_mem_map.mpr fun object member => (prunes object member).ascending
  rw [find?_merged ascending combines] at found
  obtain ⟨source, listed, present⟩ := List.exists_of_findSome?_eq_some found
  obtain ⟨other, otherMember, rfl⟩ := List.mem_map.mp (List.mem_reverse.mp listed)
  exact (prunes other otherMember).find?_of_isScalar (regular other otherMember) present scalar

end Merged

/-- What regular shapes accept they give back unchanged when they see it again. -/
theorem Regular.prune?_again {shape : Shape} (regular : Regular shape) {input : Option Value}
    {pruned : Value} (accepted : shape.prune? input = some pruned) :
    shape.prune? (some pruned) = some pruned := by
  induction regular generalizing input pruned with
  | leaf leaf => exact leaf.prune?_again accepted
  | union leaves => exact prune?_union_again leaves accepted
  | arrayOf regular inductionHypothesis =>
      obtain ⟨items, outputs, -, given, rfl⟩ := prune?_arrayOf_eq_some_iff.mp accepted
      refine prune?_arrayOf_eq_some_iff.mpr ⟨outputs, outputs, rfl, ?_, rfl⟩
      exact forall₂_same_of_forall₂ given fun item output => inductionHypothesis
  | mapOf regular inductionHypothesis =>
      obtain ⟨entries, outputs, -, given, rfl⟩ := prune?_mapOf_eq_some_iff.mp accepted
      refine prune?_mapOf_eq_some_iff.mpr ⟨outputs, outputs, rfl, ?_, rfl⟩
      exact forall₂_same_of_forall₂ given fun entry output accepts =>
        ⟨inductionHypothesis accepts.1, rfl⟩
  | @nullable inner regular inductionHypothesis =>
      apply prune?_nullable_eq_some_iff.mpr
      rcases prune?_nullable_eq_some_iff.mp accepted with accepts | ⟨refused, absent, rfl⟩
      · exact .inl (inductionHypothesis accepts)
      · cases again : inner.prune? (some .null) with
        | none => exact .inr ⟨rfl, .inr rfl, rfl⟩
        | some output => exact .inl (congrArg some (regular.eq_of_isScalar again (.inl trivial)))
  | object object regular conditions inductionHypothesis =>
      apply (prune?_object_eq_some_iff object.distinct).mpr
      obtain ⟨whole, output, -, prunes, rfl⟩ :=
        (prune?_object_eq_some_iff object.distinct).mp accepted
      refine ⟨output, output, rfl, ?_, rfl⟩
      apply prunes.again conditions
      · exact fun field member input output accepts => inductionHypothesis field member accepts
      · exact fun field member => rfl
      · exact fun key value found scalar => prunes.find?_of_isScalar regular found scalar
  | intersection objects nonempty apart regular conditions inductionHypothesis =>
      apply (prune?_intersection_objects_eq_some_iff nonempty).mpr
      obtain ⟨whole, merged, output, -, prunes, combines, rfl⟩ :=
        (prune?_intersection_objects_eq_some_iff nonempty).mp accepted
      refine ⟨merged, merged, output, rfl, ?_, combines, rfl⟩
      intro object member
      apply (prunes object member).again (conditions object member)
      · exact fun field listed input output accepts =>
          inductionHypothesis object member field listed accepts
      · exact fun field listed => find?_merged_of_apart apart prunes combines member listed
      · exact fun key value found scalar =>
          find?_of_merged_of_isScalar regular prunes combines found scalar

end Shape

end Tenancy
