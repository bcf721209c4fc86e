import Mathlib.Data.List.Induction
import Mathlib.Data.List.Nodup
import Mathlib.Order.Bounds.Basic
import Tenancy.Shape.Declaration

/-!
# Declared object shapes

A declaration collects fields step by step (`ObjectShape.Collects`). It makes an object shape
exactly when it collects no name twice, and then the shape lists what was collected and finds each
field under its name, with the shape and the requiredness it was declared with
(`ObjectShape.field?_of_call`). Otherwise the declaration is refused with the first name that
repeats an earlier one, which need not be the first name that is repeated (`ObjectShape.Declares`).
-/

namespace Tenancy

/-! ### Repeated names -/

/-- The name at a position stands at an earlier one too. -/
def Repeats (names : List String) (position : Nat) : Prop :=
  ∃ name, names[position]? = some name ∧ ∃ earlier < position, names[earlier]? = some name

section Names

variable {seen names : List String} {name : String}

theorem not_repeats_of_nodup (distinct : names.Nodup) (position : Nat) :
    ¬Repeats names position := by
  rintro ⟨name, found, earlier, before, present⟩
  have within : earlier < names.length := (List.getElem?_eq_some_iff.mp present).1
  have same := (List.getElem?_inj within distinct).mp (present.trans found.symm)
  exact absurd same (Nat.ne_of_lt before)

/-- Before the first repeated name all names are distinct and new. -/
theorem exists_append_of_firstRepeated? (found : firstRepeated? seen names = some name) :
    ∃ before after, names = before ++ name :: after ∧ (name ∈ seen ∨ name ∈ before) ∧
      firstRepeated? seen before = none := by
  induction names generalizing seen with
  | nil => cases found
  | cons first rest inductionHypothesis =>
      rw [firstRepeated?] at found
      by_cases repeated : first ∈ seen
      · rw [if_pos repeated] at found
        obtain rfl := Option.some.inj found
        exact ⟨[], rest, rfl, .inl repeated, rfl⟩
      · rw [if_neg repeated] at found
        obtain ⟨before, after, rfl, known, distinct⟩ := inductionHypothesis found
        refine ⟨first :: before, after, rfl, ?_, ?_⟩
        · rcases known with known | known
          · rcases List.mem_cons.mp known with rfl | known
            · exact .inr List.mem_cons_self
            · exact .inl known
          · exact .inr (List.mem_cons_of_mem _ known)
        · rw [firstRepeated?, if_neg repeated, distinct]

theorem isLeast_of_firstRepeated? (found : firstRepeated? [] names = some name) :
    ∃ position, IsLeast {place | Repeats names place} position ∧
      names[position]? = some name := by
  obtain ⟨before, after, rfl, known, distinct⟩ := exists_append_of_firstRepeated? found
  have here : (before ++ name :: after)[before.length]? = some name := by simp
  obtain ⟨earlier, present⟩ := List.getElem?_of_mem (known.resolve_left List.not_mem_nil)
  obtain ⟨within, -⟩ := List.getElem?_eq_some_iff.mp present
  refine ⟨before.length, ⟨⟨name, here, earlier, within, ?_⟩, fun place repeats => ?_⟩, here⟩
  · rwa [List.getElem?_append_left within]
  · by_contra less
    have less := Nat.lt_of_not_le less
    obtain ⟨other, again, first, lower, once⟩ := repeats
    rw [List.getElem?_append_left less] at again
    rw [List.getElem?_append_left (lower.trans less)] at once
    exact not_repeats_of_nodup (firstRepeated?_eq_none_iff.mp distinct).1 place
      ⟨other, again, first, lower, once⟩

theorem firstRepeated?_eq_some_iff : firstRepeated? [] names = some name ↔
    ∃ position, IsLeast {place | Repeats names place} position ∧ names[position]? = some name := by
  refine ⟨isLeast_of_firstRepeated?, ?_⟩
  rintro ⟨position, least, here⟩
  cases first : firstRepeated? [] names with
  | none =>
      have distinct := (firstRepeated?_eq_none_iff.mp first).1
      exact absurd least.1 (not_repeats_of_nodup distinct position)
  | some other =>
      obtain ⟨place, leastToo, there⟩ := isLeast_of_firstRepeated? first
      obtain rfl := least.unique leastToo
      exact there.symm.trans here

end Names

namespace ObjectShape

/-! ### What is collected -/

/-- What the steps of a declaration collect: a field where it is declared, and the fields of another
shape, in their order, where it is extended. -/
inductive Collects : List Declaration → List (Field Shape) → Prop where
  | start : Collects [] []
  | field {steps : List Declaration} {fields : List (Field Shape)} (field : Field Shape) :
      Collects steps fields → Collects (steps ++ [.field field]) (fields ++ [field])
  | extend {steps : List Declaration} {fields : List (Field Shape)} (other : ObjectShape) :
      Collects steps fields → Collects (steps ++ [.extend other]) (fields ++ other.fields)

theorem collect_append (steps more : List Declaration) :
    collect (steps ++ more) = collect steps ++ collect more :=
  List.flatMap_append

theorem collect_field (field : Field Shape) : collect [.field field] = [field] := rfl

theorem collect_extend (other : ObjectShape) : collect [.extend other] = other.fields :=
  List.append_nil other.fields

theorem collects_iff {declarations : List Declaration} {fields : List (Field Shape)} :
    Collects declarations fields ↔ fields = collect declarations := by
  constructor
  · intro collects
    induction collects with
    | start => rfl
    | field field _ inductionHypothesis =>
        rw [collect_append, collect_field, inductionHypothesis]
    | extend other _ inductionHypothesis =>
        rw [collect_append, collect_extend, inductionHypothesis]
  · rintro rfl
    induction declarations using List.reverseRecOn with
    | nil => exact .start
    | append_singleton steps last inductionHypothesis =>
        rw [collect_append]
        cases last with
        | field field => exact .field field inductionHypothesis
        | extend other =>
            rw [collect_extend]
            exact .extend other inductionHypothesis

/-! ### What is declared -/

theorem ofFields_eq_ok_iff {fields : List (Field Shape)} {object : ObjectShape} :
    ofFields fields = .ok object ↔ object.fields = fields := by
  constructor
  · intro accepted
    unfold ofFields at accepted
    split at accepted
    · cases accepted
    · rw [← Except.ok.inj accepted]
  · rintro rfl
    unfold ofFields
    split
    · next name repeated =>
        have unrepeated : firstRepeated? [] (object.fields.map Field.name) = none :=
          firstRepeated?_eq_none_iff.mpr ⟨object.distinct, fun _ _ => List.not_mem_nil⟩
        cases repeated.symm.trans unrepeated
    · rfl

theorem ofFields_eq_error_iff {fields : List (Field Shape)} {error : DeclarationError} :
    ofFields fields = .error error ↔ ∃ name,
      firstRepeated? [] (fields.map Field.name) = some name ∧ error = .duplicateField name := by
  unfold ofFields
  split
  · next name repeated => simp [repeated, eq_comm]
  · next unrepeated => simp [unrepeated]

theorem exists_ofFields_eq_ok_iff {fields : List (Field Shape)} :
    (∃ object, ofFields fields = .ok object) ↔ (fields.map Field.name).Nodup := by
  simp only [ofFields_eq_ok_iff]
  constructor
  · rintro ⟨object, rfl⟩
    exact object.distinct
  · exact fun distinct => ⟨⟨fields, distinct⟩, rfl⟩

theorem field?_eq_some_iff (object : ObjectShape) {name : String} {field : Field Shape} :
    object.field? name = some field ↔ field ∈ object.fields ∧ field.name = name := by
  constructor
  · intro found
    have named := List.find?_some found
    exact ⟨List.mem_of_find?_eq_some found, beq_iff_eq.mp named⟩
  · rintro ⟨listed, rfl⟩
    cases found : object.field? field.name with
    | none => exact absurd (beq_self_eq_true field.name) (List.find?_eq_none.mp found field listed)
    | some other =>
        have named := List.find?_some found
        have unique := List.inj_on_of_nodup_map object.distinct
        rw [unique (List.mem_of_find?_eq_some found) listed (beq_iff_eq.mp named)]

theorem field?_eq_none_iff (object : ObjectShape) {name : String} :
    object.field? name = none ↔ ∀ field ∈ object.fields, field.name ≠ name := by
  simp [field?]

/-- A field that is declared is found as it was declared. -/
theorem field?_of_field {declarations : List Declaration} {object : ObjectShape}
    (declared : declare declarations = .ok object) {field : Field Shape}
    (step : .field field ∈ declarations) : object.field? field.name = some field := by
  rw [field?_eq_some_iff, ofFields_eq_ok_iff.mp declared]
  exact ⟨List.mem_flatMap.mpr ⟨_, step, List.mem_singleton_self field⟩, rfl⟩

/-- A field of a shape that is extended is found as it is found there. -/
theorem field?_of_extend {declarations : List Declaration} {object other : ObjectShape}
    (declared : declare declarations = .ok object) (step : .extend other ∈ declarations)
    {name : String} {field : Field Shape} (found : other.field? name = some field) :
    object.field? name = some field := by
  obtain ⟨listed, rfl⟩ := (field?_eq_some_iff other).mp found
  rw [field?_eq_some_iff, ofFields_eq_ok_iff.mp declared]
  exact ⟨List.mem_flatMap.mpr ⟨_, step, listed⟩, rfl⟩

/-- The three ways to declare a field give it the shape they are handed, and have it required
always, never, or where the condition holds. -/
theorem field?_of_call {declarations : List Declaration} {object : ObjectShape}
    (declared : declare declarations = .ok object) (name : String) (shape : Shape) :
    (.field (.required name shape) ∈ declarations →
      object.field? name = some ⟨name, shape, .required⟩) ∧
    (.field (.optional name shape) ∈ declarations →
      object.field? name = some ⟨name, shape, .optional⟩) ∧
    ∀ condition, .field (.requiredIf name shape condition) ∈ declarations →
      object.field? name = some ⟨name, shape, .requiredIf condition⟩ :=
  ⟨field?_of_field declared, field?_of_field declared, fun _ => field?_of_field declared⟩

/-- What comes of a declaration that collects the given fields. -/
structure Declares (declarations : List Declaration) (fields : List (Field Shape)) : Prop where
  accepts : (∃ object, declare declarations = .ok object) ↔ (fields.map Field.name).Nodup
  lists : ∀ object, declare declarations = .ok object →
    object.fields = fields ∧ object.size = fields.length
  finds : ∀ object, declare declarations = .ok object → ∀ name field,
    object.field? name = some field ↔ field ∈ fields ∧ field.name = name
  misses : ∀ object, declare declarations = .ok object → ∀ name,
    object.field? name = none ↔ ∀ field ∈ fields, field.name ≠ name
  /-- The name at the least position that repeats an earlier one is reported. -/
  refuses : ∀ error, declare declarations = .error error ↔ ∃ position name,
    IsLeast {place | Repeats (fields.map Field.name) place} position ∧
      (fields.map Field.name)[position]? = some name ∧ error = .duplicateField name

theorem declares_collect (declarations : List Declaration) :
    Declares declarations (collect declarations) where
  accepts := exists_ofFields_eq_ok_iff
  lists object declared := by
    have same := ofFields_eq_ok_iff.mp declared
    exact ⟨same, congrArg List.length same⟩
  finds object declared name field := by
    rw [field?_eq_some_iff, ofFields_eq_ok_iff.mp declared]
  misses object declared name := by
    rw [field?_eq_none_iff, ofFields_eq_ok_iff.mp declared]
  refuses error := by
    simp only [declare, ofFields_eq_error_iff, firstRepeated?_eq_some_iff]
    constructor
    · rintro ⟨name, ⟨position, least, here⟩, rfl⟩
      exact ⟨position, name, least, here, rfl⟩
    · rintro ⟨position, name, least, here, rfl⟩
      exact ⟨name, ⟨position, least, here⟩, rfl⟩

/-- A declaration collects one list of fields, and what comes of it follows from that list. -/
theorem collects_and_declares (declarations : List Declaration) :
    ∃ fields, (∀ other, Collects declarations other ↔ other = fields) ∧
      Declares declarations fields :=
  ⟨collect declarations, fun _ => collects_iff, declares_collect declarations⟩

/-- Of the names repeated here the second one is repeated first. -/
theorem declares_badges :
    let kind : Field Shape := .required "kind" .string
    let named : ObjectShape := ⟨[.required "id" .string, .optional "name" .string], by decide⟩
    let note : Field Shape :=
      .requiredIf "note" .string (siblingEquals "kind" (.string "guest"))
    let badge : List Declaration := [.field kind, .extend named, .field note]
    (∃ object, declare badge = .ok object ∧ object.size = 4 ∧
      object.fields = kind :: named.fields ++ [note] ∧ object.field? "note" = some note ∧
      object.field? "label" = none) ∧
    declare (badge ++ [.field (.optional "name" .null), .field (.optional "id" .null)]) =
      .error (.duplicateField "name") := by
  intro kind named note badge
  have collected : Collects badge (kind :: named.fields ++ [note]) :=
    ((Collects.start.field kind).extend named).field note
  constructor
  · obtain ⟨fields, collects, declares⟩ := collects_and_declares badge
    obtain rfl := (collects _).mp collected
    obtain ⟨object, declared⟩ := declares.accepts.mpr (by decide)
    obtain ⟨lists, size⟩ := declares.lists object declared
    refine ⟨object, declared, size, lists, ?_, ?_⟩
    · exact (declares.finds object declared "note" note).mpr ⟨by simp, rfl⟩
    · exact (declares.misses object declared "label").mpr (by decide)
  · obtain ⟨fields, collects, declares⟩ := collects_and_declares
      (badge ++ [.field (.optional "name" .null), .field (.optional "id" .null)])
    obtain rfl := (collects _).mp
      ((collected.field (.optional "name" .null)).field (.optional "id" .null))
    refine (declares.refuses _).mpr ⟨4, "name", ⟨⟨"name", rfl, 2, by decide, rfl⟩, ?_⟩, rfl, rfl⟩
    rintro place ⟨name, here, earlier, before, there⟩
    by_contra less
    have less := Nat.lt_of_not_le less
    have distinct : ["kind", "id", "name", "note"].Nodup := by decide
    apply not_repeats_of_nodup distinct place
    refine ⟨name, ?_, earlier, before, ?_⟩
    · exact (List.getElem?_take_of_lt less).trans here
    · exact (List.getElem?_take_of_lt (before.trans less)).trans there

end ObjectShape

end Tenancy
