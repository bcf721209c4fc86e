import Mathlib.Data.List.Forall2
import Tenancy.Contract.Catalogue
import Tenancy.Proofs.Json.Place
import Tenancy.Proofs.Shape.Idempotence

/-!
# Pruning only removes

What a shape accepts it gives back as a projection of the input (`Json.Value.Projects`): scalars as
they are, arrays item by item, objects without some of their entries. The one thing that may change
is the case of a text, where a case-insensitive enumeration of the shape stands for the values at
that place (`Shape.Spells`) and has put in its own spelling. So the output holds nothing that the
input does not hold at the same place (`Shape.projects_of_validate_eq_ok`).
-/

namespace Tenancy

open Json

namespace Json.Value

mutual

/-- A value is left of another one when entries of objects are dropped and texts are spelled as
`spells` allows at their places. -/
def Projects (spells : List Segment → String → Prop) (value pruned : Value) : Prop :=
  match pruned with
  | .null => value = .null
  | .bool flag => value = .bool flag
  | .number given => value = .number given
  | .string spelling => ∃ text, value = .string text ∧
      (spelling = text ∨ Text.sameIgnoringCase spelling text = true ∧ spells [] spelling)
  | .array outputs => ∃ items, value = .array items ∧ ProjectsItems spells 0 items outputs
  | .object outputs => ∃ whole, value = .object whole ∧ ProjectsEntries spells whole outputs

/-- Of as many items each is left of the one at its position. -/
def ProjectsItems (spells : List Segment → String → Prop) (position : Nat)
    (items outputs : List Value) : Prop :=
  match items, outputs with
  | [], [] => True
  | item :: rest, output :: others =>
      Projects (fun place => spells (.index position :: place)) item output ∧
        ProjectsItems spells (position + 1) rest others
  | _, _ => False

/-- Each of the entries is left of one under its key. -/
def ProjectsEntries (spells : List Segment → String → Prop) (whole outputs : Object) : Prop :=
  match outputs with
  | [] => True
  | (key, output) :: others =>
      (∃ value, (key, value) ∈ whole ∧
        Projects (fun place => spells (.key key :: place)) value output) ∧
        ProjectsEntries spells whole others

end

variable {spells others : List Segment → String → Prop} {value pruned : Value}

theorem projectsItems_iff {position : Nat}
    {items outputs : List Value} : ProjectsItems spells position items outputs ↔
      items.length = outputs.length ∧ ∀ index item output, items[index]? = some item →
        outputs[index]? = some output →
          Projects (fun place => spells (.index (position + index) :: place)) item output := by
  induction items generalizing position outputs with
  | nil => cases outputs <;> simp [ProjectsItems]
  | cons item rest inductionHypothesis =>
      cases outputs with
      | nil => simp [ProjectsItems]
      | cons output others =>
          rw [ProjectsItems, inductionHypothesis]
          constructor
          · rintro ⟨first, sameLength, later⟩
            refine ⟨congrArg Nat.succ sameLength, ?_⟩
            rintro (_ | index) item output found given
            · cases found
              cases given
              exact first
            · have := later index item output found given
              rwa [Nat.add_right_comm] at this
          · rintro ⟨sameLength, all⟩
            refine ⟨all 0 item output rfl rfl, Nat.succ.inj sameLength, ?_⟩
            intro index item output found given
            have := all (index + 1) item output found given
            rwa [← Nat.add_assoc, Nat.add_right_comm] at this

theorem projectsEntries_iff {whole outputs : Object} :
    ProjectsEntries spells whole outputs ↔ ∀ entry ∈ outputs, ∃ value, (entry.1, value) ∈ whole ∧
      Projects (fun place => spells (.key entry.1 :: place)) value entry.2 := by
  induction outputs with
  | nil => simp [ProjectsEntries]
  | cons entry others inductionHypothesis =>
      rw [ProjectsEntries, List.forall_mem_cons, inductionHypothesis]

theorem projects_array_iff {outputs : List Value} : Projects spells value (.array outputs) ↔
    ∃ items, value = .array items ∧ items.length = outputs.length ∧
      ∀ index item output, items[index]? = some item → outputs[index]? = some output →
        Projects (fun place => spells (.index index :: place)) item output := by
  simp only [Projects, projectsItems_iff, Nat.zero_add]

theorem projects_object_iff {outputs : Object} : Projects spells value (.object outputs) ↔
    ∃ whole, value = .object whole ∧ ∀ entry ∈ outputs, ∃ value, (entry.1, value) ∈ whole ∧
      Projects (fun place => spells (.key entry.1 :: place)) value entry.2 := by
  simp only [Projects, projectsEntries_iff]

theorem Projects.refl (spells : List Segment → String → Prop) (value : Value) :
    Projects spells value value := by
  induction value generalizing spells with
  | null | bool | number => rfl
  | string text => exact ⟨text, rfl, .inl rfl⟩
  | array items inductionHypothesis =>
      refine projects_array_iff.mpr ⟨items, rfl, rfl, ?_⟩
      intro index item output found given
      obtain rfl := Option.some.inj (found.symm.trans given)
      exact inductionHypothesis item (List.mem_of_getElem? found) _
  | object entries inductionHypothesis =>
      refine projects_object_iff.mpr ⟨entries, rfl, ?_⟩
      intro entry member
      exact ⟨entry.2, member, inductionHypothesis entry member _⟩

/-- Allowing more spellings leaves a projection one. -/
theorem Projects.mono (projects : Projects spells value pruned)
    (allowed : ∀ place spelling, spells place spelling → others place spelling) :
    Projects others value pruned := by
  induction pruned generalizing spells others value with
  | null | bool | number => exact projects
  | string spelling =>
      obtain ⟨text, isText, spelled⟩ := projects
      exact ⟨text, isText, spelled.imp_right (And.imp_right (allowed [] spelling))⟩
  | array outputs inductionHypothesis =>
      obtain ⟨items, isArray, sameLength, all⟩ := projects_array_iff.mp projects
      refine projects_array_iff.mpr ⟨items, isArray, sameLength, ?_⟩
      intro index item output found given
      exact inductionHypothesis output (List.mem_of_getElem? given)
        (all index item output found given) fun place => allowed (.index index :: place)
  | object outputs inductionHypothesis =>
      obtain ⟨whole, isObject, all⟩ := projects_object_iff.mp projects
      refine projects_object_iff.mpr ⟨whole, isObject, ?_⟩
      intro entry member
      obtain ⟨origin, listed, projects⟩ := all entry member
      exact ⟨origin, listed, inductionHypothesis entry member projects
        fun place => allowed (.key entry.1 :: place)⟩

/-- What a projection holds at a place is left of what the value holds there. -/
theorem Projects.of_reaches {place : List Segment} {part : Value}
    (projects : Projects spells value pruned) (reaches : pruned.Reaches place (some part)) :
    ∃ original, value.Reaches place (some original) ∧
      Projects (fun rest => spells (place ++ rest)) original part := by
  induction place generalizing spells value pruned with
  | nil =>
      cases reaches with
      | here => exact ⟨value, .here value, projects⟩
  | cons segment place inductionHypothesis =>
      cases reaches with
      | @item outputs position output _ _ given reaches =>
          obtain ⟨items, rfl, sameLength, all⟩ := projects_array_iff.mp projects
          obtain ⟨within, rfl⟩ := List.getElem?_eq_some_iff.mp given
          have found := List.getElem?_eq_getElem (sameLength ▸ within : position < items.length)
          obtain ⟨original, walked, projects⟩ :=
            inductionHypothesis (all position _ _ found given) reaches
          exact ⟨original, .item found walked, projects⟩
      | @entry outputs key output _ _ listed reaches =>
          obtain ⟨whole, rfl, all⟩ := projects_object_iff.mp projects
          obtain ⟨origin, present, projects⟩ := all (key, output) listed
          obtain ⟨original, walked, projects⟩ := inductionHypothesis projects reaches
          exact ⟨original, .entry present walked, projects⟩

/-- Merged projections of an object are a projection of it. -/
theorem Projects.merge {earlier later : Object}
    (ofEarlier : Projects spells value (.object earlier))
    (ofLater : Projects spells value (.object later)) :
    Projects spells value (.object (Entries.merge earlier later)) := by
  obtain ⟨whole, rfl, allEarlier⟩ := projects_object_iff.mp ofEarlier
  obtain ⟨_, ⟨rfl⟩, allLater⟩ := projects_object_iff.mp ofLater
  refine projects_object_iff.mpr ⟨whole, rfl, ?_⟩
  intro entry member
  exact (Entries.mem_or_mem_of_mem_merge member).elim (allEarlier entry) (allLater entry)

/-- Two values show the same when their parts are left out: their kind, a scalar as it is, a text
but for its case, and the count of items. -/
def Resembles : Value → Value → Prop
  | .null, .null => True
  | .bool flag, .bool other => flag = other
  | .number given, .number other => given = other
  | .string text, .string spelling => Text.sameIgnoringCase spelling text = true
  | .array items, .array outputs => items.length = outputs.length
  | .object _, .object _ => True
  | _, _ => False

theorem Projects.resembles (projects : Projects spells value pruned) : value.Resembles pruned := by
  cases pruned with
  | null => cases projects; trivial
  | bool flag => cases projects; rfl
  | number given => cases projects; rfl
  | string spelling =>
      obtain ⟨text, rfl, rfl | ⟨same, -⟩⟩ := projects
      · exact Text.sameIgnoringCase_refl _
      · exact same
  | array outputs =>
      obtain ⟨items, rfl, sameLength, -⟩ := projects_array_iff.mp projects
      exact sameLength
  | object outputs =>
      obtain ⟨whole, rfl, -⟩ := projects_object_iff.mp projects
      trivial

end Json.Value

/-- Whatever outputs and merged objects have in common, a combined output has too. -/
theorem combine_induction {property : Value → Prop}
    (merge : ∀ earlier later : Object, property (.object earlier) → property (.object later) →
      property (.object (Entries.merge earlier later)))
    {outputs : List Value} (held : ∀ output ∈ outputs, property output) {merged : Value}
    (combines : combine outputs = some merged) : property merged := by
  induction outputs using List.reverseRecOn generalizing merged with
  | nil => cases combines
  | append_singleton earlier last inductionHypothesis =>
      have ofLast : property last := held last (by simp)
      have ofEarlier := @inductionHypothesis fun output member => held output (by simp [member])
      rw [combine_append_singleton, Option.some.injEq] at combines
      subst combines
      unfold overlay
      split
      · next combined => exact merge _ _ (ofEarlier combined) ofLast
      · exact ofLast

namespace Shape

/-- The spellings that a shape may put in the stead of texts at a place: those that a
case-insensitive enumeration for the values there declares. -/
inductive Spells : Shape → List Segment → String → Prop where
  | enumeration {name : String} {variants : List Value} {spelling : String} :
      .string spelling ∈ variants → Spells (.enumeration name variants true) [] spelling
  | arrayOf {element : Shape} {position : Nat} {place : List Segment} {spelling : String} :
      Spells element place spelling → Spells (.arrayOf element) (.index position :: place) spelling
  | mapOf {value : Shape} {key : String} {place : List Segment} {spelling : String} :
      Spells value place spelling → Spells (.mapOf value) (.key key :: place) spelling
  | union {verbose : Bool} {branches : List Shape} {branch : Shape} {place : List Segment}
      {spelling : String} : branch ∈ branches → Spells branch place spelling →
      Spells (.union verbose branches) place spelling
  | intersection {branches : List Shape} {branch : Shape} {place : List Segment}
      {spelling : String} : branch ∈ branches → Spells branch place spelling →
      Spells (.intersection branches) place spelling
  | object {fields : List (Field Shape)} {field : Field Shape} {place : List Segment}
      {spelling : String} : field ∈ fields → Spells field.shape place spelling →
      Spells (.object fields) (.key field.name :: place) spelling

/-- Every entry of a pruned object is what a field has made of the entry under its name. -/
theorem exists_field_of_mem_pruneFields {fields : List (Field Shape)} {whole pruned : Object}
    (accepted : pruneFields fields whole = some pruned) :
    ∀ entry ∈ pruned, ∃ field ∈ fields, field.name = entry.1 ∧ ∃ value,
      whole.find? field.name = some value ∧ field.shape.prune? (some value) = some entry.2 := by
  induction fields generalizing pruned with
  | nil =>
      cases accepted
      exact List.forall_mem_nil _
  | cons field rest inductionHypothesis =>
      have ofRest {others : Object} (accepts : pruneFields rest whole = some others) :
          ∀ entry ∈ others, ∃ field' ∈ field :: rest, field'.name = entry.1 ∧ ∃ value,
            whole.find? field'.name = some value ∧
              field'.shape.prune? (some value) = some entry.2 := by
        intro entry member
        obtain ⟨other, listed, made⟩ := inductionHypothesis accepts entry member
        exact ⟨other, List.mem_cons_of_mem _ listed, made⟩
      rw [pruneFields] at accepted
      cases found : Entries.find? whole field.name with
      | none =>
          simp only [found, Option.ite_none_left_eq_some] at accepted
          exact ofRest accepted.2
      | some value =>
          simp only [found, Option.pure_def, Option.bind_eq_bind, Option.bind_eq_some_iff,
            Option.some.injEq] at accepted
          obtain ⟨output, accepts, others, later, rfl⟩ := accepted
          intro entry member
          rcases Entries.eq_or_mem_of_mem_insert member with rfl | member
          · exact ⟨field, List.mem_cons_self, rfl, value, found, accepts⟩
          · exact ofRest later entry member

/-- What a shape accepts it gives back as a projection. -/
theorem projects_of_prune? {shape : Shape} {value pruned : Value}
    (accepted : shape.prune? (some value) = some pruned) :
    Value.Projects shape.Spells value pruned := by
  induction shape generalizing value pruned with
  | kind expected =>
      rw [prune?, Option.ite_none_right_eq_some] at accepted
      exact Option.some.inj accepted.2 ▸ .refl _ _
  | literal expected =>
      rw [prune?, Option.ite_none_right_eq_some] at accepted
      exact Option.some.inj accepted.2 ▸ .refl _ _
  | oneOf members =>
      simp only [prune?, acceptMember?, Bool.false_eq_true, if_false,
        Option.ite_none_right_eq_some, Option.some.injEq] at accepted
      exact accepted.2 ▸ .refl _ _
  | enumeration name variants ignoresCase =>
      rw [prune?] at accepted
      cases ignoresCase with
      | false =>
          simp only [acceptMember?, Bool.false_eq_true, if_false,
            Option.ite_none_right_eq_some, Option.some.injEq] at accepted
          exact accepted.2 ▸ .refl _ _
      | true =>
          rcases acceptMember?_cases accepted with
            ⟨rfl, -⟩ | ⟨text, spelling, rfl, rfl, same, listed⟩
          · exact .refl _ _
          · exact ⟨text, rfl, .inr ⟨same, .enumeration listed⟩⟩
  | arrayOf element inductionHypothesis =>
      obtain ⟨items, outputs, ⟨rfl⟩, given, rfl⟩ := prune?_arrayOf_eq_some_iff.mp accepted
      refine Value.projects_array_iff.mpr ⟨items, rfl, given.length_eq, ?_⟩
      intro index item output found kept
      obtain ⟨_, rfl⟩ := List.getElem?_eq_some_iff.mp found
      obtain ⟨_, rfl⟩ := List.getElem?_eq_some_iff.mp kept
      exact (inductionHypothesis (given.get _ _)).mono fun _ _ spells => .arrayOf spells
  | mapOf value inductionHypothesis =>
      obtain ⟨entries, outputs, ⟨rfl⟩, given, rfl⟩ := prune?_mapOf_eq_some_iff.mp accepted
      refine Value.projects_object_iff.mpr ⟨entries, rfl, ?_⟩
      intro output member
      obtain ⟨entry, listed, accepts, sameKey⟩ := exists_mem_of_forall₂ given member
      exact ⟨entry.2, sameKey ▸ listed, (inductionHypothesis accepts).mono fun _ _ => .mapOf⟩
  | union verbose branches inductionHypothesis =>
      obtain ⟨before, branch, after, rfl, accepts, -⟩ := prune?_union_eq_some_iff.mp accepted
      have member : branch ∈ before ++ branch :: after := by simp
      exact (inductionHypothesis branch member accepts).mono fun _ _ spells =>
        .union member spells
  | intersection branches inductionHypothesis =>
      obtain ⟨outputs, given, combines⟩ := prune?_intersection_eq_some_iff.mp accepted
      cases combined : combine outputs with
      | none =>
          rw [combined] at combines
          exact combines ▸ .refl _ value
      | some merged =>
          obtain rfl : merged = pruned := by simpa [combined] using combines
          refine combine_induction (fun _ _ => Value.Projects.merge) ?_ combined
          intro output member
          obtain ⟨branch, listed, accepts⟩ := exists_mem_of_forall₂ given member
          exact (inductionHypothesis branch listed accepts).mono fun _ _ => .intersection listed
  | object fields inductionHypothesis =>
      cases value with
      | object whole =>
          rw [prune?, Option.map_eq_some_iff] at accepted
          obtain ⟨outputs, accepted, rfl⟩ := accepted
          refine Value.projects_object_iff.mpr ⟨whole, rfl, ?_⟩
          intro entry member
          obtain ⟨field, declared, sameName, origin, found, accepts⟩ :=
            exists_field_of_mem_pruneFields accepted entry member
          refine ⟨origin, sameName ▸ Entries.mem_of_find?_eq_some found, ?_⟩
          exact (inductionHypothesis field declared accepts).mono fun _ _ spells =>
            sameName ▸ .object declared spells
      | null | bool | number | string | array => cases accepted

/-- Where nothing is given, there is nothing to accept but null. -/
theorem eq_null_of_prune?_none {shape : Shape} {pruned : Value}
    (accepted : shape.prune? none = some pruned) : pruned = .null := by
  induction shape generalizing pruned with
  | kind expected => cases expected <;> simp_all [prune?]
  | literal | oneOf | enumeration | arrayOf | mapOf | object => cases accepted
  | union verbose branches inductionHypothesis =>
      obtain ⟨before, branch, after, rfl, accepts, -⟩ := prune?_union_eq_some_iff.mp accepted
      exact inductionHypothesis branch (by simp) accepts
  | intersection branches inductionHypothesis =>
      obtain ⟨outputs, given, combines⟩ := prune?_intersection_eq_some_iff.mp accepted
      cases combined : combine outputs with
      | none => simpa [combined, eq_comm] using combines
      | some merged =>
          obtain rfl : merged = pruned := by simpa [combined] using combines
          have merge : ∀ earlier later : Object, .object earlier = Value.null →
              .object later = Value.null → .object (Entries.merge earlier later) = Value.null := by
            rintro _ _ ⟨⟩
          refine @combine_induction (· = .null) merge _ ?_ _ combined
          intro output member
          obtain ⟨branch, listed, accepts⟩ := exists_mem_of_forall₂ given member
          exact inductionHypothesis branch listed accepts

/-- Validation gives back a projection of what it accepts, which holds nothing that the input does
not hold at the same place, and null for an absent input. -/
theorem projects_of_validate_eq_ok (shape : Shape) (path : Path) (pruned : Value) :
    (∀ value, shape.validate (some value) path = .ok pruned →
      Value.Projects shape.Spells value pruned ∧
        ∀ place part, pruned.Reaches place (some part) →
          ∃ original, value.Reaches place (some original) ∧ original.Resembles part) ∧
    (shape.validate none path = .ok pruned → pruned = .null) := by
  constructor
  · intro value accepted
    rw [validate_eq_ok_iff] at accepted
    have projects := projects_of_prune? accepted
    refine ⟨projects, ?_⟩
    intro place part reaches
    obtain ⟨original, walked, projects⟩ := projects.of_reaches reaches
    exact ⟨original, walked, projects.resembles⟩
  · intro accepted
    rw [validate_eq_ok_iff] at accepted
    exact eq_null_of_prune?_none accepted

/-- A page of invitations, with a role in capitals and an undeclared entry at either level. -/
def invitations : Value :=
  .object [("debug", .null), ("items", .array [.object [("admin", .bool true),
    ("email", .string "a@b"), ("role", .string "OWNER"), ("temporary", .bool false)]]),
    ("total", .ofNat 1)]

def prunedInvitations : Value :=
  .object [("items", .array [.object [("email", .string "a@b"), ("role", .string "owner"),
    ("temporary", .bool false)]]), ("total", .ofNat 1)]

theorem projects_invitations :
    (Catalogue.page Catalogue.inviteMember.toShape).toShape.validate (some invitations) .root =
        .ok prunedInvitations ∧
      Value.Projects (Catalogue.page Catalogue.inviteMember.toShape).toShape.Spells invitations
        prunedInvitations ∧
      (nullable string).validate none .root = .ok .null :=
  ⟨rfl, ((projects_of_validate_eq_ok _ .root _).1 _ rfl).1, rfl⟩

end Shape

end Tenancy
