import Mathlib.Data.List.Forall2
import Tenancy.Contract.Catalogue
import Tenancy.Proofs.Shape.Pruning

/-!
# Undeclared entries

What a shape does not declare has no influence on its verdict. `Shape.Alike` relates inputs that
differ in such entries only, at any depth: inside items, entries, fields and branches. Inputs that
are alike pass with the same output, or are refused for the same reason at the same place
(`Shape.validate_eq_of_alike`).
-/

namespace Tenancy

open Json

namespace Shape

mutual

/-- Two inputs do not differ in anything that a shape looks at. -/
def Alike (shape : Shape) (left right : Option Value) : Prop :=
  match shape with
  | .kind _ | .literal _ | .oneOf _ | .enumeration _ _ _ => left = right
  | .arrayOf element => left = right ∨ ∃ items others,
      left = some (.array items) ∧ right = some (.array others) ∧
        List.Forall₂ (fun item other => element.Alike (some item) (some other)) items others
  | .mapOf value => left = right ∨ ∃ entries others,
      left = some (.object entries) ∧ right = some (.object others) ∧
        List.Forall₂ (fun entry other =>
          entry.1 = other.1 ∧ value.Alike (some entry.2) (some other.2)) entries others
  | .union _ branches => AlikeUnder branches left right
  | .intersection [] => left = right
  | .intersection branches => AlikeUnder branches left right
  | .object fields => left = right ∨ ∃ whole other,
      left = some (.object whole) ∧ right = some (.object other) ∧ AlikeFields fields whole other

def AlikeUnder (branches : List Shape) (left right : Option Value) : Prop :=
  match branches with
  | [] => True
  | branch :: rest => branch.Alike left right ∧ AlikeUnder rest left right

/-- Every declared field is absent from both objects and as much required by one as by the other,
or present in both and alike. Where a field is present, its condition may differ. -/
def AlikeFields (fields : List (Field Shape)) (whole other : Object) : Prop :=
  match fields with
  | [] => True
  | field :: rest =>
      (match whole.find? field.name, other.find? field.name with
        | none, none => field.requiredness.holds none whole = field.requiredness.holds none other
        | some value, some another => field.shape.Alike (some value) (some another)
        | _, _ => False) ∧ AlikeFields rest whole other

end

theorem alikeUnder_iff {branches : List Shape} {left right : Option Value} :
    AlikeUnder branches left right ↔ ∀ branch ∈ branches, branch.Alike left right := by
  induction branches with
  | nil => simp [AlikeUnder]
  | cons branch rest inductionHypothesis =>
      rw [AlikeUnder, List.forall_mem_cons, inductionHypothesis]

theorem alike_refl (shape : Shape) (input : Option Value) : shape.Alike input input := by
  induction shape generalizing input with
  | kind | literal | oneOf | enumeration => rfl
  | arrayOf | mapOf | object => exact .inl rfl
  | union verbose branches inductionHypothesis =>
      exact alikeUnder_iff.mpr fun branch member => inductionHypothesis branch member input
  | intersection branches inductionHypothesis =>
      cases branches with
      | nil => rfl
      | cons branch rest =>
          exact alikeUnder_iff.mpr fun branch member => inductionHypothesis branch member input

/-- An undeclared entry may be there or not, unless a condition asks for it. -/
theorem alike_insert {fields : List (Field Shape)} {whole : Object} (name : String)
    (value : Value) (undeclared : name ∉ fields.map Field.name)
    (unasked : ∀ field ∈ fields, field.requiredness.holds none whole =
      field.requiredness.holds none (Entries.insert name value whole)) :
    (object fields).Alike (some (.object whole))
      (some (.object (Entries.insert name value whole))) := by
  refine .inr ⟨whole, _, rfl, rfl, ?_⟩
  induction fields with
  | nil => trivial
  | cons field rest inductionHypothesis =>
      obtain ⟨different, undeclared⟩ := List.ne_and_not_mem_of_not_mem_cons undeclared
      obtain ⟨first, later⟩ := List.forall_mem_cons.mp unasked
      refine ⟨?_, inductionHypothesis undeclared later⟩
      rw [Entries.find?_insert, if_neg different]
      cases whole.find? field.name with
      | none => exact first
      | some present => exact alike_refl field.shape (some present)

/-! ### Equal verdicts of parts -/

theorem validateItems_congr {check : Value → Path → Verdict} {items others : List Value}
    (same : List.Forall₂ (fun item other => ∀ place, check item place = check other place)
      items others) (path : Path) (position : Nat) :
    validateItems check path position items = validateItems check path position others := by
  induction same generalizing position with
  | nil => rfl
  | cons first rest inductionHypothesis =>
      rw [validateItems, validateItems, first, inductionHypothesis]

theorem validateEntries_congr {check : Value → Path → Verdict} {entries others : Object}
    (same : List.Forall₂ (fun entry other =>
      entry.1 = other.1 ∧ ∀ place, check entry.2 place = check other.2 place) entries others)
    (path : Path) : validateEntries check path entries = validateEntries check path others := by
  induction same with
  | nil => rfl
  | @cons entry other _ _ first rest inductionHypothesis =>
      obtain ⟨key, value⟩ := entry
      obtain ⟨_, another⟩ := other
      obtain ⟨rfl, sameValue⟩ := first
      rw [validateEntries, validateEntries, sameValue, inductionHypothesis]

theorem validateAny_congr {branches : List Shape} {left right : Option Value} {path : Path}
    (same : ∀ branch ∈ branches, branch.validate left path = branch.validate right path) :
    validateAny branches left path = validateAny branches right path := by
  induction branches with
  | nil => rfl
  | cons branch rest inductionHypothesis =>
      obtain ⟨first, later⟩ := List.forall_mem_cons.mp same
      rw [validateAny, validateAny, first, inductionHypothesis later]

theorem validateAll_congr {branches : List Shape} {left right : Option Value} {path : Path}
    (same : ∀ branch ∈ branches, branch.validate left path = branch.validate right path) :
    validateAll branches left path = validateAll branches right path := by
  induction branches with
  | nil => rfl
  | cons branch rest inductionHypothesis =>
      obtain ⟨first, later⟩ := List.forall_mem_cons.mp same
      rw [validateAll, validateAll, first, inductionHypothesis later]

theorem validateFields_congr {fields : List (Field Shape)} {whole other : Object} {path : Path}
    (alike : AlikeFields fields whole other)
    (same : ∀ field ∈ fields, ∀ left right, field.shape.Alike left right → ∀ place,
      field.shape.validate left place = field.shape.validate right place) :
    validateFields fields whole path = validateFields fields other path := by
  induction fields with
  | nil => rfl
  | cons field rest inductionHypothesis =>
      obtain ⟨sameFirst, sameLater⟩ := List.forall_mem_cons.mp same
      rw [AlikeFields] at alike
      obtain ⟨first, later⟩ := alike
      rw [validateFields, validateFields, inductionHypothesis later sameLater]
      cases found : whole.find? field.name with
      | none =>
          cases beside : other.find? field.name with
          | none =>
              rw [found, beside] at first
              simp only [first]
          | some another =>
              rw [found, beside] at first
              exact first.elim
      | some value =>
          cases beside : other.find? field.name with
          | none =>
              rw [found, beside] at first
              exact first.elim
          | some another =>
              rw [found, beside] at first
              simp only [sameFirst _ _ first]

/-- Unless it has no branches, an intersection has no use for its input but to hand it on. -/
theorem validate_intersection_cons (branch : Shape) (rest : List Shape) (input : Option Value)
    (path : Path) : (intersection (branch :: rest)).validate input path =
      (validateAll (branch :: rest) input path).map fun outputs =>
        (combine outputs).getD .null := by
  rw [validate]
  cases given : validateAll (branch :: rest) input path with
  | error refusal => rfl
  | ok outputs =>
      rw [validateAll] at given
      obtain ⟨output, -, given⟩ := Outcome.bind_eq_ok_iff.mp given
      obtain ⟨others, -, rfl⟩ := Outcome.map_eq_ok_iff.mp given
      obtain ⟨earlier, last, split⟩ :=
        (List.eq_nil_or_concat' (output :: others)).resolve_left (List.cons_ne_nil _ _)
      rw [split]
      simp only [Except.map, combine_append_singleton, Option.getD_some]

/-- Inputs that are alike have the same verdict. -/
theorem validate_eq_of_alike {shape : Shape} {left right : Option Value}
    (alike : shape.Alike left right) (path : Path) :
    shape.validate left path = shape.validate right path := by
  induction shape generalizing left right path with
  | kind expected | literal expected | oneOf members | enumeration name variants ignoresCase =>
      rw [Alike] at alike
      rw [alike]
  | arrayOf element inductionHypothesis =>
      rw [Alike] at alike
      obtain rfl | ⟨items, others, rfl, rfl, related⟩ := alike
      · rfl
      · rw [validate, validate, validateItems_congr]
        exact related.imp fun item other alike place => inductionHypothesis alike place
  | mapOf value inductionHypothesis =>
      rw [Alike] at alike
      obtain rfl | ⟨entries, others, rfl, rfl, related⟩ := alike
      · rfl
      · rw [validate, validate, validateEntries_congr]
        exact related.imp fun entry other alike =>
          ⟨alike.1, fun place => inductionHypothesis alike.2 place⟩
  | union verbose branches inductionHypothesis =>
      rw [Alike, alikeUnder_iff] at alike
      rw [validate, validate, validateAny_congr fun branch member =>
        inductionHypothesis branch member (alike branch member) path]
  | intersection branches inductionHypothesis =>
      cases branches with
      | nil =>
          rw [Alike] at alike
          rw [alike]
      | cons branch rest =>
          rw [Alike, alikeUnder_iff] at alike
          rw [validate_intersection_cons, validate_intersection_cons,
            validateAll_congr fun branch member =>
              inductionHypothesis branch member (alike branch member) path]
          simp
  | object fields inductionHypothesis =>
      rw [Alike] at alike
      obtain rfl | ⟨whole, other, rfl, rfl, related⟩ := alike
      · rfl
      · rw [validate, validate, validateFields_congr related]
        intro field member left right alike place
        exact inductionHypothesis field member alike place

/-- A page with an invitation whose address is no text. -/
def mistaken : Value :=
  .object [("items", .array [.object [("email", .bool true)]]), ("total", .ofNat 1)]

/-- The same page with undeclared entries, around the invitation and in it. -/
def mistakenAtLength : Value :=
  .object [("debug", .null),
    ("items", .array [.object [("admin", .bool true), ("email", .bool true)]]), ("total", .ofNat 1)]

theorem validate_eq_of_alike_mistaken :
    (Catalogue.page Catalogue.inviteMember.toShape).toShape.Alike (some mistaken)
        (some mistakenAtLength) ∧
      (Catalogue.page Catalogue.inviteMember.toShape).toShape.validate (some mistakenAtLength)
          .root = .error (.of ((Path.root.key "items").index 0 |>.key "email") .stringExpected) ∧
      (Catalogue.page Catalogue.inviteMember.toShape).toShape.validate (some mistaken) .root =
        (Catalogue.page Catalogue.inviteMember.toShape).toShape.validate (some mistakenAtLength)
          .root := by
  have invitation : Catalogue.inviteMember.toShape.Alike (some (.object [("email", .bool true)]))
      (some (.object [("admin", .bool true), ("email", .bool true)])) :=
    alike_insert "admin" (.bool true) (by decide) (by decide)
  have alike : (Catalogue.page Catalogue.inviteMember.toShape).toShape.Alike (some mistaken)
      (some mistakenAtLength) := by
    refine .inr ⟨_, _, rfl, rfl, ?_, ?_, ?_, trivial⟩
    · exact .inr ⟨_, _, rfl, rfl, .cons invitation .nil⟩
    · exact alike_refl .number (some (.ofNat 1))
    · rfl
  exact ⟨alike, rfl, validate_eq_of_alike alike .root⟩

end Shape

end Tenancy
