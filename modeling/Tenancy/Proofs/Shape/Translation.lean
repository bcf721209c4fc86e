import Mathlib.Data.List.Forall2
import Tenancy.Proofs.Outcome
import Tenancy.Proofs.Shape.Idempotence

/-!
# Translated refusals

Two validations give the same outputs and differ in what they say of a refusal. If one of them
translates what the other says of every part, then each loop of validation translates what it says
of the whole: it stops at the same part, and reports that part's refusal.
-/

namespace Tenancy.Shape

open Json Outcome

variable {change : Diagnostic → Diagnostic} {check other : Value → Path → Verdict}
  {input : Option Value} {path base : Path}

theorem validateItems_mapError {items : List Value} {position : Nat}
    (each : ∀ item position,
      other item (base.index position) = (check item (path.index position)).mapError change) :
    validateItems other base position items =
      (validateItems check path position items).mapError change := by
  induction items generalizing position with
  | nil => rfl
  | cons item rest inductionHypothesis =>
      rw [validateItems, validateItems, each, inductionHypothesis, mapError_bind]
      simp only [mapError_bind]
      rfl

theorem validateEntries_mapError {entries : Object}
    (each : ∀ value key,
      other value (base.key key) = (check value (path.key key)).mapError change) :
    validateEntries other base entries = (validateEntries check path entries).mapError change := by
  induction entries with
  | nil => rfl
  | cons entry rest inductionHypothesis =>
      rw [validateEntries, validateEntries, each, inductionHypothesis, mapError_bind]
      simp only [mapError_bind]
      rfl

/-- The second shape says of an input what the first one does, in translation. -/
def Translates (change : Diagnostic → Diagnostic) (input : Option Value) (path base : Path)
    (shape other : Shape) : Prop :=
  other.validate input base = (shape.validate input path).mapError change

/-- What a leaf says of a value does not depend on where the value stands. -/
theorem Leaf.exists_outcome {shape : Shape} (leaf : Leaf shape) (input : Option Value) :
    ∃ outcome : Except Complaint Value, ∀ path,
      shape.validate input path = outcome.mapError (.of path) := by
  cases leaf with
  | kind expected =>
      cases input with
      | none =>
          cases expected with
          | nothing => exact ⟨.ok .null, fun _ => rfl⟩
          | string | number | boolean | null => exact ⟨.error .required, fun _ => rfl⟩
      | some value =>
          refine ⟨if expected.accepts value then .ok value else .error expected.complaint,
            fun path => ?_⟩
          rw [validate]
          split <;> rfl
  | literal expected =>
      cases input with
      | none => exact ⟨.error .required, fun _ => rfl⟩
      | some value =>
          refine ⟨if value.deepEqual expected then .ok value
            else .error (.literalExpected expected), fun path => ?_⟩
          rw [validate]
          split <;> rfl
  | oneOf members =>
      cases input with
      | none => exact ⟨.error .required, fun _ => rfl⟩
      | some value =>
          refine ⟨(acceptMember? members false value).elim (.error (.memberExpected members)) .ok,
            fun path => ?_⟩
          rw [validate]
          cases acceptMember? members false value <;> rfl
  | enumeration name variants ignoresCase =>
      cases input with
      | none => exact ⟨.error .required, fun _ => rfl⟩
      | some value =>
          refine ⟨(acceptMember? variants ignoresCase value).elim
            (.error (.memberExpected variants)) .ok, fun path => ?_⟩
          rw [validate]
          cases acceptMember? variants ignoresCase value <;> rfl

theorem Leaf.translates {shape : Shape} (leaf : Leaf shape)
    (complaints : ∀ complaint, change (.of path complaint) = .of base complaint) :
    Translates change input path base shape shape := by
  obtain ⟨outcome, verdict⟩ := leaf.exists_outcome input
  rw [Translates, verdict, verdict]
  cases outcome with
  | ok accepted => rfl
  | error complaint => exact congrArg Except.error (complaints complaint).symm

theorem validateAll_mapError {branches others : List Shape}
    (each : List.Forall₂ (Translates change input path base) branches others) :
    validateAll others input base = (validateAll branches input path).mapError change := by
  induction each with
  | nil => rfl
  | cons first rest inductionHypothesis =>
      rw [validateAll, validateAll, first, inductionHypothesis, mapError_bind]
      simp only [mapError_bind]
      rfl

theorem validateAny_mapError {branches others : List Shape}
    (each : List.Forall₂ (Translates change input path base) branches others) :
    validateAny others input base = (validateAny branches input path).mapError (List.map change) := by
  induction each with
  | nil => rfl
  | @cons branch _ rest _ first _ inductionHypothesis =>
      rw [validateAny, validateAny, first, inductionHypothesis]
      cases branch.validate input path with
      | ok accepted => rfl
      | error refusal => cases validateAny rest input path <;> rfl

theorem validateFields_mapError {fields others : List (Field Shape)} {whole : Object}
    (missing : ∀ name, change (.of (path.key name) .required) = .of (base.key name) .required)
    (each : List.Forall₂ (fun field other =>
      other.name = field.name ∧ other.requiredness = field.requiredness ∧ ∀ value,
        Translates change (some value) (path.key field.name) (base.key field.name) field.shape
          other.shape) fields others) :
    validateFields others whole base = (validateFields fields whole path).mapError change := by
  induction each with
  | nil => rfl
  | @cons field _ _ _ first _ inductionHypothesis =>
      obtain ⟨sameName, sameNeed, translates⟩ := first
      rw [validateFields, validateFields, inductionHypothesis, sameName, sameNeed]
      cases Entries.find? whole field.name with
      | none =>
          by_cases needed : field.requiredness.holds none whole = true
          · simp only [if_pos needed]
            exact congrArg Except.error (missing field.name).symm
          · simp only [if_neg needed]
      | some value =>
          dsimp only
          rw [translates value, mapError_bind]
          simp only [mapError_bind]
          rfl

end Tenancy.Shape
