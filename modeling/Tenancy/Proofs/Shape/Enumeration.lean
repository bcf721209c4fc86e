import Tenancy.Proofs.Shape.Conformance
import Tenancy.Proofs.Shape.Idempotence

/-!
# Enumerations in any case

An enumeration that ignores case looks for a value among its variants like a strict one, and only
what is not found there is looked for once more as a text in another case. So it accepts what the
strict one accepts, with the same result, and beyond that the other spellings of its texts; what it
gives is a value that it lists and gives back (`Shape.enumeration_extends_strict`). Which of the
spellings of a text is given does not matter to the result, unless two of them are listed
(`SpelledApart`).
-/

namespace Tenancy

open Json

/-- No text is listed in two spellings that differ in case only. -/
def SpelledApart (variants : List Value) : Prop :=
  ∀ spelling other : String, .string spelling ∈ variants → .string other ∈ variants →
    Text.sameIgnoringCase spelling other = true → spelling = other

theorem Text.sameIgnoringCase_trans {first second third : String}
    (same : sameIgnoringCase first second = true) (again : sameIgnoringCase second third = true) :
    sameIgnoringCase first third = true := by
  rw [sameIgnoringCase_iff] at same again ⊢
  exact same.trans again

theorem Json.Value.eq_string_of_deepEqual {member : Value} {text : String}
    (same : member.deepEqual (.string text) = true) : member = .string text := by
  cases deepEqual_iff.mp same
  rfl

namespace Shape

variable {members : List Value} {ignoresCase : Bool} {value accepted : Value}

/-- What is accepted as it stands is accepted so by those who ignore case. -/
theorem acceptMember?_ignoringCase (found : acceptMember? members false value = some accepted) :
    acceptMember? members true value = some accepted := by
  unfold acceptMember? at found ⊢
  split at found
  · next listed => rw [if_pos listed, found]
  · cases found

theorem acceptMember?_strict_iff : (∃ accepted, acceptMember? members false value = some accepted) ↔
    ∃ member ∈ members, member.SameMeaning value := by
  simp [exists_acceptMember?_iff]

/-- What is given equals a member. -/
theorem exists_deepEqual_of_acceptMember?
    (found : acceptMember? members ignoresCase value = some accepted) :
    ∃ member ∈ members, member.deepEqual accepted = true := by
  rcases acceptMember?_cases found with ⟨rfl, equals⟩ | ⟨text, spelling, -, rfl, -, listed⟩
  · exact equals
  · exact ⟨_, listed, beq_self_eq_true spelling⟩

/-- What is given for a text is a listed spelling of it. -/
theorem exists_spelling_of_acceptMember? {text : String}
    (found : acceptMember? members ignoresCase (.string text) = some accepted) :
    ∃ spelling, accepted = .string spelling ∧ .string spelling ∈ members ∧
      Text.sameIgnoringCase spelling text = true := by
  rcases acceptMember?_cases found with
    ⟨rfl, member, listed, same⟩ | ⟨_, spelling, isText, rfl, same, listed⟩
  · obtain rfl := Value.eq_string_of_deepEqual same
    exact ⟨text, rfl, listed, Text.sameIgnoringCase_refl text⟩
  · cases isText
    exact ⟨spelling, rfl, listed, same⟩

theorem acceptMember?_eq_of_spelledApart {text other : String} {given : Value}
    (apart : SpelledApart members) (same : Text.sameIgnoringCase text other = true)
    (found : acceptMember? members ignoresCase (.string text) = some accepted)
    (also : acceptMember? members ignoresCase (.string other) = some given) : accepted = given := by
  obtain ⟨spelling, rfl, listed, spells⟩ := exists_spelling_of_acceptMember? found
  obtain ⟨otherSpelling, rfl, otherListed, otherSpells⟩ := exists_spelling_of_acceptMember? also
  rw [Text.sameIgnoringCase_comm] at otherSpells
  have spellsOther := Text.sameIgnoringCase_trans spells same
  have alike := Text.sameIgnoringCase_trans spellsOther otherSpells
  rw [apart spelling otherSpelling listed otherListed alike]

theorem validate_enumeration_eq_ok_iff {name : String} {path : Path} :
    (enumeration name members ignoresCase).validate (some value) path = .ok accepted ↔
      acceptMember? members ignoresCase value = some accepted := by
  rw [validate_eq_ok_iff, prune?]

/-- To ignore case extends an enumeration by the other spellings of its texts and changes nothing
about what it accepts otherwise; it gives listed values, which it gives back, and the same one for
all spellings of a text unless the text is listed in several. -/
theorem enumeration_extends_strict (name : String) (variants : List Value) :
    (∀ (value accepted : Value) (path : Path),
      (enumeration name variants false).validate (some value) path = .ok accepted →
        (enumeration name variants true).validate (some value) path = .ok accepted) ∧
    (∀ (value : Value) (path : Path),
      (∃ accepted, (enumeration name variants true).validate (some value) path = .ok accepted) ↔
        (∃ accepted, (enumeration name variants false).validate (some value) path = .ok accepted) ∨
          ∃ spelling text, value = .string text ∧ .string spelling ∈ variants ∧
            Text.sameIgnoringCase spelling text = true) ∧
    (∀ (ignoresCase : Bool) (value accepted : Value) (path : Path),
      (enumeration name variants ignoresCase).validate (some value) path = .ok accepted →
        (∃ variant ∈ variants, variant.deepEqual accepted = true) ∧
          ∀ place, (enumeration name variants ignoresCase).validate (some accepted) place =
            .ok accepted) ∧
    (SpelledApart variants → ∀ (text other : String) (accepted given : Value) (path : Path),
      Text.sameIgnoringCase text other = true →
      (enumeration name variants true).validate (some (.string text)) path = .ok accepted →
      (enumeration name variants true).validate (some (.string other)) path = .ok given →
        accepted = given) := by
  simp only [validate_enumeration_eq_ok_iff]
  refine ⟨?kept, ?accepts, ?listed, ?spelled⟩
  case kept => exact fun value accepted _ => acceptMember?_ignoringCase
  case accepts =>
    intro value _
    rw [acceptMember?_strict_iff, exists_acceptMember?_iff]
    simp only [true_and]
  case listed =>
    intro ignoresCase value accepted _ found
    refine ⟨exists_deepEqual_of_acceptMember? found, fun _ => ?_⟩
    have given : (enumeration name variants ignoresCase).prune? (some value) = some accepted := by
      rwa [prune?]
    have again := (Leaf.enumeration name variants ignoresCase).prune?_again given
    rwa [prune?] at again
  case spelled =>
    intro apart text other accepted given _ same found also
    exact acceptMember?_eq_of_spelledApart apart same found also

/-- Grants by name or by number. -/
def grants : List Value := [.string "Read", .ofNat 2, .string "Write"]

theorem spelledApart_grants : SpelledApart grants := by
  intro spelling other listed otherListed same
  simp only [grants, Value.ofNat, List.mem_cons, Value.string.injEq, reduceCtorEq, List.not_mem_nil,
    or_false, false_or] at listed otherListed
  rcases listed with rfl | rfl <;> rcases otherListed with rfl | rfl
  · rfl
  · exact absurd same (by decide)
  · exact absurd same (by decide)
  · rfl

theorem enumeration_extends_strict_grants :
    (enumeration "grant" grants false).validate (some (.string "Write")) .root =
        .ok (.string "Write") ∧
      (enumeration "grant" grants true).validate (some (.string "Write")) .root =
        .ok (.string "Write") ∧
      (∃ variant ∈ grants, variant.deepEqual (.string "Write") = true) ∧
      SpelledApart grants ∧ Text.sameIgnoringCase "WRITE" "write" = true ∧
      (enumeration "grant" grants true).validate (some (.string "WRITE")) .root =
        .ok (.string "Write") ∧
      ∀ given, (enumeration "grant" grants true).validate (some (.string "write")) .root =
        .ok given → .string "Write" = given := by
  obtain ⟨kept, -, listed, spelled⟩ := enumeration_extends_strict "grant" grants
  have strict : (enumeration "grant" grants false).validate (some (.string "Write")) .root =
      .ok (.string "Write") := rfl
  have upper : (enumeration "grant" grants true).validate (some (.string "WRITE")) .root =
      .ok (.string "Write") := rfl
  have same : Text.sameIgnoringCase "WRITE" "write" = true := by decide
  refine ⟨strict, kept _ _ _ strict, (listed false _ _ _ strict).1, spelledApart_grants, same,
    upper, fun given accepted => ?_⟩
  exact spelled spelledApart_grants _ _ _ given .root same upper accepted

end Shape

end Tenancy
