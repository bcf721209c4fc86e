import Tenancy.Json.Document
import Tenancy.Proofs.Text.Utf8
import Tenancy.Text.WhiteSpace

/-!
# Blank documents

A text of white space alone is no document (`readDocument_of_isBlank`): its bytes are those of ASCII
white space or of no ASCII character, and no value starts with either.
-/

namespace Tenancy

namespace Text

theorem toNat_of_isWhiteSpace {c : Char} (space : isWhiteSpace c = true) :
    c.toNat ≤ 0x20 ∨ 0x80 ≤ c.toNat := by
  simp [isWhiteSpace, isolatedSpaces] at space
  omega

/-- No byte of a blank text is that of an ASCII character that is visible. -/
theorem toNat_of_mem_utf8Bytes {text : String} (blank : isBlank text = true) {byte : UInt8}
    (listed : byte ∈ utf8Bytes text) : byte.toNat ≤ 0x20 ∨ 0x80 ≤ byte.toNat := by
  rw [utf8Bytes_eq_flatMap] at listed
  obtain ⟨c, member, listed⟩ := List.mem_flatMap.mp listed
  have space : isWhiteSpace c = true := List.all_eq_true.mp blank c member
  by_cases ascii : c.toNat < 0x80
  · rw [utf8EncodeChar_of_ascii ascii, List.mem_singleton] at listed
    subst listed
    have value : (UInt8.ofNat c.toNat).toNat = c.toNat := by
      rw [UInt8.toNat_ofNat']
      omega
    rw [value]
    exact toNat_of_isWhiteSpace space
  · exact .inr (le_of_mem_utf8EncodeChar (Nat.le_of_not_lt ascii) listed)

end Text

namespace Json

theorem readScalar_eq_error {byte : UInt8} (outside : byte.toNat ≤ 0x20 ∨ 0x80 ≤ byte.toNat)
    (rest : List UInt8) :
    readScalar byte rest = .error (.at .valueExpected (byte :: rest)) := by
  have different (letter : UInt8) (visible : 0x20 < letter.toNat ∧ letter.toNat < 0x80) :
      byte ≠ letter := by
    rintro rfl
    omega
  have noWord : valueWord? byte = none := by
    simp [valueWord?, List.lookup_eq_none_iff, different]
  have noDigit : ¬isDigit byte = true := by
    simp only [isDigit, Bool.and_eq_true, decide_eq_true_eq, UInt8.le_iff_toNat_le]
    rintro ⟨above, below⟩
    have above : 0x30 ≤ byte.toNat := above
    have below : byte.toNat ≤ 0x39 := below
    omega
  unfold readScalar
  split
  · next found => cases noWord.symm.trans found
  · rw [if_neg (different 0x22 (by decide)), if_neg (different 0x2D (by decide)), if_neg noDigit]

/-- No value starts with such a byte, and white space may be skipped before it. -/
theorem exists_readValue_eq_error (depth : Nat) {input : List UInt8}
    (outside : ∀ byte ∈ input, byte.toNat ≤ 0x20 ∨ 0x80 ≤ byte.toNat) :
    ∃ fault, readValue depth input = .error fault := by
  unfold readValue
  dsimp only
  split
  · exact ⟨_, rfl⟩
  · next byte rest ahead =>
      have ahead : input.dropWhile isBlankByte = byte :: rest := ahead
      have listed : byte ∈ input :=
        (List.dropWhile_sublist isBlankByte).subset (ahead ▸ List.mem_cons_self)
      have outside := outside byte listed
      have container : ¬(byte = 0x5B ∨ byte = 0x7B) := by
        rintro (rfl | rfl)
        · exact absurd outside (by decide)
        · exact absurd outside (by decide)
      rw [if_neg container, readScalar_eq_error outside]
      exact ⟨_, rfl⟩

/-- A blank text is not a document. -/
theorem readDocument_of_isBlank {text : String} (blank : Text.isBlank text = true) :
    ∃ error, readDocument (Text.utf8Bytes text) = .error error := by
  obtain ⟨fault, failed⟩ := exists_readValue_eq_error depthLimit
    fun byte listed => Text.toNat_of_mem_utf8Bytes blank listed
  rw [readDocument, failed]
  exact ⟨_, rfl⟩

end Json

end Tenancy
