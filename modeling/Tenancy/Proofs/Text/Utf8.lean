import Tenancy.Text.Utf8

/-!
# The bytes of texts

A text is encoded character by character, and the encoding keeps the order: texts compare by their
code points as their encodings do by their bytes (`utf8Bytes_lt_iff`).
-/

namespace Tenancy.Text

theorem utf8Bytes_eq_flatMap (text : String) :
    utf8Bytes text = text.toList.flatMap String.utf8EncodeChar := by
  have bytes : text.toUTF8 = text.toList.utf8Encode := String.utf8Encode_toList.symm
  rw [utf8Bytes, bytes, List.utf8Encode, List.data_toByteArray, List.toList_toArray]

theorem utf8EncodeChar_of_ascii {c : Char} (ascii : c.toNat < 0x80) :
    String.utf8EncodeChar c = [UInt8.ofNat c.toNat] := by
  have small : c.val.toNat ≤ 127 := Nat.le_of_lt_succ ascii
  rw [String.utf8EncodeChar, if_pos small]
  rfl

/-- Only the bytes of ASCII characters are below 128. -/
theorem le_of_mem_utf8EncodeChar {c : Char} (wide : 0x80 ≤ c.toNat) {byte : UInt8}
    (listed : byte ∈ String.utf8EncodeChar c) : 0x80 ≤ byte.toNat := by
  have large : ¬c.val.toNat ≤ 127 := Nat.not_le_of_lt wide
  rw [String.utf8EncodeChar, if_neg large] at listed
  split at listed
  · simp only [List.mem_cons, List.not_mem_nil, or_false] at listed
    rcases listed with rfl | rfl <;> simp only [UInt8.toNat_ofNat'] <;> omega
  · split at listed
    · simp only [List.mem_cons, List.not_mem_nil, or_false] at listed
      rcases listed with rfl | rfl | rfl <;> simp only [UInt8.toNat_ofNat'] <;> omega
    · simp only [List.mem_cons, List.not_mem_nil, or_false] at listed
      rcases listed with rfl | rfl | rfl | rfl <;> simp only [UInt8.toNat_ofNat'] <;> omega

/-! ### Order -/

/-- The encodings of two characters decide about whatever begins with them. -/
theorem utf8EncodeChar_append_lt {c d : Char} (below : c < d) (left right : List UInt8) :
    String.utf8EncodeChar c ++ left < String.utf8EncodeChar d ++ right := by
  have below : c.val.toNat < d.val.toNat := below
  have bounded : d.val.toNat < 0x110000 := by
    have valid : d.val.toNat < 0xD800 ∨ (0xDFFF < d.val.toNat ∧ d.val.toNat < 0x110000) := d.valid
    omega
  generalize firstCode : c.val.toNat = first at *
  generalize secondCode : d.val.toNat = second at *
  simp only [String.utf8EncodeChar, firstCode, secondCode]
  -- The longer encoding begins with the larger byte; of two that are as long as each other the first
  -- digits to the base 64 that differ decide.
  split <;> split <;> try omega
  all_goals repeat' split
  all_goals try omega
  all_goals simp only [List.cons_append, List.nil_append, List.cons_lt_cons_iff,
    UInt8.lt_iff_toNat_lt, ← UInt8.toNat_inj, UInt8.toNat_ofNat']
  all_goals try omega
  case isFalse.isFalse.isFalse.isFalse.isFalse.isFalse =>
    rcases Nat.lt_or_ge (first / 4096) (second / 4096) with high | low
    · clear below
      omega
    · have same : first / 4096 = second / 4096 := by omega
      have same : first / 262144 = second / 262144 := by omega
      omega

theorem flatMap_utf8EncodeChar_lt {left right : List Char} (below : left < right) :
    left.flatMap String.utf8EncodeChar < right.flatMap String.utf8EncodeChar := by
  induction left generalizing right with
  | nil =>
      cases right with
      | nil => exact absurd below (List.lt_irrefl _)
      | cons d rest =>
          obtain ⟨byte, bytes, encoded⟩ :=
            List.exists_cons_of_ne_nil (@String.utf8EncodeChar_ne_nil d)
          rw [List.flatMap_cons, encoded]
          exact List.nil_lt_cons _ _
  | cons c rest inductionHypothesis =>
      cases right with
      | nil => exact absurd below (List.not_lt_nil _)
      | cons d others =>
          rcases List.cons_lt_cons_iff.mp below with smaller | ⟨rfl, later⟩
          · exact utf8EncodeChar_append_lt smaller _ _
          · exact List.append_left_lt (inductionHypothesis later)

theorem utf8Bytes_lt_of_lt {left right : String} (below : left < right) :
    utf8Bytes left < utf8Bytes right := by
  rw [utf8Bytes_eq_flatMap, utf8Bytes_eq_flatMap]
  exact flatMap_utf8EncodeChar_lt (String.lt_iff.mp below)

/-- Texts compare as their bytes do. -/
theorem utf8Bytes_lt_iff {left right : String} :
    utf8Bytes left < utf8Bytes right ↔ left < right := by
  refine ⟨fun below => Decidable.byContradiction fun above => ?_, utf8Bytes_lt_of_lt⟩
  by_cases same : right = left
  · exact List.lt_irrefl _ (same ▸ below)
  · exact List.lt_asymm below
      (utf8Bytes_lt_of_lt (Std.lt_of_le_of_ne (String.not_lt.mp above) same))

end Tenancy.Text
