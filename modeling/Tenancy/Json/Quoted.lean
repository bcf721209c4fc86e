import Tenancy.Json.Fault
import Tenancy.Text.Hexadecimal
import Tenancy.Text.Utf8

/-!
# Quoted texts

A text between quotes, read from the byte after the opening one. Escapes are replaced as they come; the
bytes of the content are decoded after the closing quote.
-/

namespace Tenancy.Json

open Text

/-- The byte that a one-letter escape stands for. -/
def escapedByte? (letter : UInt8) : Option UInt8 :=
  [(0x22, 0x22), (0x5C, 0x5C), (0x2F, 0x2F), (0x62, 0x08), (0x66, 0x0C), (0x6E, 0x0A),
    (0x72, 0x0D), (0x74, 0x09)].lookup letter

/-- Four hexadecimal digits. Fewer than four bytes count as passed to the end. -/
def readHex : List UInt8 → Except Fault (Nat × List UInt8)
  | first :: second :: third :: fourth :: rest =>
      match hexValue? [first, second, third, fourth] with
      | some value => .ok (value, rest)
      | none => .error (.before .invalidEscape rest)
  | _ => .error (.before .endInString [])

def expectByte (expected : UInt8) : List UInt8 → Except Fault (List UInt8)
  | [] => .error (.before .endInString [])
  | byte :: rest =>
      if byte = expected then .ok rest else .error (.before .surrogateExpected rest)

/-- A low surrogate after the high one. -/
def readLowSurrogate (high : Nat) (input : List UInt8) : Except Fault (Char × List UInt8) :=
  match (expectByte 0x5C input).bind (expectByte 0x75) |>.bind readHex with
  | .error fault => .error fault
  | .ok (low, rest) =>
      if 0xDC00 ≤ low ∧ low ≤ 0xDFFF then
        .ok (Char.ofNat (0x10000 + (high - 0xD800) * 0x400 + (low - 0xDC00)), rest)
      else .error (.before .loneSurrogate rest)

def readCodeUnits (input : List UInt8) : Except Fault (Char × List UInt8) :=
  match readHex input with
  | .error fault => .error fault
  | .ok (unit, rest) =>
      if unit < 0xD800 ∨ 0xDFFF < unit then .ok (Char.ofNat unit, rest)
      else if unit < 0xDC00 then readLowSurrogate unit rest
      else .error (.before .loneSurrogate rest)

/-- The bytes that an escape stands for, read after its backslash. -/
def readEscape : List UInt8 → Except Fault (List UInt8 × List UInt8)
  | [] => .error (.before .endInString [])
  | letter :: rest =>
      if letter = 0x75 then
        (readCodeUnits rest).map fun (c, after) => (utf8Bytes (String.singleton c), after)
      else
        match escapedByte? letter with
        | some byte => .ok ([byte], rest)
        | none => .error (.before .invalidEscape rest)

theorem readHex_length {input rest : List UInt8} {value : Nat}
    (read : readHex input = .ok (value, rest)) : rest.length < input.length := by
  unfold readHex at read
  split at read
  · split at read
    · simp only [Except.ok.injEq, Prod.mk.injEq] at read
      simp only [List.length_cons, read.2]
      omega
    · simp at read
  · simp at read

theorem expectByte_length {expected : UInt8} {input rest : List UInt8}
    (read : expectByte expected input = .ok rest) : rest.length < input.length := by
  unfold expectByte at read
  split at read
  · simp at read
  · split at read
    · simp only [Except.ok.injEq] at read
      exact read ▸ Nat.lt_succ_self _
    · simp at read

theorem readLowSurrogate_length {high : Nat} {input rest : List UInt8} {c : Char}
    (read : readLowSurrogate high input = .ok (c, rest)) : rest.length < input.length := by
  unfold readLowSurrogate at read
  split at read
  · simp at read
  · next low after found =>
      split at read
      · simp only [Except.ok.injEq, Prod.mk.injEq] at read
        rcases backslash : expectByte 0x5C input with fault | afterBackslash
        · simp [backslash, Except.bind] at found
        rcases letter : expectByte 0x75 afterBackslash with fault | afterLetter
        · simp [backslash, letter, Except.bind] at found
        simp only [backslash, letter, Except.bind] at found
        have := expectByte_length backslash
        have := expectByte_length letter
        have := readHex_length found
        rw [← read.2]
        omega
      · simp at read

theorem readCodeUnits_length {input rest : List UInt8} {c : Char}
    (read : readCodeUnits input = .ok (c, rest)) : rest.length < input.length := by
  unfold readCodeUnits at read
  split at read
  · simp at read
  · next unit after found =>
      have first := readHex_length found
      split at read
      · simp only [Except.ok.injEq, Prod.mk.injEq] at read
        exact read.2 ▸ first
      · split at read
        · exact Nat.lt_trans (readLowSurrogate_length read) first
        · simp at read

theorem readEscape_length {input rest bytes : List UInt8}
    (read : readEscape input = .ok (bytes, rest)) : rest.length < input.length := by
  unfold readEscape at read
  split at read
  · simp at read
  · next letter after =>
      split at read
      · rcases found : readCodeUnits after with fault | ⟨c, left⟩
        · simp [found, Except.map] at read
        · simp only [found, Except.map, Except.ok.injEq, Prod.mk.injEq] at read
          exact read.2 ▸ Nat.lt_succ_of_lt (readCodeUnits_length found)
      · split at read
        · simp only [Except.ok.injEq, Prod.mk.injEq] at read
          exact read.2 ▸ Nat.lt_succ_self _
        · simp at read

/-- The bytes up to the closing quote, after those in `content`, which is listed backwards. -/
def readContent (content : List UInt8) (input : List UInt8) :
    Except Fault (List UInt8 × List UInt8) :=
  match input with
  | [] => .error (.before .endInString [])
  | byte :: rest =>
      if byte = 0x22 then .ok (content.reverse, rest)
      else if byte = 0x5C then
        match escape : readEscape rest with
        | .error fault => .error fault
        | .ok (bytes, after) =>
            have := readEscape_length escape
            readContent (bytes.reverse ++ content) after
      else if byte < 0x20 then .error (.before .controlCharacter rest)
      else readContent (byte :: content) rest
  termination_by input.length

theorem readContent_length {content bytes input rest : List UInt8}
    (read : readContent content input = .ok (bytes, rest)) : rest.length < input.length := by
  fun_induction readContent content input with
  | case1 => simp at read
  | case2 content after =>
      simp only [Except.ok.injEq, Prod.mk.injEq] at read
      exact read.2 ▸ Nat.lt_succ_self _
  | case3 => simp at read
  | case4 content after escaped left escape shorter _ inductionHypothesis =>
      have := inductionHypothesis read
      simp only [List.length_cons]
      omega
  | case5 => simp at read
  | case6 content byte after _ _ _ inductionHypothesis =>
      exact Nat.lt_succ_of_lt (inductionHypothesis read)

/-- A text up to its closing quote. Content that is not UTF-8 is reported as far before the bytes
passed as the content is long from its first undecodable byte on. -/
def readQuoted (input : List UInt8) : Except Fault (String × List UInt8) :=
  match readContent [] input with
  | .error fault => .error fault
  | .ok (content, rest) =>
      match decodeUtf8? content with
      | some text => .ok (text, rest)
      | none => .error ⟨.invalidUnicode, rest.length, undecodableLength content⟩

theorem readQuoted_length {input rest : List UInt8} {text : String}
    (read : readQuoted input = .ok (text, rest)) : rest.length < input.length := by
  unfold readQuoted at read
  split at read
  · simp at read
  · next found =>
      split at read
      · simp only [Except.ok.injEq, Prod.mk.injEq] at read
        exact read.2 ▸ readContent_length found
      · simp at read

end Tenancy.Json
