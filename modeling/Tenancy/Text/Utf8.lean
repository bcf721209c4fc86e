/-!
# UTF-8

Decoding of byte lists by the well-formed sequences of one to four bytes. `decodePrefix` reads as
many characters as it can; what it leaves starts with a byte at which no well-formed sequence begins,
so a byte list is UTF-8 exactly when nothing is left.
-/

namespace Tenancy.Text

def utf8Bytes (text : String) : List UInt8 :=
  text.toUTF8.data.toList

/-- A byte of the form 10xxxxxx: its six payload bits. -/
def continuation? (byte : UInt8) : Option Nat :=
  if 0x80 ≤ byte.toNat ∧ byte.toNat ≤ 0xBF then some (byte.toNat - 0x80) else none

def appendContinuation (bits : Nat) : List UInt8 → Option (Nat × List UInt8)
  | [] => none
  | byte :: rest => (continuation? byte).map fun low => (bits * 64 + low, rest)

/-- Continuation bytes `count` times over. -/
def appendContinuations : Nat → Nat → List UInt8 → Option (Nat × List UInt8)
  | 0, bits, bytes => some (bits, bytes)
  | count + 1, bits, bytes =>
      (appendContinuation bits bytes).bind fun (joined, rest) =>
        appendContinuations count joined rest

/-- The character with the given leading bits and `count` continuation bytes. Overlong forms,
surrogates and values past U+10FFFF are no characters. -/
def scalar? (count bits least : Nat) (bytes : List UInt8) : Option (Char × List UInt8) :=
  match appendContinuations count bits bytes with
  | none => none
  | some (value, rest) =>
      if valid : least ≤ value ∧ value.isValidChar then
        some (Char.ofNatAux value valid.2, rest)
      else none

/-- The character at the head of a byte list. -/
def headChar? : List UInt8 → Option (Char × List UInt8)
  | [] => none
  | lead :: rest =>
      let byte := lead.toNat
      if byte < 0x80 then scalar? 0 byte 0 rest
      else if byte < 0xC0 then none
      else if byte < 0xE0 then scalar? 1 (byte - 0xC0) 0x80 rest
      else if byte < 0xF0 then scalar? 2 (byte - 0xE0) 0x800 rest
      else if byte < 0xF8 then scalar? 3 (byte - 0xF0) 0x10000 rest
      else none

theorem appendContinuations_length {count bits value : Nat} {bytes rest : List UInt8}
    (joined : appendContinuations count bits bytes = some (value, rest)) :
    rest.length ≤ bytes.length := by
  induction count generalizing bits bytes with
  | zero =>
      simp only [appendContinuations, Option.some.injEq, Prod.mk.injEq] at joined
      exact joined.2 ▸ Nat.le_refl _
  | succ count inductionHypothesis =>
      cases bytes with
      | nil => simp [appendContinuations, appendContinuation] at joined
      | cons byte tail =>
          simp only [appendContinuations, appendContinuation, Option.bind_map,
            Option.bind_eq_some_iff] at joined
          obtain ⟨low, -, step⟩ := joined
          exact Nat.le_trans (inductionHypothesis step) (Nat.le_succ _)

theorem scalar?_length {count bits least : Nat} {bytes rest : List UInt8} {c : Char}
    (found : scalar? count bits least bytes = some (c, rest)) : rest.length ≤ bytes.length := by
  rw [scalar?] at found
  cases joined : appendContinuations count bits bytes with
  | none =>
      rw [joined] at found
      cases found
  | some read =>
      obtain ⟨value, after⟩ := read
      rw [joined] at found
      dsimp only at found
      by_cases valid : least ≤ value ∧ value.isValidChar
      · rw [dif_pos valid] at found
        cases found
        exact appendContinuations_length joined
      · rw [dif_neg valid] at found
        cases found

theorem headChar?_length {bytes rest : List UInt8} {c : Char}
    (head : headChar? bytes = some (c, rest)) : rest.length < bytes.length := by
  cases bytes with
  | nil => simp [headChar?] at head
  | cons lead tail =>
      have shorter {count bits least : Nat}
          (found : scalar? count bits least tail = some (c, rest)) :
          rest.length < (lead :: tail).length :=
        Nat.lt_succ_of_le (scalar?_length found)
      simp only [headChar?] at head
      repeat' split at head
      all_goals first | exact shorter head | simp at head

/-- The characters that can be read, and the bytes from the first undecodable one on. -/
def decodePrefix (bytes : List UInt8) : List Char × List UInt8 :=
  match head : headChar? bytes with
  | none => ([], bytes)
  | some (c, rest) =>
      have := headChar?_length head
      let (chars, left) := decodePrefix rest
      (c :: chars, left)
  termination_by bytes.length

def decodeUtf8? (bytes : List UInt8) : Option String :=
  match decodePrefix bytes with
  | (chars, []) => some (String.ofList chars)
  | (_, _ :: _) => none

/-- How many bytes from the first undecodable one to the end. -/
def undecodableLength (bytes : List UInt8) : Nat :=
  (decodePrefix bytes).2.length

end Tenancy.Text
