import Tenancy.Json.Fault
import Tenancy.Json.Number
import Tenancy.Text.Rest

/-!
# Numerals

A numeral without fraction and exponent is an integer while it fits into 64 bits. Any other numeral
keeps the leading digits that fit into 64 bits, is rounded to a float from these, and is then scaled
once by a rounded power of ten; so its value need not be the float nearest to what is written.
-/

namespace Tenancy.Json

open Text

def isDigit (byte : UInt8) : Bool :=
  0x30 ≤ byte && byte ≤ 0x39

def digitValue (byte : UInt8) : Nat :=
  byte.toNat - 0x30

/-- Append decimal digits to a value while it stays at or below a limit. Also the digits left over. -/
def absorb (limit value : Nat) : List UInt8 → Nat × List UInt8
  | [] => (value, [])
  | digit :: rest =>
      let longer := value * 10 + digitValue digit
      if longer ≤ limit then absorb limit longer rest else (value, digit :: rest)

def significandLimit : Nat := Nat.pow 2 64 - 1

def exponentLimit : Nat := Nat.pow 2 31 - 1

/-- The largest exponent of ten that is scaled by in one step. -/
def stepLimit : Nat := 308

/-- Multiply or divide by a power of ten within the step limit. -/
def scaleStep (number : Binary64) (exponent : Int) : Option Binary64 := do
  let power ← Binary64.ofNat (Nat.pow 10 exponent.natAbs)
  if 0 ≤ exponent then number.mul power else number.div power

/-- Scale by a power of ten: beyond the step limit a zero stays as it is, a positive exponent leaves
the finite numbers, and a negative one is taken in steps. -/
def scale (number : Binary64) (exponent : Int) : Option Binary64 :=
  if exponent.natAbs ≤ stepLimit then scaleStep number exponent
  else if number.isZero then some number
  else if 0 ≤ exponent then none
  else (scaleStep number (-stepLimit)).bind fun smaller => scale smaller (exponent + stepLimit)
  termination_by exponent.natAbs
  decreasing_by simp only [stepLimit] at *; omega

/-- The float of a sign, kept digits and an exponent of ten. -/
def assemble (negative : Bool) (significand : Nat) (exponent : Int) : Option Binary64 := do
  let magnitude ← scale (← Binary64.ofNat significand) exponent
  return if negative then magnitude.negate else magnitude

abbrev NumeralResult := Except Fault (Number × List UInt8)

def finishFloat (negative : Bool) (significand : Nat) (exponent : Int) (rest : List UInt8) :
    NumeralResult :=
  match assemble negative significand exponent with
  | some value => .ok (.float value, rest)
  | none => .error (.before .numberOutOfRange rest)

/-- The digits of an exponent. One past the limit is an error only if it is positive and there is a
digit to scale; otherwise the number is zero. -/
def readExponentDigits (negative : Bool) (significand : Nat) (exponent : Int) (shrinks : Bool)
    (input : List UInt8) : NumeralResult :=
  let rest := input.dropWhile isDigit
  match absorb exponentLimit 0 (input.takeWhile isDigit) with
  | (written, []) =>
      finishFloat negative significand (if shrinks then exponent - written else exponent + written)
        rest
  | (_, _ :: unread) =>
      if significand ≠ 0 ∧ shrinks = false then
        .error (.before .numberOutOfRange (unread ++ rest))
      else .ok (.float (.zero negative), rest)

/-- Whether an exponent is negative, and the bytes after its sign. -/
def exponentSign : List UInt8 → Bool × List UInt8
  | 0x2B :: rest => (false, rest)
  | 0x2D :: rest => (true, rest)
  | input => (false, input)

def readExponent (negative : Bool) (significand : Nat) (exponent : Int) (input : List UInt8) :
    NumeralResult :=
  let unsigned := (exponentSign input).2
  match unsigned with
  | [] => .error (.before .endInValue unsigned)
  | byte :: rest =>
      if isDigit byte then
        readExponentDigits negative significand exponent (exponentSign input).1 unsigned
      else .error (.before .invalidNumber rest)

/-- The bytes after the letter of an exponent, if one comes next. -/
def afterExponentLetter? : List UInt8 → Option (List UInt8)
  | [] => none
  | byte :: rest => if byte = 0x65 ∨ byte = 0x45 then some rest else none

/-- What may follow the digits of a float. -/
def readScale (negative : Bool) (significand : Nat) (exponent : Int) (input : List UInt8) :
    NumeralResult :=
  match afterExponentLetter? input with
  | some rest => readExponent negative significand exponent rest
  | none => finishFloat negative significand exponent input

def readFraction (negative : Bool) (significand : Nat) (exponent : Int) (input : List UInt8) :
    NumeralResult :=
  let digits := input.takeWhile isDigit
  let rest := input.dropWhile isDigit
  if digits.isEmpty then
    .error (.at (if rest.isEmpty then .endInValue else .invalidNumber) rest)
  else
    let (kept, dropped) := absorb significandLimit significand digits
    readScale negative kept (exponent - (digits.length - dropped.length)) rest

/-- The number of a numeral that is digits only. Minus zero and what leaves 64 bits are floats. -/
def finishInteger (negative : Bool) (significand : Nat) (rest : List UInt8) : NumeralResult :=
  if negative then
    if 0 < significand ∧ significand ≤ Nat.pow 2 63 then .ok (.integer (-significand), rest)
    else finishFloat true significand 0 rest
  else .ok (.integer significand, rest)

def readNumeral (negative : Bool) (input : List UInt8) : NumeralResult :=
  let digits := input.takeWhile isDigit
  let rest := input.dropWhile isDigit
  match digits with
  | [] => .error (.before (if input.isEmpty then .endInValue else .invalidNumber) input.tail)
  | 0x30 :: next :: more => .error (.at .invalidNumber (next :: more ++ rest))
  | _ =>
      let (significand, dropped) := absorb significandLimit 0 digits
      match rest with
      | 0x2E :: fraction => readFraction negative significand dropped.length fraction
      | _ =>
          if dropped.isEmpty ∧ (afterExponentLetter? rest).isNone then
            finishInteger negative significand rest
          else readScale negative significand dropped.length rest

theorem finishFloat_length {negative : Bool} {significand : Nat} {exponent : Int}
    {input rest : List UInt8} {number : Number}
    (read : finishFloat negative significand exponent input = .ok (number, rest)) :
    rest.length ≤ input.length := by
  unfold finishFloat at read
  split at read
  · simp only [Except.ok.injEq, Prod.mk.injEq] at read
    exact read.2 ▸ Nat.le_refl _
  · simp at read

theorem readExponentDigits_length {negative : Bool} {significand : Nat} {exponent : Int}
    {shrinks : Bool} {input rest : List UInt8} {number : Number}
    (read : readExponentDigits negative significand exponent shrinks input = .ok (number, rest)) :
    rest.length ≤ input.length := by
  have shorter := length_dropWhile_le isDigit input
  simp only [readExponentDigits] at read
  split at read
  · exact Nat.le_trans (finishFloat_length read) shorter
  · split at read
    · simp at read
    · simp only [Except.ok.injEq, Prod.mk.injEq] at read
      exact read.2 ▸ shorter

theorem exponentSign_length (input : List UInt8) : (exponentSign input).2.length ≤ input.length := by
  unfold exponentSign
  split
  · exact Nat.le_succ _
  · exact Nat.le_succ _
  · exact Nat.le_refl _

theorem readExponent_length {negative : Bool} {significand : Nat} {exponent : Int}
    {input rest : List UInt8} {number : Number}
    (read : readExponent negative significand exponent input = .ok (number, rest)) :
    rest.length ≤ input.length := by
  simp only [readExponent] at read
  split at read
  · simp at read
  · split at read
    · exact Nat.le_trans (readExponentDigits_length read) (exponentSign_length input)
    · simp at read

theorem readScale_length {negative : Bool} {significand : Nat} {exponent : Int}
    {input rest : List UInt8} {number : Number}
    (read : readScale negative significand exponent input = .ok (number, rest)) :
    rest.length ≤ input.length := by
  unfold readScale at read
  split at read
  · next after found =>
      cases input with
      | nil => simp [afterExponentLetter?] at found
      | cons byte tail =>
          simp only [afterExponentLetter?] at found
          split at found
          · simp only [Option.some.injEq] at found
            subst found
            exact Nat.le_succ_of_le (readExponent_length read)
          · simp at found
  · exact finishFloat_length read

theorem readFraction_length {negative : Bool} {significand : Nat} {exponent : Int}
    {input rest : List UInt8} {number : Number}
    (read : readFraction negative significand exponent input = .ok (number, rest)) :
    rest.length ≤ input.length := by
  simp only [readFraction] at read
  split at read
  · simp at read
  · exact Nat.le_trans (readScale_length read) (length_dropWhile_le isDigit input)

theorem finishInteger_length {negative : Bool} {significand : Nat} {input rest : List UInt8}
    {number : Number} (read : finishInteger negative significand input = .ok (number, rest)) :
    rest.length ≤ input.length := by
  unfold finishInteger at read
  split at read
  · split at read
    · simp only [Except.ok.injEq, Prod.mk.injEq] at read
      exact read.2 ▸ Nat.le_refl _
    · exact finishFloat_length read
  · simp only [Except.ok.injEq, Prod.mk.injEq] at read
    exact read.2 ▸ Nat.le_refl _

/-- A numeral takes at least one byte. -/
theorem readNumeral_length {negative : Bool} {input rest : List UInt8} {number : Number}
    (read : readNumeral negative input = .ok (number, rest)) : rest.length < input.length := by
  have parts := congrArg List.length (List.takeWhile_append_dropWhile (p := isDigit) (l := input))
  rw [List.length_append] at parts
  simp only [readNumeral] at read
  split at read
  · simp at read
  · simp at read
  · next none _ =>
      have taken : 0 < (input.takeWhile isDigit).length := List.length_pos_iff.mpr none
      have shorter : rest.length ≤ (input.dropWhile isDigit).length := by
        split at read
        · next fraction point =>
            rw [point]
            exact Nat.le_succ_of_le (readFraction_length read)
        · split at read
          · exact finishInteger_length read
          · exact readScale_length read
      omega

end Tenancy.Json
