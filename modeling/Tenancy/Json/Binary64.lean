/-!
# Binary64 numbers

Finite IEEE 754 binary64 numbers as a sign, a significand and a power of two, with the one canonical
pair for each magnitude, so that equal fields mean the same bits. Rounding takes an exact quotient of
natural numbers to its nearest neighbour, ties to the even significand; products and quotients are the
exact ones, rounded.
-/

namespace Tenancy.Json

/-- The pairs of significand and exponent that denote a finite magnitude, one pair each: normal
numbers have 53 significant bits, the rest the least exponent. -/
def IsBinary64 (significand : Nat) (exponent : Int) : Prop :=
  significand < Nat.pow 2 53 ∧ -1074 ≤ exponent ∧ exponent ≤ 971 ∧
    (Nat.pow 2 52 ≤ significand ∨ exponent = -1074)

instance (significand : Nat) (exponent : Int) : Decidable (IsBinary64 significand exponent) :=
  inferInstanceAs (Decidable (_ ∧ _))

/-- A finite binary64 number: `significand * 2 ^ exponent` with a sign, zero included. -/
structure Binary64 where
  negative : Bool
  significand : Nat
  exponent : Int
  canonical : IsBinary64 significand exponent
  deriving DecidableEq

namespace Binary64

def zero (negative : Bool) : Binary64 :=
  ⟨negative, 0, -1074, by decide⟩

def isZero (number : Binary64) : Bool :=
  number.significand == 0

def negate (number : Binary64) : Binary64 :=
  { number with negative := !number.negative }

def fraction (number : Binary64) : Nat × Nat :=
  (number.significand * Nat.pow 2 number.exponent.toNat, Nat.pow 2 (-number.exponent).toNat)

def toInt? (number : Binary64) : Option Int :=
  let (numerator, denominator) := number.fraction
  if denominator ∣ numerator then
    let magnitude : Int := numerator / denominator
    some (if number.negative then -magnitude else magnitude)
  else none

/-- `numerator / denominator` in units of `2 ^ exponent`, a half going to the even neighbour. -/
def roundUnits (numerator denominator : Nat) (exponent : Int) : Nat :=
  let scaled := numerator * Nat.pow 2 (-exponent).toNat
  let unit := denominator * Nat.pow 2 exponent.toNat
  let floor := scaled / unit
  let twice := 2 * (scaled % unit)
  if twice < unit ∨ (twice = unit ∧ floor % 2 = 0) then floor else floor + 1

/-- The exponent that leaves the quotient 53 bits before its point, or the least exponent. -/
def unitExponent (numerator denominator : Nat) : Int :=
  let guess : Int := (numerator.log2 : Int) - denominator.log2 - 53
  let fits :=
    numerator * Nat.pow 2 (-guess).toNat < denominator * Nat.pow 2 guess.toNat * Nat.pow 2 53
  if numerator = 0 then -1074 else max (-1074) (if fits then guess else guess + 1)

/-- The number nearest to a quotient, a tie going to the even significand. None when it would be
past the largest finite one. -/
def round (negative : Bool) (numerator denominator : Nat) : Option Binary64 :=
  let exponent := unitExponent numerator denominator
  let significand := roundUnits numerator denominator exponent
  let (significand, exponent) :=
    if significand = Nat.pow 2 53 then (Nat.pow 2 52, exponent + 1) else (significand, exponent)
  if canonical : IsBinary64 significand exponent then
    some ⟨negative, significand, exponent, canonical⟩
  else none

def ofNat (value : Nat) : Option Binary64 :=
  round false value 1

def mul (left right : Binary64) : Option Binary64 :=
  let (leftNumerator, leftDenominator) := left.fraction
  let (rightNumerator, rightDenominator) := right.fraction
  round (left.negative ^^ right.negative) (leftNumerator * rightNumerator)
    (leftDenominator * rightDenominator)

/-- The rounded quotient by a number that is not zero. -/
def div (left right : Binary64) : Option Binary64 :=
  let (leftNumerator, leftDenominator) := left.fraction
  let (rightNumerator, rightDenominator) := right.fraction
  round (left.negative ^^ right.negative) (leftNumerator * rightDenominator)
    (leftDenominator * rightNumerator)

end Binary64

end Tenancy.Json
