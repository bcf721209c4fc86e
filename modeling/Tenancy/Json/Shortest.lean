import Tenancy.Json.Binary64

/-!
# Shortest decimal digits

The fewest decimal digits that round back to a binary64 number, and of those the nearest ones. The
values between the midpoints to both neighbours round to a number, the midpoints themselves when its
significand is even. If a decimal with some count of digits lies in that interval, so does one of the
two around the number, hence only these are tried.
-/

namespace Tenancy.Json

structure Decimal where
  digits : Nat
  scale : Int
  deriving DecidableEq

def Decimal.fraction (decimal : Decimal) : Nat × Nat :=
  (decimal.digits * Nat.pow 10 decimal.scale.toNat, Nat.pow 10 (-decimal.scale).toNat)

/-- The position of the first digit of a positive quotient: the largest power of ten not above it. -/
def decimalExponent (numerator denominator : Nat) : Int :=
  let whole := numerator / denominator
  if 0 < whole then (Nat.toDigits 10 whole).length - 1
  else -(Nat.toDigits 10 ((denominator - 1) / numerator)).length

namespace Binary64

/-- The distances to the midpoints below and above, in quarters of the significand's unit. -/
def margins (number : Binary64) : Nat × Nat :=
  if number.significand = Nat.pow 2 52 ∧ -1074 < number.exponent then (1, 2) else (2, 2)

/-- Whether a decimal rounds to the magnitude of a number. -/
def rereads (number : Binary64) (decimal : Decimal) : Bool :=
  let (numerator, denominator) := decimal.fraction
  let (below, above) := number.margins
  let value := 4 * numerator * Nat.pow 2 (-number.exponent).toNat
  let unit := denominator * Nat.pow 2 number.exponent.toNat
  let low := (4 * number.significand - below) * unit
  let high := (4 * number.significand + above) * unit
  if number.significand % 2 = 0 then low ≤ value && value ≤ high
  else low < value && value < high

/-- Of two decimals around a magnitude the nearer one, of equally near ones the even one. -/
def nearer (number : Binary64) (lower upper : Decimal) : Decimal :=
  let (numerator, denominator) := number.fraction
  let (lowNumerator, lowDenominator) := lower.fraction
  let (highNumerator, highDenominator) := upper.fraction
  let twice := 2 * numerator * (lowDenominator * highDenominator)
  let sum := (lowNumerator * highDenominator + highNumerator * lowDenominator) * denominator
  if twice < sum ∨ (twice = sum ∧ lower.digits % 2 = 0) then lower else upper

/-- The best decimal with `count` digits that rounds to the magnitude, if there is one. -/
def withDigits? (number : Binary64) (count : Nat) : Option Decimal :=
  let (numerator, denominator) := number.fraction
  let scale := decimalExponent numerator denominator - count + 1
  let floor := numerator * Nat.pow 10 (-scale).toNat / (denominator * Nat.pow 10 scale.toNat)
  let lower : Decimal := ⟨floor, scale⟩
  let upper : Decimal := ⟨floor + 1, scale⟩
  match number.rereads lower, number.rereads upper with
  | true, true => some (number.nearer lower upper)
  | true, false => some lower
  | false, true => some upper
  | false, false => none

/-- The shortest decimal that rounds to the magnitude; seventeen digits always suffice. -/
def shortest (number : Binary64) : Decimal :=
  if number.isZero then ⟨0, 0⟩
  else ((List.range' 1 17).findSome? number.withDigits?).getD ⟨0, 0⟩

end Binary64

end Tenancy.Json
