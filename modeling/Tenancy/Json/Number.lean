import Tenancy.Json.Shortest

/-!
# Numbers

A number is an integer or a binary64 number, and which of the two it is shows when it is written: `1`
and `1.0` are different numbers with the same value. `Number.toInt?` is the integer a number denotes.
-/

namespace Tenancy.Json

inductive Number where
  | integer (value : Int)
  | float (value : Binary64)
  deriving DecidableEq

namespace Number

/-- The integer a number denotes: every integer, and a float without a fractional part. -/
def toInt? : Number → Option Int
  | .integer value => some value
  | .float value => value.toInt?

/-- Equality of value. Two floats with fractional parts are equal when they are the same. -/
def sameValue (left right : Number) : Bool :=
  match left.toInt?, right.toInt? with
  | some leftInteger, some rightInteger => leftInteger == rightInteger
  | none, none => left == right
  | _, _ => false

end Number

/-- The exponents `e` for which `d.ddd * 10 ^ e` is written without an exponent. -/
def isPositional (exponent : Int) : Bool :=
  -5 ≤ exponent && exponent ≤ 15

/-- The text of a float from its significant digits and the power of ten of the first one. Without
exponent there is at least one digit after the point; with one, the point goes when nothing follows
it, and the exponent has its sign and no padding. -/
def floatText (digits : List Char) (exponent : Int) : List Char :=
  if isPositional exponent then
    if exponent < 0 then
      '0' :: '.' :: List.replicate (-exponent - 1).toNat '0' ++ digits
    else
      let before := exponent.toNat + 1
      let whole := digits.take before
      let after := digits.drop before
      whole ++ List.replicate (before - whole.length) '0' ++
        '.' :: (if after.isEmpty then ['0'] else after)
  else
    let mantissa :=
      match digits with
      | first :: second :: rest => first :: '.' :: second :: rest
      | short => short
    mantissa ++ 'e' :: (if exponent < 0 then '-' else '+') :: Nat.toDigits 10 exponent.natAbs

/-- The text of a float, by its shortest decimal without the zeros at its end. -/
def Binary64.render (number : Binary64) : String :=
  let decimal := number.shortest
  let digits := Nat.toDigits 10 decimal.digits
  let exponent := decimal.scale + digits.length - 1
  let significant := (digits.reverse.dropWhile (· == '0')).reverse
  let text := floatText (if significant.isEmpty then ['0'] else significant) exponent
  String.ofList (if number.negative then '-' :: text else text)

def renderInteger (value : Int) : String :=
  let digits := Nat.toDigits 10 value.natAbs
  String.ofList (if value < 0 then '-' :: digits else digits)

def Number.render : Number → String
  | .integer value => renderInteger value
  | .float value => value.render

end Tenancy.Json
