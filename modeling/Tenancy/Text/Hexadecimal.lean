/-!
# Hexadecimal digits
-/

namespace Tenancy.Text

def hexDigit? (byte : UInt8) : Option Nat :=
  let code := byte.toNat
  if 0x30 ≤ code ∧ code ≤ 0x39 then some (code - 0x30)
  else if 0x41 ≤ code ∧ code ≤ 0x46 then some (code - 0x41 + 10)
  else if 0x61 ≤ code ∧ code ≤ 0x66 then some (code - 0x61 + 10)
  else none

def hexValue? (digits : List UInt8) : Option Nat :=
  digits.foldlM (fun value digit => (hexDigit? digit).map (value * 16 + ·)) 0

/-- The last `count` lowercase hexadecimal digits of a number. -/
def hexDigits (count value : Nat) : List Char :=
  (List.range count).reverse.map fun place => Nat.digitChar (value / Nat.pow 16 place % 16)

end Tenancy.Text
