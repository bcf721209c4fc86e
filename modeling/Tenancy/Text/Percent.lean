import Tenancy.Text.Hexadecimal
import Tenancy.Text.Utf8

/-!
# Percent encoding

A byte may be written as a percent sign and two hexadecimal digits. A percent sign that no such pair
follows stands for itself.
-/

namespace Tenancy.Text

/-- The bytes that an encoded text stands for. -/
def percentBytes : List UInt8 → List UInt8
  | [] => []
  | 0x25 :: high :: low :: rest =>
      match hexValue? [high, low] with
      | some value => UInt8.ofNat value :: percentBytes rest
      | none => 0x25 :: percentBytes (high :: low :: rest)
  | byte :: rest => byte :: percentBytes rest

/-- The text that an encoded text stands for, if its bytes are UTF-8. -/
def percentDecode? (encoded : String) : Option String :=
  decodeUtf8? (percentBytes (utf8Bytes encoded))

end Tenancy.Text
