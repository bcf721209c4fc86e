/-!
# White space

The characters with the Unicode property White_Space, and the two ways a text is read around them:
trimming its ends, and asking whether it holds nothing else.
-/

namespace Tenancy.Text

/-- The White_Space code points outside the two runs U+0009–U+000D and U+2000–U+200A. -/
def isolatedSpaces : List Nat :=
  [0x20, 0x85, 0xA0, 0x1680, 0x2028, 0x2029, 0x202F, 0x205F, 0x3000]

def isWhiteSpace (c : Char) : Bool :=
  (9 ≤ c.toNat && c.toNat ≤ 13) || (0x2000 ≤ c.toNat && c.toNat ≤ 0x200A) ||
    isolatedSpaces.contains c.toNat

/-- Drop what satisfies `test` from both ends. -/
def stripEnds {α : Type} (test : α → Bool) (items : List α) : List α :=
  ((items.dropWhile test).reverse.dropWhile test).reverse

def trim (text : String) : String :=
  String.ofList (stripEnds isWhiteSpace text.toList)

def isBlank (text : String) : Bool :=
  text.toList.all isWhiteSpace

end Tenancy.Text
