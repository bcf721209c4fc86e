/-!
# ASCII case

Comparison that ignores the case of the letters A–Z and of no other character.
-/

namespace Tenancy.Text

def asciiFold (text : String) : List Char :=
  text.toList.map Char.toLower

def asciiLower (text : String) : String :=
  String.ofList (asciiFold text)

/-- Equality up to the case of ASCII letters. -/
def sameIgnoringCase (left right : String) : Bool :=
  asciiFold left == asciiFold right

theorem sameIgnoringCase_iff {left right : String} :
    sameIgnoringCase left right = true ↔ asciiFold left = asciiFold right := by
  simp [sameIgnoringCase]

@[simp]
theorem sameIgnoringCase_refl (text : String) : sameIgnoringCase text text = true := by
  simp [sameIgnoringCase]

theorem sameIgnoringCase_comm (left right : String) :
    sameIgnoringCase left right = sameIgnoringCase right left := by
  rw [Bool.eq_iff_iff, sameIgnoringCase_iff, sameIgnoringCase_iff]
  exact eq_comm

end Tenancy.Text
