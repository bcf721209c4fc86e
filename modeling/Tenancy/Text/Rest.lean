/-!
# What a reader leaves

A reader that took at least one symbol leaves a shorter input. Carrying the fact with the rest is what
makes readers that call each other end.
-/

namespace Tenancy.Text

/-- What is left of an input after at least one symbol was taken. -/
abbrev Rest {α : Type} (input : List α) := { rest : List α // rest.length < input.length }

/-- What is left of a part is left of the whole. -/
def Rest.widen {α : Type} {part input : List α} (fewer : part.length ≤ input.length)
    (rest : Rest part) : Rest input :=
  ⟨rest.val, Nat.lt_of_lt_of_le rest.property fewer⟩

theorem length_dropWhile_le {α : Type} (test : α → Bool) (input : List α) :
    (input.dropWhile test).length ≤ input.length :=
  (List.dropWhile_suffix test).length_le

end Tenancy.Text
