import Tenancy.Json.Document
import Tenancy.Proofs.Entries
import Tenancy.Proofs.Json.Place

/-!
# Values that were read

Every object in a value that was read lists its keys in strictly ascending order, whatever order the
document wrote them in and however often (`canonical_of_readDocument`).
-/

namespace Tenancy.Json

open Text

theorem Value.canonical_object_sorted {entries : Object}
    (canonical : ∀ entry ∈ entries, entry.2.Canonical) :
    (Value.object (Entries.sorted entries)).Canonical := by
  refine ⟨Entries.ascending_sorted entries, Value.canonicalEntries_iff.mpr ?_⟩
  intro entry listed
  rcases Entries.mem_or_mem_of_mem_merge listed with none | written
  · cases none
  · exact canonical entry written

theorem canonical_of_valueWord? {letter : UInt8} {word : List UInt8} {value : Value}
    (found : valueWord? letter = some (word, value)) : value.Canonical := by
  simp only [valueWord?, List.lookup_cons, List.lookup_nil] at found
  split at found
  · cases found
    trivial
  · split at found
    · cases found
      trivial
    · split at found
      · cases found
        trivial
      · cases found

theorem canonical_of_readScalar {byte : UInt8} {input : List UInt8} {value : Value}
    {rest : Rest (byte :: input)} (read : readScalar byte input = .ok (value, rest)) :
    value.Canonical := by
  unfold readScalar at read
  split at read
  · next word scalar found =>
      split at read
      · cases read
      · cases read
        exact canonical_of_valueWord? found
  · split at read
    · split at read
      · cases read
      · cases read
        trivial
    · split at read
      · split at read
        · cases read
        · cases read
          trivial
      · split at read
        · split at read
          · cases read
          · cases read
            trivial
        · cases read

mutual

-- The recursion is that of the readers.
theorem canonical_of_readValue {depth : Nat} {input : List UInt8} {value : Value}
    {rest : Rest input} (read : readValue depth input = .ok (value, rest)) : value.Canonical := by
  unfold readValue at read
  dsimp only at read
  split at read
  · cases read
  · next byte more ahead =>
      have fewer := ahead ▸ skipBlanks_length input
      split at read
      · split at read
        · cases read
        · split at read
          · split at read
            · cases read
            · next items after items =>
                cases read
                exact Value.canonicalItems_iff.mpr (canonical_of_readItems items)
          · split at read
            · cases read
            · next entries after entries =>
                cases read
                exact Value.canonical_object_sorted (canonical_of_readEntries entries)
      · split at read
        · cases read
        · next scalar after scalar =>
            cases read
            exact canonical_of_readScalar scalar
  termination_by 2 * input.length
  decreasing_by all_goals grind

theorem canonical_of_readItems {depth : Nat} {first : Bool} {input : List UInt8}
    {items : List Value} {rest : Rest input}
    (read : readItems depth first input = .ok (items, rest)) :
    ∀ item ∈ items, item.Canonical := by
  unfold readItems at read
  split at read
  · cases read
  · cases read
    exact List.forall_mem_nil _
  · next start found =>
      have shorter := start.property
      split at read
      · cases read
      · next item middle reading =>
          have left := middle.property
          split at read
          · cases read
          · next others after remaining =>
              cases read
              exact List.forall_mem_cons.mpr
                ⟨canonical_of_readValue reading, canonical_of_readItems remaining⟩
  termination_by 2 * input.length + 1
  decreasing_by all_goals grind

theorem canonical_of_readEntries {depth : Nat} {first : Bool} {input : List UInt8}
    {entries : Object} {rest : Rest input}
    (read : readEntries depth first input = .ok (entries, rest)) :
    ∀ entry ∈ entries, entry.2.Canonical := by
  unfold readEntries at read
  split at read
  · cases read
  · cases read
    exact List.forall_mem_nil _
  · next start found =>
      have shorter := start.property
      split at read
      · cases read
      · next key afterKey reading =>
          have behind := afterKey.property
          split at read
          · cases read
          · next value middle reading =>
              have left := middle.property
              split at read
              · cases read
              · next others after remaining =>
                  cases read
                  exact List.forall_mem_cons.mpr
                    ⟨canonical_of_readValue reading, canonical_of_readEntries remaining⟩
  termination_by 2 * input.length + 1
  decreasing_by all_goals grind

end

theorem canonical_of_readDocument {source : List UInt8} {value : Value}
    (read : readDocument source = .ok value) : value.Canonical := by
  unfold readDocument at read
  split at read
  · cases read
  · next reading =>
      split at read
      · cases read
        exact canonical_of_readValue reading
      · cases read

end Tenancy.Json
