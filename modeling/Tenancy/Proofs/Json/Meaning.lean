import Mathlib.Algebra.Order.Field.Power
import Mathlib.Data.List.Forall2
import Mathlib.Data.Rat.Cast.Order
import Mathlib.Tactic.Positivity
import Mathlib.Tactic.Ring
import Tenancy.Proofs.Json.Place

/-!
# What values mean

A number denotes a rational: an integer itself, a float its significand times its power of two.
`Number.sameValue_iff` says that numbers are compared by what they denote, however they are written,
and `Value.deepEqual_iff` that values are: scalars by meaning, arrays item by item, objects key by
key (`Value.SameMeaning`).
-/

namespace Tenancy.Json

namespace Binary64

variable {number left right : Binary64}

/-- The number without its sign. -/
def magnitude (number : Binary64) : ℚ :=
  number.significand * 2 ^ number.exponent

def toRat (number : Binary64) : ℚ :=
  if number.negative then -number.magnitude else number.magnitude

theorem magnitude_nonneg (number : Binary64) : 0 ≤ number.magnitude := by
  unfold magnitude
  positivity

theorem fraction_denominator_pos (number : Binary64) : 0 < number.fraction.2 :=
  Nat.two_pow_pos _

theorem magnitude_eq_div (number : Binary64) :
    number.magnitude = number.fraction.1 / number.fraction.2 := by
  have split : (number.exponent.toNat : Int) - (-number.exponent).toNat = number.exponent := by
    omega
  have power : (2 : ℚ) ^ number.exponent =
      2 ^ number.exponent.toNat / 2 ^ (-number.exponent).toNat := by
    rw [← zpow_natCast, ← zpow_natCast, ← zpow_sub₀ two_ne_zero, split]
  simp only [magnitude, power, fraction, Nat.pow_eq]
  push_cast
  exact (mul_div_assoc _ _ _).symm

theorem magnitude_eq_natCast_iff {value : Nat} :
    number.magnitude = value ↔ number.fraction.1 = value * number.fraction.2 := by
  have positive : (number.fraction.2 : ℚ) ≠ 0 := by
    exact_mod_cast number.fraction_denominator_pos.ne'
  rw [magnitude_eq_div, div_eq_iff positive]
  exact_mod_cast Iff.rfl

theorem toInt?_eq (number : Binary64) : number.toInt? =
    if number.fraction.2 ∣ number.fraction.1 then
      some (if number.negative then -((number.fraction.1 : Int) / number.fraction.2)
        else (number.fraction.1 : Int) / number.fraction.2)
    else none := rfl

theorem abs_toRat (number : Binary64) : |number.toRat| = number.magnitude := by
  unfold toRat
  split <;> simp [abs_of_nonneg number.magnitude_nonneg]

/-- A float is read as the integer it denotes, if it denotes one. -/
theorem toInt?_eq_some_iff {value : Int} : number.toInt? = some value ↔ number.toRat = value := by
  rw [toInt?_eq]
  split
  · next divides =>
      obtain ⟨quotient, whole⟩ := divides
      have positive := number.fraction_denominator_pos
      have quotient_eq : ((number.fraction.1 : Int) / number.fraction.2) = quotient := by
        rw [whole, Int.natCast_mul, Int.mul_ediv_cancel_left _ (by omega)]
      have magnitude_eq : number.magnitude = quotient :=
        magnitude_eq_natCast_iff.mpr (by rw [whole, Nat.mul_comm])
      rw [quotient_eq, toRat, magnitude_eq, Option.some.injEq]
      cases number.negative
      · simp only [Bool.false_eq_true, if_false]
        exact_mod_cast Iff.rfl
      · simp only [if_true]
        exact_mod_cast Iff.rfl
  · next broken =>
      refine iff_of_false (by simp) fun denotes => broken ?_
      have magnitude_eq : number.magnitude = (value.natAbs : ℚ) := by
        rw [← abs_toRat, denotes, Nat.cast_natAbs, Int.cast_abs]
      exact ⟨value.natAbs, by rw [magnitude_eq_natCast_iff.mp magnitude_eq, Nat.mul_comm]⟩

theorem significand_eq_of_exponent_le (same : left.magnitude = right.magnitude)
    (upTo : left.exponent ≤ right.exponent) :
    left.significand = right.significand * 2 ^ (right.exponent - left.exponent).toNat := by
  have steps : right.exponent = left.exponent + (right.exponent - left.exponent).toNat := by omega
  have scaled : (left.significand : ℚ) * 2 ^ left.exponent =
      right.significand * 2 ^ (right.exponent - left.exponent).toNat * 2 ^ left.exponent := by
    calc (left.significand : ℚ) * 2 ^ left.exponent
        = right.significand * 2 ^ right.exponent := same
      _ = right.significand * 2 ^ (left.exponent + (right.exponent - left.exponent).toNat) := by
          rw [← steps]
      _ = _ := by rw [zpow_add₀ two_ne_zero, zpow_natCast]; ring
  have positive : (2 : ℚ) ^ left.exponent ≠ 0 := by positivity
  exact_mod_cast mul_right_cancel₀ positive scaled

/-- Of two floats with one magnitude, neither has the lower exponent: it would need more bits. -/
theorem exponent_le_of_magnitude_eq (same : left.magnitude = right.magnitude) :
    right.exponent ≤ left.exponent := by
  by_contra below
  have shifted := significand_eq_of_exponent_le same (by omega)
  obtain ⟨fits, least, -, -⟩ := left.canonical
  obtain ⟨-, -, -, normal | lowest⟩ := right.canonical
  · have double : 2 ≤ 2 ^ (right.exponent - left.exponent).toNat := by
      calc 2 = 2 ^ 1 := rfl
        _ ≤ _ := Nat.pow_le_pow_right (by omega) (by omega)
    have tooLarge := Nat.mul_le_mul normal double
    rw [← shifted] at tooLarge
    simp only [Nat.pow_eq] at tooLarge fits
    omega
  · omega

/-- A magnitude has one significand and one exponent. -/
theorem eq_of_magnitude_eq (same : left.magnitude = right.magnitude) :
    left.significand = right.significand ∧ left.exponent = right.exponent := by
  have exponents : left.exponent = right.exponent :=
    Int.le_antisymm (exponent_le_of_magnitude_eq same.symm) (exponent_le_of_magnitude_eq same)
  have significands := significand_eq_of_exponent_le same exponents.le
  simp only [exponents, sub_self, Int.toNat_zero, pow_zero, Nat.mul_one] at significands
  exact ⟨significands, exponents⟩

/-- Floats that denote the same rational are the same, but for the sign of a zero. -/
theorem eq_of_toRat_eq (same : left.toRat = right.toRat) (nonzero : left.toRat ≠ 0) :
    left = right := by
  have magnitudes : left.magnitude = right.magnitude := by rw [← abs_toRat, same, abs_toRat]
  obtain ⟨significands, exponents⟩ := eq_of_magnitude_eq magnitudes
  have signs : left.negative = right.negative := by
    unfold toRat at same nonzero
    cases isLeft : left.negative <;> cases isRight : right.negative <;>
      simp_all [neg_eq_self, self_eq_neg]
  obtain ⟨_, _, _, _⟩ := left
  obtain ⟨_, _, _, _⟩ := right
  simp_all

end Binary64

namespace Number

def toRat : Number → ℚ
  | .integer value => value
  | .float value => value.toRat

theorem toInt?_eq_some_iff {number : Number} {value : Int} :
    number.toInt? = some value ↔ number.toRat = value := by
  cases number with
  | integer given =>
      rw [toInt?, toRat, Option.some.injEq]
      exact_mod_cast Iff.rfl
  | float given => exact Binary64.toInt?_eq_some_iff

theorem toInt?_eq_of_toRat_eq {left right : Number} (same : left.toRat = right.toRat) :
    left.toInt? = right.toInt? := by
  ext value
  rw [toInt?_eq_some_iff, toInt?_eq_some_iff, same]

/-- Numbers that denote the same rational, but no integer, are the same float. -/
theorem eq_of_toRat_eq {left right : Number} (same : left.toRat = right.toRat)
    (broken : left.toInt? = none) : left = right := by
  have otherBroken : right.toInt? = none := (toInt?_eq_of_toRat_eq same).symm.trans broken
  cases left with
  | integer value => exact nomatch broken
  | float value =>
      cases right with
      | integer other => exact nomatch otherBroken
      | float other =>
          have nonzero : value.toRat ≠ 0 := by
            intro zero
            have whole : value.toInt? = some 0 := Binary64.toInt?_eq_some_iff.mpr (by simpa)
            exact nomatch whole.symm.trans broken
          exact congrArg float (Binary64.eq_of_toRat_eq same nonzero)

/-- Numbers are compared by the rationals they denote. -/
theorem sameValue_iff {left right : Number} :
    left.sameValue right = true ↔ left.toRat = right.toRat := by
  unfold sameValue
  split
  · next value other isValue isOther =>
      rw [toInt?_eq_some_iff.mp isValue, toInt?_eq_some_iff.mp isOther, beq_iff_eq]
      exact_mod_cast Iff.rfl
  · next broken otherBroken =>
      rw [beq_iff_eq]
      exact ⟨congrArg toRat, fun same => eq_of_toRat_eq same broken⟩
  · next notBoth notNeither =>
      refine iff_of_false Bool.false_ne_true fun same => ?_
      have integers := toInt?_eq_of_toRat_eq same
      cases found : left.toInt? with
      | none => exact notNeither found (integers ▸ found)
      | some value => exact notBoth value value found (integers ▸ found)

end Number

namespace Value

/-- Two values mean the same: equal scalars, numbers that denote the same rational, arrays with the
same items one by one, and objects with as many entries of which each entry of the one has its like
under the same key of the other. -/
inductive SameMeaning : Value → Value → Prop where
  | null : SameMeaning .null .null
  | bool (flag : Bool) : SameMeaning (.bool flag) (.bool flag)
  | number {left right : Number} : left.toRat = right.toRat →
      SameMeaning (.number left) (.number right)
  | string (text : String) : SameMeaning (.string text) (.string text)
  | array {lefts rights : List Value} : List.Forall₂ SameMeaning lefts rights →
      SameMeaning (.array lefts) (.array rights)
  | object {lefts rights : Object} : lefts.length = rights.length →
      (∀ entry ∈ lefts, entry.1 ∈ Entries.keys rights) →
      (∀ entry ∈ lefts, ∀ right, rights.find? entry.1 = some right → SameMeaning entry.2 right) →
      SameMeaning (.object lefts) (.object rights)

theorem deepEqualItems_iff {lefts rights : List Value}
    (ofItem : ∀ left ∈ lefts, ∀ right, left.deepEqual right = true ↔ left.SameMeaning right) :
    deepEqualItems lefts rights = true ↔ List.Forall₂ SameMeaning lefts rights := by
  induction lefts generalizing rights with
  | nil => cases rights <;> simp [deepEqualItems]
  | cons left lefts inductionHypothesis =>
      obtain ⟨ofLeft, ofLefts⟩ := List.forall_mem_cons.mp ofItem
      cases rights with
      | nil => simp [deepEqualItems]
      | cons right rights =>
          rw [deepEqualItems, Bool.and_eq_true, ofLeft, inductionHypothesis ofLefts,
            List.forall₂_cons]

theorem deepEqualEntries_iff {lefts rights : Object} : deepEqualEntries lefts rights = true ↔
    ∀ entry ∈ lefts, ∃ right, rights.find? entry.1 = some right ∧
      entry.2.deepEqual right = true := by
  induction lefts with
  | nil => simp [deepEqualEntries]
  | cons entry lefts inductionHypothesis =>
      obtain ⟨key, left⟩ := entry
      rw [deepEqualEntries, Bool.and_eq_true, inductionHypothesis, List.forall_mem_cons]
      cases Entries.find? rights key <;> simp

theorem sameMeaning_number_iff {left right : Number} :
    SameMeaning (.number left) (.number right) ↔ left.toRat = right.toRat :=
  ⟨fun | .number same => same, .number⟩

theorem sameMeaning_array_iff {lefts rights : List Value} :
    SameMeaning (.array lefts) (.array rights) ↔ List.Forall₂ SameMeaning lefts rights :=
  ⟨fun | .array same => same, .array⟩

theorem sameMeaning_object_iff {lefts rights : Object} :
    SameMeaning (.object lefts) (.object rights) ↔ lefts.length = rights.length ∧
      ∀ entry ∈ lefts, ∃ right, rights.find? entry.1 = some right ∧
        SameMeaning entry.2 right := by
  constructor
  · rintro (_ | _ | _ | _ | _ | ⟨sameCount, sameKeys, sameValues⟩)
    refine ⟨sameCount, fun entry member => ?_⟩
    cases found : Entries.find? rights entry.1 with
    | none => exact absurd (sameKeys entry member) (Entries.find?_eq_none_iff.mp found)
    | some right => exact ⟨right, rfl, sameValues entry member right found⟩
  · rintro ⟨sameCount, all⟩
    refine .object sameCount ?_ ?_
    · intro entry member
      obtain ⟨right, found, -⟩ := all entry member
      exact Entries.mem_keys_of_find?_eq_some found
    · intro entry member right found
      obtain ⟨other, present, same⟩ := all entry member
      exact Option.some.inj (present.symm.trans found) ▸ same

/-- Deep equality decides equality of meaning. -/
theorem deepEqual_iff {left right : Value} :
    left.deepEqual right = true ↔ left.SameMeaning right := by
  induction left generalizing right with
  | null =>
      cases right with
      | null => exact iff_of_true rfl .null
      | bool | number | string | array | object => exact iff_of_false Bool.false_ne_true nofun
  | bool flag =>
      cases right with
      | bool other =>
          rw [deepEqual, beq_iff_eq]
          exact ⟨fun same => same ▸ .bool flag, fun | .bool _ => rfl⟩
      | null | number | string | array | object => exact iff_of_false Bool.false_ne_true nofun
  | number given =>
      cases right with
      | number other => rw [deepEqual, Number.sameValue_iff, sameMeaning_number_iff]
      | null | bool | string | array | object => exact iff_of_false Bool.false_ne_true nofun
  | string text =>
      cases right with
      | string other =>
          rw [deepEqual, beq_iff_eq]
          exact ⟨fun same => same ▸ .string text, fun | .string _ => rfl⟩
      | null | bool | number | array | object => exact iff_of_false Bool.false_ne_true nofun
  | array lefts inductionHypothesis =>
      cases right with
      | array rights =>
          rw [deepEqual, sameMeaning_array_iff]
          exact deepEqualItems_iff fun left member right => inductionHypothesis left member
      | null | bool | number | string | object => exact iff_of_false Bool.false_ne_true nofun
  | object lefts inductionHypothesis =>
      cases right with
      | object rights =>
          rw [deepEqual, Bool.and_eq_true, beq_iff_eq, deepEqualEntries_iff,
            sameMeaning_object_iff]
          refine and_congr_right fun _ => forall₂_congr fun entry member => ?_
          simp only [inductionHypothesis entry member]
      | null | bool | number | string | array => exact iff_of_false Bool.false_ne_true nofun

end Value

end Tenancy.Json
