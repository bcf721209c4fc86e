import Mathlib.Data.List.Perm.Subperm
import Tenancy.Proofs.Json.Meaning

/-!
# Denotations

What a value denotes, in one place for all ways to write it: a number its rational, an array the
list of what its items denote, an object the map from its keys to what stands under them. Values
that list no key twice are deeply equal exactly when they denote the same
(`Value.deepEqual_decides_denotation`): objects are compared from one side and by their counts,
which is enough because a set of keys has no proper part of its own size
(`Entries.keys_subset_of_length_eq`). How far floats are read as integers does not matter, as long
as every integer that is written lies below (`Number.sameValue_eq_sameWords`).
-/

namespace Tenancy

universe u v

/-- Distinct keys that are all among as many others are all of them. -/
theorem Entries.keys_subset_of_length_eq {α : Type u} {β : Type v} {lefts : Entries α}
    {rights : Entries β} (distinct : (keys lefts).Nodup) (sameCount : lefts.length = rights.length)
    (within : keys lefts ⊆ keys rights) : keys rights ⊆ keys lefts := by
  have upTo : (keys rights).length ≤ (keys lefts).length := by
    simp only [keys, List.length_map, sameCount, Nat.le_refl]
  exact ((List.subperm_of_subset distinct within).perm_of_length_le upTo).symm.subset

theorem Entries.mem_keys_iff_isSome {α : Type u} {entries : Entries α} {key : String} :
    key ∈ keys entries ↔ (find? entries key).isSome := by
  rw [← Decidable.not_iff_not, ← find?_eq_none_iff, Option.not_isSome_iff_eq_none]

namespace Json

/-- A value without regard to how its numbers are written and in what order its keys stand. -/
inductive Meaning where
  | null
  | bool (flag : Bool)
  | number (value : ℚ)
  | string (text : String)
  | array (items : List Meaning)
  | object (find? : String → Option Meaning)

namespace Value

mutual

def denote : Value → Meaning
  | .null => .null
  | .bool flag => .bool flag
  | .number given => .number given.toRat
  | .string text => .string text
  | .array items => .array (denoteItems items)
  | .object entries => .object (denoteEntries entries)

def denoteItems : List Value → List Meaning
  | [] => []
  | item :: rest => item.denote :: denoteItems rest

def denoteEntries : List (String × Value) → String → Option Meaning
  | [], _ => none
  | (key, value) :: rest, sought =>
      if key = sought then some value.denote else denoteEntries rest sought

end

theorem denoteItems_eq_map (items : List Value) : denoteItems items = items.map denote := by
  induction items with
  | nil => rfl
  | cons item rest inductionHypothesis =>
      rw [denoteItems, inductionHypothesis, List.map_cons]

theorem denoteEntries_eq_map_find? (entries : Object) (key : String) :
    denoteEntries entries key = (entries.find? key).map denote := by
  induction entries with
  | nil => rfl
  | cons entry rest inductionHypothesis =>
      obtain ⟨other, value⟩ := entry
      rw [denoteEntries, Entries.find?_cons, inductionHypothesis]
      split <;> rfl

theorem denoteEntries_eq_iff {lefts rights : Object} :
    denoteEntries lefts = denoteEntries rights ↔
      ∀ key, (lefts.find? key).map denote = (rights.find? key).map denote := by
  simp only [funext_iff, denoteEntries_eq_map_find?]

/-- Objects that denote the same map have the same keys, and as many of them. -/
theorem length_eq_of_denoteEntries_eq {lefts rights : Object}
    (leftDistinct : (Entries.keys lefts).Nodup) (rightDistinct : (Entries.keys rights).Nodup)
    (same : ∀ key, (lefts.find? key).map denote = (rights.find? key).map denote) :
    lefts.length = rights.length := by
  have sameKeys (key : String) : key ∈ Entries.keys lefts ↔ key ∈ Entries.keys rights := by
    rw [Entries.mem_keys_iff_isSome, Entries.mem_keys_iff_isSome, ← Option.isSome_map (f := denote),
      same key, Option.isSome_map]
  have permuted := (List.perm_ext_iff_of_nodup leftDistinct rightDistinct).mpr sameKeys
  simpa [Entries.keys] using permuted.length_eq

/-- Comparing every entry of the left object with its like on the right finds all differences, if
there are as many entries on the right. -/
theorem sameMeaning_object_iff_denoteEntries_eq {lefts rights : Object}
    (leftDistinct : (Entries.keys lefts).Nodup) (rightDistinct : (Entries.keys rights).Nodup)
    (ofEntry : ∀ entry ∈ lefts, ∀ right, rights.find? entry.1 = some right →
      (entry.2.SameMeaning right ↔ entry.2.denote = right.denote)) :
    SameMeaning (.object lefts) (.object rights) ↔ denoteEntries lefts = denoteEntries rights := by
  rw [sameMeaning_object_iff, denoteEntries_eq_iff]
  constructor
  · rintro ⟨sameCount, all⟩ key
    have within : Entries.keys lefts ⊆ Entries.keys rights := by
      intro other listed
      obtain ⟨entry, member, rfl⟩ := List.mem_map.mp listed
      obtain ⟨right, found, -⟩ := all entry member
      exact Entries.mem_keys_of_find?_eq_some found
    cases found : Entries.find? lefts key with
    | none =>
        have absent : key ∉ Entries.keys rights := fun listed =>
          Entries.find?_eq_none_iff.mp found
            (Entries.keys_subset_of_length_eq leftDistinct sameCount within listed)
        rw [Entries.find?_eq_none_iff.mpr absent]
    | some left =>
        have member := Entries.mem_of_find?_eq_some found
        obtain ⟨right, present, same⟩ := all _ member
        rw [present, Option.map_some, Option.map_some, (ofEntry _ member right present).mp same]
  · intro same
    refine ⟨length_eq_of_denoteEntries_eq leftDistinct rightDistinct same, ?_⟩
    intro entry member
    have agree := same entry.1
    rw [Entries.find?_eq_some_of_mem leftDistinct member, Option.map_some, eq_comm,
      Option.map_eq_some_iff] at agree
    obtain ⟨right, found, denotes⟩ := agree
    exact ⟨right, found, (ofEntry entry member right found).mpr denotes.symm⟩

theorem forall₂_sameMeaning_iff {lefts rights : List Value}
    (ofItem : ∀ left ∈ lefts, ∀ right ∈ rights,
      (left.SameMeaning right ↔ left.denote = right.denote)) :
    List.Forall₂ SameMeaning lefts rights ↔ denoteItems lefts = denoteItems rights := by
  rw [denoteItems_eq_map, denoteItems_eq_map]
  induction lefts generalizing rights with
  | nil => cases rights <;> simp
  | cons left lefts inductionHypothesis =>
      cases rights with
      | nil => simp
      | cons right rights =>
          have ofRest := inductionHypothesis fun left listed right present =>
            ofItem left (List.mem_cons_of_mem _ listed) right (List.mem_cons_of_mem _ present)
          rw [List.forall₂_cons, ofItem left List.mem_cons_self right List.mem_cons_self, ofRest,
            List.map_cons, List.map_cons, List.cons.injEq]

theorem not_sameMeaning {left right : Value} (differ : left.deepEqual right = false) :
    ¬left.SameMeaning right := by
  rw [← deepEqual_iff, differ]
  exact Bool.false_ne_true

/-- Values that list no key twice mean the same exactly when they denote the same. -/
theorem sameMeaning_iff_denote_eq {left right : Value} (leftCanonical : left.Canonical)
    (rightCanonical : right.Canonical) : left.SameMeaning right ↔ left.denote = right.denote := by
  induction left generalizing right with
  | null =>
      cases right with
      | null => exact iff_of_true .null rfl
      | bool | number | string | array | object =>
          exact iff_of_false (not_sameMeaning rfl) (by simp [denote])
  | bool flag =>
      cases right with
      | bool other =>
          rw [← deepEqual_iff, deepEqual, beq_iff_eq, denote, denote, Meaning.bool.injEq]
      | null | number | string | array | object =>
          exact iff_of_false (not_sameMeaning rfl) (by simp [denote])
  | number given =>
      cases right with
      | number other => rw [sameMeaning_number_iff, denote, denote, Meaning.number.injEq]
      | null | bool | string | array | object =>
          exact iff_of_false (not_sameMeaning rfl) (by simp [denote])
  | string text =>
      cases right with
      | string other =>
          rw [← deepEqual_iff, deepEqual, beq_iff_eq, denote, denote, Meaning.string.injEq]
      | null | bool | number | array | object =>
          exact iff_of_false (not_sameMeaning rfl) (by simp [denote])
  | array lefts inductionHypothesis =>
      cases right with
      | array rights =>
          rw [Canonical, canonicalItems_iff] at leftCanonical rightCanonical
          rw [sameMeaning_array_iff, denote, denote, Meaning.array.injEq]
          exact forall₂_sameMeaning_iff fun left listed right present =>
            inductionHypothesis left listed (leftCanonical left listed)
              (rightCanonical right present)
      | null | bool | number | string | object =>
          exact iff_of_false (not_sameMeaning rfl) (by simp [denote])
  | object lefts inductionHypothesis =>
      cases right with
      | object rights =>
          rw [denote, denote, Meaning.object.injEq]
          have leftEntries := leftCanonical
          rw [Canonical, canonicalEntries_iff] at leftEntries
          refine sameMeaning_object_iff_denoteEntries_eq leftEntries.1.nodup
            rightCanonical.1.nodup fun entry member right found => ?_
          exact inductionHypothesis entry member (leftEntries.2 entry member)
            (canonical_of_find? rightCanonical found)
      | null | bool | number | string | array =>
          exact iff_of_false (not_sameMeaning rfl) (by simp [denote])

end Value

/-! ### Floats past the integers that are written -/

namespace Number

/-- The bound below which floats may be read as integers. -/
def wordBound : Nat := 2 ^ 64

/-- Integers that are written in 64 bits, with a sign or without; floats of any size. -/
def FitsWord : Number → Prop
  | .integer value => -2 ^ 63 ≤ value ∧ value < 2 ^ 64
  | .float _ => True

/-- The integer a number denotes, where a float denotes one only below the bound. -/
def toWord? : Number → Option Int
  | .integer value => some value
  | .float value => value.toInt?.filter (·.natAbs < wordBound)

/-- Equality of value by integers below the bound, and of floats by what they denote above it. -/
def sameWords (left right : Number) : Bool :=
  match left.toWord?, right.toWord? with
  | some leftInteger, some rightInteger => leftInteger == rightInteger
  | none, none => left.toRat = right.toRat
  | _, _ => false

theorem toWord?_eq_filter {number : Number} (fits : number.FitsWord) :
    number.toWord? = number.toInt?.filter (·.natAbs < wordBound) := by
  cases number with
  | integer value =>
      have below : value.natAbs < wordBound := by
        simp only [FitsWord] at fits
        simp only [wordBound]
        omega
      simp [toWord?, toInt?, Option.filter, below]
  | float value => rfl

theorem toRat_of_toWord?_eq_some {number : Number} {value : Int}
    (found : number.toWord? = some value) : number.toRat = value := by
  cases number with
  | integer given => exact toInt?_eq_some_iff.mp found
  | float given => exact toInt?_eq_some_iff.mp (Option.filter_eq_some_iff.mp found).1

/-- The bound changes no answer. -/
theorem sameValue_eq_sameWords {left right : Number} (leftFits : left.FitsWord)
    (rightFits : right.FitsWord) : left.sameValue right = left.sameWords right := by
  rw [Bool.eq_iff_iff, sameValue_iff, sameWords]
  split
  · next value other isValue isOther =>
      rw [toRat_of_toWord?_eq_some isValue, toRat_of_toWord?_eq_some isOther, beq_iff_eq]
      exact_mod_cast Iff.rfl
  · exact decide_eq_true_iff.symm
  · next notBoth notNeither =>
      refine iff_of_false (fun same => ?_) Bool.false_ne_true
      have words : left.toWord? = right.toWord? := by
        rw [toWord?_eq_filter leftFits, toWord?_eq_filter rightFits, toInt?_eq_of_toRat_eq same]
      cases found : left.toWord? with
      | none => exact notNeither found (words ▸ found)
      | some value => exact notBoth value value found (words ▸ found)

end Number

namespace Value

/-- Deep equality of values that list no key twice is equality of what they denote, so it is an
equivalence; among numbers it tells integers apart, and an integer from every float that does not
denote it; and it is the same with a bound on the floats that are read as integers. -/
theorem deepEqual_decides_denotation :
    (∀ left right : Value, left.Canonical → right.Canonical →
      (left.deepEqual right = true ↔ left.denote = right.denote)) ∧
    Equivalence (fun left right : { value : Value // value.Canonical } =>
      left.val.deepEqual right.val = true) ∧
    (∀ first second : Int,
      deepEqual (.number (.integer first)) (.number (.integer second)) = true ↔ first = second) ∧
    (∀ (whole : Int) (float : Binary64),
      deepEqual (.number (.integer whole)) (.number (.float float)) = true ↔
        float.toRat = whole) ∧
    ∀ left right : Number, left.FitsWord → right.FitsWord →
      deepEqual (.number left) (.number right) = left.sameWords right := by
  have decides {left right : Value} (leftCanonical : left.Canonical)
      (rightCanonical : right.Canonical) :
      left.deepEqual right = true ↔ left.denote = right.denote :=
    deepEqual_iff.trans (sameMeaning_iff_denote_eq leftCanonical rightCanonical)
  refine ⟨fun _ _ => decides, ⟨?reflexive, ?symmetric, ?transitive⟩, ?integers, ?floats, ?bounded⟩
  case reflexive => exact fun value => (decides value.property value.property).mpr rfl
  case symmetric =>
    intro left right same
    have denotes := (decides left.property right.property).mp same
    exact (decides right.property left.property).mpr denotes.symm
  case transitive =>
    intro left middle right same again
    have denotes := (decides left.property middle.property).mp same
    have further := (decides middle.property right.property).mp again
    exact (decides left.property right.property).mpr (denotes.trans further)
  case integers =>
    intro first second
    rw [deepEqual, Number.sameValue_iff, Number.toRat, Number.toRat]
    exact_mod_cast Iff.rfl
  case floats =>
    intro whole float
    rw [deepEqual, Number.sameValue_iff, Number.toRat, Number.toRat, eq_comm]
  case bounded =>
    intro left right leftFits rightFits
    rw [deepEqual, Number.sameValue_eq_sameWords leftFits rightFits]

/-- One and zero in a list, as integers. -/
def amounts : Value :=
  .object [("amounts", .array [ofNat 1, ofNat 0]), ("unit", .string "g")]

/-- The same as floats, the zero with a sign. -/
def floatAmounts : Value :=
  .object [("amounts", .array [.number (.float ⟨false, 2 ^ 52, -52, by decide⟩),
    .number (.float (.zero true))]), ("unit", .string "g")]

theorem deepEqual_decides_denotation_amounts :
    amounts.Canonical ∧ floatAmounts.Canonical ∧ amounts.deepEqual floatAmounts = true ∧
      amounts.denote = floatAmounts.denote ∧ (Number.integer (2 ^ 64 - 1)).FitsWord ∧
      deepEqual (.number (.integer (2 ^ 64 - 1)))
        (.number (.float ⟨false, 2 ^ 52, 12, by decide⟩)) = false := by
  have ascending : ["amounts", "unit"].Pairwise (· < ·) := by decide
  have canonical : amounts.Canonical := ⟨ascending, ⟨trivial, trivial, trivial⟩, trivial, trivial⟩
  have floatCanonical : floatAmounts.Canonical :=
    ⟨ascending, ⟨trivial, trivial, trivial⟩, trivial, trivial⟩
  have same : amounts.deepEqual floatAmounts = true := by decide +kernel
  have fits : (Number.integer (2 ^ 64 - 1)).FitsWord := ⟨by decide, by decide⟩
  obtain ⟨decides, -, -, -, bounded⟩ := deepEqual_decides_denotation
  refine ⟨canonical, floatCanonical, same, (decides _ _ canonical floatCanonical).mp same, fits, ?_⟩
  rw [bounded _ (.float ⟨false, 2 ^ 52, 12, by decide⟩) fits trivial]
  decide +kernel

end Value

end Json

end Tenancy
