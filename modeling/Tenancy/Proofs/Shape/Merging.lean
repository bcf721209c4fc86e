import Tenancy.Proofs.Shape.Conformance
import Tenancy.Proofs.Shape.Intersection

/-!
# Merged objects

What an intersection of objects gives for an object is merged from what each of them gives
(`Shape.Merges`). It has the declared keys that were there (`Shape.Merges.mem_keys_iff`), and under
a name it has the output of the last object to declare it (`Shape.Merges.exists_of_final`). So an
object comes back as it is exactly if all its keys are declared and no such field changes its value
(`Shape.Merges.eq_iff`).
-/

namespace Tenancy

open Json

namespace Shape

/-- The outputs of objects for a whole, and what they are merged to. -/
structure Merges (objects : List ObjectShape) (whole : Object) (output : ObjectShape → Object)
    (merged : Object) : Prop where
  prunes : ∀ object ∈ objects, Prunes object.fields whole (output object)
  combines : combine ((objects.map output).map .object) = some (.object merged)

/-- A field of an object whose name no later object declares anew. -/
structure Final (objects : List ObjectShape) (object : ObjectShape) (field : Field Shape) :
    Prop where
  listed : field ∈ object.fields
  last : ∃ before after, objects = before ++ object :: after ∧
    ∀ later ∈ after, field.name ∉ later.names

variable {objects : List ObjectShape} {object : ObjectShape} {field : Field Shape}

theorem Final.mem (final : Final objects object field) : object ∈ objects := by
  obtain ⟨before, after, rfl, -⟩ := final.last
  simp

theorem exists_final {name : String} (declared : ∃ object ∈ objects, name ∈ object.names) :
    ∃ object field, Final objects object field ∧ field.name = name := by
  induction objects with
  | nil => simp at declared
  | cons first rest inductionHypothesis =>
      by_cases later : ∃ object ∈ rest, name ∈ object.names
      · obtain ⟨object, field, ⟨listed, before, after, rfl, undeclared⟩, named⟩ :=
          inductionHypothesis later
        exact ⟨object, field, ⟨listed, first :: before, after, rfl, undeclared⟩, named⟩
      · obtain ⟨object, member, declares⟩ := declared
        rcases List.mem_cons.mp member with rfl | member
        · obtain ⟨field, listed, rfl⟩ := List.mem_map.mp declares
          refine ⟨object, field, ⟨listed, [], rest, rfl, ?_⟩, rfl⟩
          exact fun other member named => later ⟨other, member, named⟩
        · exact absurd ⟨object, member, declares⟩ later

theorem prune?_objects_eq_some_iff (nonempty : objects ≠ []) {input : Option Value}
    {pruned : Value} :
    (intersection (objects.map ObjectShape.toShape)).prune? input = some pruned ↔
      ∃ whole output merged, input = some (.object whole) ∧
        Merges objects whole output merged ∧ .object merged = pruned := by
  rw [prune?_intersection_objects_eq_some_iff nonempty]
  constructor
  · rintro ⟨whole, merged, output, isObject, prunes, combines, same⟩
    exact ⟨whole, output, merged, isObject, ⟨prunes, combines⟩, same⟩
  · rintro ⟨whole, output, merged, isObject, ⟨prunes, combines⟩, same⟩
    exact ⟨whole, merged, output, isObject, prunes, combines, same⟩

namespace Merges

variable {whole merged : Object} {output : ObjectShape → Object}

theorem ascending_outputs (merges : Merges objects whole output merged) :
    ∀ source ∈ objects.map output, Entries.Ascending source :=
  List.forall_mem_map.mpr fun object member => (merges.prunes object member).ascending

theorem ascending (merges : Merges objects whole output merged) : Entries.Ascending merged := by
  have nonempty : objects.map output ≠ [] := by
    intro empty
    have combines := merges.combines
    rw [empty] at combines
    exact nomatch combines
  obtain ⟨_, combined, ascending, -⟩ := combine_objects nonempty merges.ascending_outputs
  obtain ⟨rfl⟩ := merges.combines.symm.trans combined
  exact ascending

theorem mem_keys_iff (merges : Merges objects whole output merged) (key : String) :
    key ∈ Entries.keys merged ↔
      (∃ object ∈ objects, key ∈ object.names) ∧ key ∈ Entries.keys whole := by
  have ofObject : (∃ object ∈ objects, key ∈ Entries.keys (output object)) ↔
      ∃ object ∈ objects, key ∈ object.names ∧ key ∈ Entries.keys whole :=
    exists_congr fun object => and_congr_right fun member =>
      (merges.prunes object member).mem_keys_iff key
  simp only [← and_assoc, exists_and_right] at ofObject
  rw [← ofObject, ← not_iff_not, ← Entries.find?_eq_none_iff,
    find?_merged merges.ascending_outputs merges.combines, List.findSome?_eq_none_iff]
  simp [Entries.find?_eq_none_iff]

theorem declared (merges : Merges objects whole output merged) :
    ∀ key ∈ Entries.keys merged, ∃ object ∈ objects, key ∈ object.names :=
  fun key listed => ((merges.mem_keys_iff key).mp listed).1

/-- The objects give something under a declared name exactly if there was something. -/
theorem find?_eq_none_iff (merges : Merges objects whole output merged) (member : object ∈ objects)
    (listed : field ∈ object.fields) :
    merged.find? field.name = none ↔ whole.find? field.name = none := by
  have declared : ∃ object ∈ objects, field.name ∈ object.names :=
    ⟨object, member, List.mem_map_of_mem listed⟩
  rw [Entries.find?_eq_none_iff, Entries.find?_eq_none_iff, merges.mem_keys_iff,
    and_iff_right declared]

/-- Under the name of a final field there is what the field has made of the value. -/
theorem exists_of_final (merges : Merges objects whole output merged)
    (final : Final objects object field) {value : Value}
    (found : whole.find? field.name = some value) :
    ∃ accepted, field.shape.prune? (some value) = some accepted ∧
      merged.find? field.name = some accepted := by
  have ofField := (merges.prunes object final.mem).ofField field final.listed
  obtain ⟨accepted, accepts, kept⟩ := ofField.exists_of_find? found
  refine ⟨accepted, accepts, ?_⟩
  rw [find?_merged merges.ascending_outputs merges.combines, findSome?_reverse_eq_some_iff]
  obtain ⟨before, after, split, undeclared⟩ := final.last
  refine ⟨before.map output, output object, after.map output, by simp [split], kept, ?_⟩
  rw [List.forall_mem_map]
  intro later member
  exact (merges.prunes later (by simp [split, member])).find?_eq_none (undeclared later member)

/-- An object is its own merged output when its keys are declared and each final field gives its
value back. -/
theorem eq_iff (merges : Merges objects whole output merged)
    (ascending : Entries.Ascending whole)
    (declared : ∀ key ∈ Entries.keys whole, ∃ object ∈ objects, key ∈ object.names) :
    merged = whole ↔ ∀ object field, Final objects object field → ∀ value,
      whole.find? field.name = some value → field.shape.prune? (some value) = some value := by
  constructor
  · rintro rfl object field final value found
    obtain ⟨accepted, accepts, kept⟩ := merges.exists_of_final final found
    rwa [Option.some.inj (kept.symm.trans found)] at accepts
  · intro idempotent
    apply merges.ascending.ext ascending
    intro key
    cases found : whole.find? key with
    | none =>
        apply Entries.find?_eq_none_iff.mpr
        intro listed
        exact Entries.find?_eq_none_iff.mp found ((merges.mem_keys_iff key).mp listed).2
    | some value =>
        have listed := Entries.mem_keys_of_find?_eq_some found
        obtain ⟨object, field, final, rfl⟩ := exists_final (declared key listed)
        obtain ⟨accepted, accepts, kept⟩ := merges.exists_of_final final found
        have same := idempotent object field final value found
        rw [kept, Option.some.inj (accepts.symm.trans same)]

/-- Objects that accept what they have merged merge it once more. -/
theorem exists_again (merges : Merges objects whole output merged)
    (conforms : ∀ object ∈ objects, Conforms object.toShape (some (.object merged))) :
    ∃ second remerged, Merges objects merged second remerged := by
  have each : ∀ object ∈ objects, ∃ second, Prunes object.fields merged second := by
    intro object member
    obtain ⟨_, accepted⟩ := exists_prune?_iff_conforms.mpr (conforms object member)
    obtain ⟨_, second, ⟨rfl⟩, again, -⟩ := (prune?_object_eq_some_iff object.distinct).mp accepted
    exact ⟨second, again⟩
  choose! second again using each
  have nonempty : objects ≠ [] := by
    rintro rfl
    exact nomatch merges.combines
  obtain ⟨remerged, recombines, -⟩ := @combine_objects (objects.map second) (by simpa)
    (List.forall_mem_map.mpr fun object member => (again object member).ascending)
  exact ⟨second, remerged, again, recombines⟩

end Merges

end Shape

end Tenancy
