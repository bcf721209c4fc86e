import Tenancy.Proofs.Dictionary
import Tenancy.Proofs.Shape.Refusal
import Tenancy.Proofs.Text.Utf8

/-!
# Containers

What validation makes of a container it makes of the parts: of the declared fields of an object
(`Shape.FieldByField`), of the items of an array (`Shape.ItemByItem`) and of the entries of a map
(`Shape.EntryByEntry`). Nothing else is kept, and the first part at fault is the one reported, in the
order of declaration, of positions, or of the bytes of keys.
-/

namespace Tenancy

open Json Outcome

namespace Shape

variable {path : Path}

/-- Validation of an object whose fields are declared. -/
structure FieldByField (object : ObjectShape) (whole : Object) (path : Path) : Prop where
  accepts : (∃ output, object.toShape.validate (some (.object whole)) path = .ok output) ↔
    ∀ field ∈ object.fields, ∀ fault, ¬FieldRefused whole path field fault
  /-- What is declared and present is kept, and nothing else. -/
  keeps : ∀ output, object.toShape.validate (some (.object whole)) path = .ok output →
    ∃ pruned : Dictionary Value, output = .object pruned.entries ∧
      (∀ name, name ∈ pruned.keys ↔ name ∈ object.names ∧ name ∈ Entries.keys whole) ∧
      ∀ field ∈ object.fields, ∀ value, whole.find? field.name = some value → ∃ accepted,
        field.shape.validate (some value) (path.key field.name) = .ok accepted ∧
          pruned.find? field.name = some accepted
  /-- The first declared field at fault is reported. -/
  refuses : ∀ refusal, object.toShape.validate (some (.object whole)) path = .error refusal ↔
    ∃ (position : Nat) (field : Field Shape), object.fields[position]? = some field ∧
      FieldRefused whole path field refusal ∧ ∀ earlier < position, ∀ other,
        object.fields[earlier]? = some other → ∀ fault, ¬FieldRefused whole path other fault
  /-- The order of the fields does not matter for what is accepted. -/
  reordered : ∀ other : ObjectShape, other.fields.Perm object.fields → ∀ output,
    other.toShape.validate (some (.object whole)) path = .ok output ↔
      object.toShape.validate (some (.object whole)) path = .ok output

/-- Validation of an array. -/
structure ItemByItem (element : Shape) (items : List Value) (path : Path) : Prop where
  keeps : ∀ output, (arrayOf element).validate (some (.array items)) path = .ok output →
    ∃ outputs, output = .array outputs ∧ outputs.length = items.length ∧
      ∀ position item, items[position]? = some item → ∃ accepted,
        element.validate (some item) (path.index position) = .ok accepted ∧
          outputs[position]? = some accepted
  refuses : ∀ refusal, (arrayOf element).validate (some (.array items)) path = .error refusal ↔
    ∃ (position : Nat) (item : Value), items[position]? = some item ∧
      element.validate (some item) (path.index position) = .error refusal ∧
      ∀ earlier < position, ∀ other, items[earlier]? = some other →
        ∃ accepted, element.validate (some other) (path.index earlier) = .ok accepted

/-- Validation of a map. -/
structure EntryByEntry (shape : Shape) (entries : Dictionary Value) (path : Path) : Prop where
  keeps : ∀ output, (mapOf shape).validate (some (.object entries.entries)) path = .ok output →
    ∃ outputs : Dictionary Value, output = .object outputs.entries ∧ outputs.keys = entries.keys ∧
      ∀ key value, entries.find? key = some value → ∃ accepted,
        shape.validate (some value) (path.key key) = .ok accepted ∧
          outputs.find? key = some accepted
  refuses : ∀ refusal,
    (mapOf shape).validate (some (.object entries.entries)) path = .error refusal ↔
      ∃ key value, entries.find? key = some value ∧
        shape.validate (some value) (path.key key) = .error refusal ∧
        ∀ earlier other, Text.utf8Bytes earlier < Text.utf8Bytes key →
          entries.find? earlier = some other →
            ∃ accepted, shape.validate (some other) (path.key earlier) = .ok accepted

/-! ### Objects -/

section Fields

variable {whole : Object}

theorem validate_toShape_eq_error_iff (object : ObjectShape) {refusal : Diagnostic} :
    object.toShape.validate (some (.object whole)) path = .error refusal ↔
      FirstRefused (FieldRefused whole path) object.fields refusal := by
  rw [ObjectShape.toShape, validate, map_eq_error_iff, validateFields_eq_error_iff]

theorem validate_toShape_eq_ok_iff (object : ObjectShape) {output : Value} :
    object.toShape.validate (some (.object whole)) path = .ok output ↔
      ∃ pruned, Prunes object.fields whole pruned ∧ .object pruned = output := by
  simp [validate_eq_ok_iff, ObjectShape.toShape, prune?_object_eq_some_iff object.distinct]

end Fields

theorem fieldByField (object : ObjectShape) (whole : Object) (path : Path) :
    FieldByField object whole path where
  accepts := by
    simp only [exists_eq_ok_iff, ne_eq, validate_toShape_eq_error_iff]
    rw [← not_exists, exists_firstRefused_iff]
    simp only [not_exists, not_and]
  keeps output accepted := by
    obtain ⟨pruned, prunes, rfl⟩ := (validate_toShape_eq_ok_iff object).mp accepted
    refine ⟨⟨pruned, prunes.ascending⟩, rfl, prunes.mem_keys_iff, fun field member value found => ?_⟩
    cases prunes.ofField field member with
    | absent missing => exact nomatch found.symm.trans missing
    | present present accepts kept =>
        obtain rfl := Option.some.inj (found.symm.trans present)
        exact ⟨_, validate_eq_ok_iff.mpr accepts, kept⟩
  refuses refusal := by
    rw [validate_toShape_eq_error_iff, firstRefused_iff_getElem?]
  reordered other permuted output := by
    rw [validate_toShape_eq_ok_iff, validate_toShape_eq_ok_iff]
    exact exists_congr fun pruned => and_congr_left fun _ =>
      ⟨fun prunes => prunes.perm permuted.symm, fun prunes => prunes.perm permuted⟩

/-! ### Arrays and maps -/

theorem itemByItem (element : Shape) (items : List Value) (path : Path) :
    ItemByItem element items path where
  keeps output accepted := by
    obtain ⟨_, outputs, ⟨⟩, given, rfl⟩ :=
      prune?_arrayOf_eq_some_iff.mp (validate_eq_ok_iff.mp accepted)
    refine ⟨outputs, rfl, given.length_eq.symm, fun position item found => ?_⟩
    obtain ⟨within, rfl⟩ := List.getElem?_eq_some_iff.mp found
    have within' : position < outputs.length := given.length_eq ▸ within
    exact ⟨outputs[position], validate_eq_ok_iff.mpr (given.get within within'),
      List.getElem?_eq_getElem within'⟩
  refuses refusal := by
    rw [validate, map_eq_error_iff, validateItems_eq_error_iff, firstRefused_iff_getElem?]
    simp [exists_eq_ok_iff, List.getElem?_zipIdx]

theorem entryByEntry (shape : Shape) (entries : Dictionary Value) (path : Path) :
    EntryByEntry shape entries path where
  keeps output accepted := by
    obtain ⟨_, outputs, ⟨⟩, given, rfl⟩ :=
      prune?_mapOf_eq_some_iff.mp (validate_eq_ok_iff.mp accepted)
    let pruned : Dictionary Value := ⟨outputs, ascending_of_forall₂ given entries.ascending⟩
    refine ⟨pruned, rfl, keys_eq_of_forall₂ given, fun key value found => ?_⟩
    obtain ⟨accepted, accepts, kept⟩ := find?_of_forall₂ given found
    exact ⟨accepted, validate_eq_ok_iff.mpr accepts, kept⟩
  refuses refusal := by
    rw [validate, map_eq_error_iff, validateEntries_eq_error_iff, firstRefused_iff_getElem?]
    simp only [exists_eq_ok_iff, Dictionary.find?_eq_some_iff_mem, Text.utf8Bytes_lt_iff]
    constructor
    · rintro ⟨position, ⟨key, value⟩, found, refused, before⟩
      refine ⟨key, value, List.mem_of_getElem? found, refused, fun earlier other below listed => ?_⟩
      obtain ⟨place, present⟩ := List.getElem?_of_mem listed
      exact before place ((entries.ascending.position_lt_iff present found).mpr below) _ present
    · rintro ⟨key, value, listed, refused, before⟩
      obtain ⟨position, found⟩ := List.getElem?_of_mem listed
      refine ⟨position, (key, value), found, refused, fun place less other present => ?_⟩
      exact before other.1 other.2 ((entries.ascending.position_lt_iff present found).mp less)
        (List.mem_of_getElem? present)

/-- Validation of a container is validation of its parts. -/
theorem validate_containers :
    (∀ object whole path, FieldByField object whole path) ∧
      (∀ element items path, ItemByItem element items path) ∧
        ∀ shape entries path, EntryByEntry shape entries path :=
  ⟨fieldByField, itemByItem, entryByEntry⟩

/-- A booking says for how many nights and for whom. -/
def booking : ObjectShape where
  fields := [.required "nights" number, .required "guest" string]
  distinct := by decide

/-- Of two faults the first one is reported: by declaration, by position and by key. -/
theorem validate_containers_bookings :
    booking.toShape.validate (some (.object [("guest", .null)])) .root =
        .error (.of ⟨[.key "nights"]⟩ .required) ∧
      (arrayOf string).validate (some (.array [.string "a", .null, .bool true])) .root =
        .error (.of ⟨[.index 1]⟩ .stringExpected) ∧
      (mapOf string).validate (some (.object [("a", .string "b"), ("c", .null), ("d", .null)]))
          .root = .error (.of ⟨[.key "c"]⟩ .stringExpected) := by
  obtain ⟨objects, arrays, maps⟩ := validate_containers
  let entries : Dictionary Value :=
    ⟨[("a", .string "b"), ("c", .null), ("d", .null)], by decide⟩
  refine ⟨?_, ?_, ?_⟩
  · exact ((objects booking _ .root).refuses _).mpr
      ⟨0, _, rfl, .missing rfl rfl, fun _ before => absurd before (Nat.not_lt_zero _)⟩
  · refine ((arrays string _ .root).refuses _).mpr ⟨1, .null, rfl, rfl, fun earlier before => ?_⟩
    obtain rfl := Nat.lt_one_iff.mp before
    rintro _ ⟨⟩
    exact ⟨.string "a", rfl⟩
  · refine ((maps string entries .root).refuses _).mpr ⟨"c", .null, rfl, rfl, ?_⟩
    intro earlier other below found
    have listed := Dictionary.find?_eq_some_iff_mem.mp found
    rw [Text.utf8Bytes_lt_iff] at below
    simp only [entries, List.mem_cons, Prod.mk.injEq, List.not_mem_nil, or_false] at listed
    rcases listed with ⟨rfl, rfl⟩ | ⟨rfl, rfl⟩ | ⟨rfl, rfl⟩
    · exact ⟨.string "b", rfl⟩
    · exact absurd below (by decide)
    · exact absurd below (by decide)

end Shape

end Tenancy
