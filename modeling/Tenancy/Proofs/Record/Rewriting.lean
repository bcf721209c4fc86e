import Tenancy.Proofs.Json.Place
import Tenancy.Proofs.Record.Reading
import Tenancy.Proofs.Record.Writing

/-!
# Pruned documents are written again

A record that was read from what a contract let pass is written as it stood there
(`Shape.WritesBack`). Settings are kept by ascending key, so this holds of settings only if their
keys ascended in the document that was checked, as in every document that was read.
-/

namespace Tenancy

open Json

namespace Shape

variable {α : Type}

/-- What is read from a document that a shape let pass is written as that document. -/
def WritesBack (shape : Shape) (read? : Value → Option α) (write : α → Value) : Prop :=
  ∀ value pruned record, value.Canonical →
    shape.prune? (some value) = some pruned → read? pruned = some record → write record = pruned

variable {shape : Shape} {read? : Value → Option α} {write : α → Value} {field : Field Shape}
  {whole kept : Object} {record : α}

theorem WritesBack.required {name : String} (writesBack : shape.WritesBack read? write)
    (canonical : (Value.object whole).Canonical)
    (prunes : PrunesField (.required name shape) whole kept)
    (read : Record.required read? (kept.find? name) = some record) :
    kept.find? name = some (write record) := by
  cases prunes with
  | absent missing free left => exact nomatch free
  | present found accepts stays =>
      have stays : Entries.find? kept name = _ := stays
      rw [stays] at read
      rw [stays, writesBack _ _ _ (Value.canonical_of_find? canonical found) accepts read]

/-- A field that was left out is read as what is assumed of it. -/
theorem WritesBack.defaulted (writesBack : field.shape.WritesBack read? write)
    (canonical : (Value.object whole).Canonical) (prunes : PrunesField field whole kept)
    {default : α} (read : Record.defaulted default read? (kept.find? field.name) = some record) :
    (kept.find? field.name).getD (write default) = write record := by
  cases prunes with
  | absent missing free left =>
      rw [left] at read
      cases read
      rw [left, Option.getD_none]
  | present found accepts stays =>
      rw [stays] at read
      rw [stays, Option.getD_some,
        writesBack _ _ _ (Value.canonical_of_find? canonical found) accepts read]

/-- A field that was left out is read as nothing, and nothing is written for it. -/
theorem WritesBack.optional (writesBack : field.shape.WritesBack read? write)
    (reads : field.shape.Reads read?) (unread : read? .null = none)
    (canonical : (Value.object whole).Canonical) (prunes : PrunesField field whole kept)
    {record : Option α}
    (read : Record.optional read? (kept.find? field.name) = some record) :
    kept.find? field.name = record.map write := by
  cases prunes with
  | absent missing free left =>
      rw [left] at read
      cases read
      exact left
  | @present value accepted found accepts stays =>
      obtain ⟨given, hasGiven⟩ := reads _ _ accepts
      have given_eq : Record.nullable read? accepted = some (some given) := by
        cases accepted with
        | null => exact nomatch unread.symm.trans hasGiven
        | bool | number | string | array | object => rw [Record.nullable, hasGiven]; rfl; simp
      rw [stays] at read
      obtain rfl := Option.some.inj (given_eq.symm.trans read)
      rw [stays, Option.map_some,
        writesBack _ _ _ (Value.canonical_of_find? canonical found) accepts hasGiven]

theorem writesBack_string : string.WritesBack Record.text? .string := by
  intro value pruned record _ accepted read
  obtain ⟨text, -, rfl⟩ := prune?_string_eq_some_iff.mp accepted
  cases read
  rfl

theorem writesBack_boolean : boolean.WritesBack Record.flag? .bool := by
  intro value pruned record _ accepted read
  obtain ⟨flag, -, rfl⟩ := prune?_boolean_eq_some_iff.mp accepted
  cases read
  rfl

theorem writesBack_enumeration {name : String} {variants : List Value} {ignoresCase : Bool}
    (texts : ∀ variant ∈ variants, ∃ text, variant = .string text)
    (same : ∀ variant ∈ variants, ∀ record, read? variant = some record → write record = variant) :
    (enumeration name variants ignoresCase).WritesBack read? write := by
  intro value pruned record _ accepted read
  exact same pruned (mem_of_acceptMember?_eq_some texts accepted) record read

end Shape

namespace Catalogue

open Shape

theorem writesBack_plan : plan.WritesBack Record.read? (Record.write (α := Plan)) := by
  apply writesBack_enumeration
  · simp
  · simp only [List.forall_mem_cons]
    refine ⟨?_, ?_, ?_, List.forall_mem_nil _⟩ <;> (rintro record ⟨⟩; rfl)

theorem writesBack_role : role.WritesBack Record.read? (Record.write (α := Role)) := by
  apply writesBack_enumeration
  · simp
  · simp only [List.forall_mem_cons]
    refine ⟨?_, ?_, ?_, ?_, List.forall_mem_nil _⟩ <;> (rintro record ⟨⟩; rfl)

theorem writesBack_settingValue : (Shape.union false [.string, .number, .boolean]).WritesBack
    Record.read? (Record.write (α := SettingValue)) := by
  intro value pruned record _ accepted read
  obtain ⟨before, branch, after, split, accepts, -⟩ := prune?_union_eq_some_iff.mp accepted
  have listed : branch ∈ [string, number, boolean] := split ▸ by simp
  simp only [List.mem_cons, List.not_mem_nil, or_false] at listed
  rcases listed with rfl | rfl | rfl
  · obtain ⟨text, -, rfl⟩ := prune?_string_eq_some_iff.mp accepts
    cases read
    rfl
  · obtain ⟨number, -, rfl⟩ := prune?_number_eq_some_iff.mp accepts
    cases read
    rfl
  · obtain ⟨flag, -, rfl⟩ := prune?_boolean_eq_some_iff.mp accepts
    cases read
    rfl

/-- Entries that were read one by one are written one by one. -/
theorem map_write_eq {entries : Object} {values : Entries SettingValue}
    (read : entries.mapM (fun entry => (Record.read? entry.2).map fun value => (entry.1, value)) =
      some values)
    (same : ∀ entry ∈ entries, ∀ value : SettingValue, Record.read? entry.2 = some value →
      Record.write value = entry.2) :
    values.map (fun entry => (entry.1, Record.write entry.2)) = entries := by
  have each := mapM_eq_some_iff.mp read
  clear read
  induction each with
  | nil => rfl
  | @cons entry result entries values first rest inductionHypothesis =>
      obtain ⟨now, later⟩ := List.forall_mem_cons.mp same
      obtain ⟨value, found, rfl⟩ := Option.map_eq_some_iff.mp first
      rw [List.map_cons, now value found, inductionHypothesis later]

theorem writesBack_settings : settings.WritesBack Record.read? (Record.write (α := Settings)) := by
  intro value pruned record canonical accepted read
  obtain ⟨entries, outputs, ⟨⟩, given, rfl⟩ := prune?_mapOf_eq_some_iff.mp accepted
  obtain ⟨values, readAll, rfl⟩ := Option.map_eq_some_iff.mp read
  obtain ⟨ascending, ordered⟩ := canonical
  have written : values.map (fun entry => (entry.1, Record.write entry.2)) = outputs := by
    apply map_write_eq readAll
    intro output listed value found
    obtain ⟨entry, present, passes, -⟩ := exists_mem_of_forall₂ given listed
    exact writesBack_settingValue _ _ _ (Value.canonicalEntries_iff.mp ordered entry present)
      passes found
  have sorted : Entries.Ascending values := by
    have kept : Entries.keys values = Entries.keys outputs := by
      rw [← written, Entries.keys, Entries.keys, List.map_map]
      rfl
    rw [Entries.Ascending, kept]
    exact ascending_of_forall₂ given ascending
  show Value.object ((Entries.sorted values).map _) = _
  rw [sorted.sorted_eq]
  exact congrArg Value.object written

/-- The record of a new organization says what its document says, and fills in what is left out. -/
theorem write_createOrganization {input : Option Value} {pruned : Value}
    {request : CreateOrganization} (canonical : ∀ value ∈ input, value.Canonical)
    (accepted : createOrganization.toShape.prune? input = some pruned)
    (read : Record.read? pruned = some request) : ∃ given : Object, pruned = .object given ∧
      given.find? "name" = some (.string request.name) ∧
      (given.find? "plan").getD (.string "free") = Record.write request.plan ∧
      (given.find? "settings").getD (.object []) = Record.write request.settings := by
  obtain ⟨whole, given, rfl, rfl, ofField⟩ := prunesField_of_prune? accepted
  obtain ⟨name, hasName, read⟩ := Option.bind_eq_some_iff.mp read
  obtain ⟨plan, hasPlan, read⟩ := Option.bind_eq_some_iff.mp read
  obtain ⟨settings, hasSettings, ⟨⟩⟩ := Option.bind_eq_some_iff.mp read
  have canonical := canonical _ rfl
  simp only [createOrganization, List.forall_mem_cons] at ofField
  obtain ⟨ofName, ofPlan, ofSettings, -⟩ := ofField
  have planWritten := WritesBack.defaulted writesBack_plan canonical ofPlan hasPlan
  have settingsWritten :=
    WritesBack.defaulted writesBack_settings canonical ofSettings hasSettings
  exact ⟨given, rfl, writesBack_string.required canonical ofName hasName, planWritten,
    settingsWritten⟩

/-- The record of a change says what its document says. -/
theorem write_memberPatch {input : Option Value} {pruned : Value} {patch : MemberPatch}
    (canonical : ∀ value ∈ input, value.Canonical)
    (accepted : memberPatch.toShape.prune? input = some pruned)
    (read : Record.read? pruned = some patch) : ∃ given : Object, pruned = .object given ∧
      given.find? "role" = patch.role.map Record.write ∧
      given.find? "active" = patch.active.map .bool := by
  obtain ⟨whole, given, rfl, rfl, ofField⟩ := prunesField_of_prune? accepted
  obtain ⟨role, hasRole, read⟩ := Option.bind_eq_some_iff.mp read
  obtain ⟨active, hasActive, ⟨⟩⟩ := Option.bind_eq_some_iff.mp read
  have canonical := canonical _ rfl
  simp only [memberPatch, List.forall_mem_cons] at ofField
  obtain ⟨ofRole, ofActive, -⟩ := ofField
  exact ⟨given, rfl, WritesBack.optional writesBack_role reads_role rfl canonical ofRole hasRole,
    WritesBack.optional writesBack_boolean reads_boolean rfl canonical ofActive hasActive⟩

end Catalogue

end Tenancy
