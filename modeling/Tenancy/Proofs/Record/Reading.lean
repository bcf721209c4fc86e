import Tenancy.Contract.Catalogue
import Tenancy.Proofs.Shape.Idempotence
import Tenancy.Record.Member

/-!
# Pruned documents are read

What a request's contract lets pass is the document of a record (`Shape.Reads`), so a request is
never refused for a reason that its contract does not state. What a contract asks beyond the form
of a record is kept by the record: who is invited for a time has a time
(`Catalogue.read_inviteMember`).
-/

namespace Tenancy

open Json

namespace Shape

variable {α : Type}

/-- Every document that a shape lets pass is read. -/
def Reads (shape : Shape) (read? : Value → Option α) : Prop :=
  ∀ input pruned, shape.prune? input = some pruned → ∃ record, read? pruned = some record

variable {shape : Shape} {read? : Value → Option α} {field : Field Shape} {whole pruned : Object}

theorem Reads.nullable (reads : shape.Reads read?) : shape.Reads (Record.nullable read?) := by
  intro input pruned accepted
  obtain ⟨record, found⟩ := reads input pruned accepted
  cases pruned <;> simp [Record.nullable, found]

theorem read_next {β : Type} {given : Option α} {next : α → Option β} {field : α} {record : β}
    (first : given = some field) (rest : next field = some record) :
    (given >>= next) = some record :=
  first ▸ rest

theorem Reads.required {name : String} (reads : shape.Reads read?)
    (prunes : PrunesField (.required name shape) whole pruned) :
    ∃ record, Record.required read? (pruned.find? name) = some record := by
  cases prunes with
  | absent missing free left => exact nomatch free
  | present found accepts kept =>
      obtain ⟨record, given⟩ := reads _ _ accepts
      have kept : Entries.find? pruned name = _ := kept
      exact ⟨record, by rw [kept, Record.required, Option.bind_some, given]⟩

theorem Reads.defaulted (reads : field.shape.Reads read?) (default : α)
    (prunes : PrunesField field whole pruned) :
    ∃ record, Record.defaulted default read? (pruned.find? field.name) = some record := by
  cases prunes with
  | absent missing free left => exact ⟨default, by rw [left, Record.defaulted]⟩
  | present found accepts kept =>
      obtain ⟨record, given⟩ := reads _ _ accepts
      exact ⟨record, by rw [kept, Record.defaulted, given]⟩

theorem Reads.optional (reads : field.shape.Reads read?)
    (prunes : PrunesField field whole pruned) :
    ∃ record, Record.optional read? (pruned.find? field.name) = some record :=
  reads.nullable.defaulted none prunes

/-- What an object shape lets pass is an object, of which each field decides its own entry. -/
theorem prunesField_of_prune? {object : ObjectShape} {input : Option Value} {output : Value}
    (accepted : object.toShape.prune? input = some output) : ∃ whole kept : Object,
      input = some (.object whole) ∧ output = .object kept ∧
        ∀ field ∈ object.fields, PrunesField field whole kept := by
  obtain ⟨whole, kept, isWhole, prunes, isKept⟩ :=
    (prune?_object_eq_some_iff object.distinct).mp accepted
  exact ⟨whole, kept, isWhole, isKept.symm, prunes.ofField⟩

theorem prune?_string_eq_some_iff {input : Option Value} {pruned : Value} :
    string.prune? input = some pruned ↔
      ∃ text, input = some (.string text) ∧ .string text = pruned := by
  match input with
  | some (.string text) => simp [string, prune?, Kind.accepts]
  | none | some .null | some (.bool _) | some (.number _) | some (.array _) | some (.object _) =>
      simp [string, prune?, Kind.accepts]

theorem prune?_number_eq_some_iff {input : Option Value} {pruned : Value} :
    number.prune? input = some pruned ↔
      ∃ value, input = some (.number value) ∧ .number value = pruned := by
  match input with
  | some (.number value) => simp [number, prune?, Kind.accepts]
  | none | some .null | some (.bool _) | some (.string _) | some (.array _) | some (.object _) =>
      simp [number, prune?, Kind.accepts]

theorem prune?_boolean_eq_some_iff {input : Option Value} {pruned : Value} :
    boolean.prune? input = some pruned ↔
      ∃ flag, input = some (.bool flag) ∧ .bool flag = pruned := by
  match input with
  | some (.bool flag) => simp [boolean, prune?, Kind.accepts]
  | none | some .null | some (.string _) | some (.number _) | some (.array _) | some (.object _) =>
      simp [boolean, prune?, Kind.accepts]

theorem reads_string : string.Reads Record.text? := by
  intro input pruned accepted
  obtain ⟨text, -, rfl⟩ := prune?_string_eq_some_iff.mp accepted
  exact ⟨text, rfl⟩

theorem reads_boolean : boolean.Reads Record.flag? := by
  intro input pruned accepted
  obtain ⟨flag, -, rfl⟩ := prune?_boolean_eq_some_iff.mp accepted
  exact ⟨flag, rfl⟩

theorem reads_nullable_string : (Shape.nullable string).Reads (Record.nullable Record.text?) := by
  intro input pruned accepted
  obtain ⟨before, branch, after, split, accepts, -⟩ := prune?_union_eq_some_iff.mp accepted
  have listed : branch ∈ [string, nothing] := split ▸ by simp
  rcases List.mem_pair.mp listed with rfl | rfl
  · exact reads_string.nullable _ _ accepts
  · refine ⟨none, ?_⟩
    match input with
    | none | some .null => cases accepts; rfl
    | some (.bool _) | some (.number _) | some (.string _) | some (.array _)
    | some (.object _) => exact nomatch accepts

theorem mem_of_acceptMember?_eq_some {members : List Value} {ignoresCase : Bool}
    {value accepted : Value} (texts : ∀ member ∈ members, ∃ text, member = .string text)
    (found : acceptMember? members ignoresCase value = some accepted) : accepted ∈ members := by
  rcases acceptMember?_cases found with ⟨rfl, member, listed, same⟩ | ⟨_, _, -, -, -, listed⟩
  · obtain ⟨text, rfl⟩ := texts member listed
    cases accepted <;> simp_all [Value.deepEqual]
  · exact listed

/-- An enumeration of texts is read when its members are. -/
theorem reads_enumeration {name : String} {variants : List Value} {ignoresCase : Bool}
    (texts : ∀ variant ∈ variants, ∃ text, variant = .string text)
    (reads : ∀ variant ∈ variants, ∃ record, read? variant = some record) :
    (enumeration name variants ignoresCase).Reads read? := by
  intro input pruned accepted
  cases input with
  | none => simp [prune?] at accepted
  | some value =>
      rw [prune?] at accepted
      exact reads pruned (mem_of_acceptMember?_eq_some texts accepted)

end Shape

/-- Who is invited for a time has a time. -/
def InviteMember.HasExpiry (request : InviteMember) : Prop :=
  request.temporary = true → request.expiresAt.isSome = true

namespace Catalogue

open Shape

theorem reads_plan : plan.Reads (Record.read? (α := Plan)) := by
  apply reads_enumeration
  · simp
  · simp only [List.forall_mem_cons]
    exact ⟨⟨.free, rfl⟩, ⟨.team, rfl⟩, ⟨.enterprise, rfl⟩, List.forall_mem_nil _⟩

theorem reads_role : role.Reads (Record.read? (α := Role)) := by
  apply reads_enumeration
  · simp
  · simp only [List.forall_mem_cons]
    exact ⟨⟨.owner, rfl⟩, ⟨.admin, rfl⟩, ⟨.member, rfl⟩, ⟨.viewer, rfl⟩, List.forall_mem_nil _⟩

theorem reads_settingValue : (Shape.union false [.string, .number, .boolean]).Reads
    (Record.read? (α := SettingValue)) := by
  intro input pruned accepted
  obtain ⟨before, branch, after, split, accepts, -⟩ := prune?_union_eq_some_iff.mp accepted
  have listed : branch ∈ [string, number, boolean] := split ▸ by simp
  simp only [List.mem_cons, List.not_mem_nil, or_false] at listed
  rcases listed with rfl | rfl | rfl
  · obtain ⟨text, -, rfl⟩ := prune?_string_eq_some_iff.mp accepts
    exact ⟨.text text, rfl⟩
  · obtain ⟨number, -, rfl⟩ := prune?_number_eq_some_iff.mp accepts
    exact ⟨.number number, rfl⟩
  · obtain ⟨flag, -, rfl⟩ := prune?_boolean_eq_some_iff.mp accepts
    exact ⟨.flag flag, rfl⟩

theorem reads_settings : settings.Reads (Record.read? (α := Settings)) := by
  intro input pruned accepted
  obtain ⟨entries, outputs, rfl, given, rfl⟩ := prune?_mapOf_eq_some_iff.mp accepted
  have readsEach : ∀ output ∈ outputs, ∃ entry : String × SettingValue,
      ((Record.read? output.2).map fun value => (output.1, value)) = some entry := by
    intro output listed
    obtain ⟨entry, -, accepts, -⟩ := exists_mem_of_forall₂ given listed
    obtain ⟨value, found⟩ := reads_settingValue _ _ accepts
    exact ⟨(output.1, value), Option.map_eq_some_iff.mpr ⟨value, found, rfl⟩⟩
  obtain ⟨values, found⟩ := exists_mapM_eq_some_iff.mpr readsEach
  exact ⟨.ofEntries values, Option.map_eq_some_iff.mpr ⟨values, found, rfl⟩⟩

theorem reads_createOrganization :
    createOrganization.toShape.Reads (Record.read? (α := CreateOrganization)) := by
  intro input pruned accepted
  obtain ⟨whole, kept, rfl, rfl, ofField⟩ := prunesField_of_prune? accepted
  simp only [createOrganization, List.forall_mem_cons] at ofField
  obtain ⟨ofName, ofPlan, ofSettings, -⟩ := ofField
  obtain ⟨name, hasName⟩ := reads_string.required ofName
  obtain ⟨plan, hasPlan⟩ := Reads.defaulted reads_plan .free ofPlan
  obtain ⟨settings, hasSettings⟩ := Reads.defaulted reads_settings .empty ofSettings
  exact ⟨⟨name, plan, settings⟩,
    read_next hasName (read_next hasPlan (read_next hasSettings rfl))⟩

/-- Who may be invited is read, with a time of expiry if the invitation is for a time. -/
theorem read_inviteMember {input : Option Value} {pruned : Value}
    (accepted : inviteMember.toShape.prune? input = some pruned) :
    ∃ request : InviteMember, Record.read? pruned = some request ∧
      request.HasExpiry := by
  obtain ⟨whole, kept, rfl, rfl, ofField⟩ := prunesField_of_prune? accepted
  simp only [inviteMember, List.forall_mem_cons] at ofField
  obtain ⟨ofEmail, ofRole, ofTemporary, ofExpiry, ofInviter, -⟩ := ofField
  obtain ⟨email, hasEmail⟩ := reads_string.required ofEmail
  obtain ⟨role, hasRole⟩ := reads_role.required ofRole
  obtain ⟨temporary, hasTemporary⟩ := reads_boolean.required ofTemporary
  obtain ⟨expiresAt, hasExpiry⟩ := Reads.optional reads_string ofExpiry
  obtain ⟨invitedBy, hasInviter⟩ := Reads.defaulted reads_nullable_string none ofInviter
  refine ⟨⟨email, role, temporary, expiresAt, invitedBy⟩, ?_, ?_⟩
  · exact read_next hasEmail (read_next hasRole (read_next hasTemporary
      (read_next hasExpiry (read_next hasInviter rfl))))
  · rintro (rfl : temporary = true)
    cases ofTemporary with
    | absent missing free left => exact nomatch free
    | present found accepts keptFlag =>
        obtain ⟨flag, isFlag, rfl⟩ := prune?_boolean_eq_some_iff.mp accepts
        cases isFlag
        have keptFlag : Entries.find? kept "temporary" = some (.bool flag) := keptFlag
        rw [keptFlag] at hasTemporary
        cases hasTemporary
        cases ofExpiry with
        | absent missing free left =>
            have found : Entries.find? whole "temporary" = some (.bool true) := found
            simp [expiry, Field.requiredIf, Requiredness.holds, siblingEquals, found,
              Value.deepEqual] at free
        | present found accepts keptText =>
            obtain ⟨text, -, rfl⟩ := prune?_string_eq_some_iff.mp accepts
            rw [keptText] at hasExpiry
            cases hasExpiry
            rfl

theorem reads_inviteMember : inviteMember.toShape.Reads (Record.read? (α := InviteMember)) := by
  intro input pruned accepted
  obtain ⟨request, found, -⟩ := read_inviteMember accepted
  exact ⟨request, found⟩

theorem reads_memberPatch : memberPatch.toShape.Reads (Record.read? (α := MemberPatch)) := by
  intro input pruned accepted
  obtain ⟨whole, kept, rfl, rfl, ofField⟩ := prunesField_of_prune? accepted
  simp only [memberPatch, List.forall_mem_cons] at ofField
  obtain ⟨ofRole, ofActive, -⟩ := ofField
  obtain ⟨role, hasRole⟩ := Reads.optional reads_role ofRole
  obtain ⟨active, hasActive⟩ := Reads.optional reads_boolean ofActive
  exact ⟨⟨role, active⟩, read_next hasRole (read_next hasActive rfl)⟩

end Catalogue

end Tenancy
