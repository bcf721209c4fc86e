import Tenancy.Proofs.Contract.Lookup
import Tenancy.Proofs.Record.Reading
import Tenancy.Record.Wrapper

/-!
# Contracts are mirrored by records

What a contract of the catalogue lets pass is the document of the record of its name
(`Catalogue.readable_iff_of_mem_mirrors`): every field that a record asks for is required by the
contract, and what the contract says of the field is within what the record reads. Pages are the
exception. Their contract takes any number for a total, where the record counts, so a page that
passed is read exactly if its total is a natural number written as an integer
(`Catalogue.read_page_iff`).
-/

namespace Tenancy

open Json

theorem Record.required_or {α : Type} {read? : Value → Option α} {field other : Option Value}
    {record : α} (found : required read? field = some record) :
    required read? (field.or other) = some record := by
  cases field with
  | none => exact nomatch found
  | some value => exact found

namespace Shape

variable {α : Type} {shape : Shape} {read? : Value → Option α}

theorem Reads.arrayOf (reads : shape.Reads read?) :
    (arrayOf shape).Reads (Record.list? read?) := by
  intro input pruned accepted
  obtain ⟨items, outputs, rfl, given, rfl⟩ := prune?_arrayOf_eq_some_iff.mp accepted
  refine exists_mapM_eq_some_iff.mpr fun output listed => ?_
  obtain ⟨item, -, accepts⟩ := exists_mem_of_forall₂ given listed
  exact reads _ _ accepts

theorem reads_literal_bool (flag : Bool) : (literal (.bool flag)).Reads Record.flag? := by
  intro input pruned accepted
  match input with
  | some (.bool value) =>
      obtain ⟨-, rfl⟩ : value = flag ∧ .bool value = pruned := by
        simpa [prune?, Value.deepEqual] using accepted
      exact ⟨value, rfl⟩
  | none | some .null | some (.number _) | some (.string _) | some (.array _)
  | some (.object _) => simp [prune?, Value.deepEqual] at accepted

end Shape

namespace Catalogue

open Shape

theorem reads_organization :
    organization.toShape.Reads (Record.read? (α := Organization)) := by
  intro input pruned accepted
  obtain ⟨whole, kept, rfl, rfl, ofField⟩ := prunesField_of_prune? accepted
  simp only [organization, List.forall_mem_cons] at ofField
  obtain ⟨ofId, ofName, ofPlan, ofSettings, -⟩ := ofField
  obtain ⟨id, hasId⟩ := reads_string.required ofId
  obtain ⟨name, hasName⟩ := reads_string.required ofName
  obtain ⟨plan, hasPlan⟩ := reads_plan.required ofPlan
  obtain ⟨settings, hasSettings⟩ := Reads.defaulted reads_settings .empty ofSettings
  exact ⟨⟨id, name, plan, settings⟩,
    read_next hasId (read_next hasName (read_next hasPlan (read_next hasSettings rfl)))⟩

theorem reads_organizationSummary :
    organizationSummary.toShape.Reads (Record.read? (α := OrganizationSummary)) := by
  intro input pruned accepted
  obtain ⟨whole, kept, rfl, rfl, ofField⟩ := prunesField_of_prune? accepted
  simp only [organizationSummary, List.forall_mem_cons] at ofField
  obtain ⟨ofId, ofName, -⟩ := ofField
  obtain ⟨id, hasId⟩ := reads_string.required ofId
  obtain ⟨name, hasName⟩ := reads_string.required ofName
  exact ⟨⟨id, name⟩, read_next hasId (read_next hasName rfl)⟩

theorem reads_organizationPath :
    organizationPath.toShape.Reads (Record.read? (α := OrganizationPath)) := by
  intro input pruned accepted
  obtain ⟨whole, kept, rfl, rfl, ofField⟩ := prunesField_of_prune? accepted
  simp only [organizationPath, List.forall_mem_cons] at ofField
  obtain ⟨owner, hasOwner⟩ := reads_string.required ofField.1
  exact ⟨⟨owner⟩, read_next hasOwner rfl⟩

theorem reads_memberPath :
    memberPath.toShape.Reads (Record.read? (α := MemberPath)) := by
  intro input pruned accepted
  obtain ⟨whole, kept, rfl, rfl, ofField⟩ := prunesField_of_prune? accepted
  simp only [memberPath, List.forall_mem_cons] at ofField
  obtain ⟨ofOwner, ofId, -⟩ := ofField
  obtain ⟨owner, hasOwner⟩ := reads_string.required ofOwner
  obtain ⟨id, hasId⟩ := reads_string.required ofId
  exact ⟨⟨owner, id⟩, read_next hasOwner (read_next hasId rfl)⟩

theorem readsBeside_role : role.Reads Role.readBeside? := by
  apply reads_enumeration
  · simp
  · simp only [List.forall_mem_cons]
    exact ⟨⟨.owner, rfl⟩, ⟨.admin, rfl⟩, ⟨.member, rfl⟩, ⟨.viewer, rfl⟩, List.forall_mem_nil _⟩

/-- A member is read from its fields, whatever else is listed beside them. -/
theorem read_member {role? : Value → Option Role} (readsRole : role.Reads role?)
    {whole kept entries : Object} (prunes : Prunes member.fields whole kept)
    (same : ∀ name ∈ Member.fieldNames, Entries.find? entries name = Entries.find? kept name) :
    ∃ stored, Member.ofFields? role? (Member.fieldNames.map (Entries.find? entries)) =
      some stored := by
  rw [List.map_congr_left same]
  have ofField := prunes.ofField
  simp only [member, List.forall_mem_cons] at ofField
  obtain ⟨ofId, ofOwner, ofEmail, ofRole, ofActive, ofTemporary, ofExpiry, ofInviter, -⟩ := ofField
  obtain ⟨id, hasId⟩ := reads_string.required ofId
  obtain ⟨owner, hasOwner⟩ := reads_string.required ofOwner
  obtain ⟨email, hasEmail⟩ := reads_string.required ofEmail
  obtain ⟨role, hasRole⟩ := readsRole.required ofRole
  obtain ⟨active, hasActive⟩ := reads_boolean.required ofActive
  obtain ⟨temporary, hasTemporary⟩ := Reads.defaulted reads_boolean false ofTemporary
  obtain ⟨expiresAt, hasExpiry⟩ := Reads.optional reads_string ofExpiry
  obtain ⟨invitedBy, hasInviter⟩ := Reads.defaulted reads_nullable_string none ofInviter
  exact ⟨⟨id, owner, email, role, active, temporary, expiresAt, invitedBy⟩,
    read_next hasId (read_next hasOwner (read_next hasEmail (read_next hasRole
      (read_next hasActive (read_next hasTemporary (read_next hasExpiry
        (read_next hasInviter rfl)))))))⟩

theorem reads_member : member.toShape.Reads (Record.read? (α := Member)) := by
  intro input pruned accepted
  obtain ⟨whole, kept, rfl, prunes, rfl⟩ :=
    (prune?_object_eq_some_iff member.distinct).mp accepted
  exact read_member reads_role prunes fun _ _ => rfl

theorem reads_memberView : memberView.Reads (Record.read? (α := MemberView)) := by
  intro input pruned accepted
  obtain ⟨outputs, given, rfl⟩ := prune?_intersection_eq_some_iff.mp accepted
  rcases given with _ | ⟨ofMember, _ | ⟨ofOrganization, _ | _⟩⟩
  obtain ⟨whole, kept, rfl, prunes, rfl⟩ :=
    (prune?_object_eq_some_iff member.distinct).mp ofMember
  obtain ⟨_, beside, ⟨⟩, prunesBeside, rfl⟩ :=
    (prune?_object_eq_some_iff memberOrganization.distinct).mp ofOrganization
  have found (name : String) : Entries.find? (Entries.merge kept beside) name =
      (Entries.find? beside name).or (Entries.find? kept name) :=
    Entries.find?_merge kept prunesBeside.ascending.nodup name
  have same : ∀ name ∈ Member.fieldNames,
      Entries.find? (Entries.merge kept beside) name = Entries.find? kept name := by
    intro name listed
    rw [found, prunesBeside.find?_eq_none, Option.none_or]
    intro declared
    simp [memberOrganization, Field.required] at declared
    subst declared
    exact absurd listed (by decide)
  obtain ⟨stored, hasMember⟩ := read_member readsBeside_role prunes same
  have ofField := prunesBeside.ofField
  simp only [memberOrganization, List.forall_mem_cons] at ofField
  obtain ⟨summary, hasSummary⟩ := reads_organizationSummary.required ofField.1
  have hasBoth : Record.required Record.read? (Entries.find? (Entries.merge kept beside)
      "organization") = some summary := found "organization" ▸ Record.required_or hasSummary
  exact ⟨⟨stored, summary⟩, read_next hasMember (read_next hasBoth rfl)⟩

section Wrappers

variable {α : Type} [Record α] {shape : Shape}

theorem reads_envelope (reads : shape.Reads (Record.read? (α := α))) :
    (envelope shape).toShape.Reads (Record.read? (α := Envelope α)) := by
  intro input pruned accepted
  obtain ⟨whole, kept, rfl, rfl, ofField⟩ := prunesField_of_prune? accepted
  simp only [envelope, List.forall_mem_cons] at ofField
  obtain ⟨ofFlag, ofData, -⟩ := ofField
  obtain ⟨flag, hasFlag⟩ := (reads_literal_bool true).required ofFlag
  obtain ⟨data, hasData⟩ := reads.required ofData
  exact ⟨⟨flag, data⟩, read_next hasFlag (read_next hasData rfl)⟩

/-- The document of a page says by a natural number how many things there are. -/
def Counts (page : Value) : Prop :=
  ∃ entries total, page = .object entries ∧ Entries.find? entries "total" = some (.ofNat total)

theorem count?_eq_some_iff {value : Value} {total : Nat} :
    Record.count? value = some total ↔ value = .ofNat total := by
  unfold Record.count?
  split
  · constructor
    · rintro ⟨⟩
      rfl
    · intro same
      cases same
      rfl
  · next other =>
      refine iff_of_false nofun ?_
      rintro rfl
      exact other total rfl

/-- A page that passed is read exactly if its total is a count. -/
theorem read_page_iff (reads : shape.Reads (Record.read? (α := α))) {input : Option Value}
    {pruned : Value} (accepted : (page shape).toShape.prune? input = some pruned) :
    (∃ shown : Page α, Record.read? pruned = some shown) ↔ Counts pruned := by
  obtain ⟨whole, kept, rfl, rfl, ofField⟩ := prunesField_of_prune? accepted
  simp only [page, List.forall_mem_cons] at ofField
  obtain ⟨ofItems, -, ofCursor, -⟩ := ofField
  obtain ⟨items, hasItems⟩ := reads.arrayOf.required ofItems
  obtain ⟨cursor, hasCursor⟩ := Reads.defaulted reads_nullable_string none ofCursor
  constructor
  · rintro ⟨shown, read⟩
    obtain ⟨items, -, read⟩ := Option.bind_eq_some_iff.mp read
    obtain ⟨total, hasTotal, -⟩ := Option.bind_eq_some_iff.mp read
    obtain ⟨value, found, counted⟩ := Option.bind_eq_some_iff.mp hasTotal
    exact ⟨kept, total, rfl, count?_eq_some_iff.mp counted ▸ found⟩
  · rintro ⟨_, total, ⟨⟩, found⟩
    have hasTotal : Record.required Record.count? (Entries.find? kept "total") = some total := by
      rw [found]
      rfl
    exact ⟨⟨items, total, cursor⟩,
      read_next hasItems (read_next hasTotal (read_next hasCursor rfl))⟩

end Wrappers

/-- A document is read as a record. -/
def Readable (α : Type) [Record α] (pruned : Value) : Prop :=
  ∃ record : α, Record.read? pruned = some record

/-- The contracts that records mirror, with what the record of each reads. -/
def mirrors : List (String × (Value → Prop)) :=
  [(ContractName.organization, Readable Organization),
    (ContractName.createOrganization, Readable CreateOrganization),
    (ContractName.organizationSummary, Readable OrganizationSummary),
    (ContractName.organizationPath, Readable OrganizationPath),
    (ContractName.member, Readable Member), (ContractName.memberView, Readable MemberView),
    (ContractName.inviteMember, Readable InviteMember),
    (ContractName.memberPatch, Readable MemberPatch),
    (ContractName.memberPath, Readable MemberPath),
    (ContractName.organizationPage, Readable (Page Organization)),
    (ContractName.memberPage, Readable (Page MemberView)),
    (ContractName.organizationEnvelope, Readable (Envelope Organization)),
    (ContractName.memberEnvelope, Readable (Envelope MemberView))]

def pages : List String :=
  [ContractName.organizationPage, ContractName.memberPage]

/-- Whatever passes the contract of a name is read, if it counts what it pages. -/
def Mirrored (name : String) (readable : Value → Prop) : Prop :=
  ∃ shape, Registry.catalogue.get name = .ok shape ∧ ∀ input pruned,
    shape.checkAndPrune input = .ok pruned → (readable pruned ↔ (name ∈ pages → Counts pruned))

section Lookup

variable {α : Type} [Record α] {name : String} {shape : Shape}

theorem mirrored_of_reads (listed : (name, shape) ∈ contracts ++ wrapped) (single : name ∉ pages)
    (reads : shape.Reads (Record.read? (α := α))) : Mirrored name (Readable α) := by
  refine ⟨shape, Registry.get_catalogue listed, fun input pruned accepted => ?_⟩
  exact iff_of_true (reads input pruned (checkAndPrune_eq_ok_iff.mp accepted)) (absurd · single)

theorem mirrored_page (listed : (name, (page shape).toShape) ∈ contracts ++ wrapped)
    (paged : name ∈ pages) (reads : shape.Reads (Record.read? (α := α))) :
    Mirrored name (Readable (Page α)) := by
  refine ⟨_, Registry.get_catalogue listed, fun input pruned accepted => ?_⟩
  rw [forall_prop_of_true paged]
  exact read_page_iff reads (checkAndPrune_eq_ok_iff.mp accepted)

end Lookup

theorem forall_mirrored : ∀ mirror ∈ mirrors, Mirrored mirror.1 mirror.2 := by
  simp only [mirrors, List.forall_mem_cons]
  refine ⟨?_, ?_, ?_, ?_, ?_, ?_, ?_, ?_, ?_, ?_, ?_, ?_, ?_, List.forall_mem_nil _⟩
  · exact mirrored_of_reads (by simp [contracts]) (by decide) reads_organization
  · exact mirrored_of_reads (by simp [contracts]) (by decide) reads_createOrganization
  · exact mirrored_of_reads (by simp [contracts]) (by decide) reads_organizationSummary
  · exact mirrored_of_reads (by simp [contracts]) (by decide) reads_organizationPath
  · exact mirrored_of_reads (by simp [contracts]) (by decide) reads_member
  · exact mirrored_of_reads (by simp [contracts]) (by decide) reads_memberView
  · exact mirrored_of_reads (by simp [contracts]) (by decide) reads_inviteMember
  · exact mirrored_of_reads (by simp [contracts]) (by decide) reads_memberPatch
  · exact mirrored_of_reads (by simp [contracts]) (by decide) reads_memberPath
  · exact mirrored_page (by simp [wrapped]) (by decide) reads_organization
  · exact mirrored_page (by simp [wrapped]) (by decide) reads_memberView
  · exact mirrored_of_reads (by simp [wrapped]) (by decide) (reads_envelope reads_organization)
  · exact mirrored_of_reads (by simp [wrapped]) (by decide) (reads_envelope reads_memberView)

/-- Whatever input passes a contract that a record mirrors, the record is read from what is left of
it, but for a page, from which it is read exactly if the total is a count. -/
theorem readable_iff_of_mem_mirrors {name : String} {readable : Value → Prop}
    (listed : (name, readable) ∈ mirrors) (input : Option Value) :
    ∃ shape, Registry.catalogue.get name = .ok shape ∧ ∀ pruned,
      shape.checkAndPrune input = .ok pruned →
        (readable pruned ↔ (name ∈ pages → Counts pruned)) := by
  obtain ⟨shape, found, reads⟩ := forall_mirrored _ listed
  exact ⟨shape, found, reads input⟩

/-- A member's view with an undeclared key, a role in capitals, and no word on how long. -/
def ownerDocument : Value :=
  .object [("active", .bool true), ("email", .string "a@b"), ("extra", .null),
    ("id", .string "mem_1"), ("invitedBy", .null),
    ("organization", .object [("id", .string "org_1"), ("name", .string "A")]),
    ("organizationId", .string "org_1"), ("role", .string "OWNER")]

theorem readable_ownerDocument :
    (ContractName.memberView, Readable MemberView) ∈ mirrors ∧
      ∃ shape pruned, Registry.catalogue.get ContractName.memberView = .ok shape ∧
        shape.checkAndPrune (some ownerDocument) = .ok pruned ∧ Readable MemberView pruned := by
  have mirrored : (ContractName.memberView, Readable MemberView) ∈ mirrors := by simp [mirrors]
  have listed : (ContractName.memberView, memberView) ∈ contracts ++ wrapped := by
    simp [contracts]
  obtain ⟨shape, found, reads⟩ := readable_iff_of_mem_mirrors mirrored (some ownerDocument)
  obtain rfl := Except.ok.inj ((Registry.get_catalogue listed).symm.trans found)
  obtain ⟨pruned, accepted⟩ : ∃ pruned,
      memberView.checkAndPrune (some ownerDocument) = .ok pruned := ⟨_, rfl⟩
  have single : ContractName.memberView ∉ pages := by decide
  exact ⟨mirrored, _, pruned, found, accepted, (reads pruned accepted).mpr (absurd · single)⟩

/-- A page of nothing whose total is below zero. -/
def negativePage : Value :=
  .object [("items", .array []), ("total", .number (.integer (-1)))]

/-- A page may pass its contract and yet not be read. -/
theorem not_forall_mirrors_readable :
    ¬∀ mirror ∈ mirrors, ∀ shape, Registry.catalogue.get mirror.1 = .ok shape →
      ∀ input pruned, shape.checkAndPrune input = .ok pruned → mirror.2 pruned := by
  intro readable
  have mirrored : (ContractName.organizationPage, Readable (Page Organization)) ∈ mirrors := by
    simp [mirrors]
  have listed : (ContractName.organizationPage, (page organization.toShape).toShape) ∈
      contracts ++ wrapped := by simp [wrapped]
  obtain ⟨shown, read⟩ := readable _ mirrored _ (Registry.get_catalogue listed)
    (some negativePage) negativePage rfl
  exact nomatch read

end Catalogue

end Tenancy
