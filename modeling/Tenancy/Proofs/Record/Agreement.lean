import Tenancy.Proofs.Contract.Lookup
import Tenancy.Proofs.Record.RoundTrip

/-!
# Records and contracts agree

The document of every record passes the contract of its name as it is, and what has passed is read
back as the record (`Catalogue.agrees_all`). Records and contracts are declared apart, so this holds
field by field: names, what is left out, null, choices and nested records. All that a contract asks
beyond the form of a record is that a membership for a time says when it ends, and that an answer
wraps a success.
-/

namespace Tenancy

open Json Json.Value Shape

namespace Catalogue

theorem keeps_createOrganization (request : CreateOrganization) :
    createOrganization.toShape.Keeps (Record.toValue request) := by
  have ofPlan : plan.Keeps (Record.write request.plan).canonical := keeps_plan request.plan
  have ofSettings : settings.Keeps (Record.write request.settings).canonical :=
    (canonical_settings request.settings).symm ▸ keeps_settings request.settings
  apply keeps_canonical
  · simp [Entries.keys]
  · simp [Entries.keys, ObjectShape.names, createOrganization, Field.required, Field.optional]
  · simp [createOrganization, Entries.find?_cons, Field.required, Field.optional]
  · simp [createOrganization, Field.required, Field.optional, Entries.find?_cons, canonical,
      keeps_string, ofPlan, ofSettings]

theorem keeps_organizationPath (path : OrganizationPath) :
    organizationPath.toShape.Keeps (Record.toValue path) :=
  keeps_texts [("organizationId", path.organizationId)] rfl

theorem keeps_memberPath (path : MemberPath) :
    memberPath.toShape.Keeps (Record.toValue path) :=
  keeps_texts [("organizationId", path.organizationId), ("memberId", path.memberId)] rfl

theorem keeps_member (stored : Member) (hasExpiry : stored.HasExpiry) :
    member.toShape.Keeps (Record.toValue stored) := by
  have prunes : Prunes member.fields (document (stored.entries ++ [])) (document stored.entries) :=
    prunes_member hasExpiry (by simpa using stored.keys_entries_nodup) (by simp)
  rw [List.append_nil] at prunes
  exact (prune?_object_eq_some_iff member.distinct).mpr ⟨_, _, rfl, prunes, rfl⟩

theorem keeps_inviteMember (request : InviteMember) (hasExpiry : request.HasExpiry) :
    inviteMember.toShape.Keeps (Record.toValue request) := by
  obtain ⟨email, granted, temporary, expiresAt, invitedBy⟩ := request
  have distinct : (Entries.keys ([("email", .string email), ("role", Record.write granted),
      ("temporary", .bool temporary)] ++ entryIfSome "expiresAt" (expiresAt.map .string) ++
      [("invitedBy", textOrNull invitedBy)])).Nodup := by
    cases expiresAt <;> simp [Entries.keys, entryIfSome]
  apply keeps_canonical distinct
  · cases expiresAt <;> simp [Entries.keys, entryIfSome, ObjectShape.names, inviteMember, expiry,
      Field.required, Field.optional, Field.requiredIf]
  · have ofTemporary : Entries.find? (document _) "temporary" = some (.bool temporary) :=
      (find?_document distinct "temporary").trans rfl
    -- The expiry may be absent only where it is not asked for.
    have asleep (endless : expiresAt = none) := (holds_expiry ofTemporary).trans
      (show temporary = false by simpa [InviteMember.HasExpiry, endless] using hasExpiry)
    revert asleep
    generalize document _ = whole
    simp [inviteMember, expiry, Field.required, Field.optional, Field.requiredIf,
      Entries.find?_cons, Entries.find?_append, Member.find?_entryIfSome]
  · have ofRole : role.Keeps (Record.write granted).canonical := keeps_role granted
    have ofInviter : Shape.string.nullable.Keeps (textOrNull invitedBy).canonical := by
      cases invitedBy <;> rfl
    simp [inviteMember, expiry, Field.required, Field.optional, Field.requiredIf,
      Entries.find?_cons, Entries.find?_append, Member.find?_entryIfSome, keeps_string,
      keeps_boolean, canonical, ofRole, ofInviter]

theorem keeps_memberPatch (patch : MemberPatch) :
    memberPatch.toShape.Keeps (Record.toValue patch) := by
  obtain ⟨granted, active⟩ := patch
  have ofRole (granted : Role) : role.Keeps (Record.write granted).canonical := keeps_role granted
  apply keeps_canonical
  · cases granted <;> cases active <;> simp [Entries.keys, entryIfSome]
  · cases granted <;> cases active <;>
      simp [Entries.keys, entryIfSome, ObjectShape.names, memberPatch, Field.optional]
  · simp [memberPatch, Field.optional, Requiredness.holds]
  · cases granted <;> cases active <;> simp [memberPatch, Field.optional, Entries.find?_cons,
      entryIfSome, ofRole, canonical, keeps_boolean]

/-- The document of a record passes the contract of a name unchanged, and what has passed is read
back as the record. -/
def Agrees {α : Type} [Record α] (name : String) (record : α) : Prop :=
  ∃ shape pruned, Registry.catalogue.get name = .ok shape ∧
    shape.checkAndPrune (some (Record.toValue record)) = .ok pruned ∧
    pruned = Record.toValue record ∧ Record.read? pruned = some record

theorem agrees {α : Type} [Record α] {name : String} {shape : Shape} {record : α}
    (listed : (name, shape) ∈ contracts ++ wrapped) (keeps : shape.Keeps (Record.toValue record))
    (restored : Record.Restored record) : Agrees name record :=
  ⟨shape, _, Registry.get_catalogue listed, checkAndPrune_eq_ok_iff.mpr keeps, rfl, restored⟩

theorem agrees_page {α : Type} [Record α] {name : String} {shape : Shape} {shown : Page α}
    (listed : (name, (page shape).toShape) ∈ contracts ++ wrapped)
    (keeps : ∀ item ∈ shown.items, shape.Keeps (Record.toValue item))
    (restored : ∀ item ∈ shown.items, Record.Restored item) : Agrees name shown :=
  agrees listed (keeps_page keeps) (Record.restored_page restored)

theorem agrees_envelope {α : Type} [Record α] {name : String} {shape : Shape}
    {answer : Envelope α} (listed : (name, (envelope shape).toShape) ∈ contracts ++ wrapped)
    (succeeded : answer.ok = true) (keeps : shape.Keeps (Record.toValue answer.data))
    (restored : Record.Restored answer.data) : Agrees name answer := by
  obtain ⟨ok, data⟩ := answer
  obtain rfl : ok = true := succeeded
  exact agrees listed (keeps_envelope keeps) (Record.restored_envelope restored)

/-- Every record that says when a membership for a time ends, and every answer of a success, agrees
with the contract of its name. -/
theorem agrees_all :
    (∀ stored : Organization, Agrees ContractName.organization stored) ∧
    (∀ request : CreateOrganization, Agrees ContractName.createOrganization request) ∧
    (∀ summary : OrganizationSummary, Agrees ContractName.organizationSummary summary) ∧
    (∀ path : OrganizationPath, Agrees ContractName.organizationPath path) ∧
    (∀ stored : Member, stored.HasExpiry → Agrees ContractName.member stored) ∧
    (∀ view : MemberView, view.member.HasExpiry → Agrees ContractName.memberView view) ∧
    (∀ request : InviteMember, request.HasExpiry → Agrees ContractName.inviteMember request) ∧
    (∀ patch : MemberPatch, Agrees ContractName.memberPatch patch) ∧
    (∀ path : MemberPath, Agrees ContractName.memberPath path) ∧
    (∀ shown : Page Organization, Agrees ContractName.organizationPage shown) ∧
    (∀ shown : Page MemberView, (∀ view ∈ shown.items, view.member.HasExpiry) →
      Agrees ContractName.memberPage shown) ∧
    (∀ answer : Envelope Organization, answer.ok = true →
      Agrees ContractName.organizationEnvelope answer) ∧
    ∀ answer : Envelope MemberView, answer.ok = true → answer.data.member.HasExpiry →
      Agrees ContractName.memberEnvelope answer := by
  refine ⟨?_, ?_, ?_, ?_, ?_, ?_, ?_, ?_, ?_, ?_, ?_, ?_, ?_⟩
  · intro stored
    exact agrees (by simp [contracts]) (keeps_organization stored)
      (Record.restored_organization stored)
  · intro request
    exact agrees (by simp [contracts]) (keeps_createOrganization request)
      (Record.restored_createOrganization request)
  · intro summary
    exact agrees (by simp [contracts]) (keeps_organizationSummary summary)
      (Record.restored_organizationSummary summary)
  · intro path
    exact agrees (by simp [contracts]) (keeps_organizationPath path)
      (Record.restored_organizationPath path)
  · intro stored hasExpiry
    exact agrees (by simp [contracts]) (keeps_member stored hasExpiry)
      (Record.restored_member stored)
  · intro view hasExpiry
    exact agrees (by simp [contracts]) (keeps_memberView view hasExpiry)
      (Record.restored_memberView view)
  · intro request hasExpiry
    exact agrees (by simp [contracts]) (keeps_inviteMember request hasExpiry)
      (Record.restored_inviteMember request)
  · intro patch
    exact agrees (by simp [contracts]) (keeps_memberPatch patch)
      (Record.restored_memberPatch patch)
  · intro path
    exact agrees (by simp [contracts]) (keeps_memberPath path) (Record.restored_memberPath path)
  · intro shown
    exact agrees_page (by simp [wrapped]) (fun item _ => keeps_organization item)
      fun item _ => Record.restored_organization item
  · intro shown expiring
    exact agrees_page (by simp [wrapped])
      (fun item listed => keeps_memberView item (expiring item listed))
      fun item _ => Record.restored_memberView item
  · intro answer succeeded
    exact agrees_envelope (by simp [wrapped]) succeeded (keeps_organization answer.data)
      (Record.restored_organization answer.data)
  · intro answer succeeded hasExpiry
    exact agrees_envelope (by simp [wrapped]) succeeded (keeps_memberView answer.data hasExpiry)
      (Record.restored_memberView answer.data)

/-- A viewer until the end of the year, who was not invited by anybody. -/
def guest : MemberView where
  member := ⟨"mem_1", "org_1", "a@b", .viewer, false, true, some "2026-12-31", none⟩
  organization := ⟨"org_1", "A"⟩

theorem agrees_all_guest :
    (∀ view ∈ [guest], view.member.HasExpiry) ∧
      Agrees ContractName.memberPage (Page.mk [guest] 1 (some "next")) ∧
      Agrees ContractName.memberEnvelope (Envelope.mk true guest) := by
  have hasExpiry : guest.member.HasExpiry := fun _ => rfl
  have expiring : ∀ view ∈ [guest], view.member.HasExpiry := by simpa using hasExpiry
  obtain ⟨-, -, -, -, -, -, -, -, -, -, ofPage, -, ofEnvelope⟩ := agrees_all
  exact ⟨expiring, ofPage _ expiring, ofEnvelope _ rfl hasExpiry⟩

end Catalogue

end Tenancy
