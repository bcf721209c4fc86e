import Tenancy.Proofs.Dictionary
import Tenancy.Proofs.Record.Reading
import Tenancy.Proofs.Record.Writing
import Tenancy.Service.Identifier
import Tenancy.Store

/-!
# Operations of the store

What has to hold for an operation on members to succeed and what it then leaves. An operation that
fails leaves the store as it was. `Store.Change` lists all that can become of a store, and what
every change keeps is shown for it: whoever is a member for a time has a time (`Store.Expiring`),
and no id turns up that was not handed out.
-/

namespace Tenancy.Store

variable {store after : Store} {owner id : String} {view : MemberView}

/-- The member that an invitation makes. -/
def invited (owner id : String) (request : InviteMember) : Member where
  id := id
  organizationId := owner
  email := request.email
  role := request.role
  active := true
  temporary := request.temporary
  expiresAt := request.expiresAt
  invitedBy := request.invitedBy

theorem inviteMember_eq_ok_iff {request : InviteMember} :
    store.inviteMember owner id request = (.ok view, after) ↔
      ∃ organization, store.organization? owner = some organization ∧
        store.hasEmail owner request.email = false ∧
        ⟨invited owner id request, organization.summary⟩ = view ∧
        { store with members := store.members.insert id (invited owner id request) } = after := by
  rw [inviteMember, getOrganization]
  cases found : store.organization? owner with
  | none => simp
  | some organization =>
      by_cases taken : store.hasEmail owner request.email
      · simp [taken]
      · simp [taken, invited]

theorem eq_of_inviteMember_eq_error {request : InviteMember} {error : StoreError}
    (refused : store.inviteMember owner id request = (.error error, after)) : after = store := by
  rw [inviteMember, getOrganization] at refused
  cases found : store.organization? owner with
  | none => simp_all
  | some organization =>
      by_cases taken : store.hasEmail owner request.email
      · simp_all
      · simp_all

theorem updateMember_eq_ok_iff {patch : MemberPatch} :
    store.updateMember owner id patch = (.ok view, after) ↔
      ∃ organization member, store.organization? owner = some organization ∧
        store.member? id = some member ∧ member.organizationId = owner ∧
        ⟨patched member patch, organization.summary⟩ = view ∧
        { store with members := store.members.insert id (patched member patch) } = after := by
  rw [updateMember, getOrganization]
  cases found : store.organization? owner with
  | none => simp
  | some organization =>
      cases held : store.member? id with
      | none => simp
      | some member =>
          by_cases own : member.organizationId = owner
          · simp [own, Option.filter]
          · simp [own, Option.filter]

theorem eq_of_updateMember_eq_error {patch : MemberPatch} {error : StoreError}
    (refused : store.updateMember owner id patch = (.error error, after)) : after = store := by
  rw [updateMember, getOrganization] at refused
  cases found : store.organization? owner with
  | none => simp_all
  | some organization =>
      cases held : (store.member? id).filter (·.organizationId == owner) with
      | none => simp_all
      | some member => simp_all

/-- Every member that is temporary has an expiry. -/
def Expiring (store : Store) : Prop :=
  ∀ id member, store.member? id = some member → member.HasExpiry

/-- What can become of a store. -/
inductive Change (ids : FreshIds) (store : Store) : Store → Prop where
  | none : Change ids store store
  | organization (organization : Organization) : Change ids store
      { store with organizations := store.organizations.insert ids.organization organization }
  | member {member : Member} : member.HasExpiry → Change ids store
      { store with members := store.members.insert ids.member member }
  | patch {id : String} {former : Member} (patch : MemberPatch) :
      store.member? id = some former → Change ids store
        { store with members := store.members.insert id (patched former patch) }

namespace Change

variable {ids : FreshIds}

theorem expiring (change : Change ids store after) (expiring : store.Expiring) :
    after.Expiring := by
  cases change with
  | none => exact expiring
  | organization organization => exact expiring
  | member hasExpiry =>
      intro sought member found
      obtain ⟨-, rfl⟩ | before := Dictionary.eq_or_find?_of_insert found
      · exact hasExpiry
      · exact expiring sought member before
  | @patch changed former patch held =>
      intro sought member found
      obtain ⟨-, rfl⟩ | before := Dictionary.eq_or_find?_of_insert found
      · exact expiring changed former held
      · exact expiring sought member before

theorem organization? (change : Change ids store after) {organization : Organization}
    (found : after.organization? id = some organization) :
    id = ids.organization ∨ ∃ former, store.organization? id = some former := by
  cases change with
  | none => exact .inr ⟨_, found⟩
  | organization made =>
      obtain ⟨same, -⟩ | before := Dictionary.eq_or_find?_of_insert found
      · exact .inl same.symm
      · exact .inr ⟨_, before⟩
  | member hasExpiry => exact .inr ⟨_, found⟩
  | patch patch held => exact .inr ⟨_, found⟩

theorem member? (change : Change ids store after) {member : Member}
    (found : after.member? id = some member) :
    id = ids.member ∨ ∃ former, store.member? id = some former := by
  cases change with
  | none => exact .inr ⟨_, found⟩
  | organization made => exact .inr ⟨_, found⟩
  | member hasExpiry =>
      obtain ⟨same, -⟩ | before := Dictionary.eq_or_find?_of_insert found
      · exact .inl same.symm
      · exact .inr ⟨_, before⟩
  | patch patch held =>
      obtain ⟨rfl, -⟩ | before := Dictionary.eq_or_find?_of_insert found
      · exact .inr ⟨_, held⟩
      · exact .inr ⟨_, before⟩

end Change

end Tenancy.Store
