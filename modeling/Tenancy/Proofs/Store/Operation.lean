import Tenancy.Proofs.Store

/-!
# Operations on one organization

What may be asked of a store about one organization, as data. Most operations leave the store as it
is; the others put one member of that organization under an id (`Store.Step`).
-/

namespace Tenancy.Store

/-- What may be asked about one organization. An invitation comes with the id of the new member. -/
inductive Operation where
  | getOrganization
  | listMembers
  | inviteMember (id : String) (request : InviteMember)
  | updateMember (id : String) (patch : MemberPatch)

/-- What an operation tells. -/
inductive Reply where
  | organization (organization : Organization)
  | members (views : List MemberView)
  | member (view : MemberView)

/-- Carry out an operation on an organization. -/
def operate (store : Store) (owner : String) : Operation → Outcome Reply
  | .getOrganization => ((store.getOrganization owner).map .organization, store)
  | .listMembers => ((store.listMembers owner).map .members, store)
  | .inviteMember id request =>
      let (outcome, after) := store.inviteMember owner id request
      (outcome.map .member, after)
  | .updateMember id patch =>
      let (outcome, after) := store.updateMember owner id patch
      (outcome.map .member, after)

/-- The id of an invitation is not in use. -/
def Operation.Fresh (store : Store) : Operation → Prop
  | .inviteMember id _ => store.member? id = none
  | _ => True

/-- The store with a member under an id. -/
def withMember (store : Store) (id : String) (member : Member) : Store :=
  { store with members := store.members.insert id member }

@[simp]
theorem organization?_withMember (store : Store) (id : String) (member : Member)
    (sought : String) : (store.withMember id member).organization? sought =
      store.organization? sought :=
  rfl

@[simp]
theorem member?_withMember (store : Store) (id : String) (member : Member) (sought : String) :
    (store.withMember id member).member? sought =
      if id = sought then some member else store.member? sought :=
  Dictionary.find?_insert _ _ _ _

/-- A member is the one that was put into the store, or was there before. -/
theorem eq_or_member?_of_withMember {store : Store} {id sought : String} {member found : Member}
    (after : (store.withMember id member).member? sought = some found) :
    (id = sought ∧ member = found) ∨ store.member? sought = some found :=
  Dictionary.eq_or_find?_of_insert after

/-- What an operation on an organization makes of the store. -/
inductive Step (store : Store) (owner : String) : Operation → Store → Prop where
  | idle {operation : Operation} : Step store owner operation store
  | invite {id : String} {request : InviteMember} {organization : Organization} :
      store.organization? owner = some organization →
      store.hasEmail owner request.email = false →
      Step store owner (.inviteMember id request) (store.withMember id (invited owner id request))
  | update {id : String} {patch : MemberPatch} {former : Member} :
      store.member? id = some former → former.organizationId = owner →
      Step store owner (.updateMember id patch) (store.withMember id (patched former patch))

theorem step_operate (store : Store) (owner : String) (operation : Operation) :
    Step store owner operation (store.operate owner operation).2 := by
  cases operation with
  | getOrganization => exact .idle
  | listMembers => exact .idle
  | inviteMember id request =>
      rw [operate]
      cases made : store.inviteMember owner id request with
      | mk outcome after =>
          cases outcome with
          | error reason =>
              obtain rfl := eq_of_inviteMember_eq_error made
              exact .idle
          | ok view =>
              obtain ⟨organization, belongs, free, -, rfl⟩ := inviteMember_eq_ok_iff.mp made
              exact .invite belongs free
  | updateMember id patch =>
      rw [operate]
      cases made : store.updateMember owner id patch with
      | mk outcome after =>
          cases outcome with
          | error reason =>
              obtain rfl := eq_of_updateMember_eq_error made
              exact .idle
          | ok view =>
              obtain ⟨organization, former, -, held, own, -, rfl⟩ :=
                updateMember_eq_ok_iff.mp made
              exact .update held own

end Tenancy.Store
