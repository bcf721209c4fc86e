import Tenancy.Record.Member
import Tenancy.Text.AsciiCase

/-!
# Store

Organizations and their members, each by its id. Every operation on members is scoped to one
organization: it fails without that organization, and sees no member of another one.
-/

namespace Tenancy

inductive StoreError where
  | organizationNotFound (id : String)
  | memberNotFound (id : String)
  | duplicateMember (email : String)
  deriving DecidableEq, Repr

def StoreError.message : StoreError → String
  | .organizationNotFound id => s!"organization {id} not found"
  | .memberNotFound id => s!"member {id} not found"
  | .duplicateMember email => s!"{email} is already a member of this organization"

/-- Organizations and members by id. -/
structure Store where
  organizations : Dictionary Organization
  members : Dictionary Member
  deriving DecidableEq

namespace Store

def empty : Store := ⟨.empty, .empty⟩

/-- The outcome of an operation, and the store after it. -/
abbrev Outcome (α : Type) := Except StoreError α × Store

def organization? (store : Store) (id : String) : Option Organization :=
  store.organizations.find? id

def member? (store : Store) (id : String) : Option Member :=
  store.members.find? id

def listOrganizations (store : Store) : List Organization :=
  store.organizations.values

/-- The members of an organization by ascending id. -/
def membersOf (store : Store) (organizationId : String) : List Member :=
  store.members.values.filter (·.organizationId == organizationId)

def hasEmail (store : Store) (organizationId email : String) : Bool :=
  (store.membersOf organizationId).any fun member => Text.sameIgnoringCase member.email email

def getOrganization (store : Store) (id : String) : Except StoreError Organization :=
  match store.organization? id with
  | some organization => .ok organization
  | none => .error (.organizationNotFound id)

/-- Store a new organization under a new id. -/
def createOrganization (store : Store) (id : String) (request : CreateOrganization) :
    Organization × Store :=
  let organization : Organization := ⟨id, request.name, request.plan, request.settings⟩
  (organization, { store with organizations := store.organizations.insert id organization })

/-- Store a new member of an organization under a new id, unless its email is taken there. -/
def inviteMember (store : Store) (organizationId id : String) (request : InviteMember) :
    Outcome MemberView :=
  match store.getOrganization organizationId with
  | .error error => (.error error, store)
  | .ok organization =>
      if store.hasEmail organizationId request.email then
        (.error (.duplicateMember request.email), store)
      else
        let member : Member := {
          id := id
          organizationId := organizationId
          email := request.email
          role := request.role
          active := true
          temporary := request.temporary
          expiresAt := request.expiresAt
          invitedBy := request.invitedBy }
        (.ok ⟨member, organization.summary⟩,
          { store with members := store.members.insert id member })

def listMembers (store : Store) (organizationId : String) : Except StoreError (List MemberView) :=
  (store.getOrganization organizationId).map fun organization =>
    (store.membersOf organizationId).map fun member => ⟨member, organization.summary⟩

/-- A member with what a patch changes. -/
def patched (member : Member) (patch : MemberPatch) : Member :=
  { member with
    role := patch.role.getD member.role
    active := patch.active.getD member.active }

/-- Change the role or the activity of an organization's member. -/
def updateMember (store : Store) (organizationId memberId : String) (patch : MemberPatch) :
    Outcome MemberView :=
  match store.getOrganization organizationId with
  | .error error => (.error error, store)
  | .ok organization =>
      match (store.member? memberId).filter (·.organizationId == organizationId) with
      | none => (.error (.memberNotFound memberId), store)
      | some member =>
          let member := patched member patch
          (.ok ⟨member, organization.summary⟩,
            { store with members := store.members.insert memberId member })

end Store

end Tenancy
