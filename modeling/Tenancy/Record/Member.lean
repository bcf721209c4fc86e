import Tenancy.Record.Organization

/-!
# Members

The records of memberships. A view lists the fields of a member beside its organization in one object,
so it is never read from an array.
-/

namespace Tenancy

open Json

inductive Role where
  | owner
  | admin
  | member
  | viewer
  deriving DecidableEq, Repr

namespace Role

def name : Role → String
  | owner => "owner"
  | admin => "admin"
  | member => "member"
  | viewer => "viewer"

def ofName? (name : String) : Option Role :=
  [owner, admin, member, viewer].find? (·.name == name)

/-- A role inside an object that lists other fields beside the record's own: nothing under the name
may then also be an empty object. -/
def readBeside? : Value → Option Role
  | .object [(name, .object [])] => ofName? name
  | value => (Record.choice? value).bind ofName?

end Role

instance : Record Role where
  write role := .string role.name
  read? value := (Record.choice? value).bind Role.ofName?

structure Member where
  id : String
  organizationId : String
  email : String
  role : Role
  active : Bool
  temporary : Bool
  expiresAt : Option String
  invitedBy : Option String
  deriving DecidableEq

def textOrNull : Option String → Value
  | some text => .string text
  | none => .null

/-- An entry that is left out when there is nothing to write. -/
def entryIfSome (name : String) (field : Option Value) : List (String × Value) :=
  match field with
  | some value => [(name, value)]
  | none => []

namespace Member

def fieldNames : List String :=
  ["id", "organizationId", "email", "role", "active", "temporary", "expiresAt", "invitedBy"]

def entries (member : Member) : List (String × Value) :=
  [("id", .string member.id), ("organizationId", .string member.organizationId),
    ("email", .string member.email), ("role", Record.write member.role),
    ("active", .bool member.active), ("temporary", .bool member.temporary)] ++
    entryIfSome "expiresAt" (member.expiresAt.map .string) ++
    [("invitedBy", textOrNull member.invitedBy)]

/-- The member of its fields, in the order of their names. -/
def ofFields? (role? : Value → Option Role) : List (Option Value) → Option Member
  | [id, organizationId, email, role, active, temporary, expiresAt, invitedBy] => do
      return {
        id := ← Record.required Record.text? id
        organizationId := ← Record.required Record.text? organizationId
        email := ← Record.required Record.text? email
        role := ← Record.required role? role
        active := ← Record.required Record.flag? active
        temporary := ← Record.defaulted false Record.flag? temporary
        expiresAt := ← Record.optional Record.text? expiresAt
        invitedBy := ← Record.optional Record.text? invitedBy }
  | _ => none

end Member

instance : Record Member where
  write member := .object member.entries
  read? value := (Record.fields? Member.fieldNames value).bind (Member.ofFields? Record.read?)

/-- A membership with the organization it belongs to. -/
structure MemberView where
  member : Member
  organization : OrganizationSummary
  deriving DecidableEq

instance : Record MemberView where
  write view :=
    .object (view.member.entries ++ [("organization", Record.write view.organization)])
  read?
    | .object entries => do
        let fields := Member.fieldNames.map (Entries.find? entries)
        return {
          member := ← Member.ofFields? Role.readBeside? fields
          organization := ← Record.required Record.read? (Entries.find? entries "organization") }
    | _ => none

structure InviteMember where
  email : String
  role : Role
  temporary : Bool
  expiresAt : Option String
  invitedBy : Option String
  deriving DecidableEq

instance : Record InviteMember where
  write request := .object
    ([("email", .string request.email), ("role", Record.write request.role),
      ("temporary", .bool request.temporary)] ++
      entryIfSome "expiresAt" (request.expiresAt.map .string) ++
      [("invitedBy", textOrNull request.invitedBy)])
  read? value :=
    match Record.fields? ["email", "role", "temporary", "expiresAt", "invitedBy"] value with
    | some [email, role, temporary, expiresAt, invitedBy] => do
        return {
          email := ← Record.required Record.text? email
          role := ← Record.required Record.read? role
          temporary := ← Record.required Record.flag? temporary
          expiresAt := ← Record.optional Record.text? expiresAt
          invitedBy := ← Record.optional Record.text? invitedBy }
    | _ => none

structure MemberPatch where
  role : Option Role
  active : Option Bool
  deriving DecidableEq

def MemberPatch.isEmpty (patch : MemberPatch) : Bool :=
  patch.role.isNone && patch.active.isNone

instance : Record MemberPatch where
  write patch := .object
    (entryIfSome "role" (patch.role.map Record.write) ++
      entryIfSome "active" (patch.active.map .bool))
  read? value :=
    match Record.fields? ["role", "active"] value with
    | some [role, active] => do
        return {
          role := ← Record.optional Record.read? role
          active := ← Record.optional Record.flag? active }
    | _ => none

structure MemberPath where
  organizationId : String
  memberId : String
  deriving DecidableEq

instance : Record MemberPath where
  write path := .object
    [("organizationId", .string path.organizationId), ("memberId", .string path.memberId)]
  read? value :=
    match Record.fields? ["organizationId", "memberId"] value with
    | some [organizationId, memberId] => do
        return {
          organizationId := ← Record.required Record.text? organizationId
          memberId := ← Record.required Record.text? memberId }
    | _ => none

end Tenancy
