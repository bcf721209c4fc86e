import Tenancy.Text.Percent

/-!
# Routes

Which action a request asks for. A path is matched segment by segment as it is written, and the
segments that stand for parameters are decoded afterwards, so an encoded slash stays inside its
segment. A parameter may be empty except at the end of a path.
-/

namespace Tenancy

open Text

inductive Endpoint where
  | liveness
  | readiness
  | organizations
  | organization
  | members
  | member
  | contracts
  | contractCheck
  deriving DecidableEq, Repr

inductive Action where
  | liveness
  | readiness
  | listOrganizations
  | createOrganization
  | getOrganization
  | listMembers
  | inviteMember
  | updateMember
  | listContracts
  | checkContract
  deriving DecidableEq, Repr

def Action.readsBody : Action → Bool
  | createOrganization | inviteMember | updateMember | checkContract => true
  | liveness | readiness | listOrganizations | getOrganization | listMembers | listContracts => false

namespace Endpoint

/-- The methods an endpoint takes and the actions they ask for. -/
def actions : Endpoint → List (String × Action)
  | liveness => [("GET", .liveness)]
  | readiness => [("GET", .readiness)]
  | organizations => [("GET", .listOrganizations), ("POST", .createOrganization)]
  | organization => [("GET", .getOrganization)]
  | members => [("GET", .listMembers), ("POST", .inviteMember)]
  | member => [("PATCH", .updateMember)]
  | contracts => [("GET", .listContracts)]
  | contractCheck => [("POST", .checkContract)]

/-- The methods an endpoint takes. Where an answer can be got, so can its head. -/
def allowed (endpoint : Endpoint) : List String :=
  endpoint.actions.flatMap fun (method, _) =>
    if method == "GET" then ["GET", "HEAD"] else [method]

def action? (endpoint : Endpoint) (method : String) : Option Action :=
  endpoint.actions.lookup (if method == "HEAD" then "GET" else method)

end Endpoint

abbrev Parameters := List (String × String)

def isSchemeChar (c : Char) : Bool :=
  c.isAlphanum || c == '+' || c == '-' || c == '.'

def afterScheme? (target : List Char) : Option (List Char) :=
  match target.dropWhile isSchemeChar with
  | ':' :: '/' :: '/' :: rest => some rest
  | _ => none

def endsPath (c : Char) : Bool :=
  c == '?' || c == '#'

def beforeQuery (text : List Char) : List Char :=
  text.takeWhile fun c => !endsPath c

/-- The path of a target. In an absolute target it follows the authority, and is the root where
nothing does; any other target starts with it. -/
def pathOf (target : String) : List Char :=
  match afterScheme? target.toList with
  | none => beforeQuery target.toList
  | some rest =>
      match beforeQuery (rest.dropWhile fun c => c != '/' && !endsPath c) with
      | [] => ['/']
      | path => path

def segmentsOf (path : List Char) : Option (List String) :=
  match path with
  | '/' :: rest => some ((rest.splitOn '/').map String.ofList)
  | _ => none

/-- The endpoint at a path, with its parameters as they are written. -/
def Endpoint.ofSegments? : List String → Option (Endpoint × Parameters)
  | ["health", "liveness"] => some (.liveness, [])
  | ["health", "readiness"] => some (.readiness, [])
  | ["v1", "organizations"] => some (.organizations, [])
  | ["v1", "organizations", owner] =>
      if owner.isEmpty then none else some (.organization, [("organizationId", owner)])
  | ["v1", "organizations", owner, "members"] => some (.members, [("organizationId", owner)])
  | ["v1", "organizations", owner, "members", id] =>
      if id.isEmpty then none
      else some (.member, [("organizationId", owner), ("memberId", id)])
  | ["v1", "contracts"] => some (.contracts, [])
  | ["v1", "contracts", name, "check"] => some (.contractCheck, [("name", name)])
  | _ => none

def Endpoint.ofTarget? (target : String) : Option (Endpoint × Parameters) :=
  (segmentsOf (pathOf target)).bind ofSegments?

/-- The decoded parameters, or the name of the first one that is not UTF-8. -/
def decodeParameters : Parameters → Except String Parameters
  | [] => .ok []
  | (name, encoded) :: rest =>
      match percentDecode? encoded with
      | none => .error name
      | some text => (decodeParameters rest).map ((name, text) :: ·)

def parameter (parameters : Parameters) (name : String) : String :=
  (parameters.lookup name).getD ""

end Tenancy
