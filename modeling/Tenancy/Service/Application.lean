import Tenancy.Contract.Catalogue
import Tenancy.Service.Boundary
import Tenancy.Service.Configuration
import Tenancy.Service.Identifier
import Tenancy.Service.Route

/-!
# The application

The service answers a request from its contracts, its configuration and the store, and leaves the
store that holds from then on. A handler looks its contracts up as it comes to need them, so a missing
one shows only then, and what was stored before an answer is refused stays stored.
-/

namespace Tenancy

open Json Boundary

/-- What stays the same while the service runs. -/
structure Application where
  contracts : Registry
  configuration : Configuration

namespace Application

def standard (configuration : Configuration) : Application :=
  ⟨.catalogue, configuration⟩

abbrev Answer := Except ServiceError Response

def contract (application : Application) (name : String) : Except ServiceError Shape :=
  (application.contracts.get name).mapError .ofContractError

def readBody (application : Application) (α : Type) [Record α] (name : String)
    (body : List UInt8) : Except ServiceError α := do
  extractRecord α (← application.contract name) body

def readPath (application : Application) (α : Type) [Record α] (name : String)
    (parameters : Parameters) : Except ServiceError α := do
  extractPath α (← application.contract name) parameters

def answer {α : Type} [Record α] (application : Application) (status : Nat) (name : String)
    (record : α) : Answer := do
  return .document status (← respond (← application.contract name) record)

/-! ### Organizations -/

def createOrganization (application : Application) (ids : FreshIds) (body : List UInt8)
    (store : Store) : Answer × Store :=
  match application.readBody CreateOrganization ContractName.createOrganization body with
  | .error error => (.error error, store)
  | .ok request =>
      let (organization, store) := store.createOrganization ids.organization request
      (application.answer 201 ContractName.organizationEnvelope (Envelope.success organization),
        store)

def listOrganizations (application : Application) (store : Store) : Answer :=
  application.answer 200 ContractName.organizationPage (Page.whole store.listOrganizations)

def getOrganization (application : Application) (parameters : Parameters) (store : Store) :
    Answer := do
  let path ← application.readPath OrganizationPath ContractName.organizationPath parameters
  let organization ← (store.getOrganization path.organizationId).mapError .ofStoreError
  application.answer 200 ContractName.organizationEnvelope (Envelope.success organization)

/-! ### Members -/

def inviteMember (application : Application) (ids : FreshIds) (parameters : Parameters)
    (body : List UInt8) (store : Store) : Answer × Store :=
  let request : Except ServiceError (OrganizationPath × InviteMember) := do
    let path ← application.readPath OrganizationPath ContractName.organizationPath parameters
    return (path, ← application.readBody InviteMember ContractName.inviteMember body)
  match request with
  | .error error => (.error error, store)
  | .ok (path, request) =>
      match store.inviteMember path.organizationId ids.member request with
      | (.error error, store) => (.error (.ofStoreError error), store)
      | (.ok view, store) =>
          (application.answer 201 ContractName.memberEnvelope (Envelope.success view), store)

def listMembers (application : Application) (parameters : Parameters) (store : Store) :
    Answer := do
  let path ← application.readPath OrganizationPath ContractName.organizationPath parameters
  let members ← (store.listMembers path.organizationId).mapError .ofStoreError
  application.answer 200 ContractName.memberPage (Page.whole members)

def updateMember (application : Application) (parameters : Parameters) (body : List UInt8)
    (store : Store) : Answer × Store :=
  let request : Except ServiceError (MemberPath × MemberPatch) := do
    let path ← application.readPath MemberPath ContractName.memberPath parameters
    return (path, ← application.readBody MemberPatch ContractName.memberPatch body)
  match request with
  | .error error => (.error error, store)
  | .ok (path, patch) =>
      match store.updateMember path.organizationId path.memberId patch with
      | (.error error, store) => (.error (.ofStoreError error), store)
      | (.ok view, store) =>
          (application.answer 200 ContractName.memberEnvelope (Envelope.success view), store)

/-! ### Contracts and health -/

/-- The names of all contracts, with the arities of the generic ones. -/
def listContracts (application : Application) : Response :=
  .document 200 (.object [
    ("contracts", .array (application.contracts.contractNames.map .string)),
    ("generics", .array (application.contracts.genericArities.map fun (name, arity) =>
      .object [("name", .string name), ("arity", .ofNat arity)]))])

/-- Check a body against any contract, without any other effect. -/
def checkContract (application : Application) (expression : String) (body : List UInt8) :
    Answer := do
  let shape ← (application.contracts.resolveShape expression).mapError .ofContractError
  let pruned ← extract shape body
  return .document 200 (.object [("valid", .bool true), ("pruned", pruned)])

def routeContracts : List String :=
  [ContractName.createOrganization, ContractName.organizationPath, ContractName.inviteMember,
    ContractName.memberPatch, ContractName.memberPath, ContractName.organizationEnvelope,
    ContractName.memberEnvelope, ContractName.organizationPage, ContractName.memberPage]

/-- The first contract that a handler would miss. -/
def missingContract? (application : Application) : Option String :=
  routeContracts.find? fun name => (application.contracts.get name).toOption.isNone

def readiness (application : Application) : Response :=
  match application.missingContract? with
  | some _ => .text 503 "contracts missing"
  | none => .text 200 "ready"

/-! ### Requests -/

def perform (application : Application) (action : Action) (ids : FreshIds)
    (parameters : Parameters) (body : List UInt8) (store : Store) : Answer × Store :=
  match action with
  | .liveness => (.ok (.text 200 "ok"), store)
  | .readiness => (.ok application.readiness, store)
  | .listOrganizations => (application.listOrganizations store, store)
  | .createOrganization => application.createOrganization ids body store
  | .getOrganization => (application.getOrganization parameters store, store)
  | .listMembers => (application.listMembers parameters store, store)
  | .inviteMember => application.inviteMember ids parameters body store
  | .updateMember => application.updateMember parameters body store
  | .listContracts => (.ok application.listContracts, store)
  | .checkContract => (application.checkContract (parameter parameters "name") body, store)

/-- The answer to what could be a failure. -/
def settle : Answer → Response
  | .ok response => response
  | .error error => error.toResponse

def invalidParameter (name : String) : Response :=
  .text 400 s!"Invalid URL: Invalid UTF-8 in `{name}`"

def bodyTooLarge : Response :=
  .text 413 "Failed to buffer the request body: length limit exceeded"

/-- Carry out an action whose parameters are still encoded. They are decoded before the length of
the body is looked at. -/
def dispatch (application : Application) (action : Action) (ids : FreshIds) (encoded : Parameters)
    (body : List UInt8) (store : Store) : Response × Store :=
  match decodeParameters encoded with
  | .error name => (invalidParameter name, store)
  | .ok parameters =>
      if action.readsBody ∧ application.configuration.bodyLimit < body.length then
        (bodyTooLarge, store)
      else
        let (answer, store) := application.perform action ids parameters body store
        (settle answer, store)

def serve (application : Application) (ids : FreshIds) (request : Request) (store : Store) :
    Response × Store :=
  match Endpoint.ofTarget? request.target with
  | none => (.notFound, store)
  | some (endpoint, encoded) =>
      match endpoint.action? request.method with
      | none => (.methodNotAllowed endpoint.allowed, store)
      | some action =>
          let (response, store) :=
            application.dispatch action ids encoded request.body store
          (if request.method = "HEAD" then response.head else response, store)

end Application

end Tenancy
