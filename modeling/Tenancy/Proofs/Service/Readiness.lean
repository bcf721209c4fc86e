import Tenancy.Proofs.Service.Session
import Tenancy.Proofs.Shape.Refusal

/-!
# Readiness

A handler looks its contracts up as it comes to need them, the last one when the store has changed
already. `Inquiry` is a handler without the contracts: a tree that asks for contracts by name and
goes on from their shapes. Handlers are such trees, run over the contracts of the application
(`Application.perform_eq_run`), so what a tree asks for on any of its paths is all that its handler
can look up. The service is ready only if it has all of that, and then no handler misses a contract
(`Application.finds_contracts_of_ready`).
-/

namespace Tenancy

open Json Boundary Outcome

open Application (Answer)

/-- A handler that has answered, or asks for a contract and goes on from its shape, with the store
that holds by then. -/
inductive Inquiry where
  | answered (answer : Answer) (store : Store)
  | asking (name : String) (store : Store) (next : Shape → Inquiry)

namespace Inquiry

/-- What comes of an inquiry over the contracts of a registry. One that is missing ends it. -/
def run (contracts : Registry) : Inquiry → Answer × Store
  | answered answer store => (answer, store)
  | asking name store next =>
      match contracts.get name with
      | .ok shape => (next shape).run contracts
      | .error error => (.error (.ofContractError error), store)

/-- A contract is asked for on one of the paths. -/
def Asks (name : String) : Inquiry → Prop
  | answered _ _ => False
  | asking other _ next => name = other ∨ ∃ shape, (next shape).Asks name

/-- Read a record by a contract. -/
def reading {α : Type} (name : String) (store : Store) (extract : Shape → Except ServiceError α)
    (next : α → Inquiry) : Inquiry :=
  asking name store fun shape =>
    match extract shape with
    | .ok record => next record
    | .error error => answered (.error error) store

/-- Answer with a record by a contract. -/
def answering {α : Type} [Record α] (status : Nat) (name : String) (record : α) (store : Store) :
    Inquiry :=
  asking name store fun shape => answered ((respond shape record).map (.document status)) store

/-- The handler of an action on organizations or members. -/
def ofAction? (action : Action) (ids : FreshIds) (parameters : Parameters) (body : List UInt8)
    (store : Store) : Option Inquiry :=
  match action with
  | .liveness | .readiness | .listContracts | .checkContract => none
  | .listOrganizations =>
      some (answering 200 ContractName.organizationPage (Page.whole store.listOrganizations) store)
  | .createOrganization => some <|
      reading ContractName.createOrganization store (extractRecord CreateOrganization · body)
        fun request =>
          let (organization, store) := store.createOrganization ids.organization request
          answering 201 ContractName.organizationEnvelope (Envelope.success organization) store
  | .getOrganization => some <|
      reading ContractName.organizationPath store (extractPath OrganizationPath · parameters)
        fun path =>
          match store.getOrganization path.organizationId with
          | .error error => answered (.error (.ofStoreError error)) store
          | .ok organization =>
              answering 200 ContractName.organizationEnvelope (Envelope.success organization) store
  | .listMembers => some <|
      reading ContractName.organizationPath store (extractPath OrganizationPath · parameters)
        fun path =>
          match store.listMembers path.organizationId with
          | .error error => answered (.error (.ofStoreError error)) store
          | .ok members => answering 200 ContractName.memberPage (Page.whole members) store
  | .inviteMember => some <|
      reading ContractName.organizationPath store (extractPath OrganizationPath · parameters)
        fun path =>
          reading ContractName.inviteMember store (extractRecord InviteMember · body) fun request =>
            match store.inviteMember path.organizationId ids.member request with
            | (.error error, store) => answered (.error (.ofStoreError error)) store
            | (.ok view, store) =>
                answering 201 ContractName.memberEnvelope (Envelope.success view) store
  | .updateMember => some <|
      reading ContractName.memberPath store (extractPath MemberPath · parameters) fun path =>
        reading ContractName.memberPatch store (extractRecord MemberPatch · body) fun patch =>
          match store.updateMember path.organizationId path.memberId patch with
          | (.error error, store) => answered (.error (.ofStoreError error)) store
          | (.ok view, store) =>
              answering 200 ContractName.memberEnvelope (Envelope.success view) store

/-! ### Handlers as inquiries -/

section Run

variable (application : Application) {α β : Type}

theorem run_reading (name : String) (store : Store) (extract : Shape → Except ServiceError α)
    (next : α → Inquiry) :
    (reading name store extract next).run application.contracts =
      match application.contract name >>= extract with
      | .ok record => (next record).run application.contracts
      | .error error => (.error error, store) := by
  rw [reading, run, Application.contract]
  cases application.contracts.get name with
  | error error => rfl
  | ok shape =>
      change _ = match extract shape with
        | .ok record => (next record).run application.contracts
        | .error error => (.error error, store)
      dsimp only
      cases extract shape <;> rfl

theorem run_answering [Record α] (status : Nat) (name : String) (record : α) (store : Store) :
    (answering status name record store).run application.contracts =
      (application.answer status name record, store) := by
  rw [answering, run, Application.answer, Application.contract]
  cases application.contracts.get name with
  | error error => rfl
  | ok shape =>
      change ((respond shape record).map (Response.document status), store) =
        (respond shape record >>= fun value => pure (.document status value), store)
      cases respond shape record <;> rfl

/-- A handler that reads two records before it does anything else. -/
theorem run_reading_reading (name other : String) (store : Store)
    (extract : Shape → Except ServiceError α) (extractOther : Shape → Except ServiceError β)
    (next : α → β → Inquiry) :
    (reading name store extract fun first =>
        reading other store extractOther (next first)).run application.contracts =
      match (do
        let first ← application.contract name >>= extract
        return (first, ← application.contract other >>= extractOther)) with
      | .ok (first, second) => (next first second).run application.contracts
      | .error error => (.error error, store) := by
  rw [run_reading]
  cases application.contract name >>= extract with
  | error error => rfl
  | ok first =>
      dsimp only
      rw [run_reading, ok_bind]
      cases application.contract other >>= extractOther <;> rfl

end Run

end Inquiry

namespace Application

theorem perform_eq_run (application : Application) {action : Action} {ids : FreshIds}
    {parameters : Parameters} {body : List UInt8} {store : Store} {inquiry : Inquiry}
    (handles : Inquiry.ofAction? action ids parameters body store = some inquiry) :
    application.perform action ids parameters body store = inquiry.run application.contracts := by
  cases action with
  | liveness | readiness | listContracts | checkContract => exact nomatch handles
  | listOrganizations =>
      cases handles
      rw [Inquiry.run_answering]
      rfl
  | createOrganization =>
      cases handles
      rw [Inquiry.run_reading, perform, createOrganization, readBody]
      cases application.contract _ >>= fun shape => extractRecord CreateOrganization shape body with
      | error error => rfl
      | ok request => exact (Inquiry.run_answering application _ _ _ _).symm
  | getOrganization =>
      cases handles
      rw [Inquiry.run_reading, perform, getOrganization, readPath]
      cases application.contract _ >>= fun shape => extractPath OrganizationPath shape parameters with
      | error error => rfl
      | ok path =>
          dsimp only
          rw [ok_bind]
          cases store.getOrganization path.organizationId with
          | error error => rfl
          | ok organization => exact (Inquiry.run_answering application _ _ _ _).symm
  | listMembers =>
      cases handles
      rw [Inquiry.run_reading, perform, listMembers, readPath]
      cases application.contract _ >>= fun shape => extractPath OrganizationPath shape parameters with
      | error error => rfl
      | ok path =>
          dsimp only
          rw [ok_bind]
          cases store.listMembers path.organizationId with
          | error error => rfl
          | ok members => exact (Inquiry.run_answering application _ _ _ _).symm
  | inviteMember =>
      cases handles
      rw [Inquiry.run_reading_reading, perform, inviteMember, readPath, readBody]
      split
      · next given => rw [given]
      · next path request given =>
          rw [given]
          dsimp only
          rcases store.inviteMember path.organizationId ids.member request with ⟨_ | view, after⟩
          · rfl
          · exact (Inquiry.run_answering application _ _ _ _).symm
  | updateMember =>
      cases handles
      rw [Inquiry.run_reading_reading, perform, updateMember, readPath, readBody]
      split
      · next given => rw [given]
      · next path patch given =>
          rw [given]
          dsimp only
          rcases store.updateMember path.organizationId path.memberId patch with ⟨_ | view, after⟩
          · rfl
          · exact (Inquiry.run_answering application _ _ _ _).symm

end Application

/-! ### What handlers ask for -/

/-- The failure of a handler that misses a contract. -/
def ServiceError.Misses (error : ServiceError) : Prop :=
  ∃ name, error = .ofContractError (.unknownContract name)

theorem ServiceError.not_misses_of_status {error : ServiceError} (status : error.status ≠ 404) :
    ¬error.Misses := by
  rintro ⟨name, rfl⟩
  exact status rfl

/-- What is missing from the store is told in other words than a missing contract. -/
theorem ServiceError.not_misses_ofStoreError (error : StoreError) :
    ¬(ServiceError.ofStoreError error).Misses := by
  rintro ⟨name, same⟩
  have unknown : (ContractError.unknownContract name).message.toList.head? = some 'u' :=
    head?_toList_append (head?_toList_append rfl name) _
  have apart {message : String} {c : Char} (begins : message.toList.head? = some c)
      (other : c ≠ 'u') : message ≠ (ContractError.unknownContract name).message := by
    rintro rfl
    exact other (Option.some.inj (begins.symm.trans unknown))
  cases error with
  | duplicateMember email => exact nomatch same
  | organizationNotFound id =>
      have begins : (StoreError.organizationNotFound id).message.toList.head? = some 'o' :=
        head?_toList_append (head?_toList_append rfl id) _
      exact apart begins (by decide) (ServiceError.notFound.inj same)
  | memberNotFound id =>
      have begins : (StoreError.memberNotFound id).message.toList.head? = some 'm' :=
        head?_toList_append (head?_toList_append rfl id) _
      exact apart begins (by decide) (ServiceError.notFound.inj same)

namespace Boundary

variable {α : Type} [Record α] {shape : Shape} {error : ServiceError}

theorem status_of_toRecord_eq_error {pruned : Value} (unread : toRecord α pruned = .error error) :
    error.status = 500 := by
  unfold toRecord at unread
  split at unread
  · exact nomatch unread
  · cases unread
    rfl

theorem not_misses_of_extractRecord {body : List UInt8}
    (refused : extractRecord α shape body = .error error) : ¬error.Misses := by
  apply ServiceError.not_misses_of_status
  rcases bind_eq_error_iff.mp refused with unfit | ⟨pruned, -, unread⟩
  · have status := status_of_extract_eq_error unfit
    omega
  · have status := status_of_toRecord_eq_error unread
    omega

theorem not_misses_of_extractPath {parameters : Parameters}
    (refused : extractPath α shape parameters = .error error) : ¬error.Misses := by
  apply ServiceError.not_misses_of_status
  rcases bind_eq_error_iff.mp refused with unfit | ⟨pruned, -, unread⟩
  · obtain ⟨rejection, -, rfl⟩ := mapError_eq_error_iff.mp unfit
    simp [ServiceError.status]
  · have status := status_of_toRecord_eq_error unread
    omega

theorem not_misses_of_respond {record : α} (refused : respond shape record = .error error) :
    ¬error.Misses := by
  obtain ⟨rejection, -, rfl⟩ := mapError_eq_error_iff.mp refused
  exact ServiceError.not_misses_of_status (by simp [ServiceError.status])

end Boundary

namespace Inquiry

/-- Only contracts of the given names are asked for, and no answer says that one is missing. -/
def Within (names : List String) : Inquiry → Prop
  | answered answer _ => ∀ error, answer = .error error → ¬error.Misses
  | asking name _ next => name ∈ names ∧ ∀ shape, (next shape).Within names

variable {names : List String} {name : String} {inquiry : Inquiry}

theorem Within.mem (within : inquiry.Within names) (asks : inquiry.Asks name) : name ∈ names := by
  induction inquiry with
  | answered answer store => exact asks.elim
  | asking other store next inductionHypothesis =>
      obtain ⟨listed, later⟩ := within
      rcases asks with rfl | ⟨shape, asks⟩
      · exact listed
      · exact inductionHypothesis shape (later shape) asks

/-- Where all these contracts are registered, the run does not end for want of one. -/
theorem Within.not_misses_run (within : inquiry.Within names) {contracts : Registry}
    (registered : ∀ name ∈ names, ∃ shape, contracts.get name = .ok shape) {error : ServiceError}
    (failed : (inquiry.run contracts).1 = .error error) : ¬error.Misses := by
  induction inquiry with
  | answered answer store => exact within error failed
  | asking name store next inductionHypothesis =>
      obtain ⟨listed, later⟩ := within
      obtain ⟨shape, found⟩ := registered name listed
      rw [run, found] at failed
      exact inductionHypothesis shape (later shape) failed

theorem within_reading {α : Type} {store : Store} {extract : Shape → Except ServiceError α}
    {next : α → Inquiry} (listed : name ∈ names)
    (extracts : ∀ shape error, extract shape = .error error → ¬error.Misses)
    (later : ∀ record, (next record).Within names) :
    (reading name store extract next).Within names := by
  refine ⟨listed, fun shape => ?_⟩
  dsimp only
  cases given : extract shape with
  | error reason =>
      rintro error ⟨⟩
      exact extracts shape reason given
  | ok record => exact later record

theorem within_answering {α : Type} [Record α] {status : Nat} {record : α} {store : Store}
    (listed : name ∈ names) : (answering status name record store).Within names := by
  refine ⟨listed, fun shape error failed => ?_⟩
  exact not_misses_of_respond (map_eq_error_iff.mp failed)

theorem within_ofStoreError (error : StoreError) (store : Store) :
    (answered (.error (.ofStoreError error)) store).Within names := by
  rintro _ ⟨⟩
  exact ServiceError.not_misses_ofStoreError error

/-- Handlers ask for no contract but those of the routes. -/
theorem within_ofAction? {action : Action} {ids : FreshIds} {parameters : Parameters}
    {body : List UInt8} {store : Store}
    (handles : ofAction? action ids parameters body store = some inquiry) :
    inquiry.Within Application.routeContracts := by
  have ofBody {α : Type} [Record α] (shape : Shape) (error : ServiceError)
      (refused : extractRecord α shape body = .error error) : ¬error.Misses :=
    not_misses_of_extractRecord refused
  have ofPath {α : Type} [Record α] (shape : Shape) (error : ServiceError)
      (refused : extractPath α shape parameters = .error error) : ¬error.Misses :=
    not_misses_of_extractPath refused
  cases action with
  | liveness | readiness | listContracts | checkContract => exact nomatch handles
  | listOrganizations =>
      cases handles
      exact within_answering (by decide)
  | createOrganization =>
      cases handles
      exact within_reading (by decide) ofBody fun request => within_answering (by decide)
  | getOrganization =>
      cases handles
      refine within_reading (by decide) ofPath fun path => ?_
      cases store.getOrganization path.organizationId with
      | error error => exact within_ofStoreError error store
      | ok organization => exact within_answering (by decide)
  | listMembers =>
      cases handles
      refine within_reading (by decide) ofPath fun path => ?_
      cases store.listMembers path.organizationId with
      | error error => exact within_ofStoreError error store
      | ok members => exact within_answering (by decide)
  | inviteMember =>
      cases handles
      refine within_reading (by decide) ofPath fun path => ?_
      refine within_reading (by decide) ofBody fun request => ?_
      rcases store.inviteMember path.organizationId ids.member request with ⟨error | view, after⟩
      · exact within_ofStoreError error after
      · exact within_answering (by decide)
  | updateMember =>
      cases handles
      refine within_reading (by decide) ofPath fun path => ?_
      refine within_reading (by decide) ofBody fun patch => ?_
      rcases store.updateMember path.organizationId path.memberId patch with ⟨error | view, after⟩
      · exact within_ofStoreError error after
      · exact within_answering (by decide)

end Inquiry

namespace Application

/-- The service is ready if it has the contracts of all routes. -/
theorem status_readiness_eq_200_iff {application : Application} :
    application.readiness.status = 200 ↔
      ∀ name ∈ routeContracts, ∃ shape, application.contracts.get name = .ok shape := by
  have registered_iff (name : String) : ¬(application.contracts.get name).toOption.isNone = true ↔
      ∃ shape, application.contracts.get name = .ok shape := by
    cases application.contracts.get name <;> simp [Except.toOption]
  simp only [← registered_iff]
  rw [readiness]
  cases missing : application.missingContract? with
  | none => exact iff_of_true rfl (List.find?_eq_none.mp missing)
  | some name =>
      rw [missingContract?] at missing
      refine iff_of_false (by simp [Response.text]) fun registered => ?_
      have listed := List.mem_of_find?_eq_some missing
      have absent := List.find?_some missing
      exact registered name listed absent

/-- A request that asks whether the service is ready. -/
def readinessProbe : Request := ⟨"GET", "/health/readiness", []⟩

theorem serve_readinessProbe (application : Application) (ids : FreshIds) (store : Store) :
    application.serve ids readinessProbe store = (application.readiness, store) := by
  have asks : readinessProbe.operation? = some (.readiness, []) := rfl
  rw [serve_of_operation?_eq_some application ids store asks]
  rfl

/-- Where the service has said that it is ready, every contract that a handler of organizations or
members asks for, on any path of it, is registered, and none fails for want of one. -/
theorem finds_contracts_of_ready {application : Application} {probeIds : FreshIds}
    {probed : Store} (ready : (application.serve probeIds readinessProbe probed).1.status = 200)
    {request : Request} (tenants : request.concernsTenants = true) {action : Action}
    {parameters : Parameters} (asks : request.operation? = some (action, parameters))
    (ids : FreshIds) (store : Store) :
    ∃ inquiry, Inquiry.ofAction? action ids parameters request.body store = some inquiry ∧
      application.perform action ids parameters request.body store =
        inquiry.run application.contracts ∧
      (∀ name, inquiry.Asks name → ∃ shape, application.contracts.get name = .ok shape) ∧
      ∀ name, (application.perform action ids parameters request.body store).1 ≠
        .error (.ofContractError (.unknownContract name)) := by
  rw [serve_readinessProbe, status_readiness_eq_200_iff] at ready
  obtain ⟨inquiry, handles⟩ :
      ∃ inquiry, Inquiry.ofAction? action ids parameters request.body store = some inquiry := by
    have apart := Request.not_aside_of_concernsTenants tenants asks
    cases action <;> first | exact ⟨_, rfl⟩ | exact absurd (by simp) apart
  have within := Inquiry.within_ofAction? handles
  have performs := perform_eq_run application handles
  refine ⟨inquiry, handles, performs, fun name asked => ready name (within.mem asked), ?_⟩
  intro name failed
  rw [performs] at failed
  exact within.not_misses_run ready failed ⟨name, rfl⟩

/-- The service with a contract for answers about an organization that no such answer keeps. -/
def silent : Application where
  contracts := Registry.catalogue.register ContractName.organizationEnvelope .nothing
  configuration := .default

def foundation : Request :=
  ⟨"POST", "/v1/organizations", Text.utf8Bytes "\x7b\"name\":\"Acme\"\x7d"⟩

/-- The organization is stored before its answer is refused; but the contract of the answer is
found. -/
theorem finds_contracts_of_ready_silent :
    let ids : FreshIds := ⟨"org_1", "mem_1"⟩
    let outcome := silent.perform .createOrganization ids [] foundation.body .empty
    (silent.serve ids readinessProbe .empty).1.status = 200 ∧
      foundation.concernsTenants = true ∧
      foundation.operation? = some (.createOrganization, []) ∧
      (settle outcome.1).status = 500 ∧ outcome.2 ≠ .empty ∧
      (∀ name, outcome.1 ≠ .error (.ofContractError (.unknownContract name))) ∧
      ∃ inquiry,
        Inquiry.ofAction? .createOrganization ids [] foundation.body .empty = some inquiry ∧
        ∀ name, inquiry.Asks name → ∃ shape, silent.contracts.get name = .ok shape := by
  intro ids outcome
  have ready : (silent.serve ids readinessProbe .empty).1.status = 200 := by decide +kernel
  have tenants : foundation.concernsTenants = true := by decide
  have asks : foundation.operation? = some (.createOrganization, []) := by decide
  have refused : (settle outcome.1).status = 500 := by decide +kernel
  have stored : outcome.2 ≠ .empty := by decide +kernel
  obtain ⟨inquiry, handles, -, found, never⟩ :=
    finds_contracts_of_ready ready tenants asks ids .empty
  exact ⟨ready, tenants, asks, refused, stored, never, inquiry, handles, found⟩

end Application

end Tenancy
