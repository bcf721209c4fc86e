import Mathlib.Data.List.Induction
import Tenancy.Proofs.Service.Handler

/-!
# Sessions

The service answers one request after the other, starting from an empty store. Over the catalogue
a request about organizations or members never fails for a mistake of the service, and a request
that does not succeed changes nothing (`Session.faultless_and_atomic_run`), although a handler
stores what it has made before its answer is checked.
-/

namespace Tenancy

open Application

/-- A request, with unused ids for what it may create. -/
structure Arrival where
  ids : FreshIds
  request : Request

/-- A request with its answer, and the stores before and after it. -/
structure Exchange where
  request : Request
  before : Store
  response : Response
  after : Store

/-- What was asked and answered, in order. -/
abbrev History := List Exchange

/-- What was asked and answered so far, and the store that holds. -/
structure Session where
  history : History
  store : Store

namespace Session

def start : Session := ⟨[], .empty⟩

def receive (application : Application) (session : Session) (arrival : Arrival) : Session :=
  let (response, after) := application.serve arrival.ids arrival.request session.store
  ⟨session.history ++ [⟨arrival.request, session.store, response, after⟩], after⟩

/-- Answer requests in their order. -/
def run (application : Application) (arrivals : List Arrival) : Session :=
  arrivals.foldl (receive application) start

theorem run_append_singleton (application : Application) (earlier : List Arrival)
    (last : Arrival) : run application (earlier ++ [last]) =
      receive application (run application earlier) last := by
  rw [run, List.foldl_append, List.foldl_cons, List.foldl_nil, run]

end Session

/-- What can come of a request. -/
inductive Turn (ids : FreshIds) (request : Request) (store : Store) : Response → Store → Prop where
  | unheard {response : Response} : response.status ∈ [400, 404, 405] →
      request.operation? = none → Turn ids request store response store
  | tooLarge {action : Action} {parameters : Parameters} {response : Response} :
      response.status = 413 → request.operation? = some (action, parameters) →
      Turn ids request store response store
  | performed {action : Action} {parameters : Parameters} {answer : Answer} {after : Store} :
      request.operation? = some (action, parameters) →
      Effect ids store action parameters answer after →
      Turn ids request store (request.shown (settle answer)) after

theorem turn_serve (configuration : Configuration) (ids : FreshIds) (request : Request)
    {store : Store} (expiring : store.Expiring) :
    Turn ids request store ((standard configuration).serve ids request store).1
      ((standard configuration).serve ids request store).2 := by
  cases asks : request.operation? with
  | none =>
      obtain ⟨same, status⟩ :=
        serve_of_operation?_eq_none (standard configuration) ids store asks
      rw [same]
      exact .unheard status asks
  | some operation =>
      obtain ⟨action, parameters⟩ := operation
      rw [serve_of_operation?_eq_some (standard configuration) ids store asks]
      split
      · exact .tooLarge (by simp [bodyTooLarge, Response.text]) asks
      · exact .performed asks
          (effect_perform configuration (Request.map_fst_of_operation? asks) ids _ expiring)

theorem Turn.change {ids : FreshIds} {request : Request} {store after : Store}
    {response : Response} (turn : Turn ids request store response after) :
    store.Change ids after := by
  cases turn with
  | unheard status idle => exact .none
  | tooLarge status asks => exact .none
  | performed asks effect => exact effect.change

/-- Whether a request goes to the organizations or to their members. -/
def Request.concernsTenants (request : Request) : Bool :=
  match Endpoint.ofTarget? request.target with
  | some (.organizations, _) | some (.organization, _) | some (.members, _) | some (.member, _) =>
      true
  | _ => false

theorem Request.not_aside_of_concernsTenants {request : Request} {action : Action}
    {parameters : Parameters} (tenants : request.concernsTenants = true)
    (asks : request.operation? = some (action, parameters)) :
    action ∉ [.liveness, .readiness, .listContracts, .checkContract] := by
  obtain ⟨endpoint, encoded, target, asked, -⟩ := operation?_eq_some_iff.mp asks
  have listed := Endpoint.mem_actions_of_action? asked
  rw [concernsTenants, target] at tenants
  have apart : ∀ entry ∈ endpoint.actions,
      entry.2 ∉ [.liveness, .readiness, .listContracts, .checkContract] := by
    cases endpoint with
    | liveness | readiness | contracts | contractCheck => exact nomatch tenants
    | organizations | organization | members | member => decide
  exact apart _ listed

/-- No request about tenants fails for a mistake of the service. -/
theorem Turn.status_ne_500 {ids : FreshIds} {request : Request} {store after : Store}
    {response : Response} (turn : Turn ids request store response after)
    (tenants : request.concernsTenants = true) : response.status ≠ 500 := by
  cases turn with
  | unheard status idle =>
      rintro same
      simp [same] at status
  | tooLarge status asks => omega
  | performed asks effect =>
      rw [Request.status_shown]
      cases effect with
      | refused fault => exact fault
      | told reads => simp [settle, Response.document]
      | aside other =>
          have apart := Request.not_aside_of_concernsTenants tenants asks
          simp only [List.mem_cons, List.not_mem_nil, or_false] at apart
          exact absurd other apart
      | created made => simp [settle, Response.document]
      | invited hasExpiry made => simp [settle, Response.document]
      | updated made => simp [settle, Response.document]

/-- What does not succeed changes nothing. -/
theorem Turn.eq_of_not_success {ids : FreshIds} {request : Request} {store after : Store}
    {response : Response} (turn : Turn ids request store response after)
    (failed : response.isSuccess = false) : after = store := by
  cases turn with
  | unheard status idle => rfl
  | tooLarge status asks => rfl
  | performed asks effect =>
      rw [Response.isSuccess, Request.status_shown] at failed
      cases effect with
      | refused fault => rfl
      | told reads => rfl
      | aside other => rfl
      | created made => simp [settle, Response.document] at failed
      | invited hasExpiry made => simp [settle, Response.document] at failed
      | updated made => simp [settle, Response.document] at failed

namespace Session

theorem expiring_run (configuration : Configuration) (arrivals : List Arrival) :
    (run (standard configuration) arrivals).store.Expiring := by
  induction arrivals using List.reverseRecOn with
  | nil => exact fun _ _ found => nomatch found
  | append_singleton earlier last inductionHypothesis =>
      rw [run_append_singleton]
      have turn := turn_serve configuration last.ids last.request inductionHypothesis
      exact turn.change.expiring inductionHypothesis

/-- No request about tenants fails for a mistake of the service, and no request that fails changes
the store. -/
theorem faultless_and_atomic_run (configuration : Configuration) (arrivals : List Arrival) :
    ∀ exchange ∈ (run (standard configuration) arrivals).history,
      (exchange.request.concernsTenants = true → exchange.response.status ≠ 500) ∧
      (exchange.response.isSuccess = false → exchange.after = exchange.before) := by
  induction arrivals using List.reverseRecOn with
  | nil => exact List.forall_mem_nil _
  | append_singleton earlier last inductionHypothesis =>
      rw [run_append_singleton]
      intro exchange member
      rcases List.mem_append.mp member with before | now
      · exact inductionHypothesis exchange before
      · obtain rfl := List.mem_singleton.mp now
        have turn := turn_serve configuration last.ids last.request
          (expiring_run configuration earlier)
        exact ⟨turn.status_ne_500, turn.eq_of_not_success⟩

/-- A member is invited into a new organization, promoted, and invited once more in vain. -/
def promotion : List Arrival :=
  [⟨⟨"org_1", "mem_1"⟩, "POST", "/v1/organizations", "\x7b\"name\":\"A\"\x7d".toUTF8.toList⟩,
    ⟨⟨"org_2", "mem_2"⟩, "POST", "/v1/organizations/org_1/members",
      "\x7b\"email\":\"a@b\",\"role\":\"VIEWER\",\"temporary\":false\x7d".toUTF8.toList⟩,
    ⟨⟨"org_3", "mem_3"⟩, "PATCH", "/v1/organizations/org_1/members/mem_2",
      "\x7b\"role\":\"admin\"\x7d".toUTF8.toList⟩,
    ⟨⟨"org_4", "mem_4"⟩, "POST", "/v1/organizations/org_1/members",
      "\x7b\"email\":\"A@B\",\"role\":\"viewer\",\"temporary\":false\x7d".toUTF8.toList⟩]

theorem exists_refused_promotion :
    ∃ exchange ∈ (run (standard .default) promotion).history,
      exchange.request.concernsTenants = true ∧ exchange.response.isSuccess = false ∧
        exchange.response.status ≠ 500 ∧ exchange.after = exchange.before := by
  have refused : ∃ exchange ∈ (run (standard .default) promotion).history,
      exchange.request.concernsTenants = true ∧ exchange.response.isSuccess = false := by
    decide +kernel
  obtain ⟨exchange, member, tenants, failed⟩ := refused
  obtain ⟨faultless, atomic⟩ := faultless_and_atomic_run .default promotion exchange member
  exact ⟨exchange, member, tenants, failed, faultless tenants, atomic failed⟩

end Session

end Tenancy
