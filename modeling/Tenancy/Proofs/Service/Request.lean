import Tenancy.Proofs.Outcome
import Tenancy.Service.Application

/-!
# What requests ask for

A request that reaches a handler asks for an action and names its parameters
(`Request.operation?`). Any other request is answered without a look at the store.
-/

namespace Tenancy

def Endpoint.parameterNames : Endpoint → List String
  | organization | members => ["organizationId"]
  | member => ["organizationId", "memberId"]
  | contractCheck => ["name"]
  | liveness | readiness | organizations | contracts => []

theorem Endpoint.map_fst_of_ofTarget? {target : String} {endpoint : Endpoint} {encoded : Parameters}
    (found : ofTarget? target = some (endpoint, encoded)) :
    encoded.map Prod.fst = endpoint.parameterNames := by
  obtain ⟨segments, -, found⟩ := Option.bind_eq_some_iff.mp found
  unfold ofSegments? at found
  split at found <;> simp only [Option.some.injEq, Prod.mk.injEq, Option.ite_none_left_eq_some,
    reduceCtorEq] at found
  all_goals first
    | obtain ⟨rfl, rfl⟩ := found; rfl
    | obtain ⟨-, rfl, rfl⟩ := found; rfl

def Action.parameterNames : Action → List String
  | getOrganization | listMembers | inviteMember => ["organizationId"]
  | updateMember => ["organizationId", "memberId"]
  | checkContract => ["name"]
  | liveness | readiness | listOrganizations | createOrganization | listContracts => []

theorem Endpoint.mem_actions_of_action? {endpoint : Endpoint} {method : String} {action : Action}
    (asked : endpoint.action? method = some action) :
    ((if method == "HEAD" then "GET" else method), action) ∈ endpoint.actions := by
  obtain ⟨before, after, split, -⟩ := List.lookup_eq_some_iff.mp asked
  exact split ▸ List.mem_append_right _ List.mem_cons_self

/-- Every action at an endpoint takes the endpoint's parameters. -/
theorem Endpoint.parameterNames_of_action? {endpoint : Endpoint} {method : String}
    {action : Action} (asked : endpoint.action? method = some action) :
    action.parameterNames = endpoint.parameterNames := by
  have ofEndpoint : ∀ entry ∈ endpoint.actions,
      entry.2.parameterNames = endpoint.parameterNames := by
    cases endpoint <;> decide
  exact ofEndpoint _ (mem_actions_of_action? asked)

namespace Request

/-- The action that a request asks for, with its decoded parameters. -/
def operation? (request : Request) : Option (Action × Parameters) := do
  let (endpoint, encoded) ← Endpoint.ofTarget? request.target
  let action ← endpoint.action? request.method
  let parameters ← (decodeParameters encoded).toOption
  return (action, parameters)

def shown (request : Request) (response : Response) : Response :=
  if request.method = "HEAD" then response.head else response

@[simp]
theorem status_shown (request : Request) (response : Response) :
    (request.shown response).status = response.status := by
  unfold shown
  split <;> rfl

variable {request : Request} {action : Action} {parameters : Parameters}

theorem operation?_eq_some_iff : request.operation? = some (action, parameters) ↔
    ∃ endpoint encoded, Endpoint.ofTarget? request.target = some (endpoint, encoded) ∧
      endpoint.action? request.method = some action ∧
      decodeParameters encoded = .ok parameters := by
  have decoded_iff (encoded : Parameters) :
      (decodeParameters encoded).toOption = some parameters ↔
        decodeParameters encoded = .ok parameters := by
    cases decodeParameters encoded <;> simp [Except.toOption]
  simp [operation?, Option.bind_eq_some_iff, decoded_iff]

theorem map_fst_decodeParameters {encoded : Parameters}
    (decoded : decodeParameters encoded = .ok parameters) :
    parameters.map Prod.fst = encoded.map Prod.fst := by
  induction encoded generalizing parameters with
  | nil =>
      cases decoded
      rfl
  | cons parameter rest inductionHypothesis =>
      rw [decodeParameters] at decoded
      split at decoded
      · exact nomatch decoded
      · obtain ⟨others, later, rfl⟩ := Outcome.map_eq_ok_iff.mp decoded
        rw [List.map_cons, List.map_cons, inductionHypothesis later]

/-- A request names the parameters of the action it asks for, in their order. -/
theorem map_fst_of_operation? (asks : request.operation? = some (action, parameters)) :
    parameters.map Prod.fst = action.parameterNames := by
  obtain ⟨endpoint, encoded, target, asked, decoded⟩ := operation?_eq_some_iff.mp asks
  rw [map_fst_decodeParameters decoded, Endpoint.map_fst_of_ofTarget? target,
    Endpoint.parameterNames_of_action? asked]

/-- No request for the head alone has its body read. -/
theorem method_ne_head (asks : request.operation? = some (action, parameters))
    (reads : action.readsBody = true) : request.method ≠ "HEAD" := by
  intro isHead
  obtain ⟨endpoint, encoded, target, asked, decoded⟩ := operation?_eq_some_iff.mp asks
  have listed := Endpoint.mem_actions_of_action? asked
  have bodiless : ∀ entry ∈ endpoint.actions, entry.1 = "GET" → entry.2.readsBody = false := by
    cases endpoint <;> decide
  exact Bool.false_ne_true ((bodiless _ listed (by simp [isHead])).symm.trans reads)

/-- Who sends a body that is read is shown the whole answer. -/
theorem shown_of_readsBody (asks : request.operation? = some (action, parameters))
    (reads : action.readsBody = true) (response : Response) :
    request.shown response = response := by
  rw [shown, if_neg (method_ne_head asks reads)]

end Request

namespace Application

variable (application : Application) (ids : FreshIds) {request : Request} (store : Store)

theorem serve_of_action? {endpoint : Endpoint} {encoded : Parameters} {action : Action}
    (target : Endpoint.ofTarget? request.target = some (endpoint, encoded))
    (asked : endpoint.action? request.method = some action) :
    application.serve ids request store =
      (request.shown (application.dispatch action ids encoded request.body store).1,
        (application.dispatch action ids encoded request.body store).2) := by
  simp only [serve, target, asked]
  rfl

theorem serve_of_operation?_eq_none (idle : request.operation? = none) :
    (application.serve ids request store).2 = store ∧
      (application.serve ids request store).1.status ∈ [400, 404, 405] := by
  cases target : Endpoint.ofTarget? request.target with
  | none => simp [serve, target, Response.notFound]
  | some found =>
      obtain ⟨endpoint, encoded⟩ := found
      cases asked : endpoint.action? request.method with
      | none => simp [serve, target, asked, Response.methodNotAllowed]
      | some action =>
          rw [serve_of_action? application ids store target asked]
          cases decoded : decodeParameters encoded with
          | error name => simp [dispatch, decoded, invalidParameter, Response.text]
          | ok parameters =>
              have asks := Request.operation?_eq_some_iff.mpr ⟨_, _, target, asked, decoded⟩
              exact nomatch idle.symm.trans asks

/-- A request for an action is refused for the length of its body, or has the action carried out. -/
theorem serve_of_operation?_eq_some {action : Action} {parameters : Parameters}
    (asks : request.operation? = some (action, parameters)) :
    application.serve ids request store =
      if action.readsBody ∧ application.configuration.bodyLimit < request.body.length then
        (request.shown bodyTooLarge, store)
      else
        (request.shown (settle (application.perform action ids parameters request.body store).1),
          (application.perform action ids parameters request.body store).2) := by
  obtain ⟨endpoint, encoded, target, asked, decoded⟩ := Request.operation?_eq_some_iff.mp asks
  rw [serve_of_action? application ids store target asked]
  simp only [dispatch, decoded]
  split
  · rfl
  · rfl

end Application

end Tenancy
