import Tenancy.Proofs.Contract.Naming
import Tenancy.Proofs.Service.DryRun

/-!
# Who is to blame for a check

Whoever names a contract wrongly is told so: the answer to a check is the client's mistake when the
name is no expression, when it names an unknown contract, or when the body is unfit. One mistake is
taken for the service's own. A wrapper that the client applies to several contracts fails like a
contract that was declared wrongly, and the check answers that the service is at fault
(`Application.blames_service_iff_misapplied`).
-/

namespace Tenancy

open Boundary Outcome

/-- A text applies a wrapper to several contracts at once, and nothing before is at fault. -/
def Misapplied (text : String) : Prop :=
  ∃ expression wrapper actual, Expression.parse text = .ok expression ∧
    Expression.FirstFault expression (.declaration (.arity wrapper 1 actual))

/-- A request for a check, whether or not the name of the contract can be decoded. -/
structure Request.AsksForCheck (request : Request) : Prop where
  method : request.method = "POST"
  target : ∃ encoded, Endpoint.ofTarget? request.target = some (.contractCheck, encoded)

namespace Expression

/-- Of the declarations only the number of arguments can be wrong. -/
theorem FirstFault.exists_arity {expression : Expression} {error : DeclarationError}
    (fault : FirstFault expression (.declaration error)) :
    ∃ wrapper actual, error = .arity wrapper 1 actual := by
  generalize failed : ContractError.declaration error = failure at fault
  induction fault with
  | unknownContract unknown => exact nomatch failed
  | unknownGeneric nonempty unknown => exact nomatch failed
  | argument known earlier fault inductionHypothesis => exact inductionHypothesis failed
  | @miscounted wrapper arguments known names several =>
      cases failed
      exact ⟨wrapper, arguments.length, rfl⟩

end Expression

namespace Registry

theorem misapplied_iff {text : String} :
    Misapplied text ↔ ∃ error, catalogue.resolveShape text = .error (.declaration error) := by
  constructor
  · rintro ⟨expression, wrapper, actual, parsed, fault⟩
    exact ⟨_, resolveShape_eq_error_iff.mpr (.inr ⟨expression, parsed, fault⟩)⟩
  · rintro ⟨error, failed⟩
    rcases resolveShape_eq_error_iff.mp failed with
      ⟨fault, -, malformed⟩ | ⟨expression, parsed, fault⟩
    · exact nomatch malformed
    · obtain ⟨wrapper, actual, rfl⟩ := fault.exists_arity
      exact ⟨expression, wrapper, actual, parsed, fault⟩

end Registry

namespace Application

variable (configuration : Configuration)

/-- The name of the contract is decoded, or the request is refused for it. -/
theorem checks_or_refused (ids : FreshIds) (store : Store) {request : Request}
    (asks : request.AsksForCheck) : (∃ text, request.Checks text) ∨
      request.operation? = none ∧
        ((standard configuration).serve ids request store).1.status = 400 := by
  obtain ⟨method, encoded, target⟩ := asks
  have asked : Endpoint.contractCheck.action? request.method = some .checkContract := by
    rw [method]
    rfl
  cases decoded : decodeParameters encoded with
  | error name =>
      have refused : ((standard configuration).dispatch .checkContract ids encoded request.body
          store).1.status = 400 := by
        rw [dispatch, decoded]
        rfl
      refine .inr ⟨?_, ?_⟩
      · simp [Request.operation?, target, asked, decoded, Except.toOption]
      · rw [serve_of_action? _ ids store target asked, Request.status_shown, refused]
  | ok parameters =>
      have asks : request.operation? = some (.checkContract, parameters) :=
        Request.operation?_eq_some_iff.mpr ⟨_, encoded, target, asked, decoded⟩
      obtain ⟨⟨_, text⟩, rfl, name⟩ :=
        List.map_eq_singleton_iff.mp (Request.map_fst_of_operation? asks)
      cases name
      exact .inl ⟨text, asks⟩

/-- The client is at fault for what cannot be checked or does not pass, unless a wrapper is
misapplied. -/
theorem status_checkContract (text : String) (body : List UInt8) :
    let response := settle ((standard configuration).checkContract text body)
    (response.status = 500 ↔ Misapplied text) ∧
      (response.status ≠ 500 → response.status ∈ [200, 400, 404, 422]) := by
  intro response
  rw [Registry.misapplied_iff]
  cases resolved : Registry.catalogue.resolveShape text with
  | ok shape =>
      have known : (standard configuration).contracts.resolveShape text = .ok shape := resolved
      have status : response.status = 200 ∨ response.status = 400 ∨ response.status = 422 := by
        simp only [response, checkContract_of_resolveShape known]
        cases extracted : extract shape body with
        | error error => exact .inr (status_of_extract_eq_error extracted)
        | ok pruned => exact .inl rfl
      refine ⟨iff_of_false (by omega) nofun, fun _ => ?_⟩
      simp only [List.mem_cons, List.not_mem_nil, or_false]
      omega
  | error error =>
      have refused : (standard configuration).checkContract text body =
          .error (.ofContractError error) :=
        bind_eq_error_iff.mpr (.inl (mapError_eq_error_iff.mpr ⟨error, resolved, rfl⟩))
      have status : response.status = (ServiceError.ofContractError error).status := by
        simp only [response, refused]
        rfl
      rw [status]
      cases error <;> simp [ServiceError.ofContractError, ServiceError.status]

/-- A check blames the service exactly for a misapplied wrapper, in the answer to a body that is not
too long. Any other answer is a document that passed or blames the client, and no check changes the
store. -/
theorem blames_service_iff_misapplied (ids : FreshIds) (store : Store) {request : Request}
    (asks : request.AsksForCheck) :
    let served := (standard configuration).serve ids request store
    (served.1.status = 500 ↔ ∃ text, request.Checks text ∧
        request.body.length ≤ configuration.bodyLimit ∧ Misapplied text) ∧
      (served.1.status ≠ 500 → served.1.status ∈ [200, 400, 404, 413, 422]) ∧
        served.2 = store := by
  rcases checks_or_refused configuration ids store asks with ⟨text, checks⟩ | ⟨idle, refused⟩
  · have named : ∀ other, request.Checks other → other = text := by
      intro other alsoChecks
      simpa using Option.some.inj (alsoChecks.symm.trans checks)
    rw [serve_of_operation?_eq_some _ ids store checks]
    by_cases tooLong : configuration.bodyLimit < request.body.length
    · rw [if_pos ⟨rfl, tooLong⟩]
      simp only [Request.status_shown]
      refine ⟨iff_of_false (by decide) ?_, fun _ => by decide, trivial⟩
      rintro ⟨_, _, within, _⟩
      omega
    · rw [if_neg fun refused => tooLong refused.2]
      obtain ⟨blames, others⟩ := status_checkContract configuration text request.body
      simp only [Request.status_shown]
      refine ⟨blames.trans ⟨fun misapplied => ⟨text, checks, by omega, misapplied⟩, ?_⟩, ?_, rfl⟩
      · rintro ⟨other, alsoChecks, -, misapplied⟩
        exact named other alsoChecks ▸ misapplied
      · intro blameless
        have alsoListed : [200, 400, 404, 422] ⊆ [200, 400, 404, 413, 422] := by decide
        exact alsoListed (others blameless)
  · obtain ⟨unchanged, -⟩ := serve_of_operation?_eq_none (standard configuration) ids store idle
    refine ⟨iff_of_false (by simp [refused]) ?_, by simp [refused], unchanged⟩
    rintro ⟨text, checks, -⟩
    exact nomatch idle.symm.trans checks

/-- A check of an empty document against pages of organizations and organizations. -/
def organizationPairsCheck : Request :=
  ⟨"POST", "/v1/contracts/page%3Corganization%2Corganization%3E/check",
    Text.utf8Bytes "\x7b\x7d"⟩

theorem asksForCheck_organizationPairs : organizationPairsCheck.AsksForCheck where
  method := rfl
  target := ⟨[("name", "page%3Corganization%2Corganization%3E")], by decide +kernel⟩

theorem checks_organizationPairs :
    organizationPairsCheck.Checks "page<organization,organization>" := by
  unfold Request.Checks
  decide +kernel

theorem misapplied_organizationPairs : Misapplied "page<organization,organization>" := by
  let organization := Expression.apply "organization" []
  let pairs := Expression.apply "page" [organization, organization]
  have word : organization.WellNamed := .apply (by decide) (List.forall_mem_nil _)
  have named : pairs.WellNamed := .apply (by decide) (by simp [word])
  have names : organization.Names := .word (by decide)
  exact ⟨pairs, "page", 2, named.parse_canonical, .miscounted (by decide) (by simp [names])
    (by decide)⟩

/-- So it is not true that checks never blame the service. -/
theorem not_forall_check_status_ne_500 :
    ¬∀ (configuration : Configuration) (ids : FreshIds) (store : Store) (request : Request),
      request.AsksForCheck →
        ((standard configuration).serve ids request store).1.status ≠ 500 := by
  intro blameless
  have status : ((standard .default).serve ⟨"org_1", "mem_1"⟩ organizationPairsCheck
      .empty).1.status = 500 := by
    decide +kernel
  exact blameless _ _ _ _ asksForCheck_organizationPairs status

theorem blames_service_iff_misapplied_organizationPairs : organizationPairsCheck.AsksForCheck ∧
    ((standard .default).serve ⟨"org_1", "mem_1"⟩ organizationPairsCheck .empty).1.status =
      500 := by
  have length : organizationPairsCheck.body.length = 2 := by decide +kernel
  have within : organizationPairsCheck.body.length ≤ Configuration.default.bodyLimit := by
    rw [length]
    show 2 ≤ 2 * 1024 * 1024
    omega
  have ⟨blames, _⟩ := blames_service_iff_misapplied .default ⟨"org_1", "mem_1"⟩ .empty
    asksForCheck_organizationPairs
  exact ⟨asksForCheck_organizationPairs,
    blames.mpr ⟨_, checks_organizationPairs, within, misapplied_organizationPairs⟩⟩

end Application

end Tenancy
