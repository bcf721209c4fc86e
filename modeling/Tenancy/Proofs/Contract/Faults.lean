import Tenancy.Proofs.Contract.Naming

/-!
# All faults of an expression

Everything that keeps an expression from naming a contract, in the order in which a walk from the
outside in and from left to right comes across it (`Expression.faults`). An expression names a
contract exactly when there is nothing to list, and what the catalogue reports of any other is the
head of the list (`Registry.resolves_or_reports_first_fault`).
-/

namespace Tenancy

open Outcome

namespace Expression

open Catalogue

mutual

/-- An unknown wrapper is met before the arguments, a wrong number of them after all of them. -/
def faults : Expression → List ContractError
  | apply name arguments =>
      if arguments.isEmpty then
        if name ∈ plainNames then [] else [.unknownContract name]
      else if name ∈ wrappers then
        faultsAll arguments ++ if arguments.length = 1 then []
          else [.declaration (.arity name 1 arguments.length)]
      else .unknownGeneric name :: faultsAll arguments

def faultsAll : List Expression → List ContractError
  | [] => []
  | expression :: rest => expression.faults ++ faultsAll rest

end

theorem faultsAll_append (before after : List Expression) :
    faultsAll (before ++ after) = faultsAll before ++ faultsAll after := by
  induction before with
  | nil => rfl
  | cons expression rest inductionHypothesis =>
      rw [List.cons_append, faultsAll, faultsAll, inductionHypothesis, List.append_assoc]

theorem faultsAll_eq_nil {expressions : List Expression}
    (faultless : ∀ expression ∈ expressions, expression.faults = []) :
    faultsAll expressions = [] := by
  induction expressions with
  | nil => rfl
  | cons expression rest inductionHypothesis =>
      obtain ⟨first, later⟩ := List.forall_mem_cons.mp faultless
      rw [faultsAll, first, inductionHypothesis later, List.nil_append]

theorem faults_word (name : String) : (Expression.apply name []).faults =
    if name ∈ plainNames then [] else [.unknownContract name] := by
  rw [faults, if_pos List.isEmpty_nil]

theorem faults_apply {arguments : List Expression} (nonempty : arguments ≠ []) (name : String) :
    (Expression.apply name arguments).faults =
      if name ∈ wrappers then
        faultsAll arguments ++ if arguments.length = 1 then []
          else [.declaration (.arity name 1 arguments.length)]
      else .unknownGeneric name :: faultsAll arguments := by
  rw [faults, if_neg (mt List.isEmpty_iff.mp nonempty)]

theorem Names.faults_eq_nil {expression : Expression} (names : Names expression) :
    expression.faults = [] := by
  induction names with
  | word known => rw [faults_word, if_pos known]
  | wrapped known names inductionHypothesis =>
      rw [faults_apply (List.cons_ne_nil _ _), if_pos known, if_pos List.length_singleton,
        faultsAll, inductionHypothesis]
      rfl

/-- The first fault heads the list. -/
theorem FirstFault.head?_faults {expression : Expression} {error : ContractError}
    (fault : FirstFault expression error) : expression.faults.head? = some error := by
  induction fault with
  | unknownContract unknown => rw [faults_word, if_neg unknown, List.head?_singleton]
  | unknownGeneric nonempty unknown => rw [faults_apply nonempty, if_neg unknown, List.head?_cons]
  | @argument wrapper before after argument error known earlier fault inductionHypothesis =>
      have faultless : faultsAll before = [] :=
        faultsAll_eq_nil fun expression listed => (earlier expression listed).faults_eq_nil
      rw [faults_apply (by simp), if_pos known, faultsAll_append, faultsAll, faultless]
      simp only [List.nil_append, List.head?_append, inductionHypothesis, Option.some_or]
  | @miscounted wrapper arguments known names several =>
      have faultless : faultsAll arguments = [] :=
        faultsAll_eq_nil fun expression listed => (names expression listed).faults_eq_nil
      have nonempty : arguments ≠ [] := List.ne_nil_of_length_pos (Nat.zero_lt_of_lt several)
      rw [faults_apply nonempty, if_pos known, faultless, if_neg (Nat.ne_of_gt several)]
      rfl

theorem firstFault_iff_head?_faults {expression : Expression} {error : ContractError} :
    FirstFault expression error ↔ expression.faults.head? = some error := by
  refine ⟨FirstFault.head?_faults, fun heads => ?_⟩
  rcases names_or_firstFault expression with names | ⟨other, fault⟩
  · rw [names.faults_eq_nil] at heads
    cases heads
  · obtain rfl : other = error := Option.some.inj (fault.head?_faults.symm.trans heads)
    exact fault

theorem names_iff_faults_eq_nil {expression : Expression} :
    Names expression ↔ expression.faults = [] := by
  refine ⟨Names.faults_eq_nil, fun faultless => ?_⟩
  rcases names_or_firstFault expression with names | ⟨error, fault⟩
  · exact names
  · have heads := fault.head?_faults
    rw [faultless] at heads
    cases heads

/-- Only what cannot be read is malformed. -/
theorem FirstFault.ne_malformed {expression : Expression} {error : ContractError}
    (fault : FirstFault expression error) (text reason : String) :
    error ≠ .malformed text reason := by
  induction fault with
  | unknownContract | unknownGeneric | miscounted => exact nofun
  | argument _ _ _ inductionHypothesis => exact inductionHypothesis

end Expression

namespace Registry

open Catalogue Expression

variable {source : String}

theorem exists_resolve_iff :
    (∃ resolution, catalogue.resolve source = .ok resolution) ↔
      ∃ expression, parse source = .ok expression ∧ Names expression := by
  simp only [← exists_resolveShape_iff, resolveShape, map_eq_ok_iff, exists_comm (α := Shape),
    exists_and_left, exists_eq', and_true]

theorem resolve_eq_error_iff {error : ContractError} :
    catalogue.resolve source = .error error ↔
      (∃ fault, parse source = .error fault ∧ error = .malformed source fault.message) ∨
        ∃ expression, parse source = .ok expression ∧ FirstFault expression error := by
  rw [← resolveShape_eq_error_iff, resolveShape, map_eq_error_iff]

/-- The catalogue resolves a text exactly when it is read as plain names under wrappers of one
argument each. A text that cannot be read is reported as malformed, and of any other it is the first
fault of its expression that is reported. -/
theorem resolves_or_reports_first_fault :
    plainNames = ["string", "number", "boolean", "null", "nothing", "plan", "settings",
      "organization", "create_organization", "organization_summary", "organization_path", "role",
      "member", "member_view", "invite_member", "member_patch", "member_path"] ∧
    ∀ source : String,
      ((∃ resolution, catalogue.resolve source = .ok resolution) ↔
        ∃ expression, parse source = .ok expression ∧ Names expression) ∧
      (∀ text reason, catalogue.resolve source = .error (.malformed text reason) ↔
        ∃ fault, parse source = .error fault ∧ text = source ∧ reason = fault.message) ∧
      ∀ expression, parse source = .ok expression →
        (Names expression ↔ expression.faults = []) ∧
        ∀ error, catalogue.resolve source = .error error ↔
          expression.faults.head? = some error := by
  refine ⟨rfl, fun source => ⟨exists_resolve_iff, ?malformed, ?faulty⟩⟩
  case malformed =>
    intro text reason
    rw [resolve_eq_error_iff]
    constructor
    · rintro (⟨fault, failed, ⟨⟩⟩ | ⟨expression, -, fault⟩)
      · exact ⟨fault, failed, rfl, rfl⟩
      · exact absurd rfl (fault.ne_malformed text reason)
    · rintro ⟨fault, failed, rfl, rfl⟩
      exact .inl ⟨fault, failed, rfl⟩
  case faulty =>
    intro expression parsed
    refine ⟨names_iff_faults_eq_nil, fun error => ?_⟩
    rw [resolve_eq_error_iff, ← firstFault_iff_head?_faults, parsed]
    simp

/-- Pages of an unknown contract and of stacks of members. -/
def mistakenPages : Expression :=
  .apply "page" [.apply "widget" [], .apply "stack" [.apply "member" []]]

example : mistakenPages.faults = [.unknownContract "widget", .unknownGeneric "stack",
    .declaration (.arity "page" 1 2)] := by
  decide

theorem resolves_or_reports_first_fault_mistakenPages :
    parse "page<widget,stack<member>>" = .ok mistakenPages ∧
      mistakenPages.faults.head? = some (.unknownContract "widget") ∧
      catalogue.resolve "page<widget,stack<member>>" = .error (.unknownContract "widget") := by
  have widget : WellNamed (.apply "widget" []) := .apply (by decide) (List.forall_mem_nil _)
  have member : WellNamed (.apply "member" []) := .apply (by decide) (List.forall_mem_nil _)
  have stack : WellNamed (.apply "stack" [.apply "member" []]) :=
    .apply (by decide) (List.forall_mem_singleton.mpr member)
  have pages : mistakenPages.WellNamed :=
    .apply (by decide) (List.forall_mem_cons.mpr ⟨widget, List.forall_mem_singleton.mpr stack⟩)
  have parsed : parse "page<widget,stack<member>>" = .ok mistakenPages := pages.parse_canonical
  have heads : mistakenPages.faults.head? = some (.unknownContract "widget") := by decide
  obtain ⟨-, resolves⟩ := resolves_or_reports_first_fault
  obtain ⟨-, -, reports⟩ := resolves "page<widget,stack<member>>"
  exact ⟨parsed, heads, ((reports mistakenPages parsed).2 _).mpr heads⟩

end Registry

end Tenancy
