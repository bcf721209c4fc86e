import Tenancy.Proofs.Contract.Prebuilding

/-!
# Which expressions name a contract

An expression names a contract when its words are names of plain contracts and it applies nothing but
wrappers, each to a single argument (`Expression.Names`). Any other expression has a first fault
(`Expression.FirstFault`): an application is at fault before its arguments when it applies no wrapper,
after them when they are not one, and they are looked at from left to right. The catalogue resolves
the former (`Registry.exists_resolveShape_iff`) and reports the first fault of the latter
(`Registry.resolveShape_eq_error_iff`).
-/

namespace Tenancy

open Outcome

/-- The names of the contracts that are not generic, without the expressions of wrapped ones. -/
def Catalogue.plainNames : List String := contracts.map Prod.fst

/-- The names of the generic contracts. -/
def Catalogue.wrappers : List String := ["page", "envelope"]

namespace Expression

open Catalogue

/-- An expression is a plain name, or one wrapper applied to one such expression. -/
inductive Names : Expression → Prop where
  | word {name : String} : name ∈ plainNames → Names (.apply name [])
  | wrapped {wrapper : String} {argument : Expression} : wrapper ∈ wrappers → Names argument →
      Names (.apply wrapper [argument])

/-- What keeps an expression from naming a contract, when it is looked at from the outside in and
from left to right. -/
inductive FirstFault : Expression → ContractError → Prop where
  | unknownContract {name : String} : name ∉ plainNames →
      FirstFault (.apply name []) (.unknownContract name)
  | unknownGeneric {name : String} {arguments : List Expression} : arguments ≠ [] →
      name ∉ wrappers → FirstFault (.apply name arguments) (.unknownGeneric name)
  | argument {wrapper : String} {before after : List Expression} {argument : Expression}
      {error : ContractError} : wrapper ∈ wrappers → (∀ earlier ∈ before, Names earlier) →
      FirstFault argument error → FirstFault (.apply wrapper (before ++ argument :: after)) error
  | miscounted {wrapper : String} {arguments : List Expression} : wrapper ∈ wrappers →
      (∀ argument ∈ arguments, Names argument) → 1 < arguments.length →
      FirstFault (.apply wrapper arguments) (.declaration (.arity wrapper 1 arguments.length))

mutual

/-- Whatever names no contract has a first fault. -/
theorem names_or_firstFault (expression : Expression) :
    Names expression ∨ ∃ error, FirstFault expression error := by
  obtain ⟨name, arguments⟩ := expression
  by_cases bare : arguments = []
  · subst bare
    by_cases known : name ∈ plainNames
    · exact .inl (.word known)
    · exact .inr ⟨_, .unknownContract known⟩
  · by_cases known : name ∈ wrappers
    · rcases names_or_firstFault_arguments arguments with
        allName | ⟨before, argument, after, error, rfl, earlier, fault⟩
      · rcases arguments with _ | ⟨argument, _ | ⟨second, rest⟩⟩
        · exact absurd rfl bare
        · exact .inl (.wrapped known (List.forall_mem_singleton.mp allName))
        · exact .inr ⟨_, .miscounted known allName (by simp)⟩
      · exact .inr ⟨error, .argument known earlier fault⟩
    · exact .inr ⟨_, .unknownGeneric bare known⟩

theorem names_or_firstFault_arguments (arguments : List Expression) :
    (∀ argument ∈ arguments, Names argument) ∨ ∃ before argument after error,
      arguments = before ++ argument :: after ∧ (∀ earlier ∈ before, Names earlier) ∧
        FirstFault argument error := by
  cases arguments with
  | nil => exact .inl (List.forall_mem_nil _)
  | cons first rest =>
      rcases names_or_firstFault first with names | ⟨error, fault⟩
      · rcases names_or_firstFault_arguments rest with
          allName | ⟨before, argument, after, error, rfl, earlier, fault⟩
        · exact .inl (List.forall_mem_cons.mpr ⟨names, allName⟩)
        · exact .inr ⟨first :: before, argument, after, error, rfl,
            List.forall_mem_cons.mpr ⟨names, earlier⟩, fault⟩
      · exact .inr ⟨[], first, rest, error, rfl, List.forall_mem_nil _, fault⟩

end

/-- No application is written like a plain name. -/
theorem canonical_apply_notMem_plainNames {name : String} {arguments : List Expression}
    (nonempty : arguments ≠ []) : (Expression.apply name arguments).canonical ∉ plainNames := by
  have angled : '<' ∈ (Expression.apply name arguments).canonical.toList := by
    rw [canonical_apply nonempty]
    simp
  have plain : ∀ plainName ∈ plainNames, '<' ∉ plainName.toList := by decide
  exact fun listed => plain _ listed angled

end Expression

theorem Generic.instantiate_unary_of_length {name : String}
    {build : Shape → Except DeclarationError Shape} {arguments : List Shape}
    (miscounted : arguments.length ≠ 1) :
    (unary name build).instantiate arguments = .error (.arity name 1 arguments.length) := by
  have miscounted : arguments.length ≠ (unary name build).arity := miscounted
  rw [instantiate, applyTo, dif_neg miscounted]
  rfl

namespace Registry

open Catalogue Expression

variable {registry : Registry} {expression : Expression} {error : ContractError}

/-! ### Building from plain contracts -/

theorem buildShape_word (name : String) :
    registry.buildShape (.apply name []) = registry.get name := by
  rw [buildShape_apply, canonical, get]
  cases registry.contracts.find? name <;> rfl

theorem buildShape_plain_apply {name : String} {arguments : List Expression}
    (nonempty : arguments ≠ []) : plain.buildShape (.apply name arguments) = (do
      let generic ← plain.generic name
      let shapes ← plain.buildShapes arguments
      (generic.instantiate shapes).mapError .declaration) := by
  rw [buildShape_apply, get_plain_of_absent (canonical_apply_notMem_plainNames nonempty)]
  simp [nonempty]

/-- Wrappers take one argument, and nothing else can be wrong with it. -/
theorem exists_generic_plain {wrapper : String} (known : wrapper ∈ wrappers) :
    ∃ build : Shape → ObjectShape,
      plain.generic wrapper = .ok (.unary wrapper fun item => .ok (build item).toShape) := by
  simp only [wrappers, List.mem_cons, List.not_mem_nil, or_false] at known
  rcases known with rfl | rfl
  · exact ⟨page, rfl⟩
  · exact ⟨envelope, rfl⟩

theorem generic_plain_of_notMem {name : String} (unknown : name ∉ wrappers) :
    plain.generic name = .error (.unknownGeneric name) := by
  simp only [wrappers, List.mem_cons, List.not_mem_nil, or_false, not_or] at unknown
  have notPage : pageGeneric.name ≠ name := Ne.symm unknown.1
  have notEnvelope : envelopeGeneric.name ≠ name := Ne.symm unknown.2
  have absent : plain.generics.find? name = none := by
    rw [plain, registerGeneric, Dictionary.find?_insert, if_neg notEnvelope, registerGeneric,
      Dictionary.find?_insert, if_neg notPage]
    rfl
  rw [Registry.generic, absent]

theorem exists_buildShapes {arguments : List Expression}
    (built : ∀ argument ∈ arguments, ∃ shape, registry.buildShape argument = .ok shape) :
    ∃ shapes, registry.buildShapes arguments = .ok shapes ∧ shapes.length = arguments.length := by
  induction arguments with
  | nil => exact ⟨[], rfl, rfl⟩
  | cons argument rest inductionHypothesis =>
      obtain ⟨⟨shape, first⟩, later⟩ := List.forall_mem_cons.mp built
      obtain ⟨shapes, others, length⟩ := inductionHypothesis later
      refine ⟨shape :: shapes, ?_, congrArg (· + 1) length⟩
      rw [buildShapes_cons, first, others]
      rfl

/-- The first argument that cannot be built decides. -/
theorem buildShapes_append_eq_error {before after : List Expression} {argument : Expression}
    (built : ∀ earlier ∈ before, ∃ shape, registry.buildShape earlier = .ok shape)
    (fails : registry.buildShape argument = .error error) :
    registry.buildShapes (before ++ argument :: after) = .error error := by
  induction before with
  | nil =>
      rw [List.nil_append, buildShapes_cons, fails]
      rfl
  | cons earlier rest inductionHypothesis =>
      obtain ⟨⟨shape, first⟩, later⟩ := List.forall_mem_cons.mp built
      rw [List.cons_append, buildShapes_cons, first, inductionHypothesis later]
      rfl

theorem exists_buildShape_plain (names : Names expression) :
    ∃ shape, plain.buildShape expression = .ok shape := by
  induction names with
  | @word name known =>
      obtain ⟨⟨_, shape⟩, listed, rfl⟩ := List.mem_map.mp known
      exact ⟨shape, (buildShape_word _).trans (get_plain listed)⟩
  | @wrapped wrapper argument known names inductionHypothesis =>
      obtain ⟨item, built⟩ := inductionHypothesis
      obtain ⟨build, found⟩ := exists_generic_plain known
      refine ⟨(build item).toShape, ?_⟩
      rw [buildShape_plain_apply (List.cons_ne_nil _ _), found, buildShapes_cons, built]
      rfl

theorem buildShape_plain_of_firstFault (fault : FirstFault expression error) :
    plain.buildShape expression = .error error := by
  induction fault with
  | unknownContract unknown => exact (buildShape_word _).trans (get_plain_of_absent unknown)
  | unknownGeneric nonempty unknown =>
      rw [buildShape_plain_apply nonempty, generic_plain_of_notMem unknown]
      rfl
  | argument known earlier fault inductionHypothesis =>
      obtain ⟨build, found⟩ := exists_generic_plain known
      have built := fun argument listed => exists_buildShape_plain (earlier argument listed)
      rw [buildShape_plain_apply (by simp), found, ok_bind,
        buildShapes_append_eq_error built inductionHypothesis]
      rfl
  | @miscounted wrapper arguments known names several =>
      obtain ⟨build, found⟩ := exists_generic_plain known
      obtain ⟨shapes, built, length⟩ :=
        exists_buildShapes fun argument listed => exists_buildShape_plain (names argument listed)
      have nonempty : arguments ≠ [] := List.ne_nil_of_length_pos (Nat.zero_lt_of_lt several)
      have miscounted : shapes.length ≠ 1 := by omega
      rw [buildShape_plain_apply nonempty, found, ok_bind, built, ok_bind,
        Generic.instantiate_unary_of_length miscounted, length]
      rfl

/-! ### Resolving over the catalogue -/

theorem buildShape_catalogue (named : expression.WellNamed) :
    catalogue.buildShape expression = plain.buildShape expression :=
  buildShape_registerAll builds_wrapped named

theorem exists_buildShape_catalogue_iff (named : expression.WellNamed) :
    (∃ shape, catalogue.buildShape expression = .ok shape) ↔ Names expression := by
  rw [buildShape_catalogue named]
  constructor
  · rintro ⟨shape, built⟩
    rcases names_or_firstFault expression with names | ⟨error, fault⟩
    · exact names
    · exact nomatch built.symm.trans (buildShape_plain_of_firstFault fault)
  · exact exists_buildShape_plain

theorem buildShape_catalogue_eq_error_iff (named : expression.WellNamed) :
    catalogue.buildShape expression = .error error ↔ FirstFault expression error := by
  rw [buildShape_catalogue named]
  constructor
  · intro failed
    rcases names_or_firstFault expression with names | ⟨other, fault⟩
    · obtain ⟨shape, built⟩ := exists_buildShape_plain names
      exact nomatch built.symm.trans failed
    · obtain rfl : other = error :=
        Except.error.inj ((buildShape_plain_of_firstFault fault).symm.trans failed)
      exact fault
  · exact buildShape_plain_of_firstFault

/-- The catalogue resolves the texts of expressions that name a contract. -/
theorem exists_resolveShape_iff {source : String} :
    (∃ shape, catalogue.resolveShape source = .ok shape) ↔
      ∃ expression, parse source = .ok expression ∧ Names expression := by
  rw [resolveShape_eq]
  cases parsed : parse source with
  | error fault => simp
  | ok expression =>
      simp [exists_buildShape_catalogue_iff (wellNamed_of_parse parsed)]

/-- What cannot be resolved is no expression, or has a first fault, which is reported. -/
theorem resolveShape_eq_error_iff {source : String} :
    catalogue.resolveShape source = .error error ↔
      (∃ fault, parse source = .error fault ∧ error = .malformed source fault.message) ∨
        ∃ expression, parse source = .ok expression ∧ FirstFault expression error := by
  rw [resolveShape_eq]
  cases parsed : parse source with
  | error fault => simp [eq_comm]
  | ok expression =>
      simp [buildShape_catalogue_eq_error_iff (wellNamed_of_parse parsed)]

end Registry

end Tenancy
