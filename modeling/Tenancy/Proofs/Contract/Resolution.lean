import Tenancy.Contract.Catalogue
import Tenancy.Proofs.Outcome
import Tenancy.Proofs.Shape.Induction

/-!
# What expressions resolve to

A property that every registered contract has and every generic contract passes on holds of all that
expressions stand for (`Registry.Holds.resolve`). The catalogue is checked entry by entry
(`Registry.holds_catalogue`), and what it resolves is built from its own contracts.
-/

namespace Tenancy

open Outcome

/-- What a generic contract makes anew has a property that all its arguments have. -/
def Generic.Passes (property : Shape → Prop) (generic : Generic) : Prop :=
  ∀ arguments shape, (∀ position, property (arguments position)) →
    generic.build arguments = .ok (.fresh shape) → property shape

theorem Generic.passes_unary {property : Shape → Prop} {name : String} {build : Shape → ObjectShape}
    (passes : ∀ argument, property argument → property (build argument).toShape) :
    (Generic.unary name fun argument => .ok (build argument).toShape).Passes property := by
  intro arguments shape held built
  cases built
  exact passes _ (held ⟨0, Nat.one_pos⟩)

theorem Generic.Passes.applyTo {property : Shape → Prop} {generic : Generic}
    (passes : generic.Passes property) {arguments : List Resolution}
    (held : ∀ argument ∈ arguments, property argument.shape) {resolution : Resolution}
    (applied : generic.applyTo arguments Resolution.shape (⟨·, none⟩) = .ok resolution) :
    property resolution.shape := by
  unfold Generic.applyTo at applied
  split at applied
  · next exact =>
      have ofPosition (position : Fin generic.arity) :
          property (arguments.get (position.cast exact.symm)).shape :=
        held _ (List.get_mem _ _)
      obtain ⟨made, built, given⟩ := map_eq_ok_iff.mp applied
      cases made with
      | argument position => exact given ▸ ofPosition position
      | fresh shape => exact given ▸ passes _ shape ofPosition built
  · exact nomatch applied

namespace Registry

/-- Every registered contract has a property and every generic contract passes it on. -/
structure Holds (property : Shape → Prop) (registry : Registry) : Prop where
  contracts : ∀ name registration, registry.contracts.find? name = some registration →
    property registration.shape
  generics : ∀ name generic, registry.generics.find? name = some generic →
    generic.Passes property

variable {property : Shape → Prop} {registry : Registry}

theorem holds_empty : empty.Holds property :=
  ⟨fun _ _ found => (nomatch found), fun _ _ found => (nomatch found)⟩

theorem Holds.register (holds : registry.Holds property) (name : String) {shape : Shape}
    (held : property shape) : (registry.register name shape).Holds property := by
  refine ⟨?_, holds.generics⟩
  intro sought registration found
  rw [Registry.register, Dictionary.find?_insert] at found
  split at found
  · cases found
    exact held
  · exact holds.contracts sought registration found

theorem Holds.registerAll (holds : registry.Holds property) {contracts : List (String × Shape)}
    (held : ∀ contract ∈ contracts, property contract.2) :
    (contracts.foldl (fun registry (name, shape) => registry.register name shape)
      registry).Holds property := by
  induction contracts generalizing registry with
  | nil => exact holds
  | cons contract rest inductionHypothesis =>
      obtain ⟨first, later⟩ := List.forall_mem_cons.mp held
      exact inductionHypothesis (holds.register contract.1 first) later

theorem Holds.registerGeneric (holds : registry.Holds property) {generic : Generic}
    (passes : generic.Passes property) : (registry.registerGeneric generic).Holds property := by
  refine ⟨holds.contracts, ?_⟩
  intro sought other found
  rw [Registry.registerGeneric, Dictionary.find?_insert] at found
  split at found
  · cases found
    exact passes
  · exact holds.generics sought other found

theorem generic_eq_ok_iff {name : String} {generic : Generic} :
    registry.generic name = .ok generic ↔ registry.generics.find? name = some generic := by
  unfold Registry.generic
  cases registry.generics.find? name <;> simp

mutual

theorem Holds.build (holds : registry.Holds property) (expression : Expression)
    {resolution : Resolution} (built : registry.build expression = .ok resolution) :
    property resolution.shape := by
  obtain ⟨name, arguments⟩ := expression
  rw [Registry.build] at built
  split at built
  · next registration found =>
      cases built
      exact holds.contracts _ registration found
  · split at built
    · exact nomatch built
    · obtain ⟨generic, found, built⟩ := bind_eq_ok_iff.mp built
      obtain ⟨built, arguments, applied⟩ := bind_eq_ok_iff.mp built
      have passes : generic.Passes property :=
        holds.generics name generic (generic_eq_ok_iff.mp found)
      exact passes.applyTo (holds.buildAll _ arguments) (mapError_eq_ok_iff.mp applied)

theorem Holds.buildAll (holds : registry.Holds property) (expressions : List Expression)
    {resolutions : List Resolution} (built : registry.buildAll expressions = .ok resolutions) :
    ∀ resolution ∈ resolutions, property resolution.shape := by
  cases expressions with
  | nil =>
      cases built
      exact List.forall_mem_nil _
  | cons expression rest =>
      obtain ⟨first, builtFirst, built⟩ := bind_eq_ok_iff.mp built
      obtain ⟨others, builtRest, built⟩ := bind_eq_ok_iff.mp built
      cases built
      exact List.forall_mem_cons.mpr ⟨holds.build expression builtFirst,
        holds.buildAll rest builtRest⟩

end

/-- What expressions stand for has every property that registered contracts have and generic ones
pass on. -/
theorem Holds.resolve (holds : registry.Holds property) {source : String} {resolution : Resolution}
    (resolved : registry.resolve source = .ok resolution) : property resolution.shape := by
  unfold Registry.resolve at resolved
  split at resolved
  · exact nomatch resolved
  · exact holds.build _ resolved

theorem holds_plain (contracts : ∀ contract ∈ Catalogue.contracts, property contract.2)
    (page : ∀ item, property item → property (Catalogue.page item).toShape)
    (envelope : ∀ data, property data → property (Catalogue.envelope data).toShape) :
    plain.Holds property :=
  ((holds_empty.registerAll contracts).registerGeneric (Generic.passes_unary page)).registerGeneric
    (Generic.passes_unary envelope)

theorem holds_catalogue (contracts : ∀ contract ∈ Catalogue.contracts, property contract.2)
    (page : ∀ item, property item → property (Catalogue.page item).toShape)
    (envelope : ∀ data, property data → property (Catalogue.envelope data).toShape) :
    catalogue.Holds property := by
  apply (holds_plain contracts page envelope).registerAll
  have organization : property Catalogue.organization.toShape :=
    contracts (ContractName.organization, Catalogue.organization.toShape)
      (by simp [Catalogue.contracts])
  have memberView : property Catalogue.memberView :=
    contracts (ContractName.memberView, Catalogue.memberView) (by simp [Catalogue.contracts])
  simp only [Catalogue.wrapped, List.forall_mem_cons]
  exact ⟨page _ organization, page _ memberView, envelope _ organization, envelope _ memberView,
    List.forall_mem_nil _⟩

end Registry

end Tenancy
