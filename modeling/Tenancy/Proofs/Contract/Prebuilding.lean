import Tenancy.Proofs.Contract.Lookup
import Tenancy.Proofs.Contract.Parsing
import Tenancy.Proofs.Outcome
import Tenancy.Shape.Validation

/-!
# Prebuilt contracts

The shape that an expression stands for may be registered under the canonical text of the
expression, so that it is found and need not be built again. A canonical text belongs to one
expression (`Expression.WellNamed.eq_of_canonical_eq`), so wherever the registered shape is found,
the same shape would have been built (`Registry.Prebuilds.buildShape_eq`), and no expression changes
its meaning. The catalogue is such a registry: without its wrapped contracts it resolves the same
expressions to the same shapes.
-/

namespace Tenancy

open Outcome

namespace Expression

mutual

/-- What is spelled is named by words. -/
theorem Spells.wellNamed {expression : Expression} {text : List Char} :
    Spells expression text → WellNamed expression
  | .word isWord _ => .apply isWord nofun
  | .application isWord _ _ inside _ => .apply isWord inside.wellNamed

theorem SpellsAll.wellNamed {expressions : List Expression} {text : List Char} :
    SpellsAll expressions text → ∀ expression ∈ expressions, WellNamed expression
  | .last spells => List.forall_mem_singleton.mpr spells.wellNamed
  | .next spells _ later => List.forall_mem_cons.mpr ⟨spells.wellNamed, later.wellNamed⟩

end

variable {expression other : Expression}

theorem wellNamed_of_parse {source : String} (parsed : parse source = .ok expression) :
    WellNamed expression :=
  (parse_eq_ok_iff_spells.mp parsed).wellNamed

theorem WellNamed.parse_canonical (wellNamed : WellNamed expression) :
    parse expression.canonical = .ok expression :=
  parse_eq_ok_iff_spells.mpr wellNamed.spells_canonical

/-- A canonical text belongs to one expression. -/
theorem WellNamed.eq_of_canonical_eq (wellNamed : WellNamed expression)
    (otherNamed : WellNamed other) (same : expression.canonical = other.canonical) :
    expression = other :=
  wellNamed.spells_canonical.unique (same ▸ otherNamed.spells_canonical)

theorem WellNamed.of_mem_arguments {name : String} {arguments : List Expression}
    (wellNamed : WellNamed (.apply name arguments)) :
    ∀ argument ∈ arguments, WellNamed argument := by
  cases wellNamed with
  | apply isWord arguments => exact arguments

end Expression

/-- Which shape a generic contract makes depends on the shapes of its arguments alone. -/
theorem Generic.map_shape_applyTo (generic : Generic) (arguments : List Resolution) :
    (generic.applyTo arguments Resolution.shape (⟨·, none⟩)).map Resolution.shape =
      generic.instantiate (arguments.map Resolution.shape) := by
  unfold instantiate applyTo
  by_cases exact : arguments.length = generic.arity
  · have exactShapes : (arguments.map Resolution.shape).length = generic.arity := by simpa
    simp only [dif_pos exact, dif_pos exactShapes, List.get_eq_getElem, List.getElem_map, id_eq,
      Fin.val_cast]
    cases generic.build _ with
    | error error => rfl
    | ok made => cases made <;> simp [Except.map]
  · simp only [dif_neg exact, List.length_map]
    rfl

namespace Registry

variable {registry other : Registry}

/-- The shape an expression stands for, however it came to be. -/
def buildShape (registry : Registry) (expression : Expression) : Except ContractError Shape :=
  (registry.build expression).map Resolution.shape

def buildShapes (registry : Registry) (expressions : List Expression) :
    Except ContractError (List Shape) :=
  (registry.buildAll expressions).map (List.map Resolution.shape)

theorem resolveShape_eq (source : String) : registry.resolveShape source =
    match Expression.parse source with
    | .error fault => .error (.malformed source fault.message)
    | .ok expression => registry.buildShape expression := by
  rw [resolveShape, resolve]
  cases Expression.parse source <;> rfl

/-- Shapes are built from registered shapes and generic contracts. -/
theorem buildShape_apply (name : String) (arguments : List Expression) :
    registry.buildShape (.apply name arguments) =
      match registry.get (Expression.apply name arguments).canonical with
      | .ok shape => .ok shape
      | .error _ =>
          if arguments.isEmpty then .error (.unknownContract name)
          else (do
            let generic ← registry.generic name
            let shapes ← registry.buildShapes arguments
            (generic.instantiate shapes).mapError .declaration) := by
  rw [buildShape, build, get]
  cases registry.contracts.find? (Expression.apply name arguments).canonical with
  | some registration => rfl
  | none =>
      by_cases bare : arguments.isEmpty
      · simp only [if_pos bare]
        rfl
      · simp only [if_neg bare, buildShapes]
        cases registry.generic name with
        | error error => rfl
        | ok generic =>
            cases registry.buildAll arguments with
            | error error => rfl
            | ok built =>
                simp only [ok_bind, Except.map, ← Generic.map_shape_applyTo]
                cases generic.applyTo built Resolution.shape (⟨·, none⟩) <;> rfl

/-- A registered text stands for the shape registered under it. -/
theorem resolveShape_canonical {expression : Expression} (wellNamed : expression.WellNamed)
    {shape : Shape} (found : registry.get expression.canonical = .ok shape) :
    registry.resolveShape expression.canonical = .ok shape := by
  cases expression with
  | apply name arguments =>
      rw [resolveShape_eq, wellNamed.parse_canonical]
      dsimp only
      rw [buildShape_apply, found]

theorem buildShapes_cons (expression : Expression) (rest : List Expression) :
    registry.buildShapes (expression :: rest) = do
      let shape ← registry.buildShape expression
      return shape :: (← registry.buildShapes rest) := by
  rw [buildShapes, buildAll, buildShape, buildShapes]
  cases registry.build expression with
  | error error => rfl
  | ok resolution => cases registry.buildAll rest <;> rfl

/-- A registry with one more registered shape, perhaps in the stead of another one. -/
structure Prebuilds (registry : Registry) (name : String) (shape : Shape) (other : Registry) :
    Prop where
  generic : other.generic = registry.generic
  get : ∀ sought, other.get sought = if name = sought then .ok shape else registry.get sought

theorem prebuilds_register (name : String) (shape : Shape) :
    registry.Prebuilds name shape (registry.register name shape) :=
  ⟨rfl, fun _ => get_register name shape⟩

theorem prebuilds_share (name : String) (resolution : Resolution) :
    registry.Prebuilds name resolution.shape (registry.share name resolution) := by
  obtain ⟨shape, _ | mark⟩ := resolution
  · exact prebuilds_register name shape
  · refine ⟨rfl, fun sought => ?_⟩
    simp only [share, Registry.get, Dictionary.find?_insert]
    by_cases same : name = sought
    · simp [same]
    · simp [same]

namespace Prebuilds

variable {prebuilt : Expression} {shape : Shape}

mutual

/-- What an expression stands for does not change when one that was built before is registered. -/
theorem buildShape_eq (prebuilds : registry.Prebuilds prebuilt.canonical shape other)
    (wellNamed : prebuilt.WellNamed) (built : registry.buildShape prebuilt = .ok shape)
    (expression : Expression) (named : expression.WellNamed) :
    other.buildShape expression = registry.buildShape expression := by
  by_cases same : prebuilt.canonical = expression.canonical
  · obtain rfl := wellNamed.eq_of_canonical_eq named same
    obtain ⟨name, arguments⟩ := prebuilt
    rw [built, buildShape_apply, prebuilds.get, if_pos rfl]
  · obtain ⟨name, arguments⟩ := expression
    have later := prebuilds.buildShapes_eq wellNamed built arguments named.of_mem_arguments
    rw [buildShape_apply, buildShape_apply, prebuilds.get, if_neg same, prebuilds.generic, later]

theorem buildShapes_eq (prebuilds : registry.Prebuilds prebuilt.canonical shape other)
    (wellNamed : prebuilt.WellNamed) (built : registry.buildShape prebuilt = .ok shape)
    (expressions : List Expression) (named : ∀ expression ∈ expressions, expression.WellNamed) :
    other.buildShapes expressions = registry.buildShapes expressions := by
  cases expressions with
  | nil => rfl
  | cons expression rest =>
      obtain ⟨first, later⟩ := List.forall_mem_cons.mp named
      rw [buildShapes_cons, buildShapes_cons, prebuilds.buildShape_eq wellNamed built _ first,
        prebuilds.buildShapes_eq wellNamed built rest later]

end

end Prebuilds

/-- Two registries resolve a text alike: both fail with the same error, or both give shapes that
accept the same inputs, with the same outputs, and refuse the others for the same reasons. -/
def Alike (left right : Registry) (source : String) : Prop :=
  (∃ error, left.resolve source = .error error ∧ right.resolve source = .error error) ∨
    ∃ first second, left.resolve source = .ok first ∧ right.resolve source = .ok second ∧
      ∀ input path, first.shape.validate input path = second.shape.validate input path

theorem alike_of_buildShape_eq (same : ∀ expression : Expression, expression.WellNamed →
    registry.buildShape expression = other.buildShape expression) (source : String) :
    registry.Alike other source := by
  have resolved : registry.resolveShape source = other.resolveShape source := by
    rw [resolveShape_eq, resolveShape_eq]
    cases parsed : Expression.parse source with
    | error fault => rfl
    | ok expression => exact same expression (Expression.wellNamed_of_parse parsed)
  unfold resolveShape at resolved
  cases first : registry.resolve source with
  | error error =>
      rw [first] at resolved
      exact .inl ⟨error, first, map_eq_error_iff.mp resolved.symm⟩
  | ok resolution =>
      rw [first] at resolved
      obtain ⟨second, found, shape⟩ := map_eq_ok_iff.mp resolved.symm
      exact .inr ⟨resolution, second, first, found, fun _ _ => by rw [shape]⟩

/-- The registry gives a shape to the expression with a canonical text. -/
def Builds (registry : Registry) (name : String) (shape : Shape) : Prop :=
  ∃ expression : Expression, expression.WellNamed ∧ expression.canonical = name ∧
    registry.buildShape expression = .ok shape

theorem buildShape_registerAll {contracts : List (String × Shape)}
    (built : ∀ contract ∈ contracts, registry.Builds contract.1 contract.2)
    {expression : Expression} (named : expression.WellNamed) :
    (contracts.foldl (fun registry (name, shape) => registry.register name shape)
      registry).buildShape expression = registry.buildShape expression := by
  induction contracts generalizing registry with
  | nil => rfl
  | cons contract rest inductionHypothesis =>
      obtain ⟨name, shape⟩ := contract
      obtain ⟨⟨prebuilt, wellNamed, rfl, first⟩, later⟩ := List.forall_mem_cons.mp built
      have same : ∀ expression : Expression, expression.WellNamed →
          (registry.register prebuilt.canonical shape).buildShape expression =
            registry.buildShape expression :=
        (prebuilds_register _ shape).buildShape_eq wellNamed first
      rw [List.foldl_cons, inductionHypothesis, same expression named]
      intro contract listed
      obtain ⟨other, otherNamed, canonical, builds⟩ := later contract listed
      exact ⟨other, otherNamed, canonical, (same other otherNamed).trans builds⟩

theorem resolveShape_catalogue {name : String} {shape : Shape}
    (listed : (name, shape) ∈ Catalogue.contracts ++ Catalogue.wrapped)
    (isWord : Expression.IsWord name.toList) : catalogue.resolveShape name = .ok shape := by
  have wellNamed : (Expression.apply name []).WellNamed := .apply isWord nofun
  exact resolveShape_canonical wellNamed (get_catalogue listed)

theorem get_plain {name : String} {shape : Shape} (listed : (name, shape) ∈ Catalogue.contracts) :
    plain.get name = .ok shape :=
  get_registerAll (by decide) listed

theorem get_plain_of_absent {name : String} (absent : name ∉ Catalogue.contracts.map Prod.fst) :
    plain.get name = .error (.unknownContract name) :=
  get_registerAll_of_absent absent

/-- Without its wrapped contracts the catalogue builds them. -/
theorem builds_plain {wrapper name : String} {shape : Shape} {build : Shape → ObjectShape}
    (found : plain.generic wrapper = .ok (.unary wrapper fun item => .ok (build item).toShape))
    (listed : (name, shape) ∈ Catalogue.contracts) (isWord : Expression.IsWord wrapper.toList)
    (nameIsWord : Expression.IsWord name.toList)
    (absent : (Expression.apply wrapper [.apply name []]).canonical ∉
      Catalogue.contracts.map Prod.fst) :
    plain.Builds (Expression.apply wrapper [.apply name []]).canonical (build shape).toShape := by
  have named : (Expression.apply name []).WellNamed := .apply nameIsWord nofun
  refine ⟨_, .apply isWord (List.forall_mem_singleton.mpr named), rfl, ?_⟩
  have argument : plain.buildShape (.apply name []) = .ok shape := by
    rw [buildShape_apply, Expression.canonical, get_plain listed]
  rw [buildShape_apply, get_plain_of_absent absent, found, buildShapes_cons, argument]
  rfl

theorem builds_wrapped :
    ∀ contract ∈ Catalogue.wrapped, plain.Builds contract.1 contract.2 := by
  have organization : (ContractName.organization, Catalogue.organization.toShape) ∈
      Catalogue.contracts := by simp [Catalogue.contracts]
  have memberView : (ContractName.memberView, Catalogue.memberView) ∈ Catalogue.contracts := by
    simp [Catalogue.contracts]
  have page : plain.generic "page" = .ok Catalogue.pageGeneric := rfl
  have envelope : plain.generic "envelope" = .ok Catalogue.envelopeGeneric := rfl
  simp only [Catalogue.wrapped, List.forall_mem_cons]
  exact ⟨builds_plain page organization (by decide) (by decide) (by decide),
    builds_plain page memberView (by decide) (by decide) (by decide),
    builds_plain envelope organization (by decide) (by decide) (by decide),
    builds_plain envelope memberView (by decide) (by decide) (by decide), List.forall_mem_nil _⟩

/-- To register what a text resolves to under the canonical text of its expression changes the
meaning of no text, and so it is with the wrapped contracts of the catalogue. -/
theorem alike_prebuilt :
    (∀ (registry : Registry) (source : String) (expression : Expression) (resolution : Resolution),
      Expression.parse source = .ok expression → registry.resolve source = .ok resolution →
        ∀ text, (registry.register expression.canonical resolution.shape).Alike registry text ∧
          (registry.share expression.canonical resolution).Alike registry text) ∧
      ∀ text, catalogue.Alike plain text := by
  constructor
  · intro registry source expression resolution parsed resolved text
    have wellNamed := Expression.wellNamed_of_parse parsed
    have built : registry.buildShape expression = .ok resolution.shape := by
      have built : registry.build expression = .ok resolution := by
        rw [← resolved, resolve, parsed]
      rw [buildShape, built]
      rfl
    exact ⟨alike_of_buildShape_eq ((prebuilds_register _ _).buildShape_eq wellNamed built) text,
      alike_of_buildShape_eq ((prebuilds_share _ _).buildShape_eq wellNamed built) text⟩
  · exact alike_of_buildShape_eq fun _ named => buildShape_registerAll builds_wrapped named

/-- Pages of organizations. -/
def organizationPages : Expression :=
  .apply "page" [.apply "organization" []]

/-- Registered pages are found inside an envelope, where they had to be built before. -/
theorem alike_prebuilt_organizationPages :
    Expression.parse "page<organization>" = .ok organizationPages ∧
      plain.resolve "page<organization>" =
        .ok ⟨(Catalogue.page Catalogue.organization.toShape).toShape, none⟩ ∧
      (plain.register "page<organization>"
        (Catalogue.page Catalogue.organization.toShape).toShape).Alike plain
          "envelope<page<organization>>" := by
  have named : organizationPages.WellNamed :=
    .apply (by decide) (List.forall_mem_singleton.mpr (.apply (by decide) nofun))
  have parsed : Expression.parse "page<organization>" = .ok organizationPages :=
    named.parse_canonical
  have resolved : plain.resolve "page<organization>" =
      .ok ⟨(Catalogue.page Catalogue.organization.toShape).toShape, none⟩ := by
    rw [resolve, parsed]
    rfl
  exact ⟨parsed, resolved, (alike_prebuilt.1 plain _ organizationPages _ parsed resolved _).1⟩

end Registry

end Tenancy
