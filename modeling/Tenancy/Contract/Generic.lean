import Tenancy.Shape.Declaration

/-!
# Generic contracts

A generic contract builds a shape from shapes, as many as its arity says. What it builds may be one of
its arguments as it is, and then the contract applied to a registered shape names that very shape.
-/

namespace Tenancy

/-- What a generic contract makes of its arguments: one of them, or a shape of its own. -/
inductive Instance (arity : Nat) where
  | argument (position : Fin arity)
  | fresh (shape : Shape)

/-- A named constructor of shapes. -/
structure Generic where
  name : String
  arity : Nat
  build : (Fin arity → Shape) → Except DeclarationError (Instance arity)

namespace Generic

/-- A generic contract of one argument, which always makes a shape of its own. -/
def unary (name : String) (build : Shape → Except DeclarationError Shape) : Generic :=
  ⟨name, 1, fun arguments => (build (arguments 0)).map .fresh⟩

/-- Apply a generic contract to arguments of which each stands for a shape. -/
def applyTo {α : Type} (generic : Generic) (arguments : List α) (shapeOf : α → Shape)
    (ofFresh : Shape → α) : Except DeclarationError α :=
  if exact : arguments.length = generic.arity then
    let argument (position : Fin generic.arity) : α :=
      arguments.get (position.cast exact.symm)
    (generic.build fun position => shapeOf (argument position)).map fun
      | .argument position => argument position
      | .fresh shape => ofFresh shape
  else .error (.arity generic.name generic.arity arguments.length)

def instantiate (generic : Generic) (arguments : List Shape) : Except DeclarationError Shape :=
  generic.applyTo arguments id id

end Generic

end Tenancy
