import Tenancy.Shape.Declaration

/-!
# Induction on shapes

Shapes hold further shapes in their branches and fields. `Shape.induction` hands a proof its claim
for all of them. `Shape.Built` is what declarations guarantee: at every depth the fields of an
object shape have distinct names.
-/

namespace Tenancy

open Json

namespace Shape

/-- A claim holds of every shape if it passes from the shapes that a shape holds to the shape. -/
@[elab_as_elim, induction_eliminator]
theorem induction {motive : Shape → Prop}
    (kind : ∀ expected, motive (.kind expected))
    (literal : ∀ expected, motive (.literal expected))
    (oneOf : ∀ members, motive (.oneOf members))
    (enumeration : ∀ name variants ignoresCase, motive (.enumeration name variants ignoresCase))
    (arrayOf : ∀ element, motive element → motive (.arrayOf element))
    (mapOf : ∀ value, motive value → motive (.mapOf value))
    (union : ∀ verbose branches, (∀ branch ∈ branches, motive branch) →
      motive (.union verbose branches))
    (intersection : ∀ branches, (∀ branch ∈ branches, motive branch) →
      motive (.intersection branches))
    (object : ∀ fields, (∀ field ∈ fields, motive field.shape) → motive (.object fields))
    (shape : Shape) : motive shape :=
  @Shape.rec motive (fun branches => ∀ branch ∈ branches, motive branch)
    (fun fields => ∀ field ∈ fields, motive field.shape) (fun field => motive field.shape)
    kind literal oneOf enumeration arrayOf mapOf union intersection object
    (fun _ none => nomatch none)
    (fun _ _ first rest _ member => (List.mem_cons.mp member).elim (· ▸ first) (rest _))
    (fun _ none => nomatch none)
    (fun _ _ first rest _ member => (List.mem_cons.mp member).elim (· ▸ first) (rest _))
    (fun _ _ _ held => held) shape

/-- The shapes that declarations and combinators build. -/
inductive Built : Shape → Prop where
  | kind (expected : Kind) : Built (.kind expected)
  | literal (expected : Value) : Built (.literal expected)
  | oneOf (members : List Value) : Built (.oneOf members)
  | enumeration (name : String) (variants : List Value) (ignoresCase : Bool) :
      Built (.enumeration name variants ignoresCase)
  | arrayOf {element : Shape} : Built element → Built (.arrayOf element)
  | mapOf {value : Shape} : Built value → Built (.mapOf value)
  | union {verbose : Bool} {branches : List Shape} :
      (∀ branch ∈ branches, Built branch) → Built (.union verbose branches)
  | intersection {branches : List Shape} :
      (∀ branch ∈ branches, Built branch) → Built (.intersection branches)
  | object (object : ObjectShape) :
      (∀ field ∈ object.fields, Built field.shape) → Built object.toShape

end Shape

end Tenancy
