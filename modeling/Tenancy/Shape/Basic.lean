import Tenancy.Json.Value

/-!
# Shapes

A shape says which values are acceptable: by kind, by literal, or by the shapes of their parts. Fields
of an object shape are required, optional, or required when a condition on the whole object holds.
-/

namespace Tenancy

open Json

inductive Kind where
  | string
  | number
  | boolean
  /-- The explicit null only. -/
  | null
  /-- Null, or no value at all. -/
  | nothing
  deriving DecidableEq, Repr

/-- When a field has to be there. A condition sees the field's own value, if any, and the object. -/
inductive Requiredness where
  | required
  | optional
  | requiredIf (condition : Option Value → Object → Bool)

/-- Whether a field has to be there in an object. -/
def Requiredness.holds (requiredness : Requiredness) (candidate : Option Value) (whole : Object) :
    Bool :=
  match requiredness with
  | .required => true
  | .optional => false
  | .requiredIf condition => condition candidate whole

/-- A declared field: its name, the shape of its value, and when it has to be there. -/
structure Field (σ : Type) where
  name : String
  shape : σ
  requiredness : Requiredness

inductive Shape where
  | kind (kind : Kind)
  /-- Values equal to one literal. -/
  | literal (expected : Value)
  /-- Values equal to a member of a list. -/
  | oneOf (members : List Value)
  /-- Like `oneOf`; one that ignores case also takes strings that differ from a variant in the case
  of ASCII letters, and gives the variant. -/
  | enumeration (name : String) (variants : List Value) (ignoresCase : Bool)
  | arrayOf (element : Shape)
  /-- Objects with any keys. -/
  | mapOf (value : Shape)
  /-- The first branch that accepts decides; a verbose union keeps what the branches said. -/
  | union (verbose : Bool) (branches : List Shape)
  /-- Every branch has to accept; object outputs are merged. -/
  | intersection (branches : List Shape)
  /-- Objects with declared fields; undeclared entries are dropped. -/
  | object (fields : List (Field Shape))

namespace Shape

def string : Shape := .kind .string
def number : Shape := .kind .number
def boolean : Shape := .kind .boolean
def null : Shape := .kind .null
def nothing : Shape := .kind .nothing

/-- Values of a shape, null, or nothing at all. -/
def nullable (inner : Shape) : Shape := .union false [inner, nothing]

end Shape

/-- The condition that another field of the object has a given value. -/
def siblingEquals (field : String) (expected : Value) : Option Value → Object → Bool :=
  fun _ whole =>
    match whole.find? field with
    | some value => value.deepEqual expected
    | none => false

end Tenancy
