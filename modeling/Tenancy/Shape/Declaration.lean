import Tenancy.Shape.Basic

/-!
# Declaring object shapes

An object shape is declared by a list of fields and of shapes whose fields it takes over. The names
have to be distinct (`ObjectShape.distinct`); otherwise the declaration is refused with the first name
that repeats an earlier one.
-/

namespace Tenancy

open Json

inductive DeclarationError where
  | duplicateField (field : String)
  | arity (name : String) (expected actual : Nat)
  deriving DecidableEq, Repr

def DeclarationError.message : DeclarationError → String
  | .duplicateField field => s!"field '{field}' is declared more than once"
  | .arity name expected actual =>
      s!"generic shape '{name}' expects {expected} argument(s), got {actual}"

namespace Field

def required (name : String) (shape : Shape) : Field Shape :=
  ⟨name, shape, .required⟩

def optional (name : String) (shape : Shape) : Field Shape :=
  ⟨name, shape, .optional⟩

def requiredIf (name : String) (shape : Shape) (condition : Option Value → Object → Bool) :
    Field Shape :=
  ⟨name, shape, .requiredIf condition⟩

end Field

/-- The first name that occurs in `seen` or before itself. -/
def firstRepeated? (seen : List String) : List String → Option String
  | [] => none
  | name :: rest => if name ∈ seen then some name else firstRepeated? (name :: seen) rest

theorem firstRepeated?_eq_none_iff {seen names : List String} :
    firstRepeated? seen names = none ↔ names.Nodup ∧ ∀ name ∈ names, name ∉ seen := by
  induction names generalizing seen with
  | nil => simp [firstRepeated?]
  | cons name rest inductionHypothesis =>
      by_cases repeated : name ∈ seen
      · simp [firstRepeated?, repeated]
      · simp only [firstRepeated?, repeated, if_false, inductionHypothesis, List.nodup_cons,
          List.mem_cons, not_or, forall_eq_or_imp, not_false_eq_true, true_and]
        constructor
        · rintro ⟨distinct, fresh⟩
          exact ⟨⟨fun member => (fresh name member).1 rfl, distinct⟩,
            fun other member => (fresh other member).2⟩
        · rintro ⟨⟨absent, distinct⟩, fresh⟩
          exact ⟨distinct, fun other member =>
            ⟨fun same => absent (same ▸ member), fresh other member⟩⟩

/-- The declared fields of an object, in order and without a repeated name. -/
structure ObjectShape where
  fields : List (Field Shape)
  distinct : (fields.map Field.name).Nodup

namespace ObjectShape

/-- One step of a declaration. -/
inductive Declaration where
  | field (field : Field Shape)
  /-- The fields of another object shape, in their order. -/
  | extend (other : ObjectShape)

def collect (declarations : List Declaration) : List (Field Shape) :=
  declarations.flatMap fun
    | .field field => [field]
    | .extend other => other.fields

/-- An object shape with the given fields, if their names are distinct. -/
def ofFields (fields : List (Field Shape)) : Except DeclarationError ObjectShape :=
  match repeated : firstRepeated? [] (fields.map Field.name) with
  | some name => .error (.duplicateField name)
  | none => .ok ⟨fields, (firstRepeated?_eq_none_iff.mp repeated).1⟩

def declare (declarations : List Declaration) : Except DeclarationError ObjectShape :=
  ofFields (collect declarations)

def field? (object : ObjectShape) (name : String) : Option (Field Shape) :=
  object.fields.find? (·.name == name)

def names (object : ObjectShape) : List String :=
  object.fields.map Field.name

def size (object : ObjectShape) : Nat :=
  object.fields.length

def isEmpty (object : ObjectShape) : Bool :=
  object.fields.isEmpty

def toShape (object : ObjectShape) : Shape :=
  .object object.fields

end ObjectShape

end Tenancy
