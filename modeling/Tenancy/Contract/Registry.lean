import Tenancy.Contract.Expression
import Tenancy.Contract.Generic
import Tenancy.Dictionary

/-!
# Contract registry

Named shapes and named generic contracts. `Registry.resolve` gives the shape an expression stands for:
a registered expression its registered shape, and any other application the instance of its generic
contract. Registrations carry a mark, so that two names for one registered shape can be told from two
shapes that were registered apart.
-/

namespace Tenancy

inductive ContractError where
  | unknownContract (name : String)
  | unknownGeneric (name : String)
  | malformed (expression reason : String)
  | declaration (error : DeclarationError)
  deriving DecidableEq, Repr

def ContractError.message : ContractError → String
  | .unknownContract name => s!"unknown contract '{name}'"
  | .unknownGeneric name => s!"unknown generic contract '{name}'"
  | .malformed expression reason => s!"cannot parse contract expression '{expression}': {reason}"
  | .declaration error => "contract declaration error: " ++ error.message

/-- A shape under a name. Names share a mark when they were registered for the same shape. -/
structure Registration where
  shape : Shape
  mark : Nat

/-- A shape an expression stands for, with the mark of its registration if it has one. -/
structure Resolution where
  shape : Shape
  mark : Option Nat

def Registration.resolution (registration : Registration) : Resolution :=
  ⟨registration.shape, some registration.mark⟩

structure Registry where
  contracts : Dictionary Registration
  generics : Dictionary Generic
  nextMark : Nat

namespace Registry

def empty : Registry := ⟨.empty, .empty, 0⟩

/-- Put a shape under a name, in the stead of the one that was there. -/
def register (registry : Registry) (name : String) (shape : Shape) : Registry :=
  { registry with
    contracts := registry.contracts.insert name ⟨shape, registry.nextMark⟩
    nextMark := registry.nextMark + 1 }

/-- Put a resolved shape under a further name. -/
def share (registry : Registry) (name : String) (resolution : Resolution) : Registry :=
  match resolution.mark with
  | some mark =>
      { registry with contracts := registry.contracts.insert name ⟨resolution.shape, mark⟩ }
  | none => registry.register name resolution.shape

/-- Put a generic contract under its name, in the stead of the one that was there. -/
def registerGeneric (registry : Registry) (generic : Generic) : Registry :=
  { registry with generics := registry.generics.insert generic.name generic }

def get (registry : Registry) (name : String) : Except ContractError Shape :=
  match registry.contracts.find? name with
  | some registration => .ok registration.shape
  | none => .error (.unknownContract name)

def generic (registry : Registry) (name : String) : Except ContractError Generic :=
  match registry.generics.find? name with
  | some generic => .ok generic
  | none => .error (.unknownGeneric name)

def contractNames (registry : Registry) : List String :=
  registry.contracts.keys

/-- The names of generic contracts in ascending order, with their arities. -/
def genericArities (registry : Registry) : List (String × Nat) :=
  registry.generics.values.map fun generic => (generic.name, generic.arity)

/-- The first name registered for the shape that has a mark. -/
def nameOf? (registry : Registry) (mark : Nat) : Option String :=
  (List.find? (fun (_, registration) => registration.mark == mark)
    registry.contracts.entries).map Prod.fst

mutual

/-- The shape an expression stands for. A registered spelling decides before anything else; then the
generic contract is looked up before its arguments are built from left to right. -/
def build (registry : Registry) : Expression → Except ContractError Resolution
  | .apply name arguments =>
      match registry.contracts.find? (Expression.apply name arguments).canonical with
      | some registration => .ok registration.resolution
      | none =>
          if arguments.isEmpty then .error (.unknownContract name)
          else do
            let generic ← registry.generic name
            let built ← registry.buildAll arguments
            (generic.applyTo built Resolution.shape (⟨·, none⟩)).mapError .declaration

def buildAll (registry : Registry) : List Expression → Except ContractError (List Resolution)
  | [] => .ok []
  | expression :: rest => do
      let resolution ← registry.build expression
      return resolution :: (← registry.buildAll rest)

end

def resolve (registry : Registry) (source : String) : Except ContractError Resolution :=
  match Expression.parse source with
  | .error fault => .error (.malformed source fault.message)
  | .ok expression => registry.build expression

def resolveShape (registry : Registry) (source : String) : Except ContractError Shape :=
  (registry.resolve source).map Resolution.shape

end Registry

end Tenancy
