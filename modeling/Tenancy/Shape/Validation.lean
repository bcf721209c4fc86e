import Tenancy.Shape.Basic
import Tenancy.Shape.Diagnostic
import Tenancy.Text.AsciiCase

/-!
# Validation

`Shape.validate` accepts or refuses a value, or its absence, at a place. What it accepts it prunes to
what the shape declares; what it refuses it reports at the first place found at fault.
`Shape.checkAndPrune` is the same from the root, with the refusal flattened for the sender.
-/

namespace Tenancy

open Json

/-- The outcome of a check: the accepted value, or why it was refused. -/
abbrev Verdict := Except Diagnostic Value

namespace Kind

def complaint : Kind → Complaint
  | .string => .stringExpected
  | .number => .numberExpected
  | .boolean => .booleanExpected
  | .null => .nullExpected
  | .nothing => .nothingExpected

def accepts : Kind → Value → Bool
  | .string, .string _ | .number, .number _ | .boolean, .bool _ | .null, .null | .nothing, .null =>
      true
  | _, _ => false

end Kind

/-- The first string among the variants that equals a text up to ASCII case. -/
def variantIgnoringCase? (variants : List Value) (text : String) : Option Value :=
  variants.find? fun variant =>
    match variant.text? with
    | some spelling => Text.sameIgnoringCase spelling text
    | none => false

/-- A value that equals a member is accepted as it stands. With `ignoresCase` a string may also
stand for a variant it spells in another case. -/
def acceptMember? (members : List Value) (ignoresCase : Bool) (value : Value) : Option Value :=
  if members.any (·.deepEqual value) then some value
  else if ignoresCase then value.text?.bind (variantIgnoringCase? members)
  else none

def validateItems (check : Value → Path → Verdict) (path : Path) (position : Nat) :
    List Value → Except Diagnostic (List Value)
  | [] => .ok []
  | item :: rest => do
      let accepted ← check item (path.index position)
      return accepted :: (← validateItems check path (position + 1) rest)

/-- Check the values of an object in the order of their keys. -/
def validateEntries (check : Value → Path → Verdict) (path : Path) :
    List (String × Value) → Except Diagnostic (List (String × Value))
  | [] => .ok []
  | (key, value) :: rest => do
      let accepted ← check value (path.key key)
      return (key, accepted) :: (← validateEntries check path rest)

/-- A later output in the place of the earlier ones, merged with them if both are objects. -/
def overlay : Option Value → Value → Value
  | some (.object earlier), .object later => .object (Entries.merge earlier later)
  | _, later => later

/-- What the branches of an intersection give together. -/
def combine (outputs : List Value) : Option Value :=
  outputs.foldl (fun merged output => some (overlay merged output)) none

namespace Shape

mutual

/-- Accept or refuse a value at a place; without a value there is nothing but its absence to judge. -/
def validate (shape : Shape) (input : Option Value) (path : Path) : Verdict :=
  match shape, input with
  | .kind .nothing, none => .ok .null
  | .kind _, none => .error (.of path .required)
  | .kind expected, some value =>
      if expected.accepts value then .ok value else .error (.of path expected.complaint)
  | .literal _, none => .error (.of path .required)
  | .literal expected, some value =>
      if value.deepEqual expected then .ok value
      else .error (.of path (.literalExpected expected))
  | .oneOf _, none => .error (.of path .required)
  | .oneOf members, some value =>
      match acceptMember? members false value with
      | some accepted => .ok accepted
      | none => .error (.of path (.memberExpected members))
  | .enumeration _ _ _, none => .error (.of path .required)
  | .enumeration _ variants ignoresCase, some value =>
      match acceptMember? variants ignoresCase value with
      | some accepted => .ok accepted
      | none => .error (.of path (.memberExpected variants))
  | .arrayOf _, none => .error (.of path .required)
  | .arrayOf element, some (.array items) =>
      (validateItems (fun item place => element.validate (some item) place) path 0 items).map .array
  | .arrayOf _, some _ => .error (.of path .arrayExpected)
  | .mapOf _, none => .error (.of path .required)
  | .mapOf value, some (.object entries) =>
      (validateEntries (fun entry place => value.validate (some entry) place) path entries).map
        .object
  | .mapOf _, some _ => .error (.of path .objectExpected)
  | .union verbose branches, input =>
      match validateAny branches input path with
      | .ok accepted => .ok accepted
      | .error refusals =>
          .error (.mk path Complaint.noBranchMatched.message (if verbose then refusals else []))
  | .intersection branches, input =>
      (validateAll branches input path).map fun outputs =>
        (combine outputs).getD (input.getD .null)
  | .object _, none => .error (.of path .required)
  | .object fields, some (.object whole) => (validateFields fields whole path).map .object
  | .object _, some _ => .error (.of path .objectExpected)

/-- The first acceptance among the branches, or what each of them refused. -/
def validateAny (branches : List Shape) (input : Option Value) (path : Path) :
    Except (List Diagnostic) Value :=
  match branches with
  | [] => .error []
  | branch :: rest =>
      match branch.validate input path with
      | .ok accepted => .ok accepted
      | .error refusal => (validateAny rest input path).mapError (refusal :: ·)

/-- The outputs of all branches, or the first refusal. -/
def validateAll (branches : List Shape) (input : Option Value) (path : Path) :
    Except Diagnostic (List Value) :=
  match branches with
  | [] => .ok []
  | branch :: rest => do
      let output ← branch.validate input path
      return output :: (← validateAll rest input path)

/-- The declared entries of an object, or the first field at fault. -/
def validateFields (fields : List (Field Shape)) (whole : Object) (path : Path) :
    Except Diagnostic Object :=
  match fields with
  | [] => .ok []
  | field :: rest =>
      match whole.find? field.name with
      | none =>
          if field.requiredness.holds none whole then
            .error (.of (path.key field.name) .required)
          else validateFields rest whole path
      | some value => do
          let accepted ← field.shape.validate (some value) (path.key field.name)
          return Entries.insert field.name accepted (← validateFields rest whole path)

end

/-- Check a document, or its absence, and prune it. -/
def checkAndPrune (shape : Shape) (input : Option Value) : Except Rejection Value :=
  (shape.validate input .root).mapError .ofDiagnostic

end Shape

end Tenancy
