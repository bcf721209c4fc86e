import Tenancy.Text.Rest
import Tenancy.Text.WhiteSpace

/-!
# Contract expressions

A contract is named by a word, or by a word applied to contracts: `page<envelope<member>>`. White
space may stand around every word and sign. `Expression.parse` reads an expression, and
`Expression.canonical` writes it without white space.
-/

namespace Tenancy

open Text

inductive Expression where
  | apply (name : String) (arguments : List Expression)

namespace Expression

mutual

/-- The expression without white space. -/
def canonical : Expression → String
  | apply name [] => name
  | apply name (first :: rest) =>
      name ++ "<" ++ String.intercalate "," (first.canonical :: canonicalAll rest) ++ ">"

def canonicalAll : List Expression → List String
  | [] => []
  | expression :: rest => expression.canonical :: canonicalAll rest

end

/-- Why a text is no expression. Offsets are in bytes. -/
inductive Fault where
  | nameExpected
  | separatorExpected
  | unexpected (c : Char) (offset : Nat)
  deriving DecidableEq, Repr

def Fault.message : Fault → String
  | .nameExpected => "expected a contract name"
  | .separatorExpected => "expected ',' or '>'"
  | .unexpected c offset => s!"unexpected '{c}' at {offset}"

def isWordChar (c : Char) : Bool :=
  c.isAlphanum || c == '_'

def skipSpace (input : List Char) : List Char :=
  input.dropWhile isWhiteSpace

theorem skipSpace_length (input : List Char) : (skipSpace input).length ≤ input.length :=
  length_dropWhile_le isWhiteSpace input

def readWord (input : List Char) : Except Fault (String × Rest input) :=
  let start := skipSpace input
  match word : start.takeWhile isWordChar with
  | [] => .error .nameExpected
  | first :: more =>
      .ok (String.ofList (first :: more), ⟨skipSpace (start.dropWhile isWordChar), by
        have parts := congrArg List.length
          (List.takeWhile_append_dropWhile (p := isWordChar) (l := start))
        have : start.length ≤ input.length := skipSpace_length input
        have := skipSpace_length (start.dropWhile isWordChar)
        simp only [word, List.length_append, List.length_cons] at parts
        omega⟩)

mutual

def read (input : List Char) : Except Fault (Expression × Rest input) :=
  match readWord input with
  | .error fault => .error fault
  | .ok (name, after) =>
      have := after.property
      match opening : after.val with
      | '<' :: inside =>
          have : inside.length < after.val.length := by simp [opening]
          match readArguments inside with
          | .error fault => .error fault
          | .ok (arguments, rest) => .ok (apply name arguments, rest.widen (by omega))
      | _ => .ok (apply name [], after)
  termination_by 2 * input.length

def readArguments (input : List Char) : Except Fault (List Expression × Rest input) :=
  match read input with
  | .error fault => .error fault
  | .ok (argument, after) =>
      have := after.property
      have := skipSpace_length after.val
      match sign : skipSpace after.val with
      | ',' :: more =>
          have : more.length < (skipSpace after.val).length := by simp [sign]
          match readArguments more with
          | .error fault => .error fault
          | .ok (arguments, rest) => .ok (argument :: arguments, rest.widen (by omega))
      | '>' :: rest =>
          have : rest.length < (skipSpace after.val).length := by simp [sign]
          .ok ([argument], ⟨rest, by omega⟩)
      | _ => .error .separatorExpected
  termination_by 2 * input.length + 1

end

def offsetOf (source : String) (rest : List Char) : Nat :=
  source.utf8ByteSize - (String.ofList rest).utf8ByteSize

def parse (source : String) : Except Fault Expression :=
  match read source.toList with
  | .error fault => .error fault
  | .ok (expression, rest) =>
      match skipSpace rest.val with
      | [] => .ok expression
      | c :: more => .error (.unexpected c (offsetOf source (c :: more)))

end Expression

end Tenancy
