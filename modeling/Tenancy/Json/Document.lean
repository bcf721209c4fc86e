import Tenancy.Json.Numeral
import Tenancy.Json.Quoted
import Tenancy.Json.Value

/-!
# Reading documents

A document is one value with nothing but blanks around it. Reading works on bytes: every reader
returns the bytes it left together with the fact that they are fewer, which is why it ends. Of a key
written twice the later value stays, and entries come out by ascending key.
-/

namespace Tenancy.Json

open Text

/-- How many nested containers are refused. -/
def depthLimit : Nat := 128

def isBlankByte (byte : UInt8) : Bool :=
  byte = 0x20 || byte = 0x09 || byte = 0x0A || byte = 0x0D

def skipBlanks (input : List UInt8) : List UInt8 :=
  input.dropWhile isBlankByte

theorem skipBlanks_length (input : List UInt8) : (skipBlanks input).length ≤ input.length :=
  length_dropWhile_le isBlankByte input

/-- The bytes after a word. The first byte that differs counts as passed. -/
def readWord : (word : List UInt8) → (input : List UInt8) → Except Fault (List UInt8)
  | [], input => .ok input
  | _ :: _, [] => .error (.before .endInValue [])
  | letter :: word, byte :: rest =>
      if byte = letter then readWord word rest else .error (.before .identifierExpected rest)

theorem readWord_length {word input rest : List UInt8} (read : readWord word input = .ok rest) :
    rest.length ≤ input.length := by
  fun_induction readWord word input with
  | case1 => simp_all
  | case2 => simp at read
  | case3 word letter rest inductionHypothesis =>
      exact Nat.le_succ_of_le (inductionHypothesis read)
  | case4 => simp at read

/-- How a container goes on: it closes, or something more stands in it. -/
inductive Continuation (input : List UInt8) where
  | closed (rest : Rest input)
  | more (rest : { rest : List UInt8 // rest.length ≤ input.length })

/-- What comes next in a list, before its first item or after an item. -/
def nextItem (first : Bool) (input : List UInt8) : Except Fault (Continuation input) :=
  have fewer := skipBlanks_length input
  match ahead : skipBlanks input with
  | [] => .error (.at .endInList [])
  | byte :: rest =>
      have shorter : rest.length < input.length := by rw [ahead] at fewer; exact fewer
      if byte = 0x5D then .ok (.closed ⟨rest, shorter⟩)
      else if first then .ok (.more ⟨byte :: rest, ahead ▸ fewer⟩)
      else if byte = 0x2C then
        match skipBlanks rest with
        | [] => .error (.at .endInValue [])
        | next :: _ =>
            if next = 0x5D then .error (.at .trailingComma (skipBlanks rest))
            else .ok (.more ⟨rest, Nat.le_of_lt shorter⟩)
      else .error (.at .listSeparatorExpected (byte :: rest))

/-- What comes next in an object: the end, or the bytes after the quote that opens a key. -/
def nextKey (first : Bool) (input : List UInt8) : Except Fault (Continuation input) :=
  have fewer := skipBlanks_length input
  match ahead : skipBlanks input with
  | [] => .error (.at .endInObject [])
  | byte :: rest =>
      have shorter : rest.length < input.length := by rw [ahead] at fewer; exact fewer
      if byte = 0x7D then .ok (.closed ⟨rest, shorter⟩)
      else if first then
        if byte = 0x22 then .ok (.more ⟨rest, Nat.le_of_lt shorter⟩)
        else .error (.at .keyExpected (byte :: rest))
      else if byte = 0x2C then
        have fewer := skipBlanks_length rest
        match next : skipBlanks rest with
        | [] => .error (.at .endInValue [])
        | quote :: after =>
            have shorter : after.length ≤ input.length := by
              rw [next, List.length_cons] at fewer
              omega
            if quote = 0x22 then .ok (.more ⟨after, shorter⟩)
            else if quote = 0x7D then .error (.at .trailingComma (quote :: after))
            else .error (.at .keyExpected (quote :: after))
      else .error (.at .entrySeparatorExpected (byte :: rest))

/-- A key after its opening quote, and the colon that follows it. -/
def readKey (input : List UInt8) : Except Fault (String × Rest input) :=
  match read : readQuoted input with
  | .error fault => .error fault
  | .ok (key, rest) =>
      have fewer := skipBlanks_length rest
      match ahead : skipBlanks rest with
      | [] => .error (.at .endInObject [])
      | byte :: after =>
          have shorter : after.length < input.length := by
            have := readQuoted_length read
            rw [ahead, List.length_cons] at fewer
            omega
          if byte = 0x3A then .ok (key, ⟨after, shorter⟩)
          else .error (.at .colonExpected (byte :: after))

/-- The remaining letters of the words that are values. -/
def valueWord? (letter : UInt8) : Option (List UInt8 × Value) :=
  [(0x6E, ([0x75, 0x6C, 0x6C], Value.null)), (0x74, ([0x72, 0x75, 0x65], .bool true)),
    (0x66, ([0x61, 0x6C, 0x73, 0x65], .bool false))].lookup letter

def readScalar (byte : UInt8) (rest : List UInt8) : Except Fault (Value × Rest (byte :: rest)) :=
  match valueWord? byte with
  | some (word, value) =>
      match read : readWord word rest with
      | .error fault => .error fault
      | .ok after => .ok (value, ⟨after, Nat.lt_succ_of_le (readWord_length read)⟩)
  | none =>
      if byte = 0x22 then
        match read : readQuoted rest with
        | .error fault => .error fault
        | .ok (text, after) =>
            .ok (.string text, ⟨after, Nat.lt_succ_of_lt (readQuoted_length read)⟩)
      else if byte = 0x2D then
        match read : readNumeral true rest with
        | .error fault => .error fault
        | .ok (number, after) =>
            .ok (.number number, ⟨after, Nat.lt_succ_of_lt (readNumeral_length read)⟩)
      else if isDigit byte then
        match read : readNumeral false (byte :: rest) with
        | .error fault => .error fault
        | .ok (number, after) => .ok (.number number, ⟨after, readNumeral_length read⟩)
      else .error (.at .valueExpected (byte :: rest))

mutual

/-- Read a value inside which fewer than `depth` containers may be nested. -/
def readValue (depth : Nat) (input : List UInt8) : Except Fault (Value × Rest input) :=
  have fewer := skipBlanks_length input
  match ahead : skipBlanks input with
  | [] => .error (.at .endInValue [])
  | byte :: rest =>
      have fewer : rest.length + 1 ≤ input.length := by rw [ahead] at fewer; exact fewer
      if byte = 0x5B ∨ byte = 0x7B then
        if depth ≤ 1 then .error (.at .tooDeep (byte :: rest))
        else if byte = 0x5B then
          match readItems (depth - 1) true rest with
          | .error fault => .error fault
          | .ok (items, after) => .ok (.array items, after.widen (Nat.le_of_lt fewer))
        else
          match readEntries (depth - 1) true rest with
          | .error fault => .error fault
          | .ok (entries, after) =>
              .ok (.object (Entries.sorted entries), after.widen (Nat.le_of_lt fewer))
      else
        match readScalar byte rest with
        | .error fault => .error fault
        | .ok (value, after) => .ok (value, @Rest.widen UInt8 (byte :: rest) input fewer after)
  termination_by 2 * input.length
  decreasing_by all_goals omega

/-- Read the items of a list up to its closing bracket. -/
def readItems (depth : Nat) (first : Bool) (input : List UInt8) :
    Except Fault (List Value × Rest input) :=
  match nextItem first input with
  | .error fault => .error fault
  | .ok (.closed rest) => .ok ([], rest)
  | .ok (.more start) =>
      have := start.property
      match readValue depth start.val with
      | .error fault => .error fault
      | .ok (item, middle) =>
          have := middle.property
          match readItems depth false middle.val with
          | .error fault => .error fault
          | .ok (items, rest) => .ok (item :: items, rest.widen (by omega))
  termination_by 2 * input.length + 1
  decreasing_by all_goals omega

/-- Read the entries of an object up to its closing brace, in the order written. -/
def readEntries (depth : Nat) (first : Bool) (input : List UInt8) :
    Except Fault (List (String × Value) × Rest input) :=
  match nextKey first input with
  | .error fault => .error fault
  | .ok (.closed rest) => .ok ([], rest)
  | .ok (.more start) =>
      have := start.property
      match readKey start.val with
      | .error fault => .error fault
      | .ok (key, afterKey) =>
          have := afterKey.property
          match readValue depth afterKey.val with
          | .error fault => .error fault
          | .ok (value, middle) =>
              have := middle.property
              match readEntries depth false middle.val with
              | .error fault => .error fault
              | .ok (entries, rest) => .ok ((key, value) :: entries, rest.widen (by omega))
  termination_by 2 * input.length + 1
  decreasing_by all_goals omega

end

/-- The value of a document, or the fault that comes first. -/
def readDocument (source : List UInt8) : Except SyntaxError Value :=
  match readValue depthLimit source with
  | .error fault => .error (fault.locate source)
  | .ok (value, rest) =>
      match skipBlanks rest.val with
      | [] => .ok value
      | byte :: more => .error ((Fault.at .trailingCharacters (byte :: more)).locate source)

def parse (source : String) : Except SyntaxError Value :=
  readDocument (Text.utf8Bytes source)

end Tenancy.Json
