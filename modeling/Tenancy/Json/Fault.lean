/-!
# Faults of a document text

Why a text is no document and where. Reading notes how many bytes were still ahead at the fault; line
and column follow from that and the whole text.
-/

namespace Tenancy.Json

inductive Reason where
  | endInValue
  | endInString
  | endInList
  | endInObject
  | valueExpected
  | identifierExpected
  | colonExpected
  | listSeparatorExpected
  | entrySeparatorExpected
  | keyExpected
  | trailingComma
  | trailingCharacters
  | invalidNumber
  | numberOutOfRange
  | invalidEscape
  | invalidUnicode
  | loneSurrogate
  | surrogateExpected
  | controlCharacter
  | tooDeep
  deriving DecidableEq, Repr

def Reason.message : Reason → String
  | .endInValue => "EOF while parsing a value"
  | .endInString => "EOF while parsing a string"
  | .endInList => "EOF while parsing a list"
  | .endInObject => "EOF while parsing an object"
  | .valueExpected => "expected value"
  | .identifierExpected => "expected ident"
  | .colonExpected => "expected `:`"
  | .listSeparatorExpected => "expected `,` or `]`"
  | .entrySeparatorExpected => "expected `,` or `\x7d`"
  | .keyExpected => "key must be a string"
  | .trailingComma => "trailing comma"
  | .trailingCharacters => "trailing characters"
  | .invalidNumber => "invalid number"
  | .numberOutOfRange => "number out of range"
  | .invalidEscape => "invalid escape"
  | .invalidUnicode => "invalid unicode code point"
  | .loneSurrogate => "lone leading surrogate in hex escape"
  | .surrogateExpected => "unexpected end of hex escape"
  | .controlCharacter => "control character (\\u0000-\\u001F) found while parsing a string"
  | .tooDeep => "recursion limit exceeded"

/-- A fault met while reading: `ahead` bytes were not yet passed, and the column it is reported at
lies `retreat` bytes before. -/
structure Fault where
  reason : Reason
  ahead : Nat
  retreat : Nat
  deriving DecidableEq, Repr

/-- A fault at the bytes passed so far. -/
def Fault.before (reason : Reason) (rest : List UInt8) : Fault :=
  ⟨reason, rest.length, 0⟩

/-- A fault at the next byte, which counts as passed if there is one. -/
def Fault.at (reason : Reason) (rest : List UInt8) : Fault :=
  ⟨reason, rest.tail.length, 0⟩

/-- A fault with its place: lines from one, columns in bytes. -/
structure SyntaxError where
  reason : Reason
  line : Nat
  column : Nat
  deriving DecidableEq, Repr

def SyntaxError.message (error : SyntaxError) : String :=
  let reason := error.reason.message
  let line := error.line
  let column := error.column
  s!"{reason} at line {line} column {column}"

/-- Where a fault lies in the text that was read. -/
def Fault.locate (fault : Fault) (source : List UInt8) : SyntaxError :=
  let passed := source.take (source.length - fault.ahead)
  let column := (passed.reverse.takeWhile (· != 0x0A)).length
  ⟨fault.reason, passed.count 0x0A + 1, column - fault.retreat⟩

end Tenancy.Json
