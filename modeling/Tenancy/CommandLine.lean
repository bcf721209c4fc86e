import Tenancy.Contract.Catalogue
import Tenancy.Json.Document
import Tenancy.Shape.Validation
import Tenancy.SystemError
import Tenancy.Text.WhiteSpace

/-!
# Command line

Checking a document against a contract without the service, and listing the contracts. Everything but
reading the arguments and the document, and writing the outcome, is decided here.
-/

namespace Tenancy

open Json

inductive Command where
  | check (contract : String) (file : Option String) (compact : Bool)
  | contracts (json : Bool)
  | help
  | version
  deriving DecidableEq, Repr

namespace Command

/-- A short option that starts with a letter, whatever stands behind it. -/
def startsShort (letter : Char) (argument : String) : Bool :=
  match argument.toList with
  | '-' :: first :: _ => first == letter
  | _ => false

def asksHelp (argument : String) : Bool :=
  argument == "--help" || startsShort 'h' argument

def asksVersion (argument : String) : Bool :=
  argument == "--version" || startsShort 'V' argument

def isPlain (argument : String) : Bool :=
  argument == "-" || argument.toList.head? != some '-'

/-- Read the arguments of `check` from what was read before: the contract, the file, and whether the
output is compact. After `--` every argument is plain. -/
def readCheck (contract file : Option String) (compact literal : Bool) :
    List String → Option Command
  | [] => contract.map fun contract => .check contract file compact
  | argument :: rest =>
      if literal || isPlain argument then
        match contract, file with
        | none, _ => readCheck (some argument) file compact literal rest
        | some _, none =>
            if argument.isEmpty then none
            else readCheck contract (some argument) compact literal rest
        | some _, some _ => none
      else if argument == "--" then readCheck contract file compact true rest
      else if argument == "--compact" && !compact then readCheck contract file true literal rest
      else if asksHelp argument then some .help
      else none

def readContracts (json : Bool) : List String → Option Command
  | [] => some (.contracts json)
  | argument :: rest =>
      if argument == "--" then if rest.isEmpty then some (.contracts json) else none
      else if argument == "--json" && !json then readContracts true rest
      else if asksHelp argument then some .help
      else none

def ofArguments : List String → Option Command
  | [] => none
  | "check" :: rest => readCheck none none false false rest
  | "contracts" :: rest => readContracts false rest
  | ["help"] | ["help", "check"] | ["help", "contracts"] | ["help", "help"] => some .help
  | argument :: _ =>
      if asksHelp argument then some .help
      else if asksVersion argument then some .version
      else none

end Command

inductive Source where
  | stdin
  | file (name : String)
  deriving DecidableEq, Repr

def Source.name : Source → String
  | stdin => "stdin"
  | file name => name

def Source.ofArgument : Option String → Source
  | none => stdin
  | some name => if name = "-" then stdin else file name

/-- Why a command failed, with what caused it, outermost first. -/
structure Failure where
  message : String
  causes : List String
  deriving DecidableEq, Repr

namespace Failure

def chain (failure : Failure) : List String :=
  failure.message :: failure.causes

def ofContractError (error : ContractError) : Failure :=
  ⟨error.message,
    match error with
    | .declaration declaration => [declaration.message]
    | _ => []⟩

def render (failure : Failure) : String :=
  let causes :=
    if failure.causes.isEmpty then ""
    else "\n\nCaused by:" ++ String.join (failure.causes.map ("\n    " ++ ·))
  "Error: " ++ failure.message ++ causes ++ "\n"

end Failure

/-- What a command leaves behind: its exit code and what it wrote. -/
structure Execution where
  exit : UInt8
  stdout : String
  stderr : String
  deriving DecidableEq, Repr

namespace CommandLine

/-- The text of a source whose bytes were read, or could not be. -/
def decode (source : Source) (content : Except SystemError (List UInt8)) : Except Failure String :=
  let failed (cause : String) : Failure := ⟨"failed to read " ++ source.name, [cause]⟩
  match content with
  | .error error => .error (failed error.message)
  | .ok bytes =>
      match Text.decodeUtf8? bytes with
      | some text => .ok text
      | none => .error (failed "stream did not contain valid UTF-8")

def parseSource (text : String) : Except Failure (Option Value) :=
  if Text.isBlank text then .ok none
  else
    match parse text with
    | .ok value => .ok (some value)
    | .error error => .error ⟨"input is not valid JSON", [error.message]⟩

def checkSource (registry : Registry) (expression text : String) :
    Except Failure (Except Rejection Value) := do
  let shape ← (registry.resolveShape expression).mapError .ofContractError
  return shape.checkAndPrune (← parseSource text)

def report (contract : String) (compact : Bool) : Except Rejection Value → Execution
  | .ok pruned => ⟨0, (if compact then pruned.compact else pruned.pretty) ++ "\n", ""⟩
  | .error rejection =>
      ⟨1, "", "rejected by " ++ contract ++ ":\n" ++ String.join (rejection.errors.map fun error =>
        "  " ++ error.property ++ ": " ++ error.message ++ "\n")⟩

def runCheck (registry : Registry) (contract : String) (compact : Bool) (source : Source)
    (content : Except SystemError (List UInt8)) : Except Failure Execution := do
  let text ← decode source content
  return report contract compact (← checkSource registry contract text)

def listing (registry : Registry) : Value :=
  .object [
    ("contracts", .array (registry.contractNames.map .string)),
    ("generics", .array (registry.genericArities.map fun (name, arity) =>
      .object [("arity", .ofNat arity), ("name", .string name)]))]

/-- The contracts, one a line, or as a document. -/
def renderContracts (registry : Registry) (json : Bool) : String :=
  if json then (listing registry).pretty ++ "\n"
  else
    String.join (registry.contractNames.map (· ++ "\n")) ++
      String.join (registry.genericArities.map fun (name, arity) => s!"{name}/{arity}\n")

def usage : String :=
  "Usage: oms check <CONTRACT> [FILE] [--compact]\n       oms contracts [--json]\n"

def versionText : String := "oms 0.1.0\n"

def sourceOf? : Command → Option Source
  | .check _ file _ => some (.ofArgument file)
  | .contracts _ | .help | .version => none

def execute (registry : Registry) (command : Command) (content : Except SystemError (List UInt8)) :
    Execution :=
  match command with
  | .check contract file compact =>
      match runCheck registry contract compact (.ofArgument file) content with
      | .ok execution => execution
      | .error failure => ⟨1, "", failure.render⟩
  | .contracts json => ⟨0, renderContracts registry json, ""⟩
  | .help => ⟨0, usage, ""⟩
  | .version => ⟨0, versionText, ""⟩

/-- The outcome of a command line that is not understood. -/
def misused : Execution := ⟨2, "", usage⟩

end CommandLine

end Tenancy
