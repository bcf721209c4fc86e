import Tenancy.CommandLine

/-!
The command line program: it reads what the command asks for, and writes what comes of it.
-/

namespace Tenancy

/-- The number of a system error, which some calls give negated. -/
def errorNumber (code : UInt32) : Nat :=
  if code < 0x80000000 then code.toNat else (0 - code).toNat

def systemError : IO.Error → SystemError
  | .noFileOrDirectory _ code details | .interrupted _ code details
  | .alreadyExists _ code details | .invalidArgument _ code details
  | .permissionDenied _ code details | .resourceExhausted _ code details
  | .inappropriateType _ code details | .noSuchThing _ code details
  | .otherError code details | .resourceBusy code details | .resourceVanished code details
  | .unsupportedOperation code details | .hardwareFault code details
  | .unsatisfiedConstraints code details | .illegalOperation code details
  | .protocolError code details | .timeExpired code details =>
      .ofNumber (errorNumber code) details
  | error => .other (toString error)

partial def readAll (stream : IO.FS.Stream) (read : ByteArray) : IO ByteArray := do
  let chunk ← stream.read 65536
  if chunk.isEmpty then return read else readAll stream (read ++ chunk)

def readSource (source : Source) : IO (Except SystemError (List UInt8)) := do
  let bytes ←
    match source with
    | .stdin => do (readAll (← IO.getStdin) .empty).toBaseIO
    | .file name => (IO.FS.readBinFile name).toBaseIO
  return (bytes.map (·.data.toList)).mapError systemError

end Tenancy

open Tenancy in
def main (arguments : List String) : IO UInt32 := do
  let execution ←
    match Command.ofArguments arguments with
    | none => pure CommandLine.misused
    | some command => do
        let content ←
          match CommandLine.sourceOf? command with
          | some source => readSource source
          | none => pure (.ok [])
        pure (CommandLine.execute .catalogue command content)
  (← IO.getStdout).putStr execution.stdout
  (← IO.getStderr).putStr execution.stderr
  return execution.exit.toUInt32
