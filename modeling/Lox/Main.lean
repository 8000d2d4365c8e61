import Lox.CommandLine

/-!
The executable: arguments, files, streams and the clock. It reads what the command line needs
and writes what it answers. An interactive session writes after every line.
-/

namespace Lox.CommandLine

/-- The seconds at a reading of the clock; readings are a microsecond apart. -/
def clockFrom (start : Float) (reading : Nat) : Float :=
  start + reading.toFloat / 1000000

/-- Tells why a file cannot be read. -/
def FileError.ofIO : IO.Error → FileError
  | .permissionDenied .. => .permissionDenied
  | .inappropriateType _ 21 _ => .isDirectory
  | .inappropriateType .. => .notDirectory
  | .invalidArgument .. => .nameTooLong
  | _ => .notFound

/-- What a file holds. -/
def readFile (file : String) : IO (Except FileError ByteArray) := do
  try
    return .ok (← IO.FS.readBinFile file)
  catch error =>
    return .error (.ofIO error)

/-- Creates the log file if it was asked for. -/
def createLog (wanted : Bool) : IO Unit := do
  if wanted then IO.FS.writeFile logName ""

/-- Writes a response and gives its exit code. -/
def deliver (response : Response) : IO UInt32 := do
  let output ← IO.getStdout
  output.write response.output
  output.flush
  IO.eprint response.errors
  return response.exitCode.toUInt32

/-- Writes what a session has printed and told so far, and lets the session forget it. -/
def drain (session : Session) : IO Session := do
  let output ← IO.getStdout
  output.write session.machine.sink.written
  output.flush
  IO.eprint (reportLines session)
  return { session with
    machine := { session.machine with sink := .unlimited, reports := #[] } }

/-- Reads bytes up to a newline, which is included, or to the end. -/
partial def readLine (line : ByteArray) : IO ByteArray := do
  let input ← IO.getStdin
  let byte ← input.read 1
  if byte.isEmpty then return line
  else if byte.get! 0 = Lexer.ascii '\n' then return line ++ byte
  else readLine (line ++ byte)

/-- Answers lines of input until there is none. -/
partial def interact (session : Session) : IO UInt32 := do
  let prompted ← drain (display session prompt)
  let line ← readLine .empty
  if line.isEmpty then
    IO.println ""
    return 0
  else
    match feed? prompted line.toList with
    | some after => interact after
    | none =>
      IO.eprint inputFailure
      return 1

end Lox.CommandLine

open Lox.CommandLine in
/-- Runs the program. -/
def main (arguments : List String) : IO UInt32 := do
  let start := (← IO.monoNanosNow).toFloat / 1000000000
  match Request.ofArguments arguments with
  | .perform invocation =>
    createLog invocation.log
    match invocation.file? with
    | none => interact (invocation.session (clockFrom start))
    | some file => deliver (invocation.perform (← readFile file) [] (clockFrom start))
  | request => deliver (request.respond .empty [] (clockFrom start))
