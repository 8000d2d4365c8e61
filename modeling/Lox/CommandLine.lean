import Lox.CommandLine.Arguments
import Lox.CommandLine.FileTree
import Lox.Text.Visible
import Lox.Token.Listing

/-!
The program as seen from outside: what it writes to its two streams and how it ends, given its
arguments, the file they name and its input.
-/

namespace Lox.CommandLine

/-- What a run of the program leaves behind. -/
structure Response where
  exitCode : Nat
  output : ByteArray
  errors : String
  /-- A log file was asked for. -/
  log : Bool

/-- A response without a log file. -/
def Response.of (exitCode : Nat) (output errors : String) : Response :=
  ⟨exitCode, output.toUTF8, errors, false⟩

/-- What a session has told, a line for each diagnostic. -/
def reportLines (session : Session) : String :=
  ofLines (session.machine.reports.toList.map fun report => report.diagnostic.report)

/-- What a session has printed and told, with more output after it. -/
def Response.ofSession (session : Session) (exitCode : Nat) (more : String) : Response :=
  ⟨exitCode, session.machine.sink.written ++ more.toUTF8, reportLines session, false⟩

/-- A failure to read, with its cause. -/
def failureText (failure cause : String) : String :=
  s!"Error: {failure}\n\nCaused by:\n    {cause}\n"

/-- A failure to read a file. A directory can be opened, and fails to be read. -/
def fileFailure (file : String) (error : FileError) : String :=
  let attempt := if error = .isDirectory then "read" else "open"
  failureText s!"Failed to {attempt} file {Text.quoteVisibly file}" error.message

/-- The bytes of a file, or the message that says why there are none. -/
def readBytes (file : String) : Except FileError ByteArray → Except String (List UInt8)
  | .ok content => .ok content.toList
  | .error error => .error (fileFailure file error)

/-- The text of a file, or the message that says why there is none. -/
def readSource (file : String) (content : Except FileError ByteArray) : Except String String :=
  match readBytes file content with
  | .error message => .error message
  | .ok bytes =>
    match Text.decode bytes with
    | .ok source => .ok source
    | .error error =>
      .error (failureText s!"{Text.quoteVisibly file} is not valid UTF-8" error.message)

/-- Lists the tokens of a source. Scanning errors are told, and the tokens are listed all the
same. -/
def tokenize (bytes : List UInt8) (json : Bool) : Response :=
  let scan := Scan.ofBytes bytes
  let tokens := scan.tokens ++ [scan.stop]
  let listing :=
    if json then (Listing.ofTokens tokens).pretty ++ "\n"
    else ofLines (tokens.map Token.display)
  let status : Status := if scan.errors.isEmpty then .ok else .staticError
  .of status.exitCode listing (ofLines (scan.errors.map fun error => error.diagnostic.text))

/-- Prints the value of an expression. -/
def evaluate (session : Session) (source : String) : Response :=
  match session.evaluate source with
  | (.ok value, after) => .ofSession after 0 (value.text after.machine.instances ++ "\n")
  | (.error status, after) => .ofSession after status.exitCode ""

/-- Runs a program. -/
def run (session : Session) (source : String) : Response :=
  let (status, after) := session.run source
  .ofSession after status.exitCode ""

/-- Shows a text without running anything, such as the prompt before a line of input. -/
def display (session : Session) (text : String) : Session :=
  let ⟨config, machine, distances, nextId⟩ := session
  let sink := { machine.sink with written := machine.sink.written ++ text.toUTF8 }
  ⟨config, { machine with sink }, distances, nextId⟩

/-- What is shown when a line of input is wanted. -/
def prompt : String := "> "

/-- The message for input that is no text. -/
def inputFailure : String := failureText "Failed to read input" "stream did not contain valid UTF-8"

/-- Takes a line of input, if it is text. -/
def feed? (session : Session) (line : List UInt8) : Option Session :=
  match Text.decode line with
  | .ok source => some (session.runLine source).2
  | .error _ => none

/-- Takes lines of input one after the other, with a prompt before each and before the end. -/
def converse (session : Session) : List (List UInt8) → Response
  | [] => .ofSession (display session prompt) 0 "\n"
  | line :: rest =>
    let prompted := display session prompt
    match feed? prompted line with
    | some after => converse after rest
    | none =>
      let response := Response.ofSession prompted 1 ""
      { response with errors := response.errors ++ inputFailure }

/-- Splits input after each newline; the last line may lack one. -/
def splitLines : List UInt8 → List (List UInt8)
  | [] => []
  | byte :: rest =>
    if byte = Lexer.ascii '\n' then [byte] :: splitLines rest
    else
      match splitLines rest with
      | [] => [[byte]]
      | line :: lines => (byte :: line) :: lines

namespace Invocation

/-- The file that the command works on. -/
def file? (invocation : Invocation) : Option String :=
  match invocation.command with
  | .tokenize file _ | .evaluate file | .run file => some file
  | .repl => none

/-- The settings of the session. Interactive input is never checked for unused variables. -/
def config (invocation : Invocation) : Config :=
  let base : Config :=
    match invocation.command with
    | .repl => .interactive
    | _ => { Config.standard with reportUnused := !invocation.allowUnused }
  { base with maxDepth := invocation.maxDepth }

/-- The session that the command runs in. -/
def session (invocation : Invocation) (clock : Nat → Float) : Session :=
  .start invocation.config .unlimited clock

/-- Does what the command asks for. -/
def perform (invocation : Invocation) (content : Except FileError ByteArray)
    (input : List UInt8) (clock : Nat → Float) : Response :=
  let start := invocation.session clock
  let done :=
    match invocation.command with
    | .tokenize file json =>
      match readBytes file content with
      | .ok bytes => tokenize bytes json
      | .error message => .of 1 "" message
    | .evaluate file =>
      match readSource file content with
      | .ok source => evaluate start source
      | .error message => .of 1 "" message
    | .run file =>
      match readSource file content with
      | .ok source => run start source
      | .error message => .of 1 "" message
    | .repl => converse start (splitLines input)
  { done with log := invocation.log }

end Invocation

/-- The exit code for arguments that make no sense. -/
def misuseCode : Nat := 2

/-- The name of the log file. -/
def logName : String := "app.log"

/-- What the file of a command holds. The log file, if it is wanted, is there by then. -/
def Invocation.content (invocation : Invocation) (tree : FileTree) :
    Except FileError ByteArray :=
  let tree := if invocation.log then tree.put logName .empty else tree
  match invocation.file? with
  | some file => tree.read file
  | none => .error .notFound

/-- The response to a request, given the files that there are. -/
def Request.respond (request : Request) (tree : FileTree) (input : List UInt8)
    (clock : Nat → Float) : Response :=
  match request with
  | .perform invocation => invocation.perform (invocation.content tree) input clock
  | .inform text => .of 0 text ""
  | .misuse => .of misuseCode "" "error: unexpected arguments, for help use '--help'\n"

end Lox.CommandLine
