import Lox.Evaluation
import Lox.Syntax.Parser
import Lox.Token.Lexer

/-!
Sessions: sources that run one after the other on one machine, so that each sees what the
earlier ones defined. A source with a static error runs not at all.
-/

namespace Lox

/-- What a session does with its sources. -/
structure Config where
  /-- A `var` declaration that is never read is an error. -/
  reportUnused : Bool
  /-- The deepest nesting of calls. -/
  maxDepth : Nat
  /-- The budget of each evaluation. -/
  budget : Nat

namespace Config

/-- The depth of calls at which a program is stopped if nothing else is asked for. -/
def defaultMaxDepth : Nat := 255

/-- A budget that no program uses up in practice. -/
def ample : Nat := 1000000000000000

/-- The settings for a program in a file. -/
def standard : Config := ⟨true, defaultMaxDepth, ample⟩

/-- The settings for interactive use, where a variable is rarely read on the line that declares
it. -/
def interactive : Config := { standard with reportUnused := false }

end Config

/-- How a source ended. -/
inductive Status where
  | ok
  | staticError
  | runtimeError
  /-- The budget ran out. -/
  | unfinished
  deriving DecidableEq, Repr

/-- The exit code of a process that ends with the status. -/
def Status.exitCode : Status → Nat
  | .ok => 0
  | .staticError => 65
  | .runtimeError | .unfinished => 70

/-- A machine with its settings. -/
structure Session where
  config : Config
  machine : Machine
  /-- The distances of all occurrences resolved so far. -/
  distances : Distances
  /-- The number of the next occurrence in a tree. -/
  nextId : Nat

namespace Session

/-- A session in which nothing has run. -/
def start (config : Config) (sink : Sink) (clock : Nat → Float) : Session :=
  ⟨config, .start config.maxDepth sink clock, .empty, 0⟩

/-- Tells a diagnostic. -/
def report (session : Session) (diagnostic : Diagnostic) : Session :=
  { session with
    machine :=
      { session.machine with
        reports := session.machine.reports.push ⟨diagnostic, session.machine.sink.size⟩ } }

/-- Tells diagnostics in order. -/
def reportAll (session : Session) (diagnostics : List Diagnostic) : Session :=
  diagnostics.foldl report session

/-- Tells static errors. -/
def reject (session : Session) (diagnostics : List Diagnostic) : Status × Session :=
  (.staticError, session.reportAll diagnostics)

/-- The status that an interruption leads to, and the diagnostic that it is told by. -/
def interrupt (session : Session) (interruption : Interruption) : Status × Session :=
  match interruption with
  | .fault fault => (.runtimeError, session.report fault.diagnostic)
  | .beyondChain | .budget => (.unfinished, session)

/-- Runs a step on the machine. -/
def perform {α : Type} (session : Session) (step : Step α) :
    Except Interruption α × Session :=
  let ⟨config, machine, distances, nextId⟩ := session
  match step machine with
  | .ok value after => (.ok value, ⟨config, after, distances, nextId⟩)
  | .error interruption after => (.error interruption, ⟨config, after, distances, nextId⟩)

/-- Adds the distances of newly resolved occurrences. -/
def learn (session : Session) (distances : Distances) : Session :=
  { session with distances := session.distances.merge distances }

/-- Performs a task in which occurrences are looked up at their distances. -/
def performResolved (session : Session) (task : Task) :
    Except Interruption task.Result × Session :=
  session.perform (task.perform (.byDistance session.distances) session.config.budget)

/-- Reads a program, numbering its occurrences. -/
def parseProgram (session : Session) (scan : Scan) :
    Except (List SyntaxError) Program × Session :=
  let (parsed, nextId) := Program.parse scan.tokens scan.stop session.nextId
  (parsed, { session with nextId })

/-- Reads an expression, numbering its occurrences. -/
def parseExpression (session : Session) (scan : Scan) : Option Expr × Session :=
  let (parsed, nextId) := Expr.parse? scan.tokens scan.stop session.nextId
  (parsed, { session with nextId })

/-- Resolves and runs a program. -/
def runProgram (session : Session) (program : Program) : Status × Session :=
  match program.resolve session.config.reportUnused with
  | .error errors => session.reject (errors.map ScopeError.diagnostic)
  | .ok distances =>
    match (session.learn distances).performResolved (.executeAll program) with
    | (.ok _, after) => (.ok, after)
    | (.error interruption, after) => after.interrupt interruption

/-- Resolves and evaluates an expression. -/
def evaluateExpr (session : Session) (expr : Expr) : Except Status Value × Session :=
  match expr.resolve with
  | .error errors =>
    let (status, after) := session.reject (errors.map ScopeError.diagnostic)
    (.error status, after)
  | .ok distances =>
    match (session.learn distances).performResolved (.evaluate expr) with
    | (.ok value, after) => (.ok value, after)
    | (.error interruption, after) =>
      let (status, last) := after.interrupt interruption
      (.error status, last)

/-- Runs a scanned source as a program. -/
def runScan (session : Session) (scan : Scan) : Status × Session :=
  if scan.errors.isEmpty then
    match session.parseProgram scan with
    | (.error errors, after) => after.reject (errors.map SyntaxError.diagnostic)
    | (.ok program, after) => after.runProgram program
  else session.reject (scan.errors.map LexicalError.diagnostic)

/-- Runs a source as a program. All errors of the first stage that has any are told. -/
def run (session : Session) (source : String) : Status × Session :=
  session.runScan (.ofText source)

/-- Tells why a source is no expression: the errors that it has as a program, or that it is
one. -/
def rejectExpression (session : Session) (scan : Scan) : Status × Session :=
  match session.parseProgram scan with
  | (.error errors, after) => after.reject (errors.map SyntaxError.diagnostic)
  | (.ok _, after) => after.reject [SyntaxError.diagnostic ⟨scan.first, .expression⟩]

/-- Evaluates a source that is one expression. -/
def evaluate (session : Session) (source : String) : Except Status Value × Session :=
  let scan := Scan.ofText source
  if scan.errors.isEmpty then
    match session.parseExpression scan with
    | (some expr, after) => after.evaluateExpr expr
    | (none, after) =>
      let (status, last) := after.rejectExpression scan
      (.error status, last)
  else
    let (status, after) := session.reject (scan.errors.map LexicalError.diagnostic)
    (.error status, after)

/-- Prints the value of an expression. -/
def echo (session : Session) (value : Value) : Status × Session :=
  match session.perform (Step.print value) with
  | (.ok none, after) => (.ok, after)
  | (.ok (some error), after) =>
    (.runtimeError, after.report (.ofInput error.message))
  | (.error interruption, after) => after.interrupt interruption

/-- Takes a line of interactive input: the value of an expression is printed, and anything else
runs as a program. -/
def runLine (session : Session) (source : String) : Status × Session :=
  let scan := Scan.ofText source
  if scan.errors.isEmpty then
    match session.parseExpression scan with
    | (some expr, after) =>
      match after.evaluateExpr expr with
      | (.ok value, last) => last.echo value
      | (.error status, last) => (status, last)
    | (none, after) => after.run source
  else session.reject (scan.errors.map LexicalError.diagnostic)

end Session

end Lox
