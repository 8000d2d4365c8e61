import Lox.Session
import Lox.Proofs.Evaluation.Balance
import Lox.Proofs.Evaluation.Steps
import Lox.Proofs.Syntax.Grammar

/-! What a session is asked for, and the evaluations that begin with it. A request begins at most
the evaluation of the one program or expression that its source is read as; whatever comes of it,
the session goes on on the machine that the evaluation leaves.
-/

namespace Lox

/-- What a session can be asked for. -/
inductive Request where
  | run (source : String)
  | line (source : String)
  | evaluate (source : String)

namespace Session

/-- The session after a request. -/
def take (session : Session) : Request → Session
  | .run source => (session.run source).2
  | .line source => (session.runLine source).2
  | .evaluate source => (session.evaluate source).2

/-- The session after requests in order. -/
def takeAll (session : Session) (requests : List Request) : Session := requests.foldl take session

/-- A further request comes last. -/
theorem takeAll_append_singleton (session : Session) (requests : List Request) (request : Request)
    : session.takeAll (requests ++ [request]) = (session.takeAll requests).take request :=
  List.foldl_concat ..

/-- A task about to be performed in a session. -/
def moment (session : Session) (task : Task) : Moment :=
  ⟨session.distances, session.config.budget, task, session.machine⟩

/-- A request begins an evaluation, in the session that knows what has been read and resolved. -/
inductive Begins : Session → Request → Session → Task → Prop
  | run {session source numbered distances} {program : Program}
    (scanned : (Scan.ofText source).errors = [])
    (parsed : session.parseProgram (.ofText source) = (.ok program, numbered))
    (resolved : program.resolve session.config.reportUnused = .ok distances)
    : Begins session (.run source) (numbered.learn distances) (.executeAll program)
  | evaluate {session source expr numbered distances}
    (scanned : (Scan.ofText source).errors = [])
    (parsed : session.parseExpression (.ofText source) = (some expr, numbered))
    (resolved : expr.resolve = .ok distances)
    : Begins session (.evaluate source) (numbered.learn distances) (.evaluate expr)
  | echo {session source opened task} (begins : Begins session (.evaluate source) opened task)
    : Begins session (.line source) opened task
  | line {session source numbered opened task}
    (scanned : (Scan.ofText source).errors = [])
    (parsed : session.parseExpression (.ofText source) = (none, numbered))
    (begins : Begins numbered (.run source) opened task)
    : Begins session (.line source) opened task

/-- One of some requests taken in order begins an evaluation. -/
inductive Evaluates : Session → List Request → Session → Task → Prop
  | here {session request rest opened task} (begins : Begins session request opened task)
    : Evaluates session (request :: rest) opened task
  | later {session request rest opened task}
    (evaluates : Evaluates (session.take request) rest opened task)
    : Evaluates session (request :: rest) opened task

/-- What is evaluated in the course of some requests and of one more. -/
theorem evaluates_append_singleton {session opened : Session} {requests : List Request}
    {request : Request} {task : Task}
    : session.Evaluates (requests ++ [request]) opened task
      ↔ session.Evaluates requests opened task
        ∨ (session.takeAll requests).Begins request opened task := by
  induction requests generalizing session with
  | nil =>
      constructor
      · rintro (begins | ⟨⟨⟩⟩)
        exact .inr begins
      · rintro (⟨⟨⟩⟩ | begins)
        exact .here begins
  | cons first rest ih =>
      constructor
      · rintro (begins | evaluates)
        · exact .inl (.here begins)
        · exact (ih.1 evaluates).imp_left .later
      · rintro ((begins | evaluates) | begins)
        · exact .here begins
        · exact .later (ih.2 (.inl evaluates))
        · exact .later (ih.2 (.inr begins))

-----------------------------------------------------------------------------------------
-- Sessions that go on
-----------------------------------------------------------------------------------------

/-- A session goes on on a machine that has come out of it. -/
structure Continues (before : Session) (machine : Machine) (after : Session) : Prop where
  config : after.config = before.config
  distances : after.distances = before.distances
  numbers : before.nextId ≤ after.nextId
  alike : after.machine.Alike machine
  balanced : machine.Balanced after.machine

theorem Continues.refl (session : Session) : session.Continues session.machine session :=
  ⟨rfl, rfl, Nat.le.refl, .refl _, .refl _⟩

theorem Continues.trans {before middle after : Session} {machine : Machine}
    (h : before.Continues machine middle) (next : middle.Continues middle.machine after)
    : before.Continues machine after :=
  ⟨next.config.trans h.config, next.distances.trans h.distances,
    Nat.le_trans h.numbers next.numbers, next.alike.trans h.alike,
    h.balanced.trans next.balanced⟩

variable (session : Session)

/-- The session on the machine that a step has left, with what the step gives. -/
def leave {α : Type} (ending : Ending α) : Except Interruption α × Session :=
  match ending with
  | .ok value after => (.ok value, { session with machine := after })
  | .error interruption after => (.error interruption, { session with machine := after })

theorem perform_eq {α : Type} (step : Step α)
    : session.perform step = session.leave (step session.machine) := rfl

theorem performResolved_eq (task : Task)
    : session.performResolved task = session.leave (session.moment task).ending := rfl

theorem continues_report (diagnostic : Diagnostic)
    : session.Continues session.machine (session.report diagnostic) :=
  ⟨rfl, rfl, Nat.le.refl, ⟨rfl, rfl, rfl⟩, ⟨rfl, rfl, rfl⟩⟩

theorem continues_reject (diagnostics : List Diagnostic)
    : session.Continues session.machine (session.reject diagnostics).2 := by
  unfold reject reportAll
  dsimp only
  induction diagnostics generalizing session with
  | nil => exact .refl session
  | cons first rest ih => exact (session.continues_report first).trans (ih (session.report first))

theorem continues_interrupt (interruption : Interruption)
    : session.Continues session.machine (session.interrupt interruption).2 := by
  cases interruption with
  | fault fault => exact session.continues_report fault.diagnostic
  | beyondChain | budget => exact .refl session

theorem continues_echo (value : Value)
    : session.Continues session.machine (session.echo value).2 := by
  have quiet := Step.quiet_print session.machine value
  have proceeds := Step.proceeds_print value session.machine
  unfold Step.Quiet at quiet
  unfold echo
  rw [perform_eq]
  unfold leave
  split at quiet
  · next error after ran =>
      rw [ran] at proceeds ⊢
      have printed : session.Continues session.machine { session with machine := after } :=
        ⟨rfl, rfl, Nat.le.refl, quiet.1, proceeds.balanced⟩
      cases error with
      | none => exact printed
      | some error => exact printed.trans (continues_report _ _)
  · next interruption after ran =>
      rw [ran] at proceeds ⊢
      have printed : session.Continues session.machine { session with machine := after } :=
        ⟨rfl, rfl, Nat.le.refl, quiet.1, proceeds.balanced⟩
      exact printed.trans (continues_interrupt _ _)

/-- A program that was read from the tokens was read from the text. -/
theorem parseProgram_eq {session : Session} {scan : Scan}
    {result : Except (List SyntaxError) Program} {next : Nat}
    (read : Program.parse scan.tokens scan.stop session.nextId = (result, next))
    : session.parseProgram scan = (result, { session with nextId := next }) := by
  unfold parseProgram
  rw [read]

/-- Reading takes numbers and changes nothing else. -/
theorem continues_parseProgram (source : String)
    : session.Continues session.machine (session.parseProgram (.ofText source)).2 :=
  ⟨rfl, rfl, (Program.parse_numbered source session.nextId).1, .refl _, .refl _⟩

theorem continues_parseExpression (source : String)
    : session.Continues session.machine (session.parseExpression (.ofText source)).2 :=
  ⟨rfl, rfl, (Expr.parse?_numbered source session.nextId).1, .refl _, .refl _⟩

-----------------------------------------------------------------------------------------
-- What comes of a request
-----------------------------------------------------------------------------------------

/-- A session on the machine that an evaluation has left. -/
theorem continues_ending {α : Type} (ending : Ending α)
    : session.Continues ending.machine { session with machine := ending.machine } :=
  ⟨rfl, rfl, Nat.le.refl, .refl _, .refl _⟩

theorem continues_runProgram {program : Program} {distances : Distances}
    (resolved : program.resolve session.config.reportUnused = .ok distances)
    : (session.learn distances).Continues
        ((session.learn distances).moment (.executeAll program)).ending.machine
        (session.runProgram program).2 := by
  unfold runProgram
  rw [resolved]
  dsimp only
  rw [performResolved_eq]
  unfold leave
  have left := (session.learn distances).continues_ending
    ((session.learn distances).moment (.executeAll program)).ending
  cases ended : ((session.learn distances).moment (.executeAll program)).ending with
  | ok value after =>
      rw [ended] at left
      exact left
  | error interruption after =>
      rw [ended] at left
      exact left.trans (continues_interrupt _ interruption)

theorem continues_evaluateExpr {expr : Expr} {distances : Distances}
    (resolved : expr.resolve = .ok distances)
    : (session.learn distances).Continues
        ((session.learn distances).moment (.evaluate expr)).ending.machine
        (session.evaluateExpr expr).2 := by
  unfold evaluateExpr
  rw [resolved]
  dsimp only
  rw [performResolved_eq]
  unfold leave
  have left := (session.learn distances).continues_ending
    ((session.learn distances).moment (.evaluate expr)).ending
  cases ended : ((session.learn distances).moment (.evaluate expr)).ending with
  | ok value after =>
      rw [ended] at left
      exact left
  | error interruption after =>
      rw [ended] at left
      exact left.trans (continues_interrupt _ interruption)

/-- What has come of a request: it has begun an evaluation that left the machine of the session
behind, or the session has only counted and told errors.
-/
def Answers (session : Session) (request : Request) (after : Session) : Prop :=
  (∃ opened task,
    session.Begins request opened task
    ∧ opened.Continues (opened.moment task).ending.machine after
    ∧ session.nextId ≤ opened.nextId)
  ∨ session.Continues session.machine after

theorem answers_run (source : String)
    : session.Answers (.run source) (session.run source).2 := by
  unfold run runScan
  split
  · next scanned =>
      have read := session.continues_parseProgram source
      split
      · next parsed =>
          rw [parsed] at read
          exact .inr (read.trans (continues_reject _ _))
      · next program numbered parsed =>
          rw [parsed] at read
          cases resolved : program.resolve numbered.config.reportUnused with
          | ok distances =>
              refine .inl ⟨_, _, .run (List.isEmpty_iff.1 scanned) parsed ?_,
                continues_runProgram numbered resolved, read.numbers⟩
              rwa [← read.config]
          | error errors =>
              unfold runProgram
              rw [resolved]
              exact .inr (read.trans (continues_reject _ _))
  · exact .inr (continues_reject _ _)

variable {session : Session}

/-- A source that has been read as an expression is evaluated, unless it breaks a rule. -/
theorem answers_evaluateExpr {source : String} {expr : Expr} {numbered : Session}
    (scanned : (Scan.ofText source).errors = [])
    (parsed : session.parseExpression (.ofText source) = (some expr, numbered))
    : session.Answers (.evaluate source) (numbered.evaluateExpr expr).2 := by
  have read := session.continues_parseExpression source
  rw [parsed] at read
  cases resolved : expr.resolve with
  | ok distances =>
      exact .inl ⟨_, _, .evaluate scanned parsed resolved, continues_evaluateExpr numbered resolved,
        read.numbers⟩
  | error errors =>
      unfold evaluateExpr
      rw [resolved]
      exact .inr (read.trans (continues_reject _ _))

theorem answers_evaluate (source : String)
    : session.Answers (.evaluate source) (session.evaluate source).2 := by
  unfold evaluate
  dsimp only
  split
  · next scanned =>
      have read := session.continues_parseExpression source
      split
      · next expr numbered parsed =>
          exact answers_evaluateExpr (List.isEmpty_iff.1 scanned) parsed
      · next numbered parsed =>
          rw [parsed] at read
          have again := numbered.continues_parseProgram source
          unfold rejectExpression
          split
          · next ran =>
              rw [ran] at again
              exact .inr (read.trans (again.trans (continues_reject _ _)))
          · next ran =>
              rw [ran] at again
              exact .inr (read.trans (again.trans (continues_reject _ _)))
  · exact .inr (continues_reject _ _)

/-- A line that is an expression begins its evaluation; what is printed does not matter. -/
theorem Answers.line {source : String} {middle after : Session}
    (h : session.Answers (.evaluate source) middle)
    (more : middle.Continues middle.machine after)
    : session.Answers (.line source) after := by
  rcases h with ⟨opened, task, begins, continues, numbers⟩ | continues
  · exact .inl ⟨opened, task, .echo begins, continues.trans more, numbers⟩
  · exact .inr (continues.trans more)

/-- Every request is answered. -/
theorem answers_take (session : Session) (request : Request)
    : session.Answers request (session.take request) := by
  cases request with
  | run source => exact session.answers_run source
  | evaluate source => exact answers_evaluate source
  | line source =>
      unfold take runLine
      dsimp only
      split
      · next scanned =>
          have scanned := List.isEmpty_iff.1 scanned
          have read := session.continues_parseExpression source
          split
          · next expr numbered parsed =>
              have answered := answers_evaluateExpr scanned parsed
              split
              · next value last ran =>
                  rw [ran] at answered
                  exact answered.line (continues_echo last value)
              · next status last ran =>
                  rw [ran] at answered
                  exact answered.line (.refl last)
          · next numbered parsed =>
              rw [parsed] at read
              rcases numbered.answers_run source with
                ⟨opened, task, begins, continues, numbers⟩ | continues
              · exact .inl ⟨opened, task, .line scanned parsed begins, continues,
                  Nat.le_trans read.numbers numbers⟩
              · exact .inr (read.trans continues)
      · exact .inr (continues_reject _ _)

end Session
end Lox
