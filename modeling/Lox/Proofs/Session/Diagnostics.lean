import Lox.Proofs.Scanning.Steps
import Lox.Proofs.Session.Outcomes

/-! What requests tell. A static error is told with all others of its stage and changes nothing
else, so that nothing of the source has been run. A program that has been run tells of divisions by
zero and, if it is interrupted by a fault, of the fault after these.
-/

namespace Lox

-----------------------------------------------------------------------------------------
-- Errors of the stages
-----------------------------------------------------------------------------------------

/-- Texts differ if they begin with different characters. -/
theorem append_ne_of_head? {first other : String} (some : first.toList ≠ [])
    (apart : first.toList.head? ≠ other.toList.head?) (rest : String)
    : first ++ rest ≠ other := by
  rintro rfl
  rw [String.toList_append, List.head?_append_of_ne_nil _ some] at apart
  exact apart rfl

/-- The message of a fault does not begin like the one about a division by zero. -/
theorem FaultCause.message_ne (cause : FaultCause)
    : cause.message ≠ "Division by zero; result is 0." := by
  cases cause with
  | undefinedVariable name =>
      change "Undefined variable '" ++ name ++ "'." ≠ _
      rw [String.append_assoc]
      exact append_ne_of_head? (by decide) (by decide) _
  | uninitializedVariable name =>
      change "Uninitialized variable '" ++ name ++ "'." ≠ _
      rw [String.append_assoc]
      exact append_ne_of_head? (by decide) (by decide) _
  | undefinedProperty name =>
      change "Undefined property '" ++ name ++ "'." ≠ _
      rw [String.append_assoc]
      exact append_ne_of_head? (by decide) (by decide) _
  | argumentCount expected given =>
      change "Expected " ++ toString expected ++ " arguments but got " ++ toString given ++ "." ≠ _
      simp only [String.append_assoc]
      exact append_ne_of_head? (by decide) (by decide) _
  | output error =>
      change "Failed to write output: " ++ error.message ≠ _
      exact append_ne_of_head? (by decide) (by decide) _
  | operandNotNumber | operandsNotNumbers | operandsNotAddable | unknownUnary | unknownBinary
  | notCallable | stackOverflow | noProperties | noFields | superclassNotClass | superNotClass
  | superUnresolved => decide

/-- A fault is not told like a division by zero. -/
theorem Fault.not_ofDivision (fault : Fault) : ¬ fault.diagnostic.OfDivision := by
  rintro ⟨operator, same⟩
  exact fault.cause.message_ne (congrArg Diagnostic.message same)

theorem Program.ne_nil_of_parse {tokens : List Token} {stop : Token} {firstId last : Nat}
    {errors : List SyntaxError} (failed : Program.parse tokens stop firstId = (.error errors, last))
    : errors ≠ [] := by
  rcases read : Parser.declarations (Parser.budget ⟨tokens, stop, firstId⟩) ⟨tokens, stop, firstId⟩
    with ⟨program, told, after⟩
  simp only [Program.parse, read, Prod.mk.injEq] at failed
  obtain ⟨failed, _⟩ := failed
  split at failed
  · cases failed
  · next some =>
      cases failed
      simpa using some

theorem Analysis.ne_nil_of_result {analysis : Analysis} {errors : List ScopeError}
    (failed : analysis.result = .error errors)
    : errors ≠ [] := by
  unfold result at failed
  split at failed
  · cases failed
  · next some =>
      cases failed
      simpa using some

namespace Session

-----------------------------------------------------------------------------------------
-- Sources that are refused
-----------------------------------------------------------------------------------------

/-- Diagnostics are told in order and nothing else has happened in a session, but for the numbers
that occurrences have got.
-/
structure Rejects (session : Session) (diagnostics : List Diagnostic) (after : Session) : Prop where
  config : after.config = session.config
  distances : after.distances = session.distances
  machine
    : after.machine
      = { session.machine with
          reports :=
            session.machine.reports
            ++ (diagnostics.map fun diagnostic =>
                Report.mk diagnostic session.machine.sink.size).toArray }

/-- The errors of the first stage that refuses a source as a program, in order. -/
inductive Refuses (session : Session) (source : String) : List Diagnostic → Prop
  | scanned (failed : (Scan.ofText source).errors ≠ [])
    : Refuses session source ((Scan.ofText source).errors.map LexicalError.diagnostic)
  | parsed {errors numbered} (scanned : (Scan.ofText source).errors = [])
    (failed : session.parseProgram (.ofText source) = (.error errors, numbered))
    : Refuses session source (errors.map SyntaxError.diagnostic)
  | resolved {errors numbered} {program : Program} (scanned : (Scan.ofText source).errors = [])
    (parsed : session.parseProgram (.ofText source) = (.ok program, numbered))
    (failed : program.resolve session.config.reportUnused = .error errors)
    : Refuses session source (errors.map ScopeError.diagnostic)

variable {session numbered opened after : Session} {source : String}
  {diagnostics : List Diagnostic}

theorem ne_nil_of_resolve {program : Program} {unused : Bool} {errors : List ScopeError}
    (failed : program.resolve unused = .error errors)
    : errors ≠ [] :=
  Analysis.ne_nil_of_result failed

theorem ne_nil_of_parseProgram {errors : List SyntaxError}
    (failed : session.parseProgram (.ofText source) = (.error errors, numbered))
    : errors ≠ [] :=
  Program.ne_nil_of_parse (Prod.ext (Prod.mk.inj failed).1 rfl)

/-- A source is refused for some error. -/
theorem Refuses.ne_nil (h : session.Refuses source diagnostics) : diagnostics ≠ [] := by
  rw [Ne, ← List.length_eq_zero_iff]
  cases h with
  | scanned failed => simpa using failed
  | parsed _ failed => simpa using ne_nil_of_parseProgram failed
  | resolved _ _ failed => simpa using ne_nil_of_resolve failed

/-- All diagnostics of a rejection are told, by induction over them. -/
theorem rejects_reject (session : Session) (diagnostics : List Diagnostic)
    : session.Rejects diagnostics (session.reject diagnostics).2 := by
  unfold reject reportAll
  dsimp only
  induction diagnostics generalizing session with
  | nil => exact ⟨rfl, rfl, by simp⟩
  | cons first rest ih =>
      obtain ⟨config, distances, machine⟩ := ih (session.report first)
      refine ⟨config, distances, machine.trans ?_⟩
      simp [report]

/-- Reading a source leaves the settings of a session alone. -/
theorem config_of_parseProgram {scan : Scan} {result : Except (List SyntaxError) Program}
    (read : session.parseProgram scan = (result, numbered))
    : numbered.config = session.config := by
  obtain ⟨_, rfl⟩ := Prod.mk.inj read
  rfl

/-- Reading a source does not matter to a rejection. -/
theorem Rejects.of_parseProgram {scan : Scan} {result : Except (List SyntaxError) Program}
    (read : session.parseProgram scan = (result, numbered))
    (h : numbered.Rejects diagnostics after)
    : session.Rejects diagnostics after := by
  obtain ⟨_, rfl⟩ := Prod.mk.inj read
  exact ⟨h.config, h.distances, h.machine⟩

theorem Rejects.of_parseExpression {scan : Scan} {result : Option Expr}
    (read : session.parseExpression scan = (result, numbered))
    (h : numbered.Rejects diagnostics after)
    : session.Rejects diagnostics after := by
  obtain ⟨_, rfl⟩ := Prod.mk.inj read
  exact ⟨h.config, h.distances, h.machine⟩

/-- The run of a source with an error in some stage tells the errors of this stage. -/
theorem run_of_refuses (h : session.Refuses source diagnostics)
    : (session.run source).1 = .staticError
      ∧ session.Rejects diagnostics (session.run source).2 := by
  unfold run runScan
  cases h with
  | scanned failed =>
      rw [if_neg (by simpa using failed)]
      exact ⟨rfl, session.rejects_reject _⟩
  | @parsed errors numbered scanned failed =>
      rw [if_pos (by simp [scanned]), failed]
      exact ⟨rfl, .of_parseProgram failed (numbered.rejects_reject _)⟩
  | @resolved errors numbered program scanned parsed failed =>
      rw [if_pos (by simp [scanned]), parsed]
      dsimp only
      unfold runProgram
      rw [config_of_parseProgram parsed, failed]
      exact ⟨rfl, .of_parseProgram parsed (numbered.rejects_reject _)⟩

-----------------------------------------------------------------------------------------
-- Sources that are run
-----------------------------------------------------------------------------------------

/-- The status after an evaluation and the session that has told of its fault. -/
def conclude {α : Type} (session : Session) : Ending α → Status × Session
  | .ok _ after => (.ok, { session with machine := after })
  | .error interruption after => { session with machine := after }.interrupt interruption

theorem runProgram_eq_conclude {program : Program} {distances : Distances}
    (resolved : program.resolve session.config.reportUnused = .ok distances)
    : session.runProgram program
      = (session.learn distances).conclude
          ((session.learn distances).moment (.executeAll program)).ending := by
  cases ended : ((session.learn distances).moment (.executeAll program)).ending with
  | ok flow after => exact runProgram_of_ok resolved ended
  | error interruption after => exact runProgram_of_error resolved ended

/-- A source is refused, or it is evaluated and its ending is told. -/
theorem refuses_or_concludes (session : Session) (source : String)
    : (∃ diagnostics, session.Refuses source diagnostics)
      ∨ ∃ opened program,
          session.Begins (.run source) opened (.executeAll program)
          ∧ session.run source
            = opened.conclude (opened.moment (.executeAll program)).ending := by
  unfold run runScan
  split
  · next scanned =>
      have scanned := List.isEmpty_iff.1 scanned
      split
      · next errors numbered failed =>
          exact .inl ⟨_, .parsed scanned failed⟩
      · next program numbered parsed =>
          have same := config_of_parseProgram parsed
          cases resolved : program.resolve numbered.config.reportUnused with
          | ok distances =>
              exact .inr ⟨_, program, .run scanned parsed (same ▸ resolved),
                runProgram_eq_conclude resolved⟩
          | error errors => exact .inl ⟨_, .resolved scanned parsed (same ▸ resolved)⟩
  · next failed =>
      exact .inl ⟨_, .scanned (by simpa using failed)⟩

theorem interrupt_ne_staticError (interruption : Interruption)
    : (session.interrupt interruption).1 ≠ .staticError := by
  cases interruption <;> exact nofun

/-- An evaluation does not end with a static error. -/
theorem conclude_ne_staticError {α : Type} (ending : Ending α)
    : (session.conclude ending).1 ≠ .staticError := by
  cases ending with
  | ok value after => exact nofun
  | error interruption after => exact interrupt_ne_staticError interruption

theorem echo_ne_staticError (value : Value) : (session.echo value).1 ≠ .staticError := by
  unfold echo
  split
  · exact nofun
  · exact nofun
  · exact interrupt_ne_staticError _

/-- What an evaluation tells by itself are divisions by zero. -/
theorem exists_tells {request : Request} {task : Task}
    (begins : session.Begins request opened task)
    : ∃ divisions,
        session.machine.Tells divisions (opened.moment task).ending.machine
        ∧ ∀ diagnostic ∈ divisions, diagnostic.OfDivision := by
  have ran : opened.machine.Proceeds _ := (opened.moment task).ending_proceeds
  rw [begins.opens.machine] at ran
  exact ran.tells

-----------------------------------------------------------------------------------------
-- Expressions that are refused
-----------------------------------------------------------------------------------------

/-- A static error of an expression is one of scoping. -/
theorem rejects_evaluateExpr {expr : Expr}
    (ended : session.evaluateExpr expr = (.error .staticError, after))
    : ∃ diagnostics, diagnostics ≠ [] ∧ session.Rejects diagnostics after := by
  unfold evaluateExpr at ended
  cases resolved : expr.resolve with
  | error errors =>
      rw [resolved] at ended
      cases ended
      refine ⟨errors.map ScopeError.diagnostic, ?_, session.rejects_reject _⟩
      simpa using Analysis.ne_nil_of_result resolved
  | ok distances =>
      rw [resolved] at ended
      dsimp only at ended
      rw [performResolved_eq] at ended
      unfold leave at ended
      cases ran : ((session.learn distances).moment (.evaluate expr)).ending with
      | ok value left =>
          rw [ran] at ended
          cases ended
      | error interruption left =>
          rw [ran] at ended
          have status := Except.error.inj (Prod.mk.inj ended).1
          exact absurd status (interrupt_ne_staticError interruption)

/-- Where a source is no expression, there is something to tell. -/
theorem rejects_rejectExpression (session : Session) (source : String)
    : ∃ diagnostics,
        diagnostics ≠ []
        ∧ session.Rejects diagnostics (session.rejectExpression (.ofText source)).2 := by
  unfold rejectExpression
  split
  · next errors numbered failed =>
      refine ⟨errors.map SyntaxError.diagnostic, ?_,
        .of_parseProgram failed (numbered.rejects_reject _)⟩
      simpa using ne_nil_of_parseProgram failed
  · next program numbered parsed =>
      exact ⟨[_], List.cons_ne_nil _ _, .of_parseProgram parsed (numbered.rejects_reject _)⟩

theorem rejects_evaluate (ended : session.evaluate source = (.error .staticError, after))
    : ∃ diagnostics, diagnostics ≠ [] ∧ session.Rejects diagnostics after := by
  unfold evaluate at ended
  dsimp only at ended
  split at ended
  · split at ended
    · next expr numbered parsed =>
        obtain ⟨diagnostics, some, rejects⟩ := rejects_evaluateExpr ended
        exact ⟨diagnostics, some, .of_parseExpression parsed rejects⟩
    · next numbered parsed =>
        obtain ⟨_, rfl⟩ := Prod.mk.inj ended
        obtain ⟨diagnostics, some, rejects⟩ := numbered.rejects_rejectExpression source
        exact ⟨diagnostics, some, .of_parseExpression parsed rejects⟩
  · next failed =>
      cases ended
      have refuses : session.Refuses source _ := .scanned (by simpa using failed)
      exact ⟨_, refuses.ne_nil, session.rejects_reject _⟩

/-- A program that ends with a static error has been refused. -/
theorem rejects_run (ended : session.run source = (.staticError, after))
    : ∃ diagnostics, session.Refuses source diagnostics ∧ session.Rejects diagnostics after := by
  rcases session.refuses_or_concludes source with
    ⟨diagnostics, refuses⟩ | ⟨opened, program, begins, ran⟩
  · have rejects := (run_of_refuses refuses).2
    rw [ended] at rejects
    exact ⟨diagnostics, refuses, rejects⟩
  · have status
        : (opened.conclude (opened.moment (.executeAll program)).ending).1 ≠ .staticError :=
      conclude_ne_staticError _
    rw [← ran, ended] at status
    exact absurd rfl status

theorem rejects_runLine (ended : session.runLine source = (.staticError, after))
    : ∃ diagnostics, diagnostics ≠ [] ∧ session.Rejects diagnostics after := by
  unfold runLine at ended
  dsimp only at ended
  split at ended
  · split at ended
    · next expr numbered parsed =>
        split at ended
        · next value last ran =>
            exact absurd (Prod.mk.inj ended).1 (echo_ne_staticError value)
        · next status last ran =>
            cases ended
            obtain ⟨diagnostics, some, rejects⟩ := rejects_evaluateExpr ran
            exact ⟨diagnostics, some, .of_parseExpression parsed rejects⟩
    · next numbered parsed =>
        obtain ⟨diagnostics, refuses, rejects⟩ := rejects_run ended
        exact ⟨diagnostics, refuses.ne_nil, .of_parseExpression parsed rejects⟩
  · next failed =>
      cases ended
      have refuses : session.Refuses source _ := .scanned (by simpa using failed)
      exact ⟨_, refuses.ne_nil, session.rejects_reject _⟩

-----------------------------------------------------------------------------------------
-- All that a request tells
-----------------------------------------------------------------------------------------

/-- A program ends with a static error just if some stage refuses it. A request that ends so tells
some diagnostics, which for a program are all of the first stage that has any, and leaves the
output, the tables, the instances and the distances of the session as they were. A program that is
interrupted by a fault tells the fault once, after divisions by zero. One that ends well tells of
these only.
-/
theorem diagnostics_of_requests (session : Session) (source : String)
    : ((session.run source).1 = .staticError ↔ ∃ diagnostics, session.Refuses source diagnostics)
      ∧ (∀ after,
          session.run source = (.staticError, after)
          → ∃ diagnostics,
              diagnostics ≠ []
              ∧ session.Refuses source diagnostics
              ∧ session.Rejects diagnostics after)
      ∧ (∀ after,
          session.runLine source = (.staticError, after)
          → ∃ diagnostics, diagnostics ≠ [] ∧ session.Rejects diagnostics after)
      ∧ (∀ after,
          session.evaluate source = (.error .staticError, after)
          → ∃ diagnostics, diagnostics ≠ [] ∧ session.Rejects diagnostics after)
      ∧ (∀ after,
          session.run source = (.runtimeError, after)
          → ∃ opened program fault left divisions,
              session.Begins (.run source) opened (.executeAll program)
              ∧ (opened.moment (.executeAll program)).ending = .error (.fault fault) left
              ∧ session.machine.Tells (divisions ++ [fault.diagnostic]) after.machine
              ∧ (∀ diagnostic ∈ divisions, diagnostic.OfDivision)
              ∧ ¬ fault.diagnostic.OfDivision)
      ∧ ∀ after,
          session.run source = (.ok, after)
          → ∃ divisions,
              session.machine.Tells divisions after.machine
              ∧ ∀ diagnostic ∈ divisions, diagnostic.OfDivision := by
  refine ⟨⟨?_, ?_⟩, ?_, fun after => rejects_runLine, fun after => rejects_evaluate, ?_, ?_⟩
  · intro status
    obtain ⟨diagnostics, refuses, _⟩ := rejects_run (Prod.ext status rfl)
    exact ⟨diagnostics, refuses⟩
  · rintro ⟨diagnostics, refuses⟩
    exact (run_of_refuses refuses).1
  · intro after ended
    obtain ⟨diagnostics, refuses, rejects⟩ := rejects_run ended
    exact ⟨diagnostics, refuses.ne_nil, refuses, rejects⟩
  · intro after ended
    rcases session.refuses_or_concludes source with
      ⟨_, refuses⟩ | ⟨opened, program, begins, ran⟩
    · have status := (run_of_refuses refuses).1
      rw [ended] at status
      cases status
    · obtain ⟨divisions, tells, all⟩ := exists_tells begins
      rw [ended] at ran
      cases last : (opened.moment (.executeAll program)).ending with
      | ok flow left =>
          rw [last] at ran
          cases ran
      | error interruption left =>
          rw [last] at ran tells
          cases interruption with
          | beyondChain => cases ran
          | budget => cases ran
          | fault fault =>
              cases ran
              refine ⟨opened, program, fault, left, divisions, begins, last, ?_, all,
                fault.not_ofDivision⟩
              exact tells.trans ⟨[_], Array.toList_push, rfl⟩
  · intro after ended
    rcases session.refuses_or_concludes source with
      ⟨_, refuses⟩ | ⟨opened, program, begins, ran⟩
    · have status := (run_of_refuses refuses).1
      rw [ended] at status
      cases status
    · obtain ⟨divisions, tells, all⟩ := exists_tells begins
      rw [ended] at ran
      cases last : (opened.moment (.executeAll program)).ending with
      | ok flow left =>
          rw [last] at ran tells
          cases ran
          exact ⟨divisions, tells, all⟩
      | error interruption left =>
          rw [last] at ran
          cases interruption <;> cases ran

/-- A name without a semicolon is refused as a program. As a statement it is run, and only the fault
is told.
-/
theorem diagnostics_of_unknown_name
    : (∃ after diagnostics,
        (start ⟨false, 255, 20⟩ .unlimited fun _ => 0).run "a" = (.staticError, after)
        ∧ diagnostics ≠ []
        ∧ (start ⟨false, 255, 20⟩ .unlimited fun _ => 0).Refuses "a" diagnostics
        ∧ (start ⟨false, 255, 20⟩ .unlimited fun _ => 0).Rejects diagnostics after)
      ∧ ∃ after fault divisions,
          (start ⟨false, 255, 20⟩ .unlimited fun _ => 0).run "a;" = (.runtimeError, after)
          ∧ (start ⟨false, 255, 20⟩ .unlimited fun _ => 0).machine.Tells
              (divisions ++ [Fault.diagnostic fault]) after.machine
          ∧ (∀ diagnostic ∈ divisions, diagnostic.OfDivision)
          ∧ ¬ fault.diagnostic.OfDivision := by
  let session := start ⟨false, 255, 20⟩ .unlimited fun _ => 0
  have scan : Scan.ofText "a" = ⟨[.token ⟨.identifier, "a", 1⟩], Token.endOfInput 1⟩ := by
    rw [Scan.ofText_eq]
    rfl
  have scanStatement
      : Scan.ofText "a;"
        = ⟨[.token ⟨.identifier, "a", 1⟩, .token ⟨.mark .semicolon, ";", 1⟩],
          Token.endOfInput 1⟩ := by
    rw [Scan.ofText_eq]
    rfl
  have refused : (session.run "a").1 = .staticError := by
    unfold run
    rw [scan]
    rfl
  have interrupted : (session.run "a;").1 = .runtimeError := by
    unfold run
    rw [scanStatement]
    rfl
  have ended : session.run "a" = (.staticError, (session.run "a").2) := Prod.ext refused rfl
  have faulted : session.run "a;" = (.runtimeError, (session.run "a;").2) :=
    Prod.ext interrupted rfl
  obtain ⟨diagnostics, some, refuses, rejects⟩ := (diagnostics_of_requests session _).2.1 _ ended
  obtain ⟨_, _, fault, _, divisions, _, _, tells, all, other⟩ :=
    (diagnostics_of_requests session _).2.2.2.2.1 _ faulted
  exact ⟨⟨_, diagnostics, ended, some, refuses, rejects⟩, _, fault, divisions, faulted, tells, all,
    other⟩

end Session
end Lox
