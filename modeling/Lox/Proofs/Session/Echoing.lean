import Lox.Proofs.Evaluation.Printing
import Lox.Proofs.Scanning.Printing
import Lox.Proofs.Session.Pieces
import Lox.Proofs.Syntax.Expressions

/-! Lines of interactive input. A line that is one expression does what the program does that prints
the value of the expression.
-/

namespace Lox

namespace Session

-----------------------------------------------------------------------------------------
-- Lines that are expressions
-----------------------------------------------------------------------------------------

variable {session numbered : Session} {source : String} {expr : Expr}

/-- The value of an expression is printed. -/
theorem echo_eq (reliable : session.machine.sink.Reliable) (value : Value)
    : session.echo value = (.ok, { session with machine := session.machine.printing value }) := by
  unfold echo
  rw [perform_eq, Step.print_eq reliable]
  rfl

/-- A line that is an expression is evaluated. -/
theorem runLine_of_expr (scanned : (Scan.ofText source).errors = [])
    (parsed : session.parseExpression (.ofText source) = (some expr, numbered))
    : session.runLine source
      = match numbered.evaluateExpr expr with
        | (.ok value, last) => last.echo value
        | (.error status, last) => (status, last) := by
  rcases evaluated : numbered.evaluateExpr expr with ⟨value | status, last⟩
  · simp only [runLine, scanned, List.isEmpty_nil, if_true, parsed, evaluated]
  · simp only [runLine, scanned, List.isEmpty_nil, if_true, parsed, evaluated]

theorem evaluate_of_expr (scanned : (Scan.ofText source).errors = [])
    (parsed : session.parseExpression (.ofText source) = (some expr, numbered))
    : session.evaluate source = numbered.evaluateExpr expr := by
  simp only [evaluate, scanned, List.isEmpty_nil, if_true, parsed]

/-- Reading an expression takes numbers only. -/
theorem exists_parse? {scan : Scan} (parsed : session.parseExpression scan = (some expr, numbered))
    : ∃ next,
        Expr.parse? scan.tokens scan.stop session.nextId = (some expr, next)
        ∧ numbered = { session with nextId := next } := by
  rcases read : Expr.parse? scan.tokens scan.stop session.nextId with ⟨found, next⟩
  simp only [parseExpression, read, Prod.mk.injEq] at parsed
  exact ⟨next, by rw [parsed.1], parsed.2.symm⟩

/-- The source that prints the value of an expression is a program of one statement. -/
theorem run_printing (scanned : (Scan.ofText source).errors = [])
    (parsed : session.parseExpression (.ofText source) = (some expr, numbered))
    : session.run (printing source)
      = numbered.runProgram [.print ⟨.keyword .print, "print", 1⟩ expr] := by
  obtain ⟨next, read, rfl⟩ := exists_parse? parsed
  have program
      : Program.parse (Scan.ofText source).printing.tokens (Scan.ofText source).printing.stop
          session.nextId
        = (.ok [.print ⟨.keyword .print, "print", 1⟩ expr], next) := by
    rw [Scan.tokens_printing]
    exact Program.parse_print read rfl rfl _
  rw [run, Scan.ofText_printing scanned, runScan, Scan.errors_printing, scanned, List.isEmpty_nil,
    if_pos rfl, parseProgram, program]

/-- A program that prints the value of an expression does what a line with the expression does, with
a budget that pays for the statement too.
-/
theorem runProgram_print (lenient : session.config.reportUnused = false)
    (reliable : session.machine.sink.Reliable) (keyword : Token) (budget : Nat)
    : (session.withBudget (budget + 2)).runProgram [.print keyword expr]
      = match (session.withBudget budget).evaluateExpr expr with
        | (.ok value, last) =>
          (.ok, { last with machine := last.machine.printing value }.withBudget (budget + 2))
        | (.error status, last) => (status, last.withBudget (budget + 2)) := by
  have accepts (budget : Nat)
      : Program.resolve [.print keyword expr] (session.withBudget budget).config.reportUnused
        = expr.resolve :=
    congrArg (Program.resolve [.print keyword expr]) lenient
  cases resolved : expr.resolve with
  | error errors =>
      simp only [runProgram, evaluateExpr, accepts, resolved, reject, reportAll_withBudget]
      rfl
  | ok distances =>
      have accepted := (accepts (budget + 2)).trans resolved
      have ran
          : (((session.withBudget (budget + 2)).learn distances).moment
              (.executeAll [.print keyword expr])).ending
            = Ending.andThen
                (((session.withBudget budget).learn distances).moment (.evaluate expr)).ending
                fun value after => .ok .normal (after.printing value) :=
        Task.perform_printing reliable
      unfold evaluateExpr
      rw [resolved]
      dsimp only
      rw [performResolved_eq]
      unfold leave
      let opened := (session.withBudget budget).learn distances
      cases ended : (opened.moment (.evaluate expr)).ending with
      | ok value after =>
          rw [ended] at ran
          rw [runProgram_of_ok accepted ran]
          rfl
      | error interruption after =>
          rw [ended] at ran
          rw [runProgram_of_error accepted ran]
          cases interruption <;> rfl

/-- Evaluation leaves a sink on which writing does not fail. -/
theorem reliable_evaluateExpr (reliable : session.machine.sink.Reliable) {value : Value}
    {last : Session} (ended : session.evaluateExpr expr = (.ok value, last))
    : last.machine.sink.Reliable := by
  unfold evaluateExpr at ended
  split at ended
  · cases ended
  · next distances _ =>
      have proceeds := ((session.learn distances).moment (.evaluate expr)).ending_proceeds
      rw [performResolved_eq] at ended
      unfold leave at ended
      cases ran : ((session.learn distances).moment (.evaluate expr)).ending with
      | ok value after =>
          rw [ran] at ended proceeds
          cases ended
          exact reliable.akin proceeds.sink
      | error interruption after =>
          rw [ran] at ended
          cases ended

/-- A line that is an expression does what its evaluation does and then prints the value, if there
is one.
-/
theorem runLine_eq (reliable : session.machine.sink.Reliable)
    (scanned : (Scan.ofText source).errors = [])
    (parsed : session.parseExpression (.ofText source) = (some expr, numbered))
    : session.runLine source
      = match numbered.evaluateExpr expr with
        | (.ok value, last) => (.ok, { last with machine := last.machine.printing value })
        | (.error status, last) => (status, last) := by
  rw [runLine_of_expr scanned parsed]
  obtain ⟨next, _, rfl⟩ := exists_parse? parsed
  have here : { session with nextId := next }.machine.sink.Reliable := reliable
  split
  · next value last ended => exact echo_eq (reliable_evaluateExpr here ended) value
  · rfl

theorem eq_of_withBudget {other : Session} {budget : Nat} (config : session.config = other.config)
    (same : session.withBudget budget = other.withBudget budget)
    : session = other := by
  cases session
  cases other
  cases config
  cases same
  rfl

/-- A line that is an expression does what the program does that prints the value of the expression:
the status, the output, the diagnostics and the whole state afterwards are the same, on every budget
if that of the program pays for its one statement too. The output is that of the evaluation, and
behind it the text of the value if there is one.
-/
theorem runLine_prints (session : Session) {source : String} {expr : Expr}
    (lenient : session.config.reportUnused = false) (reliable : session.machine.sink.Reliable)
    (scanned : (Scan.ofText source).errors = [])
    (parsed : (session.parseExpression (.ofText source)).1 = some expr)
    : (∀ budget,
        (session.withBudget (budget + 2)).run (printing source)
        = ((session.withBudget budget).runLine source).map id fun after =>
            after.withBudget (budget + 2))
      ∧ (∀ budget,
          ((session.withBudget budget).run (printing source)).1 ≠ .unfinished
          → (session.withBudget budget).run (printing source)
            = (session.withBudget budget).runLine source)
      ∧ ∀ budget value after,
          (session.withBudget budget).evaluate source = (.ok value, after)
          → (session.withBudget budget).runLine source
            = (.ok, { after with machine := after.machine.printing value }) := by
  obtain ⟨next, read, same⟩ := exists_parse? (Prod.ext parsed rfl)
  let numbered : Session := { session with nextId := next }
  have reads (budget : Nat)
      : (session.withBudget budget).parseExpression (.ofText source)
        = (some expr, numbered.withBudget budget) := by
    simp only [parseExpression, withBudget, read]
    rfl
  have line (budget : Nat)
      : (session.withBudget budget).runLine source = _ :=
    runLine_eq reliable scanned (reads budget)
  have prints (budget : Nat)
      : (session.withBudget budget).run (printing source) = _ :=
    run_printing scanned (reads budget)
  have agrees (budget : Nat)
      : (session.withBudget (budget + 2)).run (printing source)
        = ((session.withBudget budget).runLine source).map id fun after =>
            after.withBudget (budget + 2) := by
    have ran :=
      @runProgram_print numbered expr lenient reliable ⟨.keyword .print, "print", 1⟩ budget
    rw [prints, ran, line]
    split <;> rfl
  refine ⟨agrees, ?_, ?_⟩
  · intro budget finishes
    rw [prints] at finishes
    have longer
        : (session.withBudget (budget + 2)).run (printing source)
          = ((numbered.withBudget budget).runProgram
              [.print ⟨.keyword .print, "print", 1⟩ expr]).map id fun after =>
                after.withBudget (budget + 2) :=
      (prints (budget + 2)).trans (runProgram_withBudget (Nat.le_add_right budget 2) finishes)
    rw [agrees, ← prints] at longer
    obtain ⟨status, last⟩ := Prod.mk.inj longer
    refine Prod.ext status.symm (eq_of_withBudget ?_ last).symm
    exact (config_takeAll _ [.line source]).trans
      (config_takeAll _ [.run (printing source)]).symm
  · intro budget value after ended
    rw [evaluate_of_expr scanned (reads budget)] at ended
    rw [line, ended]

/-- A line that calls a function which prints something of its own. -/
def chattyLine : String := "(fun() \x7bprint \"a\";\x7d)()"

theorem ofText_chattyLine
    : Scan.ofText chattyLine
      = ⟨[.token ⟨.mark .leftParen, "(", 1⟩, .token ⟨.keyword .fun, "fun", 1⟩,
          .token ⟨.mark .leftParen, "(", 1⟩, .token ⟨.mark .rightParen, ")", 1⟩,
          .token ⟨.mark .leftBrace, "\x7b", 1⟩, .token ⟨.keyword .print, "print", 1⟩,
          .token ⟨.string "a", "\"a\"", 1⟩, .token ⟨.mark .semicolon, ";", 1⟩,
          .token ⟨.mark .rightBrace, "\x7d", 1⟩, .token ⟨.mark .rightParen, ")", 1⟩,
          .token ⟨.mark .leftParen, "(", 1⟩, .token ⟨.mark .rightParen, ")", 1⟩],
        Token.endOfInput 1⟩ := by
  rw [Scan.ofText_eq]
  rfl

/-- Such a line does what the program does that prints its value. -/
theorem runLine_prints_chattyLine
    : (Scan.ofText chattyLine).errors = []
      ∧ (∃ expr,
          ((start ⟨false, 255, 20⟩ .unlimited fun _ => 0).parseExpression (.ofText chattyLine)).1
          = some expr)
      ∧ (∀ budget,
          ((start ⟨false, 255, 20⟩ .unlimited fun _ => 0).withBudget (budget + 2)).run
            (printing chattyLine)
          = (((start ⟨false, 255, 20⟩ .unlimited fun _ => 0).withBudget budget).runLine
              chattyLine).map id fun after => after.withBudget (budget + 2)) := by
  have scanned : (Scan.ofText chattyLine).errors = [] := by
    rw [ofText_chattyLine]
    rfl
  have parsed
      : ((start ⟨false, 255, 20⟩ .unlimited fun _ => 0).parseExpression
          (.ofText chattyLine)).1.isSome = true := by
    rw [ofText_chattyLine]
    decide +kernel
  obtain ⟨expr, parsed⟩ := Option.isSome_iff_exists.1 parsed
  have reliable : Sink.unlimited.Reliable := Sink.reliable_iff.2 ⟨rfl, rfl⟩
  exact ⟨scanned, ⟨expr, parsed⟩, (runLine_prints _ rfl reliable scanned parsed).1⟩

/-- The output of a line need not be the text of its value alone. -/
theorem runLine_prints_more_than_value
    : ∃ value after,
        (start ⟨false, 255, 20⟩ .unlimited fun _ => 0).evaluate chattyLine = (.ok value, after)
        ∧ value.text after.machine.instances = "null"
        ∧ ((start ⟨false, 255, 20⟩ .unlimited fun _ => 0).runLine
              chattyLine).2.machine.sink.written
          = "a\nnull\n".toUTF8
        ∧ "a\nnull\n".toUTF8 ≠ ("null" ++ "\n").toUTF8 := by
  have text
      : (match (start ⟨false, 255, 20⟩ .unlimited fun _ => 0).evaluate chattyLine with
        | (.ok value, after) => some (value.text after.machine.instances)
        | (.error _, _) => none)
        = some "null" := by
    rw [evaluate, ofText_chattyLine]
    decide +kernel
  split at text
  · next value after ended =>
      refine ⟨value, after, ended, Option.some.inj text, ?_, by decide +kernel⟩
      rw [runLine, ofText_chattyLine]
      decide +kernel
  · cases text

end Session
end Lox
