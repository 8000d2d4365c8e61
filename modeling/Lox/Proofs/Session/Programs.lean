import Lox.Proofs.Session.Diagnostics
import Lox.Proofs.Session.Renumbering
import Lox.Proofs.Syntax.Expressions

/-! Sources that are programs. No source is both an expression and a program, so a line that is a
program is run as one, and its evaluation is refused.
-/

namespace Lox

/-- What is read as a program is no expression. -/
theorem Expr.parse?_of_program {tokens : List Token} {stop : Token} {first last : Nat}
    {program : Program} (parsed : Program.parse tokens stop first = (.ok program, last))
    (stopOther : Token) (firstOther : Nat)
    : (Expr.parse? tokens stopOther firstOther).1 = none := by
  cases read : (Expr.parse? tokens stopOther firstOther).1 with
  | none => rfl
  | some expr =>
      have fails := Program.parse_of_expression (Prod.ext read rfl) stop first
      rw [parsed] at fails
      cases fails

/-- Whether a source can be read as a program does not depend on the numbers that are taken. -/
theorem Program.exists_parse_of_parse {tokens : List Token} {stop : Token} {first last : Nat}
    {program : Program} (parsed : Program.parse tokens stop first = (.ok program, last))
    (other : Nat)
    : ∃ numbered next, Program.parse tokens stop other = (.ok numbered, next) := by
  have none : Program.syntaxErrors tokens stop other = Program.syntaxErrors tokens stop first := by
    rw [Program.syntaxErrors_eq]
    exact Program.syntaxErrors_eq_of_lasting (by simp only [Parser.budget]; omega) stop other first
  rcases read : Program.parse tokens stop other with ⟨numbered | numbered, next⟩
  · simp only [Program.syntaxErrors, parsed, read] at none
    exact absurd none (Program.ne_nil_of_parse read)
  · exact ⟨numbered, next, rfl⟩

namespace Session

variable {session numbered : Session} {source : String} {program : Program}

/-- Read as an expression, a program only takes numbers. -/
theorem parseExpression_of_program
    (parsed : session.parseProgram (.ofText source) = (.ok program, numbered))
    : ∃ next,
        session.nextId ≤ next
        ∧ session.parseExpression (.ofText source) = (none, { session with nextId := next }) := by
  have program : Program.parse _ _ session.nextId = (.ok program, _) :=
    Prod.ext (Prod.mk.inj parsed).1 rfl
  exact ⟨_, (Expr.parse?_numbered source session.nextId).1,
    Prod.ext (Expr.parse?_of_program program _ _) rfl⟩

/-- A line that is a program is run, behind the numbers that the attempt at an expression takes. -/
theorem runLine_of_program (scanned : (Scan.ofText source).errors = [])
    (parsed : session.parseProgram (.ofText source) = (.ok program, numbered))
    : ∃ next,
        session.nextId ≤ next
        ∧ session.runLine source = { session with nextId := next }.run source := by
  obtain ⟨next, later, read⟩ := parseExpression_of_program parsed
  refine ⟨next, later, ?_⟩
  simp only [runLine, scanned, List.isEmpty_nil, if_true, read]

/-- In a session whose code has numbers that have been given, running a line that is a program and
running the program differ in numbers only, and so does all that is asked for later.
-/
theorem Counted.runLine_of_program (h : session.Counted)
    (scanned : (Scan.ofText source).errors = [])
    (parsed : session.parseProgram (.ofText source) = (.ok program, numbered))
    : ∃ number,
        Renumbering number session.nextId
        ∧ (∀ id < session.nextId, number id = id)
        ∧ (session.runLine source).1 = (session.run source).1
        ∧ ∀ requests,
            (session.runLine source).2.takeAll requests
            = ((session.run source).2.takeAll requests).renumber number := by
  obtain ⟨next, later, line⟩ := Session.runLine_of_program scanned parsed
  have renumbering := renumbering_skipping session.nextId next
  rw [h.skip later, run_renumber renumbering] at line
  rw [line]
  exact ⟨_, renumbering, fun id below => if_pos below, rfl,
    takeAll_renumber (renumbering.later (session.nextId_le_take (.run source)))⟩

/-- The evaluation of a program tells that it is no expression. -/
theorem evaluate_of_program (scanned : (Scan.ofText source).errors = [])
    (parsed : session.parseProgram (.ofText source) = (.ok program, numbered))
    : (session.evaluate source).1 = .error .staticError
      ∧ session.Rejects [SyntaxError.diagnostic ⟨(Scan.ofText source).first, .expression⟩]
          (session.evaluate source).2 := by
  obtain ⟨next, _, read⟩ := parseExpression_of_program parsed
  have ok : Program.parse _ _ session.nextId = (.ok program, _) :=
    Prod.ext (Prod.mk.inj parsed).1 rfl
  obtain ⟨again, last, ok⟩ := Program.exists_parse_of_parse ok next
  have reads
      : { session with nextId := next }.parseProgram (.ofText source)
        = (.ok again, { session with nextId := last }) := by
    simp only [parseProgram, ok]
  simp only [evaluate, scanned, List.isEmpty_nil, if_true, read, rejectExpression, reads]
  exact ⟨rfl, .of_parseExpression read (.of_parseProgram reads (rejects_reject _ _))⟩

/-- What is read as an expression is no program, whatever the end is like and whichever numbers are
taken. Hence a line that is a program is run, behind the numbers that the attempt at an expression
takes, and its evaluation tells in one diagnostic that it is no expression. However a session has
been reached, these numbers are all that tells a line from a run, now and later.
-/
theorem programs_are_not_echoed
    : (∀ tokens stop first expr,
        (Expr.parse? tokens stop first).1 = some expr
        → ∀ stopOther firstOther,
            ∃ errors, (Program.parse tokens stopOther firstOther).1 = .error errors)
      ∧ ∀ (session : Session) (source : String) (program : Program),
          (Scan.ofText source).errors = []
          → (session.parseProgram (.ofText source)).1 = .ok program
          → (∃ next,
              session.nextId ≤ next
              ∧ session.runLine source = { session with nextId := next }.run source)
            ∧ (∀ config sink clock requests,
                session = (start config sink clock).takeAll requests
                → ∃ number,
                    Renumbering number session.nextId
                    ∧ (∀ id < session.nextId, number id = id)
                    ∧ (session.runLine source).1 = (session.run source).1
                    ∧ ∀ more,
                        (session.runLine source).2.takeAll more
                        = ((session.run source).2.takeAll more).renumber number)
            ∧ (session.evaluate source).1 = .error .staticError
            ∧ session.Rejects [SyntaxError.diagnostic ⟨(Scan.ofText source).first, .expression⟩]
                (session.evaluate source).2 := by
  constructor
  · intro tokens stop first expr read stopOther firstOther
    exact ⟨_, Program.parse_of_expression (Prod.ext read rfl) stopOther firstOther⟩
  · intro session source program scanned parsed
    have parsed : session.parseProgram (.ofText source) = (.ok program, _) := Prod.ext parsed rfl
    refine ⟨runLine_of_program scanned parsed, ?_, evaluate_of_program scanned parsed⟩
    rintro config sink clock requests rfl
    exact (counted_takeAll config sink clock requests).runLine_of_program scanned parsed

theorem ofText_empty : Scan.ofText "" = ⟨[], Token.endOfInput 1⟩ := by
  rw [Scan.ofText_eq]
  rfl

/-- The empty line is a program. -/
theorem empty_is_not_echoed
    : (∃ number,
        Renumbering number 0
        ∧ (∀ id < 0, number id = id)
        ∧ ((start ⟨false, 255, 20⟩ .unlimited fun _ => 0).runLine "").1
          = ((start ⟨false, 255, 20⟩ .unlimited fun _ => 0).run "").1
        ∧ ∀ more,
            ((start ⟨false, 255, 20⟩ .unlimited fun _ => 0).runLine "").2.takeAll more
            = (((start ⟨false, 255, 20⟩ .unlimited fun _ => 0).run "").2.takeAll more).renumber
                number)
      ∧ ((start ⟨false, 255, 20⟩ .unlimited fun _ => 0).evaluate "").1 = .error .staticError := by
  have scanned : (Scan.ofText "").errors = [] := by
    rw [ofText_empty]
    rfl
  have parsed
      : ((start ⟨false, 255, 20⟩ .unlimited fun _ => 0).parseProgram (.ofText "")).1 = .ok [] := by
    rw [ofText_empty]
    rfl
  obtain ⟨_, reached, status, _⟩ := programs_are_not_echoed.2 _ "" [] scanned parsed
  exact ⟨reached _ _ _ [] rfl, status⟩

end Session
end Lox
