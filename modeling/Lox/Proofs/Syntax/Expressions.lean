import Lox.Proofs.Syntax.Lockstep

/-! Sources that are one expression. Read as a program, such a source is an expression statement
without its semicolon: no word that an expression starts with is that of another statement, and a
`fun` before a parenthesis declares nothing. Between the keyword and a semicolon, it is the
statement that prints its value.
-/

namespace Lox

open Reader Lox.Parser Grammar

-----------------------------------------------------------------------------------------
-- No expression is a program
-----------------------------------------------------------------------------------------

/-- A declaration that is an expression fails at the end, where its semicolon is missing. -/
theorem Parser.leads_declaring_of_expression {budget : Nat} {tokens : List Token} {tree : Expr}
    (derived : Derives .nearest .expression tokens tree []) (enough : Lasting 19 tokens budget)
    : Leads (declaring budget) tokens (fun _ : Unit => Reader.fail .expressionEnd) []
        fun _ => True := by
  obtain ⟨budget, rfl⟩ : ∃ less, budget = less + 2 := ⟨budget - 2, by omega⟩
  have starts : Opens ExpressionWord tokens := derived.starts
  have value := (Reads.of_derives derived).read budget .nil
    (by simp only [Lasts, List.length_nil]; omega)
  refine leads_statement (starts.mono fun _ => .expression) ?_
  refine leads_expressionStatement starts ?_
  unfold expressionStatement
  exact .bind value fun _ _ _ first => ⟨(), first, trivial, rfl⟩

/-- What is read as one expression has one error as a program: the semicolon is missing at the
end.
-/
theorem Program.parse_of_expression {tokens : List Token} {stop : Token} {first next : Nat}
    {expr : Expr} (read : Expr.parse? tokens stop first = (some expr, next)) (stopOther : Token)
    (firstOther : Nat)
    : (Program.parse tokens stopOther firstOther).1 = .error [⟨stopOther, .expressionEnd⟩] := by
  have derived := Expr.derives_of_parse? .nearest read
  have enough : Lasting 19 tokens (32 * tokens.length + 30) := by simp only [Lasting]; omega
  obtain ⟨_, last, _, ran⟩ := leads_declaring_of_expression derived enough stopOther firstOther
  obtain ⟨token, more, rfl, _⟩ := derived.starts
  have fails
      : declarations (32 * (token :: more).length + 32) ⟨token :: more, stopOther, firstOther⟩
        = ([], [⟨stopOther, .expressionEnd⟩], ⟨[], stopOther, last⟩) := by
    rw [declarations, if_neg (by simp), declaration_eq]
    simp only [synchronized, ran, Reader.fail, Cursor.synchronize]
    rfl
  simp only [Program.parse, Parser.budget, Nat.mul_add, Nat.mul_one, fails]
  rfl

-----------------------------------------------------------------------------------------
-- Printing an expression
-----------------------------------------------------------------------------------------

/-- A declaration that starts with the keyword is a statement that prints. -/
theorem Parser.declaring_print (budget : Nat) {keyword : Token}
    (kind : keyword.kind = .keyword .print) (more : List Token) (stop : Token) (id : Nat)
    : declaring (budget + 1) ⟨keyword :: more, stop, id⟩
      = printStatement budget keyword ⟨more, stop, id⟩ := by
  obtain ⟨_, lexeme, line⟩ := keyword
  cases kind
  rw [declaring]
  rfl

/-- What is read as one expression is read as the same expression before a semicolon. -/
theorem Parser.expression_before_semicolon {tokens : List Token} {stop : Token} {first next : Nat}
    {expr : Expr} (read : Expr.parse? tokens stop first = (some expr, next)) {semicolon : Token}
    (kind : semicolon.kind = .mark .semicolon) (stopOther : Token) {budget : Nat}
    (enough : Lasting 17 tokens budget)
    : expression budget ⟨tokens ++ [semicolon], stopOther, first⟩
      = .ok expr ⟨[semicolon], stopOther, next⟩ := by
  let pairing : Pairing := ⟨stop, [semicolon], stopOther, id, first, fun _ _ => rfl⟩
  have apart : pairing.Apart tokens := by
    rintro token _ _ other ⟨⟩ identifier
    cases kind.symm.trans identifier
  have follows := tracks_expression pairing (Parser.budget ⟨tokens, stop, first⟩) budget tokens
    (by simp only [Lasting, Parser.budget]; omega) enough apart first (Nat.le_refl _)
  unfold Expr.parse? at read
  dsimp only at read
  split at read
  · next found after ran =>
      split at read
      · next ended =>
          cases read
          simp only [Pairing.one, pairing, ran] at follows
          obtain ⟨left, last, _, _, rfl, other⟩ := follows
          cases List.isEmpty_iff.1 ended
          rw [Expr.renumber_id] at other
          exact other (.inr (.inr ⟨rfl, ⟨_, _, rfl, kind⟩⟩))
      · cases read
  · cases read

/-- What is read as one expression is a program that prints it, with the keyword before it and a
semicolon behind it.
-/
theorem Program.parse_print {tokens : List Token} {stop : Token} {first next : Nat} {expr : Expr}
    (read : Expr.parse? tokens stop first = (some expr, next)) {keyword semicolon : Token}
    (kind : keyword.kind = .keyword .print) (ends : semicolon.kind = .mark .semicolon)
    (stopOther : Token)
    : Program.parse (keyword :: tokens ++ [semicolon]) stopOther first
      = (.ok [.print keyword expr], next) := by
  have value : Parser.expression (32 * tokens.length + 92) ⟨tokens ++ [semicolon], stopOther, first⟩
      = .ok expr ⟨[semicolon], stopOther, next⟩ :=
    Parser.expression_before_semicolon read ends stopOther (by omega)
  have printed
      : Parser.printStatement (32 * tokens.length + 93) keyword
          ⟨tokens ++ [semicolon], stopOther, first⟩
        = .ok (.print keyword expr) ⟨[], stopOther, next⟩ := by
    have last := (semicolon.isMark_iff .semicolon).2 ends
    simp only [printStatement, Bind.bind, EStateM.bind, value, expectMark, expect, last, if_true]
    rfl
  have read
      : declaration (32 * tokens.length + 95) ⟨keyword :: (tokens ++ [semicolon]), stopOther, first⟩
        = .ok (.print keyword expr) ⟨[], stopOther, next⟩ := by
    rw [declaration_eq, synchronized, Parser.declaring_print _ kind, printed]
  have all
      : declarations (32 * tokens.length + 96)
          ⟨keyword :: (tokens ++ [semicolon]), stopOther, first⟩
        = ([.print keyword expr], [], ⟨[], stopOther, next⟩) := by
    rw [declarations, if_neg (by simp), read]
    rfl
  have enough : Parser.budget ⟨keyword :: (tokens ++ [semicolon]), stopOther, first⟩
      = 32 * tokens.length + 96 := by
    simp only [Parser.budget, List.length_cons, List.length_append, List.length_nil]
    omega
  simp only [Program.parse, List.cons_append, enough, all]
  rfl

end Lox
