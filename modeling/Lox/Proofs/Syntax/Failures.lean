import Lox.Proofs.Syntax.Recognition
import Lox.Proofs.Syntax.Recovery

/-! Declarations that fail. A block fails with the error of the first declaration in it that does,
and so does every declaration around it, each of which moves on once more. The declarations of a
source go on where the last of them has moved to.
-/

namespace Lox

open Cursor

-----------------------------------------------------------------------------------------
-- Readers that fail
-----------------------------------------------------------------------------------------

namespace Reader

variable {α β : Type} {reader : Reader α} {ahead rest : List Token} {error : SyntaxError}

/-- On the tokens ahead, the reader fails with the error and leaves the rest. -/
abbrev Fails (reader : Reader α) (ahead rest : List Token) (error : SyntaxError) : Prop :=
  Leads reader ahead (fun _ : Unit => failAt error.token error.cause) rest fun _ => True

namespace Fails

theorem fail {token : Token} {more : List Token} {cause : SyntaxCause}
    : Fails (Reader.fail cause : Reader α) (token :: more) (token :: more) ⟨token, cause⟩ :=
  fun _ first => ⟨(), first, trivial, rfl⟩

/-- Nothing is read after a failure. -/
theorem bind (h : Fails reader ahead rest error) (next : α → Reader β)
    : Fails (reader >>= next) ahead rest error := by
  intro stop first
  rcases h stop first with ⟨_, last, _, ran⟩
  refine ⟨(), last, trivial, ?_⟩
  simp only [Bind.bind, EStateM.bind, ran]
  rfl

theorem map (h : Fails reader ahead rest error) (change : α → β)
    : Fails (change <$> reader) ahead rest error :=
  h.bind _

/-- A declaration that fails is left at a likely statement. -/
theorem synchronized (h : Fails reader ahead rest error)
    : Fails (Reader.synchronized reader) ahead (recovered rest) error := by
  intro stop first
  rcases h stop first with ⟨_, last, _, ran⟩
  refine ⟨(), last, trivial, ?_⟩
  simp only [Reader.synchronized, ran, failAt, synchronize_eq]

end Fails

end Reader

namespace Parser

open Reader Grammar

variable {budget : Nat} {tokens middle rest : List Token} {error : SyntaxError}

-----------------------------------------------------------------------------------------
-- Tokens that nothing starts with
-----------------------------------------------------------------------------------------

/-- A tier fails if the next tighter one does. -/
theorem fails_tier {tier tighter : Tier} (binds : tier.tighter? = some tighter)
    (h : Fails (chain budget tighter) tokens rest error)
    : Fails (chain (budget + 2) tier) tokens rest error := by
  rw [chain]
  apply Fails.bind
  rw [operand, binds]
  exact h

section Nothing

variable {token : Token} {more : List Token}

/-- A token that no declaration starts with is none that something else starts with. -/
theorem misses_of_nothing {kind : TokenKind} (nothing : 3 < opening token.kind)
    (low : opening kind ≤ 3)
    : Misses (·.kind.sameCategory kind) (token :: more) := by
  rintro _ ⟨⟩
  refine Bool.eq_false_iff.2 fun same => ?_
  exact Nat.not_le_of_lt nothing (opening_of_sameCategory same ▸ low)

theorem fails_primary (nothing : 3 < opening token.kind)
    : Fails (primary (budget + 1)) (token :: more) (token :: more) ⟨token, .expression⟩ := by
  unfold primary
  refine .peek? ?_
  dsimp only
  split
  case h_11 => exact Fails.fail
  all_goals
    next kind =>
      rw [kind] at nothing
      simp [opening] at nothing

theorem fails_unary (nothing : 3 < opening token.kind)
    : Fails (unary (budget + 2)) (token :: more) (token :: more) ⟨token, .expression⟩ := by
  have bang : Misses (·.isMark .bang) (token :: more) := misses_of_nothing nothing (by decide)
  have minus : Misses (·.isMark .minus) (token :: more) := misses_of_nothing nothing (by decide)
  rw [unary]
  refine .leave? ?_ (Fails.bind (fails_primary nothing) _)
  rintro _ ⟨⟩
  exact Bool.or_eq_false_iff.2 ⟨bang token rfl, minus token rfl⟩

theorem fails_factor (nothing : 3 < opening token.kind)
    : Fails (chain (budget + 4) .factor) (token :: more) (token :: more) ⟨token, .expression⟩ := by
  rw [chain]
  refine Fails.bind ?_ _
  rw [operand]
  exact fails_unary nothing

theorem fails_expression (nothing : 3 < opening token.kind)
    : Fails (expression (budget + 16)) (token :: more) (token :: more) ⟨token, .expression⟩ := by
  have chain
      : Fails (chain (budget + 14) .or) (token :: more) (token :: more) ⟨token, .expression⟩ :=
    fails_tier rfl (fails_tier rfl (fails_tier rfl (fails_tier rfl (fails_tier rfl
      (fails_factor nothing)))))
  rw [expression]
  refine Fails.bind ?_ _
  rw [conditional]
  exact chain.bind _

theorem fails_statement (nothing : 3 < opening token.kind)
    : Fails (statement (budget + 18)) (token :: more) (token :: more) ⟨token, .expression⟩ := by
  have expressionStatement
      : Fails (expressionStatement (budget + 17)) (token :: more) (token :: more)
          ⟨token, .expression⟩ := by
    rw [expressionStatement]
    exact Fails.bind (fails_expression nothing) _
  unfold statement
  refine .peek? ?_
  dsimp only
  split
  case h_8 => exact expressionStatement
  all_goals
    next kind =>
      rw [kind] at nothing
      simp [opening] at nothing

/-- Where a token stands that no declaration starts with, an expression is missed. -/
theorem fails_declaration (nothing : 3 < opening token.kind) (enough : 19 ≤ budget)
    : Fails (declaration budget) (token :: more) (recovered (token :: more))
        ⟨token, .expression⟩ := by
  obtain ⟨budget, rfl⟩ := Nat.exists_eq_add_of_le' enough
  have «class» : Misses (·.isKeyword .class) (token :: more) :=
    misses_of_nothing nothing (by decide)
  have «fun» : Misses (·.isKeyword .fun) (token :: more) := misses_of_nothing nothing (by decide)
  have var : Misses (·.isKeyword .var) (token :: more) := misses_of_nothing nothing (by decide)
  unfold declaration
  refine Fails.synchronized (.decline «class» (.seesElse ?_ (.decline var ?_)))
  · intro passes
    cases passes.symm.trans («fun» token rfl)
  · exact fails_statement nothing

end Nothing

-----------------------------------------------------------------------------------------
-- Declarations in blocks
-----------------------------------------------------------------------------------------

/-- A declaration that starts with the tokens fails with the error and moves on to the rest. -/
structure Stumbles (tokens rest : List Token) (error : SyntaxError) : Prop where
  shorter : rest.length < tokens.length
  fails
    : ∀ budget,
        32 * tokens.length + 20 ≤ budget → Fails (declaration budget) tokens rest error

/-- A block that goes on with the tokens fails with the error, and the rest is left. -/
structure Breaks (tokens rest : List Token) (error : SyntaxError) : Prop where
  shorter : rest.length < tokens.length
  fails : ∀ budget, 32 * tokens.length + 21 ≤ budget → Fails (block budget) tokens rest error

/-- A block fails with its first declaration. -/
theorem Breaks.here (h : Stumbles tokens rest error) (goesOn : Misses (·.isMark .rightBrace) tokens)
    : Breaks tokens rest error where
  shorter := h.shorter
  fails budget enough := by
    obtain ⟨budget, rfl⟩ : ∃ less, budget = less + 1 := ⟨budget - 1, by omega⟩
    cases tokens with
    | nil => exact absurd h.shorter (Nat.not_lt_zero _)
    | cons token more =>
        rw [block]
        exact leads_bodyGoesOn goesOn (Fails.bind (h.fails budget (by omega)) _)

/-- A block fails behind a declaration that it could read. -/
theorem Breaks.after {stmt : Stmt} (first : Derives .nearest .declaration tokens stmt middle)
    (apart : Misses (·.isKeyword .else) middle) (h : Breaks middle rest error)
    : Breaks tokens rest error where
  shorter := by
    have taken := first.least_le
    have shorter := h.shorter
    simp only [Nonterminal.least] at taken
    omega
  fails budget enough := by
    obtain ⟨budget, rfl⟩ : ∃ less, budget = less + 1 := ⟨budget - 1, by omega⟩
    have taken := first.least_le
    simp only [Nonterminal.least] at taken
    have goesOn : Misses (·.isMark .rightBrace) tokens :=
      misses_of_opening first.starts opening_of_declaration (by decide)
    have gives := (Reads.of_derives first).read budget apart (by omega)
    have fails := h.fails budget (by omega)
    obtain ⟨token, more, rfl, _⟩ := first.starts
    rw [block]
    exact leads_bodyGoesOn goesOn (.bind gives fun _ _ => fails.bind _)

/-- A block statement fails with its block. -/
theorem Stumbles.block {brace : Token} (opened : brace.kind = .mark .leftBrace)
    (h : Breaks tokens rest error)
    : Stumbles (brace :: tokens) (recovered rest) error where
  shorter := by
    have shorter := h.shorter
    have moved := (recovered_suffix rest).length_le
    simp only [List.length_cons]
    omega
  fails budget enough := by
    simp only [List.length_cons] at enough
    obtain ⟨budget, rfl⟩ : ∃ less, budget = less + 2 := ⟨budget - 2, by omega⟩
    have fails := h.fails budget (by omega)
    unfold declaration
    refine Fails.synchronized (.decline (misses_of_kind opened rfl) (.seesElse ?_ (.decline ?_ ?_)))
    · intro passes
      cases opened.symm.trans ((brace.isKeyword_iff _).1 passes)
    · exact misses_of_kind opened rfl
    unfold statement
    refine .peek? ?_
    simp only [opened]
    exact .skip (fails.map _)

/-- A function fails with its body. -/
theorem Stumbles.function {word name brace : Token} {names : List Token}
    (keyword : word.kind = .keyword .fun) (named : name.kind = .identifier)
    (listed : Parameters tokens names (brace :: middle)) (opened : brace.kind = .mark .leftBrace)
    (h : Breaks middle rest error)
    : Stumbles (word :: name :: tokens) (recovered rest) error where
  shorter := by
    have shorter := h.shorter
    have moved := (recovered_suffix rest).length_le
    have taken := listed.length_lt
    simp only [List.length_cons] at taken ⊢
    omega
  fails budget enough := by
    have taken := listed.length_lt
    simp only [List.length_cons] at enough taken
    obtain ⟨budget, rfl⟩ : ∃ less, budget = less + 2 := ⟨budget - 2, by omega⟩
    have fails := h.fails budget (by omega)
    obtain ⟨opening, more, rfl, openedList, gives⟩ := gives_parameters listed
    unfold declaration
    refine Fails.synchronized (.decline (misses_of_kind keyword rfl) ?_)
    have passes : word.isKeyword .fun = true := (word.isKeyword_iff _).2 keyword
    refine .seesTwo passes (name.isIdentifier_iff.2 named) (.skip ?_)
    refine Fails.bind ?_ _
    unfold Parser.function
    refine .expectName named (.expectMark openedList (.bind gives ?_))
    rintro _ rfl
    exact .expectMark opened (fails.bind _)

-----------------------------------------------------------------------------------------
-- Declarations of a source
-----------------------------------------------------------------------------------------

/-- The declarations of a source have the errors up to the rest. -/
def Goes (tokens rest : List Token) (errors : List SyntaxError) : Prop :=
  ∀ (budget : Nat) (stop : Token) (first : Nat),
    32 * (tokens.length + 1) ≤ budget
    → ∃ less last,
        32 * (rest.length + 1) ≤ less
        ∧ (declarations budget ⟨tokens, stop, first⟩).2.1
          = errors ++ (declarations less ⟨rest, stop, last⟩).2.1

theorem Goes.refl (tokens : List Token) : Goes tokens tokens [] :=
  fun budget _ first enough => ⟨budget, first, enough, rfl⟩

theorem Goes.trans {errors more : List SyntaxError} (h : Goes tokens middle errors)
    (after : Goes middle rest more)
    : Goes tokens rest (errors ++ more) := by
  intro budget stop first enough
  obtain ⟨less, between, enoughLess, same⟩ := h budget stop first enough
  obtain ⟨least, last, enoughLeast, sameAfter⟩ := after less stop between enoughLess
  exact ⟨least, last, enoughLeast, by rw [same, sameAfter, List.append_assoc]⟩

theorem Goes.stated {stmt : Stmt} (h : Derives .nearest .declaration tokens stmt middle)
    (apart : Misses (·.isKeyword .else) middle)
    : Goes tokens middle [] := by
  intro budget stop first enough
  have taken := h.least_le
  simp only [Nonterminal.least] at taken
  obtain ⟨budget, rfl⟩ : ∃ less, budget = less + 1 := ⟨budget - 1, by omega⟩
  obtain ⟨_, last, _, ran⟩ := (Reads.of_derives h).read budget apart (by omega) stop first
  obtain ⟨token, more, rfl, _⟩ := h.starts
  refine ⟨budget, last, by omega, ?_⟩
  rw [declarations, if_neg (by simp), ran]
  rfl

theorem Goes.stumbled (h : Stumbles tokens rest error) : Goes tokens rest [error] := by
  intro budget stop first enough
  have shorter := h.shorter
  obtain ⟨budget, rfl⟩ : ∃ less, budget = less + 1 := ⟨budget - 1, by omega⟩
  obtain ⟨_, last, _, ran⟩ := h.fails budget (by omega) stop first
  refine ⟨budget, last, by omega, ?_⟩
  cases tokens with
  | nil => exact absurd shorter (Nat.not_lt_zero _)
  | cons token more =>
      rw [declarations, if_neg (by simp), ran]
      rfl

end Parser

end Lox
