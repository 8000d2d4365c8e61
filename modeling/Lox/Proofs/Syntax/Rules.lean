import Lox.Proofs.Syntax.Soundness

/-! What readers come to on given tokens. For every rule of the grammar, a reader that meets the
tokens of the rule, and whose parts give the trees of the parts, gives the tree of the rule and
leaves the rest.
-/

namespace Lox

namespace Reader

variable {α β γ : Type}

-----------------------------------------------------------------------------------------
-- What readers come to
-----------------------------------------------------------------------------------------

/-- On the tokens ahead, the reader goes on as `next` does on the rest, with a good value. -/
def Leads (reader : Reader β) (ahead : List Token) (next : α → Reader β) (rest : List Token)
    (good : α → Prop) : Prop :=
  ∀ (stop : Token) (first : Nat), ∃ value last,
    good value ∧ reader ⟨ahead, stop, first⟩ = next value ⟨rest, stop, last⟩

/-- On the tokens ahead, the reader succeeds with a good value and leaves the rest. -/
abbrev Gives (reader : Reader α) (ahead rest : List Token) (good : α → Prop) : Prop :=
  Leads reader ahead Pure.pure rest good

/-- No token of the test is next. -/
def Misses (test : Token → Bool) (ahead : List Token) : Prop :=
  ∀ token ∈ ahead.head?, test token = false

namespace Leads

variable {reader : Reader α} {next : α → Reader β} {final : γ → Reader β}
  {token : Token} {ahead more middle rest : List Token} {good : α → Prop} {goal : γ → Prop}
  {test : Token → Bool}

/-- The reader is where it should come to. -/
theorem here {value : γ} (h : goal value) : Leads (final value) rest final rest goal :=
  fun _ first => ⟨value, first, h, rfl⟩

/-- One way after the other. -/
theorem trans {reader : Reader β} (h : Leads reader ahead next middle good)
    (after : ∀ value, good value → Leads (next value) middle final rest goal)
    : Leads reader ahead final rest goal := by
  intro stop first
  obtain ⟨value, between, reached, ran⟩ := h stop first
  obtain ⟨other, last, reachedLast, ranLast⟩ := after value reached stop between
  exact ⟨other, last, reachedLast, ran.trans ranLast⟩

/-- One reader after the other. -/
theorem bind (h : Gives reader ahead middle good)
    (after : ∀ value, good value → Leads (next value) middle final rest goal)
    : Leads (reader >>= next) ahead final rest goal := by
  have first : Leads (reader >>= next) ahead next middle good := by
    intro stop first
    obtain ⟨value, last, reached, ran⟩ := h stop first
    refine ⟨value, last, reached, ?_⟩
    simp only [Bind.bind, EStateM.bind, ran]
    rfl
  exact first.trans after

/-- A reader that comes to a known value goes on with it. -/
theorem known {value : α}
    (ran : ∀ stop first, reader ⟨ahead, stop, first⟩ = .ok value ⟨middle, stop, first⟩)
    (after : Leads (next value) middle final rest goal)
    : Leads (reader >>= next) ahead final rest goal := by
  have gives : Gives reader ahead middle (· = value) :=
    fun stop first => ⟨value, first, rfl, ran stop first⟩
  refine gives.bind ?_
  rintro _ rfl
  exact after

theorem map {change : α → γ} (h : Gives reader ahead rest good)
    (after : ∀ value, good value → goal (change value))
    : Gives (change <$> reader) ahead rest goal :=
  bind h fun value reached => here (after value reached)

/-- The reader goes on after a token that it has to find. -/
theorem expect {cause : SyntaxCause} {next : Token → Reader β} (passes : test token = true)
    (after : Leads (next token) more final rest goal)
    : Leads (Reader.expect test cause >>= next) (token :: more) final rest goal := by
  refine known (fun stop first => ?_) after
  simp only [Reader.expect, if_pos passes]

theorem expectMark {mark : Mark} {cause : SyntaxCause} {next : Token → Reader β}
    (kind : token.kind = .mark mark) (after : Leads (next token) more final rest goal)
    : Leads (Reader.expectMark mark cause >>= next) (token :: more) final rest goal :=
  expect ((token.isMark_iff mark).2 kind) after

theorem expectName {cause : SyntaxCause} {next : Token → Reader β}
    (kind : token.kind = .identifier) (after : Leads (next token) more final rest goal)
    : Leads (Reader.expectName cause >>= next) (token :: more) final rest goal :=
  expect (token.isIdentifier_iff.2 kind) after

/-- A token that passes the test is taken. -/
theorem accept {next : Bool → Reader β} (passes : test token = true)
    (after : Leads (next true) more final rest goal)
    : Leads (Reader.accept test >>= next) (token :: more) final rest goal := by
  refine known (fun stop first => ?_) after
  simp only [Reader.accept, if_pos passes]

theorem acceptMark {mark : Mark} {next : Bool → Reader β} (kind : token.kind = .mark mark)
    (after : Leads (next true) more final rest goal)
    : Leads (Reader.acceptMark mark >>= next) (token :: more) final rest goal :=
  accept ((token.isMark_iff mark).2 kind) after

/-- A token that fails the test is left. -/
theorem decline {next : Bool → Reader β} (misses : Misses test ahead)
    (after : Leads (next false) ahead final rest goal)
    : Leads (Reader.accept test >>= next) ahead final rest goal := by
  refine known (fun stop first => ?_) after
  cases ahead with
  | nil => rfl
  | cons token more =>
      simp only [Reader.accept, misses token rfl, if_neg Bool.false_ne_true]

/-- The token that passes the test is taken and of use. -/
theorem take? {next : Option Token → Reader β} (passes : test token = true)
    (after : Leads (next (some token)) more final rest goal)
    : Leads (Reader.take? test >>= next) (token :: more) final rest goal := by
  refine known (fun stop first => ?_) after
  simp only [Reader.take?, if_pos passes]

theorem leave? {next : Option Token → Reader β} (misses : Misses test ahead)
    (after : Leads (next none) ahead final rest goal)
    : Leads (Reader.take? test >>= next) ahead final rest goal := by
  refine known (fun stop first => ?_) after
  cases ahead with
  | nil => rfl
  | cons token more =>
      simp only [Reader.take?, misses token rfl, if_neg Bool.false_ne_true]

theorem peek? {next : Option Token → Reader β}
    (after : Leads (next (some token)) (token :: more) final rest goal)
    : Leads (Reader.peek? >>= next) (token :: more) final rest goal := after

theorem skip {next : Unit → Reader β} (after : Leads (next ()) more final rest goal)
    : Leads (Reader.skip >>= next) (token :: more) final rest goal := after

theorem occurrence {next : Occurrence → Reader β}
    (after : ∀ id, Leads (next ⟨id, token⟩) ahead final rest goal)
    : Leads (Reader.occurrence token >>= next) ahead final rest goal :=
  fun stop first => after first stop (first + 1)

theorem sees {next : Bool → Reader β}
    (after : Leads (next (ahead.head?.any test)) ahead final rest goal)
    : Leads (Reader.sees test >>= next) ahead final rest goal := after

theorem seesTwo {second : Token} {testSecond : Token → Bool} {yes no : Reader β}
    (passes : test token = true) (passesSecond : testSecond second = true)
    (after : Leads yes (token :: second :: more) final rest goal)
    : Leads (do if (← Reader.sees test) && (← Reader.seesSecond testSecond) then yes else no)
        (token :: second :: more) final rest goal := by
  intro stop first
  change
    ∃ value last, goal value
      ∧ (if (test token && testSecond second) = true then yes else no)
          ⟨token :: second :: more, stop, first⟩ = final value ⟨rest, stop, last⟩
  rw [passes, passesSecond, if_pos (Bool.and_self true)]
  exact after stop first

/-- One of the next two tokens fails its test. -/
theorem seesElse {testSecond : Token → Bool} {yes no : Reader β}
    (fails : test token = true → Misses testSecond more)
    (after : Leads no (token :: more) final rest goal)
    : Leads (do if (← Reader.sees test) && (← Reader.seesSecond testSecond) then yes else no)
        (token :: more) final rest goal := by
  have decided : ¬ (test token && more.head?.any testSecond) = true := by
    intro both
    obtain ⟨passes, passesSecond⟩ := Bool.and_eq_true_iff.1 both
    cases more with
    | nil => cases passesSecond
    | cons second _ => exact Bool.false_ne_true ((fails passes second rfl).symm.trans passesSecond)
  intro stop first
  change
    ∃ value last, goal value
      ∧ (if (test token && more.head?.any testSecond) = true then yes else no)
          ⟨token :: more, stop, first⟩ = final value ⟨rest, stop, last⟩
  rw [if_neg decided]
  exact after stop first

theorem ifAccepted {next : Option α → Reader β} (passes : test token = true)
    (after : Leads (reader >>= fun value => next (some value)) more final rest goal)
    : Leads (Reader.ifAccepted test reader >>= next) (token :: more) final rest goal := by
  rw [Reader.ifAccepted, bind_assoc]
  refine accept passes ?_
  rw [if_pos rfl, bind_map_left]
  exact after

theorem ifDeclined {next : Option α → Reader β} (misses : Misses test ahead)
    (after : Leads (next none) ahead final rest goal)
    : Leads (Reader.ifAccepted test reader >>= next) ahead final rest goal := by
  rw [Reader.ifAccepted, bind_assoc]
  exact decline misses after

theorem unlessMark {mark : Mark} {next : Option α → Reader β}
    (misses : Misses (·.isMark mark) ahead)
    (after : Leads (reader >>= fun value => next (some value)) ahead final rest goal)
    : Leads (Reader.unlessMark mark reader >>= next) ahead final rest goal := by
  have unseen : (ahead.head?.any (·.isMark mark)) = false := by
    cases ahead with
    | nil => rfl
    | cons token more => exact misses token rfl
  rw [Reader.unlessMark, bind_assoc]
  refine sees ?_
  rw [unseen, if_neg Bool.false_ne_true, bind_map_left]
  exact after

theorem atMark {mark : Mark} {next : Option α → Reader β} (kind : token.kind = .mark mark)
    (after : Leads (next none) (token :: more) final rest goal)
    : Leads (Reader.unlessMark mark reader >>= next) (token :: more) final rest goal := by
  have seen : ((token :: more).head?.any (·.isMark mark)) = true := (token.isMark_iff mark).2 kind
  rw [Reader.unlessMark, bind_assoc]
  refine sees ?_
  rw [seen, if_pos rfl]
  exact after

theorem synchronized (h : Gives reader ahead rest good)
    : Gives (Reader.synchronized reader) ahead rest good := by
  intro stop first
  obtain ⟨value, last, reached, ran⟩ := h stop first
  refine ⟨value, last, reached, ?_⟩
  simp only [Reader.synchronized, ran]
  rfl

end Leads

end Reader

namespace Parser

open Reader Grammar

variable {budget : Nat} {tokens middle next rest : List Token}

-----------------------------------------------------------------------------------------
-- Tokens that are not next
-----------------------------------------------------------------------------------------

theorem misses_nil {test : Token → Bool} : Misses test [] := fun _ h => by cases h

theorem misses_of_kind {token : Token} {kind other : TokenKind} (h : token.kind = kind)
    (apart : kind.sameCategory other = false)
    : Misses (·.kind.sameCategory other) (token :: rest) := by
  rintro _ ⟨⟩
  subst h
  exact apart

/-- What a token of the kind can start at least: a primary expression, an expression, a statement, a
declaration or none of them.
-/
def opening : TokenKind → Nat
  | .number _ | .string _ | .identifier | .mark .leftParen => 0
  | .keyword .true | .keyword .false | .keyword .nil => 0
  | .keyword .this | .keyword .super | .keyword .fun => 0
  | .mark .bang | .mark .minus => 1
  | .keyword .for | .keyword .if | .keyword .print | .keyword .return => 2
  | .keyword .while | .keyword .break | .mark .leftBrace => 2
  | .keyword .class | .keyword .var => 3
  | _ => 4

theorem opening_of_primary {kind : TokenKind} (h : PrimaryWord kind) : opening kind ≤ 0 := by
  cases h with
  | constant constant => cases constant <;> exact Nat.le.refl
  | _ => exact Nat.le.refl

theorem opening_of_expression {kind : TokenKind} (h : ExpressionWord kind) : opening kind ≤ 1 := by
  cases h with
  | operator sign => cases sign <;> exact Nat.le.refl
  | primary word => exact Nat.le_succ_of_le (opening_of_primary word)

theorem opening_of_statement {kind : TokenKind} (h : StatementWord kind) : opening kind ≤ 2 := by
  cases h with
  | expression word => exact Nat.le_succ_of_le (opening_of_expression word)
  | _ => exact Nat.le.refl

theorem opening_of_declaration {kind : TokenKind} (h : DeclarationWord kind)
    : opening kind ≤ 3 := by
  cases h with
  | statement word => exact Nat.le_succ_of_le (opening_of_statement word)
  | «fun» => exact Nat.zero_le 3
  | _ => exact Nat.le.refl

theorem opening_of_sameCategory {kind other : TokenKind} (h : kind.sameCategory other = true)
    : opening kind = opening other := by
  cases kind <;> cases other <;> simp_all [TokenKind.sameCategory, opening]

/-- The start of an expression or the like is no token that starts something larger. -/
theorem misses_of_opening {kinds : TokenKind → Prop} {bound : Nat} {other : TokenKind}
    (h : StartsWith kinds tokens) (low : ∀ {kind}, kinds kind → opening kind ≤ bound)
    (high : bound < opening other)
    : Misses (·.kind.sameCategory other) tokens := by
  obtain ⟨token, more, rfl, word⟩ := h
  rintro _ ⟨⟩
  refine Bool.eq_false_iff.2 fun same => ?_
  exact Nat.not_le_of_lt high (opening_of_sameCategory same ▸ low word)

-----------------------------------------------------------------------------------------
-- Names
-----------------------------------------------------------------------------------------

theorem gives_parameterNames {names : List Token} {room : Nat} {closing : Token}
    (h : ParameterList tokens names (closing :: rest)) (few : names.length ≤ room)
    (closed : closing.kind = .mark .rightParen)
    : Gives (parameterNames room) tokens (closing :: rest) (· = names) := by
  generalize ends : closing :: rest = after at h
  induction h generalizing room with
  | one named =>
      obtain ⟨room, rfl⟩ := Nat.exists_eq_add_of_le' few
      subst ends
      unfold parameterNames
      refine .expectName named (.decline (misses_of_kind closed rfl) ?_)
      exact .here rfl
  | more named separated _ ih =>
      obtain ⟨room, rfl⟩ := Nat.exists_eq_succ_of_ne_zero (Nat.ne_zero_of_lt few)
      unfold parameterNames
      refine .expectName named (.acceptMark separated ?_)
      refine .bind (ih (Nat.le_of_succ_le_succ few) ends) ?_
      rintro _ rfl
      exact .here rfl

/-- Parameters from their opening parenthesis on. -/
theorem gives_parameters {names : List Token} (h : Parameters tokens names rest)
    : ∃ opening more, tokens = opening :: more ∧ opening.kind = .mark .leftParen
      ∧ Gives parameters more rest (· = names) := by
  cases h with
  | none opened closed =>
      refine ⟨_, _, rfl, opened, ?_⟩
      unfold parameters
      exact .atMark closed (.expectMark closed (.here rfl))
  | some opened list few closed =>
      refine ⟨_, _, rfl, opened, ?_⟩
      unfold parameters
      refine .unlessMark ?_ ?_
      · cases list with
        | one named | more named => exact misses_of_kind named rfl
      refine .bind (gives_parameterNames list few closed) ?_
      rintro _ rfl
      exact .expectMark closed (.here rfl)

theorem gives_superclass {clause : Option Occurrence} {opening : Token}
    (h : Clause tokens clause (opening :: rest)) (opened : opening.kind = .mark .leftBrace)
    : Gives superclass tokens (opening :: rest) (·.map Occurrence.unnumbered = clause) := by
  unfold superclass
  cases h with
  | none => exact .decline (misses_of_kind opened rfl) (.here rfl)
  | some sign named =>
      exact .acceptMark sign (.expectName named (.occurrence fun id => .here rfl))

-----------------------------------------------------------------------------------------
-- Primary expressions
-----------------------------------------------------------------------------------------

theorem gives_literal {token : Token} {value : Literal} (constant : IsLiteral token.kind value)
    : Gives (primary (budget + 1)) (token :: rest) rest (·.unnumbered = .literal value) := by
  unfold primary
  refine .peek? ?_
  dsimp only
  generalize token.kind = kind at constant
  cases constant <;> exact .skip (.here rfl)

theorem gives_this {word : Token} (keyword : word.kind = .keyword .this)
    : Gives (primary (budget + 1)) (word :: rest) rest (·.unnumbered = .this ⟨0, word⟩) := by
  unfold primary
  refine .peek? ?_
  simp only [keyword]
  exact .skip (.occurrence fun id => .here rfl)

theorem gives_name {name : Token} (named : name.kind = .identifier)
    : Gives (primary (budget + 1)) (name :: rest) rest (·.unnumbered = .variable ⟨0, name⟩) := by
  unfold primary
  refine .peek? ?_
  simp only [named]
  exact .skip (.occurrence fun id => .here rfl)

theorem gives_super {word dot method : Token} (keyword : word.kind = .keyword .super)
    (dotted : dot.kind = .mark .dot) (named : method.kind = .identifier)
    : Gives (primary (budget + 1)) (word :: dot :: method :: rest) rest
        (·.unnumbered = .super ⟨0, word⟩ method) := by
  unfold primary
  refine .peek? ?_
  simp only [keyword]
  exact .skip (.expectMark dotted (.expectName named (.occurrence fun id => .here rfl)))

theorem gives_grouping {opening closing : Token} {expr : Expr}
    (opened : opening.kind = .mark .leftParen)
    (inner : Gives (expression budget) tokens (closing :: rest) (·.unnumbered = expr))
    (closed : closing.kind = .mark .rightParen)
    : Gives (primary (budget + 1)) (opening :: tokens) rest (·.unnumbered = .grouping expr) := by
  unfold primary
  refine .peek? ?_
  simp only [opened]
  refine .skip (.bind inner ?_)
  rintro value rfl
  exact .expectMark closed (.here rfl)

theorem gives_lambda {word opening : Token} {parameters : List Token} {stmts : List Stmt}
    (keyword : word.kind = .keyword .fun)
    (listed : Parameters tokens parameters (opening :: middle))
    (opened : opening.kind = .mark .leftBrace)
    (body : Gives (block budget) middle rest (Stmts.unnumbered · = stmts))
    : Gives (primary (budget + 2)) (word :: tokens) rest
        (·.unnumbered = .lambda ⟨none, word, parameters, stmts⟩) := by
  obtain ⟨opening, more, rfl, openedList, names⟩ := gives_parameters listed
  unfold primary lambda
  refine .peek? ?_
  simp only [keyword]
  refine .skip (.expectMark openedList (.bind names ?_))
  rintro _ rfl
  refine .expectMark opened (.bind body ?_)
  rintro stmts rfl
  exact .here rfl

-----------------------------------------------------------------------------------------
-- What can extend an expression
-----------------------------------------------------------------------------------------

/-- How loose the expression can be that a token of the kind goes on with: postfixes extend calls
only, an operator extends the chains of its tier, and so on.
-/
def reach : TokenKind → Nat
  | .mark .leftParen | .mark .dot => 1
  | .mark .slash | .mark .star => 2
  | .mark .minus | .mark .plus => 3
  | .mark .greater | .mark .greaterEqual | .mark .less | .mark .lessEqual => 4
  | .mark .bangEqual | .mark .equalEqual => 5
  | .keyword .and => 6
  | .keyword .or => 7
  | .mark .question => 8
  | .mark .equal => 9
  | _ => 10

/-- The next token extends no expression tighter than the bound. -/
def Follows (bound : Nat) (rest : List Token) : Prop :=
  ∀ token ∈ rest.head?, bound ≤ reach token.kind

theorem Follows.nil {bound : Nat} : Follows bound [] := fun _ h => by cases h

theorem Follows.of_kind {bound : Nat} {token : Token} {kind : TokenKind} (h : token.kind = kind)
    (le : bound ≤ reach kind)
    : Follows bound (token :: rest) := by
  rintro _ ⟨⟩
  exact h ▸ le

theorem Follows.mono {bound lower : Nat} (h : Follows bound rest) (le : lower ≤ bound)
    : Follows lower rest :=
  fun token next => Nat.le_trans le (h token next)

theorem Follows.misses {bound : Nat} {test : Token → Bool} (h : Follows bound rest)
    (low : ∀ token, test token = true → reach token.kind < bound)
    : Misses test rest :=
  fun token next => Bool.eq_false_iff.2 fun passes =>
    Nat.not_lt_of_le (h token next) (low token passes)

theorem Follows.misses_mark {bound : Nat} {mark : Mark} (h : Follows bound rest)
    (low : reach (.mark mark) < bound)
    : Misses (·.isMark mark) rest :=
  h.misses fun token passes => (token.isMark_iff mark).1 passes ▸ low

/-- The reach of the operators of a tier. -/
def level : Tier → Nat
  | .factor => 2
  | .term => 3
  | .comparison => 4
  | .equality => 5
  | .and => 6
  | .or => 7

theorem level_of_tighter {tier tighter : Tier} (h : Tighter tier tighter)
    : level tier = level tighter + 1 := by
  cases h <;> rfl

theorem tighter?_of_tighter {tier tighter : Tier} (h : Tighter tier tighter)
    : tier.tighter? = some tighter := by
  cases h <;> rfl

theorem reach_of_operator {tier : Tier} {token : Token} (h : tier.operator token = true)
    : reach token.kind = level tier := by
  unfold Tier.operator at h
  split at h
  all_goals first
    | next kind => rw [kind]; rfl
    | cases h

theorem operator_of_logical {tier : Tier} {operator : Token}
    (h : LogicalOperator tier operator.kind)
    : tier.operator operator = true := by
  unfold Tier.operator
  generalize operator.kind = kind at h
  cases h <;> rfl

theorem operator_of_binary {tier : Tier} {operator : Token}
    (h : BinaryOperator tier operator.kind)
    : tier.operator operator = true := by
  unfold Tier.operator
  generalize operator.kind = kind at h
  cases h <;> rfl

theorem join_of_logical {tier : Tier} {kind : TokenKind} (h : LogicalOperator tier kind)
    {operator : Token} {left right : Expr}
    : tier.join operator left right = .logical operator left right := by
  cases h <;> rfl

theorem join_of_binary {tier : Tier} {kind : TokenKind} (h : BinaryOperator tier kind)
    {operator : Token} {left right : Expr}
    : tier.join operator left right = .binary operator left right := by
  cases h <;> rfl

-----------------------------------------------------------------------------------------
-- Calls and chains
-----------------------------------------------------------------------------------------

theorem gives_unary {operator : Token} {expr : Expr} (sign : UnaryOperator operator.kind)
    (operand : Gives (unary budget) tokens rest (·.unnumbered = expr))
    : Gives (unary (budget + 1)) (operator :: tokens) rest
        (·.unnumbered = .unary operator expr) := by
  have passes : (operator.isMark .bang || operator.isMark .minus) = true := by
    unfold Token.isMark
    generalize operator.kind = kind at sign
    cases sign <;> rfl
  unfold unary
  refine .take? passes (.bind operand ?_)
  rintro value rfl
  exact .here rfl

/-- A primary expression is read before what follows it. -/
theorem leads_unary {expr : Expr} (starts : Opens PrimaryWord tokens)
    (callee : Gives (primary budget) tokens rest (·.unnumbered = expr))
    : Leads (unary (budget + 1)) tokens (calls budget) rest (·.unnumbered = expr) := by
  have misses : Misses (fun token => token.isMark .bang || token.isMark .minus) tokens := by
    intro token next
    have apart (mark : Mark) (high : 0 < opening (.mark mark)) : token.isMark mark = false :=
      misses_of_opening starts.startsWith opening_of_primary high token next
    simp only [apart .bang (by decide), apart .minus (by decide), Bool.or_false]
  unfold unary
  exact .leave? misses (.bind callee fun value same => .here same)

section Calls

variable {callee : Expr}

theorem leads_callNone {opening closing : Token} (opened : opening.kind = .mark .leftParen)
    (closed : closing.kind = .mark .rightParen)
    : Leads (calls (budget + 1) callee) (opening :: closing :: rest) (calls budget) rest
        (·.unnumbered = .call callee.unnumbered closing []) := by
  rw [calls]
  exact .acceptMark opened (.atMark closed (.expectMark closed (.here rfl)))

theorem leads_call {opening closing : Token} {exprs : List Expr}
    (opened : opening.kind = .mark .leftParen) (starts : Opens ExpressionWord middle)
    (given
      : Gives (arguments budget maxArity) middle (closing :: rest) (Exprs.unnumbered · = exprs))
    (closed : closing.kind = .mark .rightParen)
    : Leads (calls (budget + 1) callee) (opening :: middle) (calls budget) rest
        (·.unnumbered = .call callee.unnumbered closing exprs) := by
  rw [calls]
  refine .acceptMark opened (.unlessMark ?_ (.bind given ?_))
  · exact misses_of_opening starts.startsWith opening_of_expression (by decide)
  rintro exprs rfl
  exact .expectMark closed (.here rfl)

theorem leads_get {dot name : Token} (dotted : dot.kind = .mark .dot)
    (named : name.kind = .identifier)
    : Leads (calls (budget + 1) callee) (dot :: name :: rest) (calls budget) rest
        (·.unnumbered = .get callee.unnumbered name) := by
  rw [calls]
  refine .decline (misses_of_kind dotted rfl) (.acceptMark dotted ?_)
  exact .expectName named (.here rfl)

theorem gives_calls (follows : Follows 2 rest)
    : Gives (calls (budget + 1) callee) rest rest (·.unnumbered = callee.unnumbered) := by
  unfold calls
  refine .decline (follows.misses_mark (by decide)) ?_
  exact .decline (follows.misses_mark (by decide)) (.here rfl)

end Calls

theorem leads_chainFrom {tier : Tier} {operator : Token} {left right : Expr}
    (passes : tier.operator operator = true)
    (operand : Gives (operand budget tier) tokens rest (·.unnumbered = right))
    : Leads (chainFrom (budget + 1) tier left) (operator :: tokens) (chainFrom budget tier) rest
        (·.unnumbered = tier.join operator left.unnumbered right) := by
  rw [chainFrom]
  refine .take? passes (.bind operand ?_)
  rintro right rfl
  exact .here (by cases tier <;> rfl)

theorem gives_chainFrom {tier : Tier} {left : Expr} (follows : Follows (level tier + 1) rest)
    : Gives (chainFrom (budget + 1) tier left) rest rest (·.unnumbered = left.unnumbered) := by
  unfold chainFrom
  refine .leave? (follows.misses fun token passes => ?_) (.here rfl)
  exact reach_of_operator passes ▸ Nat.lt_succ_self _

-----------------------------------------------------------------------------------------
-- Conditionals, assignments and arguments
-----------------------------------------------------------------------------------------

theorem gives_conditional {question colon : Token} {condition positive negative : Expr}
    (test : Gives (chain budget .or) tokens (question :: middle) (·.unnumbered = condition))
    (asked : question.kind = .mark .question)
    (taken : Gives (expression budget) middle (colon :: next) (·.unnumbered = positive))
    (separated : colon.kind = .mark .colon)
    (left : Gives (conditional budget) next rest (·.unnumbered = negative))
    : Gives (conditional (budget + 1)) tokens rest
        (·.unnumbered = .conditional condition positive negative) := by
  unfold conditional
  refine .bind test ?_
  rintro condition rfl
  refine .acceptMark asked (.bind taken ?_)
  rintro positive rfl
  refine .expectMark separated (.bind left ?_)
  rintro negative rfl
  exact .here rfl

theorem gives_ternary {expr : Expr}
    (value : Gives (chain budget .or) tokens rest (·.unnumbered = expr)) (follows : Follows 9 rest)
    : Gives (conditional (budget + 1)) tokens rest (·.unnumbered = expr) := by
  unfold conditional
  refine .bind value fun value same => ?_
  exact .decline (follows.misses_mark (by decide)) (.here same)

theorem gives_expression {expr : Expr}
    (value : Gives (conditional budget) tokens rest (·.unnumbered = expr))
    (follows : Follows 10 rest)
    : Gives (expression (budget + 1)) tokens rest (·.unnumbered = expr) := by
  unfold expression
  refine .bind value fun value same => ?_
  exact .leave? (follows.misses_mark (by decide)) (.here same)

theorem gives_assign {name equal : Token} {expr : Expr}
    (target
      : Gives (conditional budget) (name :: equal :: tokens) (equal :: tokens)
          (·.unnumbered = .variable ⟨0, name⟩))
    (sign : equal.kind = .mark .equal)
    (value : Gives (expression budget) tokens rest (·.unnumbered = expr))
    : Gives (expression (budget + 1)) (name :: equal :: tokens) rest
        (·.unnumbered = .assign ⟨0, name⟩ expr) := by
  unfold expression
  refine .bind target fun target same => ?_
  refine .take? ((equal.isMark_iff _).2 sign) (.bind value ?_)
  rintro value rfl
  cases target <;> cases same
  exact .occurrence fun id => .here rfl

theorem gives_set {name equal : Token} {object expr : Expr}
    (target
      : Gives (conditional budget) tokens (equal :: next) (·.unnumbered = .get object name))
    (sign : equal.kind = .mark .equal)
    (value : Gives (expression budget) next rest (·.unnumbered = expr))
    : Gives (expression (budget + 1)) tokens rest (·.unnumbered = .set object name expr) := by
  unfold expression
  refine .bind target fun target same => ?_
  refine .take? ((equal.isMark_iff _).2 sign) (.bind value ?_)
  rintro value rfl
  cases target <;> cases same
  exact .here rfl

theorem gives_argument {closing : Token} {expr : Expr} (room : Nat)
    (value : Gives (expression budget) tokens (closing :: rest) (·.unnumbered = expr))
    (closed : closing.kind = .mark .rightParen)
    : Gives (arguments (budget + 1) (room + 1)) tokens (closing :: rest)
        (Exprs.unnumbered · = [expr]) := by
  unfold arguments
  refine .bind value ?_
  rintro value rfl
  exact .decline (misses_of_kind closed rfl) (.here rfl)

theorem gives_moreArguments {comma : Token} {expr : Expr} {exprs : List Expr} {room : Nat}
    (first : Gives (expression budget) tokens (comma :: middle) (·.unnumbered = expr))
    (separated : comma.kind = .mark .comma)
    (others : Gives (arguments budget room) middle rest (Exprs.unnumbered · = exprs))
    : Gives (arguments (budget + 1) (room + 1)) tokens rest
        (Exprs.unnumbered · = expr :: exprs) := by
  unfold arguments
  refine .bind first ?_
  rintro value rfl
  refine .acceptMark separated (.bind others ?_)
  rintro values rfl
  exact .here rfl

/-- An expression that is there, before a mark. -/
theorem gives_present {mark : Mark} {expr : Expr} (starts : Opens ExpressionWord tokens)
    (plain : 1 < opening (.mark mark))
    (value : Gives (expression budget) tokens rest (·.unnumbered = expr))
    : Gives (unlessMark mark (expression budget)) tokens rest
        (·.map Expr.unnumbered = some expr) := by
  rw [← bind_pure (unlessMark mark _)]
  refine .unlessMark (misses_of_opening starts.startsWith opening_of_expression plain) ?_
  refine .bind value ?_
  rintro value rfl
  exact .here rfl

/-- An expression that is missing before a mark. -/
theorem gives_absent {mark : Mark} {token : Token} (kind : token.kind = .mark mark)
    : Gives (unlessMark mark (expression budget)) (token :: rest) (token :: rest)
        (·.map Expr.unnumbered = none) := by
  rw [← bind_pure (unlessMark mark _)]
  exact .atMark kind (.here rfl)

-----------------------------------------------------------------------------------------
-- Statements
-----------------------------------------------------------------------------------------

theorem gives_exprStmt {semicolon : Token} {expr : Expr}
    (value : Gives (expression budget) tokens (semicolon :: rest) (·.unnumbered = expr))
    (ended : semicolon.kind = .mark .semicolon)
    : Gives (expressionStatement (budget + 1)) tokens rest (·.unnumbered = .expression expr) := by
  unfold expressionStatement
  refine .bind value ?_
  rintro value rfl
  exact .expectMark ended (.here rfl)

/-- A statement that no keyword tells from an expression. -/
theorem leads_expressionStatement {α : Type} {final : α → Reader Stmt} {goal : α → Prop}
    (starts : Opens ExpressionWord tokens)
    (stated : Leads (expressionStatement budget) tokens final rest goal)
    : Leads (statement (budget + 1)) tokens final rest goal := by
  obtain ⟨token, more, rfl, word, _⟩ := starts
  unfold statement
  refine .peek? ?_
  dsimp only
  generalize token.kind = kind at word
  cases word with
  | operator sign => cases sign <;> exact stated
  | primary word =>
      cases word with
      | constant constant => cases constant <;> exact stated
      | _ => exact stated

theorem gives_print {word semicolon : Token} {expr : Expr} (keyword : word.kind = .keyword .print)
    (value : Gives (expression budget) tokens (semicolon :: rest) (·.unnumbered = expr))
    (ended : semicolon.kind = .mark .semicolon)
    : Gives (statement (budget + 2)) (word :: tokens) rest (·.unnumbered = .print word expr) := by
  unfold statement
  refine .peek? ?_
  simp only [keyword]
  refine .skip ?_
  unfold printStatement
  refine .bind value ?_
  rintro value rfl
  exact .expectMark ended (.here rfl)

theorem gives_return {word semicolon : Token} {returned : Option Expr}
    (keyword : word.kind = .keyword .return)
    (value
      : Gives (unlessMark .semicolon (expression budget)) tokens (semicolon :: rest)
          (·.map Expr.unnumbered = returned))
    (ended : semicolon.kind = .mark .semicolon)
    : Gives (statement (budget + 2)) (word :: tokens) rest
        (·.unnumbered = .return word returned) := by
  unfold statement
  refine .peek? ?_
  simp only [keyword]
  refine .skip ?_
  unfold returnStatement
  refine .bind value ?_
  rintro returned rfl
  exact .expectMark ended (.here (by cases returned <;> rfl))

theorem gives_break {word semicolon : Token} (keyword : word.kind = .keyword .break)
    (ended : semicolon.kind = .mark .semicolon)
    : Gives (statement (budget + 1)) (word :: semicolon :: rest) rest
        (·.unnumbered = .break word) := by
  unfold statement
  refine .peek? ?_
  simp only [keyword]
  exact .skip (.expectMark ended (.here rfl))

theorem gives_while {word opening closing : Token} {condition : Expr} {stmt : Stmt}
    (keyword : word.kind = .keyword .while) (opened : opening.kind = .mark .leftParen)
    (test : Gives (expression budget) tokens (closing :: middle) (·.unnumbered = condition))
    (closed : closing.kind = .mark .rightParen)
    (body : Gives (statement budget) middle rest (·.unnumbered = stmt))
    : Gives (statement (budget + 2)) (word :: opening :: tokens) rest
        (·.unnumbered = .while condition stmt) := by
  unfold statement
  refine .peek? ?_
  simp only [keyword]
  refine .skip ?_
  unfold whileStatement
  refine .expectMark opened (.bind test ?_)
  rintro condition rfl
  refine .expectMark closed (.bind body ?_)
  rintro body rfl
  exact .here rfl

theorem gives_if {word opening closing : Token} {condition : Expr} {positive : Stmt}
    (keyword : word.kind = .keyword .if) (opened : opening.kind = .mark .leftParen)
    (test : Gives (expression budget) tokens (closing :: middle) (·.unnumbered = condition))
    (closed : closing.kind = .mark .rightParen)
    (taken : Gives (statement budget) middle rest (·.unnumbered = positive))
    (noElse : Misses (·.isKeyword .else) rest)
    : Gives (statement (budget + 2)) (word :: opening :: tokens) rest
        (·.unnumbered = .if condition positive none) := by
  unfold statement
  refine .peek? ?_
  simp only [keyword]
  refine .skip ?_
  unfold ifStatement
  refine .expectMark opened (.bind test ?_)
  rintro condition rfl
  refine .expectMark closed (.bind taken ?_)
  rintro positive rfl
  exact .ifDeclined noElse (.here rfl)

theorem gives_ifElse {word opening closing otherwise : Token} {condition : Expr}
    {positive negative : Stmt}
    (keyword : word.kind = .keyword .if) (opened : opening.kind = .mark .leftParen)
    (test : Gives (expression budget) tokens (closing :: middle) (·.unnumbered = condition))
    (closed : closing.kind = .mark .rightParen)
    (taken : Gives (statement budget) middle (otherwise :: next) (·.unnumbered = positive))
    (keywordElse : otherwise.kind = .keyword .else)
    (left : Gives (statement budget) next rest (·.unnumbered = negative))
    : Gives (statement (budget + 2)) (word :: opening :: tokens) rest
        (·.unnumbered = .if condition positive (some negative)) := by
  unfold statement
  refine .peek? ?_
  simp only [keyword]
  refine .skip ?_
  unfold ifStatement
  refine .expectMark opened (.bind test ?_)
  rintro condition rfl
  refine .expectMark closed (.bind taken ?_)
  rintro positive rfl
  refine .ifAccepted ((otherwise.isKeyword_iff _).2 keywordElse) (.bind left ?_)
  rintro negative rfl
  exact .here rfl

theorem gives_for {word opening semicolon closing : Token}
    {afterInitializer afterCondition afterIncrement : List Token}
    {initializer : Option Stmt} {condition increment : Option Expr} {stmt : Stmt}
    (keyword : word.kind = .keyword .for) (opened : opening.kind = .mark .leftParen)
    (start
      : Gives (forInitializer budget) tokens afterInitializer
          (·.map Stmt.unnumbered = initializer))
    (test
      : Gives (unlessMark .semicolon (expression budget)) afterInitializer
          (semicolon :: afterCondition) (·.map Expr.unnumbered = condition))
    (ended : semicolon.kind = .mark .semicolon)
    (step
      : Gives (unlessMark .rightParen (expression budget)) afterCondition
          (closing :: afterIncrement) (·.map Expr.unnumbered = increment))
    (closed : closing.kind = .mark .rightParen)
    (body : Gives (statement budget) afterIncrement rest (·.unnumbered = stmt))
    : Gives (statement (budget + 2)) (word :: opening :: tokens) rest
        (·.unnumbered = whileForm initializer condition increment stmt) := by
  unfold statement
  refine .peek? ?_
  simp only [keyword]
  refine .skip ?_
  unfold forStatement
  refine .expectMark opened (.bind start ?_)
  rintro initializer rfl
  refine .bind test ?_
  rintro condition rfl
  refine .expectMark ended (.bind step ?_)
  rintro increment rfl
  refine .expectMark closed (.bind body ?_)
  rintro stmt rfl
  exact .here (unnumbered_ofFor initializer condition increment stmt)

theorem gives_noInitializer {semicolon : Token} (ended : semicolon.kind = .mark .semicolon)
    : Gives (forInitializer (budget + 1)) (semicolon :: rest) rest
        (·.map Stmt.unnumbered = none) := by
  unfold forInitializer
  exact .acceptMark ended (.here rfl)

theorem gives_initializerVar {word : Token} {stmt : Stmt} (keyword : word.kind = .keyword .var)
    (declared : Gives (varDeclaration budget) tokens rest (·.unnumbered = stmt))
    : Gives (forInitializer (budget + 1)) (word :: tokens) rest
        (·.map Stmt.unnumbered = some stmt) := by
  unfold forInitializer
  refine .decline (misses_of_kind keyword rfl) ?_
  refine .accept ((word.isKeyword_iff _).2 keyword) (.map declared ?_)
  rintro stmt rfl
  rfl

theorem gives_initializerExpr {stmt : Stmt} (starts : Opens ExpressionWord tokens)
    (stated : Gives (expressionStatement budget) tokens rest (·.unnumbered = stmt))
    : Gives (forInitializer (budget + 1)) tokens rest (·.map Stmt.unnumbered = some stmt) := by
  unfold forInitializer
  refine .decline (misses_of_opening starts.startsWith opening_of_expression (by decide)) ?_
  refine .decline (misses_of_opening starts.startsWith opening_of_expression (by decide)) ?_
  refine .map stated ?_
  rintro stmt rfl
  rfl

theorem gives_blockStatement {opening : Token} {stmts : List Stmt}
    (opened : opening.kind = .mark .leftBrace)
    (body : Gives (block budget) tokens rest (Stmts.unnumbered · = stmts))
    : Gives (statement (budget + 1)) (opening :: tokens) rest (·.unnumbered = .block stmts) := by
  unfold statement
  refine .peek? ?_
  simp only [opened]
  refine .skip (.map body ?_)
  rintro stmts rfl
  rfl

-----------------------------------------------------------------------------------------
-- Declarations
-----------------------------------------------------------------------------------------

theorem gives_uninitialized {name semicolon : Token} (named : name.kind = .identifier)
    (ended : semicolon.kind = .mark .semicolon)
    : Gives (varDeclaration (budget + 1)) (name :: semicolon :: rest) rest
        (·.unnumbered = .var name none) := by
  unfold varDeclaration
  refine .expectName named (.ifDeclined (misses_of_kind ended rfl) ?_)
  exact .expectMark ended (.here rfl)

theorem gives_initialized {name equal semicolon : Token} {expr : Expr}
    (named : name.kind = .identifier) (sign : equal.kind = .mark .equal)
    (initializer : Gives (expression budget) tokens (semicolon :: rest) (·.unnumbered = expr))
    (ended : semicolon.kind = .mark .semicolon)
    : Gives (varDeclaration (budget + 1)) (name :: equal :: tokens) rest
        (·.unnumbered = .var name (some expr)) := by
  unfold varDeclaration
  refine .expectName named (.ifAccepted ((equal.isMark_iff _).2 sign) (.bind initializer ?_))
  rintro value rfl
  exact .expectMark ended (.here rfl)

theorem gives_function {name opening : Token} {parameters : List Token} {stmts : List Stmt}
    (named : name.kind = .identifier) (listed : Parameters tokens parameters (opening :: middle))
    (opened : opening.kind = .mark .leftBrace)
    (body : Gives (block budget) middle rest (Stmts.unnumbered · = stmts))
    : Gives (function (budget + 1)) (name :: tokens) rest
        (·.unnumbered = ⟨some name, name, parameters, stmts⟩) := by
  obtain ⟨openingList, more, rfl, openedList, names⟩ := gives_parameters listed
  unfold function
  refine .expectName named (.expectMark openedList (.bind names ?_))
  rintro _ rfl
  refine .expectMark opened (.bind body ?_)
  rintro stmts rfl
  exact .here rfl

theorem gives_class {word name opening closing : Token} {superclass : Option Occurrence}
    {methods statics : List FunctionDecl} (keyword : word.kind = .keyword .class)
    (named : name.kind = .identifier) (clause : Clause tokens superclass (opening :: middle))
    (opened : opening.kind = .mark .leftBrace)
    (members
      : Gives (members budget) middle (closing :: rest) fun members =>
          (Functions.unnumbered members.1, Functions.unnumbered members.2) = (methods, statics))
    (closed : closing.kind = .mark .rightBrace)
    : Gives (declaration (budget + 2)) (word :: name :: tokens) rest
        (·.unnumbered = .class ⟨name, superclass, methods, statics⟩) := by
  unfold declaration
  refine .synchronized (.accept ((word.isKeyword_iff _).2 keyword) ?_)
  rw [if_pos rfl]
  unfold classDeclaration
  refine .expectName named (.bind (gives_superclass clause opened) ?_)
  rintro superclass rfl
  refine .expectMark opened (.bind members ?_)
  rintro ⟨methods, statics⟩ ⟨⟩
  exact .expectMark closed (.here rfl)

theorem gives_named {word : Token} {declared : FunctionDecl} (keyword : word.kind = .keyword .fun)
    (starts : StartsWith (· = .identifier) tokens)
    (body : Gives (function budget) tokens rest (·.unnumbered = declared))
    : Gives (declaration (budget + 1)) (word :: tokens) rest
        (·.unnumbered = .function declared) := by
  obtain ⟨name, more, rfl, named⟩ := starts
  unfold declaration
  refine .synchronized (.decline (misses_of_kind keyword rfl) ?_)
  have passes : word.isKeyword .fun = true := (word.isKeyword_iff _).2 keyword
  refine .seesTwo passes (name.isIdentifier_iff.2 named) (.skip (.bind body ?_))
  rintro declared rfl
  exact .here rfl

theorem gives_varDeclaration {word : Token} {stmt : Stmt} (keyword : word.kind = .keyword .var)
    (declared : Gives (varDeclaration budget) tokens rest (·.unnumbered = stmt))
    : Gives (declaration (budget + 1)) (word :: tokens) rest (·.unnumbered = stmt) := by
  unfold declaration
  refine .synchronized (.decline (misses_of_kind keyword rfl) ?_)
  refine .seesElse (fun passes => ?_) (.accept ((word.isKeyword_iff _).2 keyword) declared)
  cases keyword.symm.trans ((word.isKeyword_iff _).1 passes)

/-- A statement is told from the declarations. -/
theorem leads_statement {α : Type} {final : α → Reader Stmt} {goal : α → Prop}
    (starts : Opens StatementWord tokens)
    (stated : Leads (statement budget) tokens final rest goal)
    : Leads (declaring budget) tokens final rest goal := by
  have startsWith := starts.startsWith
  obtain ⟨word, more, rfl, _, lambda⟩ := starts
  unfold declaring
  refine .decline ?_ (.seesElse (fun passes => ?_) (.decline ?_ stated))
  · exact misses_of_opening startsWith opening_of_statement (by decide)
  · -- the statement is a lambda, whose parenthesis is no name
    obtain ⟨opening, _, rfl, opened⟩ := lambda ((word.isKeyword_iff _).1 passes)
    exact misses_of_kind opened rfl
  · exact misses_of_opening startsWith opening_of_statement (by decide)

theorem gives_statement {stmt : Stmt} (starts : Opens StatementWord tokens)
    (stated : Gives (statement budget) tokens rest (·.unnumbered = stmt))
    : Gives (declaration (budget + 1)) tokens rest (·.unnumbered = stmt) := by
  rw [declaration_eq]
  exact .synchronized (leads_statement starts stated)

section BodyEnds

variable {α γ : Type} {next : Bool → Reader α} {final : γ → Reader α} {goal : γ → Prop}

/-- The brace that closes a body is next. -/
theorem leads_bodyEnds {closing : Token} (closed : closing.kind = .mark .rightBrace)
    (after : Leads (next true) (closing :: tokens) final rest goal)
    : Leads (bodyEnds >>= next) (closing :: tokens) final rest goal := by
  have seen : ((closing :: tokens).head?.any (·.isMark .rightBrace)) = true :=
    (closing.isMark_iff _).2 closed
  rw [bodyEnds, bind_assoc]
  refine .sees ?_
  rw [seen]
  exact after

/-- A token other than the brace is next. -/
theorem leads_bodyGoesOn {token : Token} (misses : Misses (·.isMark .rightBrace) (token :: tokens))
    (after : Leads (next false) (token :: tokens) final rest goal)
    : Leads (bodyEnds >>= next) (token :: tokens) final rest goal := by
  have unseen : ((token :: tokens).head?.any (·.isMark .rightBrace)) = false := misses token rfl
  rw [bodyEnds, bind_assoc]
  refine .sees ?_
  rw [unseen]
  exact after

end BodyEnds

theorem gives_noMember {closing : Token} (closed : closing.kind = .mark .rightBrace)
    : Gives (members (budget + 1)) (closing :: rest) (closing :: rest) fun members =>
        (Functions.unnumbered members.1, Functions.unnumbered members.2) = ([], []) := by
  unfold members
  exact leads_bodyEnds closed (.here rfl)

theorem gives_staticMember {word : Token} {declared : FunctionDecl}
    {methods statics : List FunctionDecl} (keyword : word.kind = .keyword .static)
    (first : Gives (function budget) tokens middle (·.unnumbered = declared))
    (others
      : Gives (members budget) middle rest fun members =>
          (Functions.unnumbered members.1, Functions.unnumbered members.2) = (methods, statics))
    : Gives (members (budget + 1)) (word :: tokens) rest fun members =>
        (Functions.unnumbered members.1, Functions.unnumbered members.2)
          = (methods, declared :: statics) := by
  rw [members]
  refine leads_bodyGoesOn (misses_of_kind keyword rfl) ?_
  refine .accept ((word.isKeyword_iff _).2 keyword) (.bind first ?_)
  rintro declared rfl
  refine .bind others ?_
  rintro ⟨methods, statics⟩ ⟨⟩
  exact .here rfl

theorem gives_member {declared : FunctionDecl} {methods statics : List FunctionDecl}
    (starts : StartsWith (· = .identifier) tokens)
    (first : Gives (function budget) tokens middle (·.unnumbered = declared))
    (others
      : Gives (members budget) middle rest fun members =>
          (Functions.unnumbered members.1, Functions.unnumbered members.2) = (methods, statics))
    : Gives (members (budget + 1)) tokens rest fun members =>
        (Functions.unnumbered members.1, Functions.unnumbered members.2)
          = (declared :: methods, statics) := by
  obtain ⟨name, more, rfl, named⟩ := starts
  rw [members]
  refine leads_bodyGoesOn (misses_of_kind named rfl) ?_
  refine .decline (misses_of_kind named rfl) (.bind first ?_)
  rintro declared rfl
  refine .bind others ?_
  rintro ⟨methods, statics⟩ ⟨⟩
  exact .here rfl

theorem gives_blockEnd {closing : Token} (closed : closing.kind = .mark .rightBrace)
    : Gives (block (budget + 1)) (closing :: rest) rest (Stmts.unnumbered · = []) := by
  rw [block]
  exact leads_bodyEnds closed (.expectMark closed (.here rfl))

theorem gives_blockMore {stmt : Stmt} {stmts : List Stmt}
    (starts : StartsWith DeclarationWord tokens)
    (first : Gives (declaration budget) tokens middle (·.unnumbered = stmt))
    (others : Gives (block budget) middle rest (Stmts.unnumbered · = stmts))
    : Gives (block (budget + 1)) tokens rest (Stmts.unnumbered · = stmt :: stmts) := by
  have misses : Misses (·.isMark .rightBrace) tokens :=
    misses_of_opening starts opening_of_declaration (by decide)
  obtain ⟨token, more, rfl, _⟩ := starts
  rw [block]
  refine leads_bodyGoesOn misses (.bind first ?_)
  rintro stmt rfl
  refine .bind others ?_
  rintro stmts rfl
  exact .here rfl

/-- The tree of whole tokens is what the declarations of a source come to. -/
def Completes (budget : Nat) (tokens : List Token) (tree : List Stmt) : Prop :=
  ∀ (stop : Token) (first : Nat), ∃ stmts last,
    declarations budget ⟨tokens, stop, first⟩ = (stmts, [], ⟨[], stop, last⟩)
      ∧ Stmts.unnumbered stmts = tree

theorem completes_nil : Completes (budget + 1) [] [] := fun _ first => ⟨[], first, rfl, rfl⟩

theorem completes_cons {stmt : Stmt} {stmts : List Stmt}
    (starts : StartsWith DeclarationWord tokens)
    (first : Gives (declaration budget) tokens middle (·.unnumbered = stmt))
    (others : Completes budget middle stmts)
    : Completes (budget + 1) tokens (stmt :: stmts) := by
  obtain ⟨token, more, rfl, _⟩ := starts
  intro stop number
  obtain ⟨value, between, rfl, ran⟩ := first stop number
  obtain ⟨values, last, ranOthers, rfl⟩ := others stop between
  refine ⟨value :: values, last, ?_, rfl⟩
  replace ran
    : declaration budget ⟨token :: more, stop, number⟩ = .ok value ⟨middle, stop, between⟩ := ran
  unfold declarations
  dsimp only
  rw [if_neg (by simp), ran]
  simp only [ranOthers]

end Parser

end Lox
