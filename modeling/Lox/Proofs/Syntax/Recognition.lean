import Lox.Proofs.Syntax.Attachment
import Lox.Proofs.Syntax.Rules

/-! The readers accept exactly the grammar. What is derived is read, with its tree, when no next
token extends the derivation; with the converse, a source is read as a program or as an expression
if and only if the grammar derives it, and as the tree of its derivation.
-/

namespace Lox

namespace Parser

open Reader Grammar

variable {tokens middle next rest : List Token}

-----------------------------------------------------------------------------------------
-- Reading by nonterminal
-----------------------------------------------------------------------------------------

/-- A budget for the tokens up to the rest, for a reader that is a number of readers away from the
next one that takes a token.
-/
abbrev Lasts (budget descent : Nat) (tokens rest : List Token) : Prop :=
  32 * tokens.length + descent ≤ budget + 32 * rest.length

/-- The tokens up to the rest are read as the tree. What is derived on the left of a rule is read as
the start of something larger: calls and chains are stopped before they go on with the rest.
-/
def Read : (symbol : Nonterminal) → List Token → symbol.Tree → List Token → Prop
  | .declarations, tokens, stmts, rest =>
    (∀ budget closing more,
        rest = closing :: more → closing.kind = .mark .rightBrace → Lasts budget 21 tokens rest
        → Gives (block budget) tokens more (Stmts.unnumbered · = stmts))
      ∧ (∀ budget, rest = [] → Lasts budget 21 tokens rest → Completes budget tokens stmts)
  | .declaration, tokens, stmt, rest =>
    ∀ budget, Misses (·.isKeyword .else) rest → Lasts budget 20 tokens rest
      → Gives (declaration budget) tokens rest (·.unnumbered = stmt)
  | .members, tokens, declared, rest =>
    ∀ budget, StartsWith (· = .mark .rightBrace) rest → Lasts budget 2 tokens rest
      → Gives (members budget) tokens rest fun members =>
          (Functions.unnumbered members.1, Functions.unnumbered members.2) = declared
  | .function, tokens, declared, rest =>
    ∀ budget, Lasts budget 1 tokens rest
      → Gives (function budget) tokens rest (·.unnumbered = declared)
  | .varDecl, tokens, stmt, rest =>
    ∀ budget, Lasts budget 1 tokens rest
      → Gives (varDeclaration budget) tokens.tail rest (·.unnumbered = stmt)
  | .block, tokens, stmts, rest =>
    ∀ budget, Lasts budget 1 tokens rest
      → Gives (block budget) tokens.tail rest (Stmts.unnumbered · = stmts)
  | .statement unmatched, tokens, stmt, rest =>
    ∀ budget, (unmatched = true → Misses (·.isKeyword .else) rest) → Lasts budget 19 tokens rest
      → Gives (statement budget) tokens rest (·.unnumbered = stmt)
  | .exprStmt, tokens, stmt, rest =>
    ∀ budget, Lasts budget 18 tokens rest
      → Gives (expressionStatement budget) tokens rest (·.unnumbered = stmt)
  | .forInitializer, tokens, start, rest =>
    ∀ budget, Lasts budget 19 tokens rest
      → Gives (forInitializer budget) tokens rest (·.map Stmt.unnumbered = start)
  | .optional, tokens, value, rest =>
    ∀ budget mark,
      1 < opening (.mark mark) → StartsWith (· = .mark mark) rest → Follows 10 rest
      → Lasts budget 17 tokens rest
      → Gives (unlessMark mark (expression budget)) tokens rest (·.map Expr.unnumbered = value)
  | .expression, tokens, expr, rest =>
    ∀ budget, Follows 10 rest → Lasts budget 17 tokens rest
      → Gives (expression budget) tokens rest (·.unnumbered = expr)
  | .ternary, tokens, expr, rest =>
    ∀ budget, Follows 9 rest → Lasts budget 16 tokens rest
      → Gives (conditional budget) tokens rest (·.unnumbered = expr)
  | .chain tier, tokens, expr, rest =>
    ∀ budget, Follows (level tier) rest → Lasts budget (2 * level tier + 1) tokens rest
      → ∃ less, budget + rest.length ≤ less + tokens.length
        ∧ Leads (chain budget tier) tokens (chainFrom less tier) rest (·.unnumbered = expr)
  | .operand tier, tokens, expr, rest =>
    ∀ budget, Follows (level tier) rest → Lasts budget (2 * level tier) tokens rest
      → Gives (operand budget tier) tokens rest (·.unnumbered = expr)
  | .unary, tokens, expr, rest =>
    ∀ budget, Follows 2 rest → Lasts budget 2 tokens rest
      → Gives (unary budget) tokens rest (·.unnumbered = expr)
  | .call, tokens, expr, rest =>
    ∀ budget, Lasts budget 2 tokens rest
      → ∃ less, budget + rest.length ≤ less + tokens.length
        ∧ Leads (unary budget) tokens (calls less) rest (·.unnumbered = expr)
  | .primary, tokens, expr, rest =>
    ∀ budget, Lasts budget 1 tokens rest
      → Gives (primary budget) tokens rest (·.unnumbered = expr)
  | .arguments, tokens, exprs, rest =>
    ∀ budget room, exprs.length ≤ room → StartsWith (· = .mark .rightParen) rest
      → Lasts budget 18 tokens rest
      → Gives (arguments budget room) tokens rest (Exprs.unnumbered · = exprs)

/-- A derivation whose tokens are read. -/
structure Reads (symbol : Nonterminal) (tokens : List Token) (tree : symbol.Tree)
    (rest : List Token) : Prop where
  derived : Derives .nearest symbol tokens tree rest
  read : Read symbol tokens tree rest

namespace Reads

variable {expr : Expr} {stmt : Stmt}

-----------------------------------------------------------------------------------------
-- Primary expressions
-----------------------------------------------------------------------------------------

theorem literal {token : Token} {value : Literal} (constant : IsLiteral token.kind value)
    : Reads .primary (token :: rest) (.literal value) rest where
  derived := .literal constant
  read budget enough := by
    simp only [Lasts, List.length_cons] at enough
    obtain ⟨budget, rfl⟩ : ∃ less, budget = less + 1 := ⟨budget - 1, by omega⟩
    exact gives_literal constant

theorem this {word : Token} (keyword : word.kind = .keyword .this)
    : Reads .primary (word :: rest) (.this ⟨0, word⟩) rest where
  derived := .this keyword
  read budget enough := by
    simp only [Lasts, List.length_cons] at enough
    obtain ⟨budget, rfl⟩ : ∃ less, budget = less + 1 := ⟨budget - 1, by omega⟩
    exact gives_this keyword

theorem name {name : Token} (named : name.kind = .identifier)
    : Reads .primary (name :: rest) (.variable ⟨0, name⟩) rest where
  derived := .name named
  read budget enough := by
    simp only [Lasts, List.length_cons] at enough
    obtain ⟨budget, rfl⟩ : ∃ less, budget = less + 1 := ⟨budget - 1, by omega⟩
    exact gives_name named

theorem super {word dot method : Token} (keyword : word.kind = .keyword .super)
    (dotted : dot.kind = .mark .dot) (named : method.kind = .identifier)
    : Reads .primary (word :: dot :: method :: rest) (.super ⟨0, word⟩ method) rest where
  derived := .super keyword dotted named
  read budget enough := by
    simp only [Lasts, List.length_cons] at enough
    obtain ⟨budget, rfl⟩ : ∃ less, budget = less + 1 := ⟨budget - 1, by omega⟩
    exact gives_super keyword dotted named

theorem grouping {opening closing : Token} (opened : opening.kind = .mark .leftParen)
    (inner : Reads .expression tokens expr (closing :: rest))
    (closed : closing.kind = .mark .rightParen)
    : Reads .primary (opening :: tokens) (.grouping expr) rest where
  derived := .grouping opened inner.derived closed
  read budget enough := by
    have taken := inner.derived.least_le
    simp only [Lasts, Nonterminal.least, List.length_cons] at enough taken
    obtain ⟨budget, rfl⟩ : ∃ less, budget = less + 1 := ⟨budget - 1, by omega⟩
    have value := inner.read budget (.of_kind closed (by decide))
      (by simp only [Lasts, List.length_cons]; omega)
    exact gives_grouping opened value closed

theorem lambda {word : Token} {parameters : List Token} {stmts : List Stmt}
    (keyword : word.kind = .keyword .fun) (listed : Parameters tokens parameters middle)
    (body : Reads .block middle stmts rest)
    : Reads .primary (word :: tokens) (.lambda ⟨none, word, parameters, stmts⟩) rest where
  derived := .lambda keyword listed body.derived
  read budget enough := by
    have takenNames := listed.length_lt
    have taken := body.derived.least_le
    obtain ⟨opening, more, rfl, opened⟩ := body.derived.starts
    simp only [Lasts, Nonterminal.least, List.length_cons] at enough takenNames taken
    obtain ⟨budget, rfl⟩ : ∃ less, budget = less + 2 := ⟨budget - 2, by omega⟩
    have inside := body.read budget (by simp only [Lasts, List.length_cons]; omega)
    exact gives_lambda keyword listed opened inside

-----------------------------------------------------------------------------------------
-- Calls
-----------------------------------------------------------------------------------------

theorem primary (h : Reads .primary tokens expr rest) : Reads .call tokens expr rest where
  derived := .primary h.derived
  read budget enough := by
    have taken := h.derived.least_le
    simp only [Nonterminal.least] at taken
    obtain ⟨budget, rfl⟩ : ∃ less, budget = less + 1 := ⟨budget - 1, by omega⟩
    exact ⟨budget, by omega, leads_unary h.derived.starts (h.read budget (by omega))⟩

/-- A call goes on with what follows it, on the budget that its tokens leave. -/
theorem goesOn {after : Expr} {budget : Nat} (h : Reads .call tokens expr middle)
    (shorter : rest.length < middle.length) (enough : Lasts budget 2 tokens rest)
    (step
      : ∀ less (callee : Expr), callee.unnumbered = expr → Lasts less 32 middle rest
        → Leads (calls (less + 1) callee) middle (calls less) rest (·.unnumbered = after))
    : ∃ less, budget + rest.length ≤ less + tokens.length
      ∧ Leads (Parser.unary budget) tokens (calls less) rest (·.unnumbered = after) := by
  have taken := h.derived.least_le
  simp only [Nonterminal.least] at taken
  obtain ⟨less, le, leads⟩ := h.read budget (by omega)
  obtain ⟨less, rfl⟩ : ∃ fewer, less = fewer + 1 := ⟨less - 1, by omega⟩
  exact ⟨less, by omega, leads.trans fun callee same => step less callee same (by omega)⟩

theorem callNone {opening closing : Token}
    (h : Reads .call tokens expr (opening :: closing :: rest))
    (opened : opening.kind = .mark .leftParen) (closed : closing.kind = .mark .rightParen)
    : Reads .call tokens (.call expr closing []) rest where
  derived := .callNone h.derived opened closed
  read budget enough := by
    refine h.goesOn (Nat.lt_add_of_pos_right Nat.two_pos) enough ?_
    rintro less callee rfl _
    exact leads_callNone opened closed

theorem call {opening closing : Token} {exprs : List Expr}
    (h : Reads .call tokens expr (opening :: middle)) (opened : opening.kind = .mark .leftParen)
    (given : Reads .arguments middle exprs (closing :: rest)) (few : exprs.length ≤ 255)
    (closed : closing.kind = .mark .rightParen)
    : Reads .call tokens (.call expr closing exprs) rest where
  derived := .call h.derived opened given.derived few closed
  read budget enough := by
    have taken := given.derived.least_le
    simp only [Nonterminal.least, List.length_cons] at taken
    refine h.goesOn (by simp only [List.length_cons]; omega) enough ?_
    rintro less callee rfl left
    simp only [Lasts, List.length_cons] at left
    have values := given.read less maxArity few ⟨_, _, rfl, closed⟩
      (by simp only [Lasts, List.length_cons]; omega)
    exact leads_call opened given.derived.starts values closed

theorem get {dot name : Token} (h : Reads .call tokens expr (dot :: name :: rest))
    (dotted : dot.kind = .mark .dot) (named : name.kind = .identifier)
    : Reads .call tokens (.get expr name) rest where
  derived := .get h.derived dotted named
  read budget enough := by
    refine h.goesOn (Nat.lt_add_of_pos_right Nat.two_pos) enough ?_
    rintro less callee rfl _
    exact leads_get dotted named

theorem argument (value : Reads .expression tokens expr rest)
    : Reads .arguments tokens [expr] rest where
  derived := .argument value.derived
  read budget room few closed enough := by
    obtain ⟨closing, more, rfl, closed⟩ := closed
    have taken := value.derived.least_le
    simp only [Nonterminal.least] at taken
    obtain ⟨budget, rfl⟩ : ∃ less, budget = less + 1 := ⟨budget - 1, by omega⟩
    obtain ⟨room, rfl⟩ := Nat.exists_eq_add_of_le' few
    exact gives_argument room (value.read budget (.of_kind closed (by decide)) (by omega)) closed

theorem moreArguments {comma : Token} {exprs : List Expr}
    (first : Reads .expression tokens expr (comma :: middle))
    (separated : comma.kind = .mark .comma) (others : Reads .arguments middle exprs rest)
    : Reads .arguments tokens (expr :: exprs) rest where
  derived := .moreArguments first.derived separated others.derived
  read budget room few closed enough := by
    have takenFirst := first.derived.least_le
    have taken := others.derived.least_le
    simp only [Lasts, Nonterminal.least, List.length_cons] at few enough takenFirst taken
    obtain ⟨budget, rfl⟩ : ∃ less, budget = less + 1 := ⟨budget - 1, by omega⟩
    obtain ⟨room, rfl⟩ : ∃ fewer, room = fewer + 1 := ⟨room - 1, by omega⟩
    have value := first.read budget (.of_kind separated (by decide))
      (by simp only [Lasts, List.length_cons]; omega)
    have values := others.read budget room (by omega) closed (by omega)
    exact gives_moreArguments value separated values

-----------------------------------------------------------------------------------------
-- Operators
-----------------------------------------------------------------------------------------

theorem unary {operator : Token} (sign : UnaryOperator operator.kind)
    (operand : Reads .unary tokens expr rest)
    : Reads .unary (operator :: tokens) (.unary operator expr) rest where
  derived := .unary sign operand.derived
  read budget follows enough := by
    have taken := operand.derived.least_le
    simp only [Lasts, Nonterminal.least, List.length_cons] at enough taken
    obtain ⟨budget, rfl⟩ : ∃ less, budget = less + 1 := ⟨budget - 1, by omega⟩
    exact gives_unary sign (operand.read budget follows (by omega))

theorem unaryCall (h : Reads .call tokens expr rest) : Reads .unary tokens expr rest where
  derived := .unaryCall h.derived
  read budget follows enough := by
    have taken := h.derived.least_le
    simp only [Nonterminal.least] at taken
    obtain ⟨less, le, leads⟩ := h.read budget enough
    obtain ⟨less, rfl⟩ : ∃ fewer, less = fewer + 1 := ⟨less - 1, by omega⟩
    refine leads.trans ?_
    rintro value rfl
    exact gives_calls follows

theorem factor (h : Reads .unary tokens expr rest) : Reads (.operand .factor) tokens expr rest where
  derived := .factor h.derived
  read budget follows enough := by
    have taken := h.derived.least_le
    simp only [Nonterminal.least, level] at taken enough
    obtain ⟨budget, rfl⟩ : ∃ less, budget = less + 1 := ⟨budget - 1, by omega⟩
    unfold Parser.operand
    exact h.read budget follows (by omega)

theorem chain {tier : Tier} (h : Reads (.operand tier) tokens expr rest)
    : Reads (.chain tier) tokens expr rest where
  derived := .chain h.derived
  read budget follows enough := by
    have taken := h.derived.least_le
    simp only [Nonterminal.least] at taken
    obtain ⟨budget, rfl⟩ : ∃ less, budget = less + 1 := ⟨budget - 1, by omega⟩
    refine ⟨budget, by omega, ?_⟩
    rw [Parser.chain]
    exact .bind (h.read budget follows (by omega)) fun value same => .here same

/-- An operator and its right operand after a chain. -/
theorem join {tier : Tier} {operator : Token} {left right : Expr} {budget : Nat}
    (before : Reads (.chain tier) tokens left (operator :: middle))
    (passes : tier.operator operator = true)
    (operand : Reads (.operand tier) middle right rest)
    (follows : Follows (level tier) rest) (enough : Lasts budget (2 * level tier + 1) tokens rest)
    : ∃ less, budget + rest.length ≤ less + tokens.length
      ∧ Leads (Parser.chain budget tier) tokens (chainFrom less tier) rest
          (·.unnumbered = tier.join operator left right) := by
  have takenBefore := before.derived.least_le
  have taken := operand.derived.least_le
  simp only [Nonterminal.least, List.length_cons] at takenBefore taken
  have followsLeft : Follows (level tier) (operator :: middle) := by
    rintro _ ⟨⟩
    exact Nat.le_of_eq (reach_of_operator passes).symm
  obtain ⟨less, le, leads⟩ :=
    before.read budget followsLeft (by simp only [Lasts, List.length_cons]; omega)
  simp only [List.length_cons] at le
  obtain ⟨less, rfl⟩ : ∃ fewer, less = fewer + 1 := ⟨less - 1, by omega⟩
  refine ⟨less, by omega, leads.trans ?_⟩
  rintro value rfl
  exact leads_chainFrom passes (operand.read less follows (by omega))

theorem logical {tier : Tier} {operator : Token} {left right : Expr}
    (before : Reads (.chain tier) tokens left (operator :: middle))
    (sign : LogicalOperator tier operator.kind)
    (operand : Reads (.operand tier) middle right rest)
    : Reads (.chain tier) tokens (.logical operator left right) rest where
  derived := .logical before.derived sign operand.derived
  read budget follows enough := by
    rw [← join_of_logical sign]
    exact before.join (operator_of_logical sign) operand follows enough

theorem binary {tier : Tier} {operator : Token} {left right : Expr}
    (before : Reads (.chain tier) tokens left (operator :: middle))
    (sign : BinaryOperator tier operator.kind)
    (operand : Reads (.operand tier) middle right rest)
    : Reads (.chain tier) tokens (.binary operator left right) rest where
  derived := .binary before.derived sign operand.derived
  read budget follows enough := by
    rw [← join_of_binary sign]
    exact before.join (operator_of_binary sign) operand follows enough

/-- A chain is read to its end where no operator of its tier is next. -/
theorem wholeChain {tier : Tier} {budget : Nat} (h : Reads (.chain tier) tokens expr rest)
    (follows : Follows (level tier + 1) rest)
    (enough : Lasts budget (2 * level tier + 1) tokens rest)
    : Gives (Parser.chain budget tier) tokens rest (·.unnumbered = expr) := by
  obtain ⟨less, le, leads⟩ := h.read budget (follows.mono (Nat.le_succ _)) enough
  have taken := h.derived.least_le
  simp only [Nonterminal.least] at taken
  obtain ⟨less, rfl⟩ : ∃ fewer, less = fewer + 1 := ⟨less - 1, by omega⟩
  refine leads.trans ?_
  rintro value rfl
  exact gives_chainFrom follows

theorem operand {tier tighter : Tier} (binds : Tighter tier tighter)
    (h : Reads (.chain tighter) tokens expr rest)
    : Reads (.operand tier) tokens expr rest where
  derived := .operand binds h.derived
  read budget follows enough := by
    have above := level_of_tighter binds
    have taken := h.derived.least_le
    simp only [Nonterminal.least] at taken
    obtain ⟨budget, rfl⟩ : ∃ less, budget = less + 1 := ⟨budget - 1, by omega⟩
    unfold Parser.operand
    rw [tighter?_of_tighter binds]
    exact h.wholeChain (above ▸ follows) (by omega)

-----------------------------------------------------------------------------------------
-- Conditionals and assignments
-----------------------------------------------------------------------------------------

theorem ternary (h : Reads (.chain .or) tokens expr rest) : Reads .ternary tokens expr rest where
  derived := .ternary h.derived
  read budget follows enough := by
    have taken := h.derived.least_le
    simp only [Nonterminal.least] at taken
    obtain ⟨budget, rfl⟩ : ∃ less, budget = less + 1 := ⟨budget - 1, by omega⟩
    refine gives_ternary (h.wholeChain (follows.mono (by decide)) ?_) follows
    simp only [level]
    omega

theorem conditional {question colon : Token} {positive negative : Expr}
    (test : Reads (.chain .or) tokens expr (question :: middle))
    (asked : question.kind = .mark .question)
    (taken : Reads .expression middle positive (colon :: next))
    (separated : colon.kind = .mark .colon) (left : Reads .ternary next negative rest)
    : Reads .ternary tokens (.conditional expr positive negative) rest where
  derived := .conditional test.derived asked taken.derived separated left.derived
  read budget follows enough := by
    have takenTest := test.derived.least_le
    have takenPositive := taken.derived.least_le
    have takenNegative := left.derived.least_le
    simp only [Nonterminal.least, List.length_cons] at takenTest takenPositive takenNegative
    obtain ⟨budget, rfl⟩ : ∃ less, budget = less + 1 := ⟨budget - 1, by omega⟩
    have condition : Gives (Parser.chain budget .or) tokens _ (·.unnumbered = expr) :=
      test.wholeChain (.of_kind asked (by decide))
        (by simp only [Lasts, level, List.length_cons]; omega)
    have positive := taken.read budget (.of_kind separated (by decide))
      (by simp only [Lasts, List.length_cons]; omega)
    exact gives_conditional condition asked positive separated (left.read budget follows (by omega))

/-- A call alone is a conditional without a question mark. -/
theorem climb (h : Reads .call tokens expr rest) : Reads .ternary tokens expr rest := by
  have factor : Reads (.chain .factor) tokens expr rest := h.unaryCall.factor.chain
  have comparison : Reads (.chain .comparison) tokens expr rest :=
    (operand .comparison (operand .term factor).chain).chain
  have and : Reads (.chain .and) tokens expr rest :=
    (operand .and (operand .equality comparison).chain).chain
  exact (operand .or and).chain.ternary

theorem expression (value : Reads .ternary tokens expr rest)
    : Reads .expression tokens expr rest where
  derived := .expression value.derived
  read budget follows enough := by
    have taken := value.derived.least_le
    simp only [Nonterminal.least] at taken
    obtain ⟨budget, rfl⟩ : ∃ less, budget = less + 1 := ⟨budget - 1, by omega⟩
    exact gives_expression (value.read budget (follows.mono (by decide)) (by omega)) follows

/-- The name on the left is read as a conditional first. -/
theorem assign {name equal : Token} (named : name.kind = .identifier)
    (sign : equal.kind = .mark .equal) (value : Reads .expression tokens expr rest)
    : Reads .expression (name :: equal :: tokens) (.assign ⟨0, name⟩ expr) rest where
  derived := .assign named sign value.derived
  read budget follows enough := by
    have taken := value.derived.least_le
    simp only [Lasts, Nonterminal.least, List.length_cons] at enough taken
    obtain ⟨budget, rfl⟩ : ∃ less, budget = less + 1 := ⟨budget - 1, by omega⟩
    have target : Reads .ternary (name :: equal :: tokens) _ (equal :: tokens) :=
      (Reads.name named).primary.climb
    have read := target.read budget (.of_kind sign (by decide))
      (by simp only [Lasts, List.length_cons]; omega)
    exact gives_assign read sign (value.read budget follows (by omega))

/-- The property on the left is read as a conditional first. -/
theorem set {dot name equal : Token} {object : Expr}
    (target : Reads .call tokens object (dot :: name :: equal :: next))
    (dotted : dot.kind = .mark .dot) (named : name.kind = .identifier)
    (sign : equal.kind = .mark .equal) (value : Reads .expression next expr rest)
    : Reads .expression tokens (.set object name expr) rest where
  derived := .set target.derived dotted named sign value.derived
  read budget follows enough := by
    have takenTarget := target.derived.least_le
    have taken := value.derived.least_le
    simp only [Lasts, Nonterminal.least, List.length_cons] at enough takenTarget taken
    obtain ⟨budget, rfl⟩ : ∃ less, budget = less + 1 := ⟨budget - 1, by omega⟩
    have read := (target.get dotted named).climb.read budget (.of_kind sign (by decide))
      (by simp only [Lasts, List.length_cons]; omega)
    exact gives_set read sign (value.read budget follows (by omega))

theorem absent : Reads .optional rest none rest where
  derived := .absent
  read budget mark _ closed _ _ := by
    obtain ⟨closing, more, rfl, closed⟩ := closed
    exact gives_absent closed

theorem present (value : Reads .expression tokens expr rest)
    : Reads .optional tokens (some expr) rest where
  derived := .present value.derived
  read budget _ high _ follows enough :=
    gives_present value.derived.starts high (value.read budget follows enough)

-----------------------------------------------------------------------------------------
-- Statements
-----------------------------------------------------------------------------------------

theorem exprStmt {semicolon : Token} (value : Reads .expression tokens expr (semicolon :: rest))
    (ended : semicolon.kind = .mark .semicolon)
    : Reads .exprStmt tokens (.expression expr) rest where
  derived := .exprStmt value.derived ended
  read budget enough := by
    have taken := value.derived.least_le
    simp only [Nonterminal.least, List.length_cons] at taken
    obtain ⟨budget, rfl⟩ : ∃ less, budget = less + 1 := ⟨budget - 1, by omega⟩
    have stated := value.read budget (.of_kind ended (by decide))
      (by simp only [Lasts, List.length_cons]; omega)
    exact gives_exprStmt stated ended

theorem expressionStatement (stated : Reads .exprStmt tokens stmt rest)
    : Reads (.statement false) tokens stmt rest where
  derived := .expressionStatement stated.derived
  read budget _ enough := by
    have taken := stated.derived.least_le
    simp only [Nonterminal.least] at taken
    obtain ⟨budget, rfl⟩ : ∃ less, budget = less + 1 := ⟨budget - 1, by omega⟩
    exact leads_expressionStatement stated.derived.starts (stated.read budget (by omega))

theorem print {word semicolon : Token} (keyword : word.kind = .keyword .print)
    (value : Reads .expression tokens expr (semicolon :: rest))
    (ended : semicolon.kind = .mark .semicolon)
    : Reads (.statement false) (word :: tokens) (.print word expr) rest where
  derived := .print keyword value.derived ended
  read budget _ enough := by
    have taken := value.derived.least_le
    simp only [Lasts, Nonterminal.least, List.length_cons] at enough taken
    obtain ⟨budget, rfl⟩ : ∃ less, budget = less + 2 := ⟨budget - 2, by omega⟩
    have printed := value.read budget (.of_kind ended (by decide))
      (by simp only [Lasts, List.length_cons]; omega)
    exact gives_print keyword printed ended

theorem «return» {word semicolon : Token} {returned : Option Expr}
    (keyword : word.kind = .keyword .return)
    (value : Reads .optional tokens returned (semicolon :: rest))
    (ended : semicolon.kind = .mark .semicolon)
    : Reads (.statement false) (word :: tokens) (.return word returned) rest where
  derived := .return keyword value.derived ended
  read budget _ enough := by
    have taken := value.derived.least_le
    simp only [Lasts, Nonterminal.least, List.length_cons] at enough taken
    obtain ⟨budget, rfl⟩ : ∃ less, budget = less + 2 := ⟨budget - 2, by omega⟩
    have result := value.read budget .semicolon (by decide) ⟨_, _, rfl, ended⟩
      (.of_kind ended (by decide)) (by simp only [Lasts, List.length_cons]; omega)
    exact gives_return keyword result ended

theorem «break» {word semicolon : Token} (keyword : word.kind = .keyword .break)
    (ended : semicolon.kind = .mark .semicolon)
    : Reads (.statement false) (word :: semicolon :: rest) (.break word) rest where
  derived := .break keyword ended
  read budget _ enough := by
    simp only [Lasts, List.length_cons] at enough
    obtain ⟨budget, rfl⟩ : ∃ less, budget = less + 1 := ⟨budget - 1, by omega⟩
    exact gives_break keyword ended

theorem blockStatement {stmts : List Stmt} (body : Reads .block tokens stmts rest)
    : Reads (.statement false) tokens (.block stmts) rest where
  derived := .blockStatement body.derived
  read budget _ enough := by
    have taken := body.derived.least_le
    obtain ⟨opening, more, rfl, opened⟩ := body.derived.starts
    simp only [Lasts, Nonterminal.least, List.length_cons] at enough taken
    obtain ⟨budget, rfl⟩ : ∃ less, budget = less + 1 := ⟨budget - 1, by omega⟩
    have inside := body.read budget (by simp only [Lasts, List.length_cons]; omega)
    exact gives_blockStatement opened inside

theorem noInitializer {semicolon : Token} (ended : semicolon.kind = .mark .semicolon)
    : Reads .forInitializer (semicolon :: rest) none rest where
  derived := .noInitializer ended
  read budget enough := by
    simp only [Lasts, List.length_cons] at enough
    obtain ⟨budget, rfl⟩ : ∃ less, budget = less + 1 := ⟨budget - 1, by omega⟩
    exact gives_noInitializer ended

theorem initializerVar (declared : Reads .varDecl tokens stmt rest)
    : Reads .forInitializer tokens (some stmt) rest where
  derived := .initializerVar declared.derived
  read budget enough := by
    have taken := declared.derived.least_le
    obtain ⟨word, more, rfl, keyword⟩ := declared.derived.starts
    simp only [Lasts, Nonterminal.least, List.length_cons] at enough taken
    obtain ⟨budget, rfl⟩ : ∃ less, budget = less + 1 := ⟨budget - 1, by omega⟩
    have start := declared.read budget (by simp only [Lasts, List.length_cons]; omega)
    exact gives_initializerVar keyword start

theorem initializerExpr (stated : Reads .exprStmt tokens stmt rest)
    : Reads .forInitializer tokens (some stmt) rest where
  derived := .initializerExpr stated.derived
  read budget enough := by
    have taken := stated.derived.least_le
    simp only [Nonterminal.least] at taken
    obtain ⟨budget, rfl⟩ : ∃ less, budget = less + 1 := ⟨budget - 1, by omega⟩
    exact gives_initializerExpr stated.derived.starts (stated.read budget (by omega))

section Branches

variable {condition : Expr} {unmatched : Bool} {word opening closing : Token}

theorem «while» (keyword : word.kind = .keyword .while) (opened : opening.kind = .mark .leftParen)
    (test : Reads .expression tokens condition (closing :: middle))
    (closed : closing.kind = .mark .rightParen)
    (body : Reads (.statement unmatched) middle stmt rest)
    : Reads (.statement unmatched) (word :: opening :: tokens) (.while condition stmt) rest where
  derived := .while keyword opened test.derived closed body.derived
  read budget noElse enough := by
    have takenTest := test.derived.least_le
    have taken := body.derived.least_le
    simp only [Lasts, Nonterminal.least, List.length_cons] at enough takenTest taken
    obtain ⟨budget, rfl⟩ : ∃ less, budget = less + 2 := ⟨budget - 2, by omega⟩
    have condition := test.read budget (.of_kind closed (by decide))
      (by simp only [Lasts, List.length_cons]; omega)
    exact gives_while keyword opened condition closed (body.read budget noElse (by omega))

theorem «if» {positive : Stmt} (keyword : word.kind = .keyword .if)
    (opened : opening.kind = .mark .leftParen)
    (test : Reads .expression tokens condition (closing :: middle))
    (closed : closing.kind = .mark .rightParen)
    (taken : Reads (.statement unmatched) middle positive rest)
    : Reads (.statement true) (word :: opening :: tokens) (.if condition positive none) rest where
  derived := .if keyword opened test.derived closed taken.derived
  read budget noElse enough := by
    have takenTest := test.derived.least_le
    have takenPositive := taken.derived.least_le
    simp only [Lasts, Nonterminal.least, List.length_cons] at enough takenTest takenPositive
    obtain ⟨budget, rfl⟩ : ∃ less, budget = less + 2 := ⟨budget - 2, by omega⟩
    have condition := test.read budget (.of_kind closed (by decide))
      (by simp only [Lasts, List.length_cons]; omega)
    have positive := taken.read budget (fun _ => noElse rfl) (by omega)
    exact gives_if keyword opened condition closed positive (noElse rfl)

theorem ifElse {otherwise : Token} {positive negative : Stmt} (keyword : word.kind = .keyword .if)
    (opened : opening.kind = .mark .leftParen)
    (test : Reads .expression tokens condition (closing :: middle))
    (closed : closing.kind = .mark .rightParen)
    (taken : Reads (.statement false) middle positive (otherwise :: next))
    (keywordElse : otherwise.kind = .keyword .else)
    (left : Reads (.statement unmatched) next negative rest)
    : Reads (.statement unmatched) (word :: opening :: tokens)
        (.if condition positive (some negative)) rest where
  derived :=
    .ifElse keyword opened test.derived closed taken.derived (fun _ => rfl) keywordElse left.derived
  read budget noElse enough := by
    have takenTest := test.derived.least_le
    have takenPositive := taken.derived.least_le
    have takenNegative := left.derived.least_le
    simp only [Lasts, Nonterminal.least, List.length_cons] at *
    obtain ⟨budget, rfl⟩ : ∃ less, budget = less + 2 := ⟨budget - 2, by omega⟩
    have condition := test.read budget (.of_kind closed (by decide))
      (by simp only [Lasts, List.length_cons]; omega)
    have positive := taken.read budget (absurd · Bool.false_ne_true)
      (by simp only [Lasts, List.length_cons]; omega)
    exact gives_ifElse keyword opened condition closed positive keywordElse
      (left.read budget noElse (by omega))

theorem «for» {semicolon : Token} {afterInitializer afterCondition afterIncrement : List Token}
    {initializer : Option Stmt} {condition increment : Option Expr}
    (keyword : word.kind = .keyword .for) (opened : opening.kind = .mark .leftParen)
    (start : Reads .forInitializer tokens initializer afterInitializer)
    (test : Reads .optional afterInitializer condition (semicolon :: afterCondition))
    (ended : semicolon.kind = .mark .semicolon)
    (step : Reads .optional afterCondition increment (closing :: afterIncrement))
    (closed : closing.kind = .mark .rightParen)
    (body : Reads (.statement unmatched) afterIncrement stmt rest)
    : Reads (.statement unmatched) (word :: opening :: tokens)
        (whileForm initializer condition increment stmt) rest where
  derived :=
    .for keyword opened start.derived test.derived ended step.derived closed body.derived
  read budget noElse enough := by
    have takenStart := start.derived.least_le
    have takenTest := test.derived.least_le
    have takenStep := step.derived.least_le
    have taken := body.derived.least_le
    simp only [Lasts, Nonterminal.least, List.length_cons] at *
    obtain ⟨budget, rfl⟩ : ∃ less, budget = less + 2 := ⟨budget - 2, by omega⟩
    have condition := test.read budget .semicolon (by decide) ⟨_, _, rfl, ended⟩
      (.of_kind ended (by decide)) (by simp only [Lasts, List.length_cons]; omega)
    have increment := step.read budget .rightParen (by decide) ⟨_, _, rfl, closed⟩
      (.of_kind closed (by decide)) (by simp only [Lasts, List.length_cons]; omega)
    exact gives_for keyword opened (start.read budget (by omega)) condition ended increment closed
      (body.read budget noElse (by omega))

end Branches

-----------------------------------------------------------------------------------------
-- Declarations
-----------------------------------------------------------------------------------------

theorem uninitialized {word name semicolon : Token} (keyword : word.kind = .keyword .var)
    (named : name.kind = .identifier) (ended : semicolon.kind = .mark .semicolon)
    : Reads .varDecl (word :: name :: semicolon :: rest) (.var name none) rest where
  derived := .uninitialized keyword named ended
  read budget enough := by
    simp only [Lasts, List.length_cons] at enough
    obtain ⟨budget, rfl⟩ : ∃ less, budget = less + 1 := ⟨budget - 1, by omega⟩
    exact gives_uninitialized named ended

theorem initialized {word name equal semicolon : Token} (keyword : word.kind = .keyword .var)
    (named : name.kind = .identifier) (sign : equal.kind = .mark .equal)
    (initializer : Reads .expression tokens expr (semicolon :: rest))
    (ended : semicolon.kind = .mark .semicolon)
    : Reads .varDecl (word :: name :: equal :: tokens) (.var name (some expr)) rest where
  derived := .initialized keyword named sign initializer.derived ended
  read budget enough := by
    have taken := initializer.derived.least_le
    simp only [Lasts, Nonterminal.least, List.length_cons] at enough taken
    obtain ⟨budget, rfl⟩ : ∃ less, budget = less + 1 := ⟨budget - 1, by omega⟩
    have value := initializer.read budget (.of_kind ended (by decide))
      (by simp only [Lasts, List.length_cons]; omega)
    exact gives_initialized named sign value ended

theorem block {opening closing : Token} {stmts : List Stmt}
    (opened : opening.kind = .mark .leftBrace)
    (body : Reads .declarations tokens stmts (closing :: rest))
    (closed : closing.kind = .mark .rightBrace)
    : Reads .block (opening :: tokens) stmts rest where
  derived := .block opened body.derived closed
  read budget enough := by
    simp only [Lasts, List.length_cons] at enough
    exact body.read.1 budget _ _ rfl closed (by simp only [Lasts, List.length_cons]; omega)

theorem function {name : Token} {parameters : List Token} {stmts : List Stmt}
    (named : name.kind = .identifier) (listed : Parameters tokens parameters middle)
    (body : Reads .block middle stmts rest)
    : Reads .function (name :: tokens) ⟨some name, name, parameters, stmts⟩ rest where
  derived := .function named listed body.derived
  read budget enough := by
    have takenNames := listed.length_lt
    have taken := body.derived.least_le
    obtain ⟨opening, more, rfl, opened⟩ := body.derived.starts
    simp only [Lasts, Nonterminal.least, List.length_cons] at enough takenNames taken
    obtain ⟨budget, rfl⟩ : ∃ less, budget = less + 1 := ⟨budget - 1, by omega⟩
    have inside := body.read budget (by simp only [Lasts, List.length_cons]; omega)
    exact gives_function named listed opened inside

section Members

variable {declared : FunctionDecl} {methods statics : List FunctionDecl}

theorem noMember : Reads .members rest ([], []) rest where
  derived := .noMember
  read budget closed enough := by
    obtain ⟨closing, more, rfl, closed⟩ := closed
    obtain ⟨budget, rfl⟩ : ∃ less, budget = less + 1 := ⟨budget - 1, by omega⟩
    exact gives_noMember closed

theorem staticMember {word : Token} (keyword : word.kind = .keyword .static)
    (first : Reads .function tokens declared middle)
    (others : Reads .members middle (methods, statics) rest)
    : Reads .members (word :: tokens) (methods, declared :: statics) rest where
  derived := .staticMember keyword first.derived others.derived
  read budget closed enough := by
    have takenFirst := first.derived.least_le
    have taken := others.derived.least_le
    simp only [Lasts, Nonterminal.least, List.length_cons] at enough takenFirst taken
    obtain ⟨budget, rfl⟩ : ∃ less, budget = less + 1 := ⟨budget - 1, by omega⟩
    exact gives_staticMember keyword (first.read budget (by omega))
      (others.read budget closed (by omega))

theorem member (first : Reads .function tokens declared middle)
    (others : Reads .members middle (methods, statics) rest)
    : Reads .members tokens (declared :: methods, statics) rest where
  derived := .member first.derived others.derived
  read budget closed enough := by
    have takenFirst := first.derived.least_le
    have taken := others.derived.least_le
    simp only [Nonterminal.least] at takenFirst taken
    obtain ⟨budget, rfl⟩ : ∃ less, budget = less + 1 := ⟨budget - 1, by omega⟩
    exact gives_member first.derived.starts (first.read budget (by omega))
      (others.read budget closed (by omega))

theorem «class» {word name opening closing : Token} {superclass : Option Occurrence}
    (keyword : word.kind = .keyword .class) (named : name.kind = .identifier)
    (clause : Clause tokens superclass (opening :: middle))
    (opened : opening.kind = .mark .leftBrace)
    (members : Reads .members middle (methods, statics) (closing :: rest))
    (closed : closing.kind = .mark .rightBrace)
    : Reads .declaration (word :: name :: tokens) (.class ⟨name, superclass, methods, statics⟩)
        rest where
  derived := .class keyword named clause opened members.derived closed
  read budget _ enough := by
    have takenClause := clause.length_le
    have taken := members.derived.least_le
    simp only [Lasts, Nonterminal.least, List.length_cons] at enough takenClause taken
    obtain ⟨budget, rfl⟩ : ∃ less, budget = less + 2 := ⟨budget - 2, by omega⟩
    have inside := members.read budget ⟨_, _, rfl, closed⟩
      (by simp only [Lasts, List.length_cons]; omega)
    exact gives_class keyword named clause opened inside closed

theorem named {word : Token} (keyword : word.kind = .keyword .fun)
    (body : Reads .function tokens declared rest)
    : Reads .declaration (word :: tokens) (.function declared) rest where
  derived := .named keyword body.derived
  read budget _ enough := by
    have taken := body.derived.least_le
    simp only [Lasts, Nonterminal.least, List.length_cons] at enough taken
    obtain ⟨budget, rfl⟩ : ∃ less, budget = less + 1 := ⟨budget - 1, by omega⟩
    exact gives_named keyword body.derived.starts (body.read budget (by omega))

end Members

theorem var (declared : Reads .varDecl tokens stmt rest)
    : Reads .declaration tokens stmt rest where
  derived := .var declared.derived
  read budget _ enough := by
    have taken := declared.derived.least_le
    obtain ⟨word, more, rfl, keyword⟩ := declared.derived.starts
    simp only [Lasts, Nonterminal.least, List.length_cons] at enough taken
    obtain ⟨budget, rfl⟩ : ∃ less, budget = less + 1 := ⟨budget - 1, by omega⟩
    have inside := declared.read budget (by simp only [Lasts, List.length_cons]; omega)
    exact gives_varDeclaration keyword inside

theorem statement {unmatched : Bool} (stated : Reads (.statement unmatched) tokens stmt rest)
    : Reads .declaration tokens stmt rest where
  derived := .statement stated.derived
  read budget noElse enough := by
    have taken := stated.derived.least_le
    simp only [Nonterminal.least] at taken
    obtain ⟨budget, rfl⟩ : ∃ less, budget = less + 1 := ⟨budget - 1, by omega⟩
    exact gives_statement stated.derived.starts (stated.read budget (fun _ => noElse) (by omega))

theorem noDeclaration : Reads .declarations rest [] rest := by
  refine ⟨.noDeclaration, ?_, ?_⟩
  · rintro budget closing more rfl closed enough
    obtain ⟨budget, rfl⟩ : ∃ less, budget = less + 1 := ⟨budget - 1, by omega⟩
    exact gives_blockEnd closed
  · rintro budget rfl enough
    obtain ⟨budget, rfl⟩ : ∃ less, budget = less + 1 := ⟨budget - 1, by omega⟩
    exact completes_nil

/-- What follows other declarations is no `else`, and neither is what they start with. -/
theorem misses_else {stmts : List Stmt} (others : Derives .nearest .declarations middle stmts rest)
    (ends : Misses (·.isKeyword .else) rest)
    : Misses (·.isKeyword .else) middle := by
  cases others with
  | noDeclaration => exact ends
  | moreDeclarations first _ =>
      exact misses_of_opening first.starts opening_of_declaration (by decide)

/-- A declaration before the others. -/
theorem moreDeclarations {stmts : List Stmt} (first : Reads .declaration tokens stmt middle)
    (others : Reads .declarations middle stmts rest)
    : Reads .declarations tokens (stmt :: stmts) rest := by
  have starts : StartsWith DeclarationWord tokens := first.derived.starts
  have takenFirst := first.derived.least_le
  have taken := others.derived.least_le
  simp only [Nonterminal.least] at takenFirst taken
  refine ⟨.moreDeclarations first.derived others.derived, ?_, ?_⟩
  · rintro budget closing more rfl closed enough
    obtain ⟨budget, rfl⟩ : ∃ less, budget = less + 1 := ⟨budget - 1, by omega⟩
    have noElse := misses_else others.derived (misses_of_kind closed rfl)
    exact gives_blockMore starts (first.read budget noElse (by omega))
      (others.read.1 budget closing more rfl closed (by omega))
  · rintro budget rfl enough
    obtain ⟨budget, rfl⟩ : ∃ less, budget = less + 1 := ⟨budget - 1, by omega⟩
    have noElse := misses_else others.derived misses_nil
    exact completes_cons starts (first.read budget noElse (by omega))
      (others.read.2 budget rfl (by omega))

end Reads

/-- What is derived is read. By induction on the derivation. -/
theorem Reads.of_derives {symbol : Nonterminal} {tree : symbol.Tree}
    (h : Derives .nearest symbol tokens tree rest)
    : Reads symbol tokens tree rest := by
  induction h with
  | noDeclaration => exact .noDeclaration
  | moreDeclarations _ _ first others => exact .moreDeclarations first others
  | «class» keyword named clause opened _ closed members =>
      exact .class keyword named clause opened members closed
  | named keyword _ body => exact .named keyword body
  | var _ declared => exact .var declared
  | statement _ stated => exact .statement stated
  | noMember => exact .noMember
  | staticMember keyword _ _ first others => exact .staticMember keyword first others
  | member _ _ first others => exact .member first others
  | function named listed _ body => exact .function named listed body
  | uninitialized keyword named ended => exact .uninitialized keyword named ended
  | initialized keyword named sign _ ended initializer =>
      exact .initialized keyword named sign initializer ended
  | block opened _ closed body => exact .block opened body closed
  | expressionStatement _ stated => exact .expressionStatement stated
  | «for» keyword opened _ _ ended _ closed _ start test step body =>
      exact .for keyword opened start test ended step closed body
  | «if» keyword opened _ closed _ test taken => exact .if keyword opened test closed taken
  | ifElse keyword opened _ closed _ nearest keywordElse _ test taken left =>
      cases nearest rfl
      exact .ifElse keyword opened test closed taken keywordElse left
  | print keyword _ ended value => exact .print keyword value ended
  | «return» keyword _ ended value => exact .return keyword value ended
  | «while» keyword opened _ closed _ test body => exact .while keyword opened test closed body
  | «break» keyword ended => exact .break keyword ended
  | blockStatement _ body => exact .blockStatement body
  | exprStmt _ ended value => exact .exprStmt value ended
  | noInitializer ended => exact .noInitializer ended
  | initializerVar _ declared => exact .initializerVar declared
  | initializerExpr _ stated => exact .initializerExpr stated
  | absent => exact .absent
  | present _ value => exact .present value
  | assign named sign _ value => exact .assign named sign value
  | set _ dotted named sign _ target value => exact .set target dotted named sign value
  | expression _ value => exact .expression value
  | ternary _ value => exact .ternary value
  | conditional _ asked _ separated _ test taken left =>
      exact .conditional test asked taken separated left
  | chain _ value => exact .chain value
  | logical _ sign _ before operand => exact .logical before sign operand
  | binary _ sign _ before operand => exact .binary before sign operand
  | operand binds _ value => exact .operand binds value
  | factor _ value => exact .factor value
  | unary sign _ operand => exact .unary sign operand
  | unaryCall _ value => exact .unaryCall value
  | primary _ value => exact .primary value
  | callNone _ opened closed callee => exact .callNone callee opened closed
  | call _ opened _ few closed callee given => exact .call callee opened given few closed
  | get _ dotted named object => exact .get object dotted named
  | argument _ value => exact .argument value
  | moreArguments _ separated _ first others => exact .moreArguments first separated others
  | literal constant => exact .literal constant
  | this keyword => exact .this keyword
  | name named => exact .name named
  | grouping opened _ closed inner => exact .grouping opened inner closed
  | super keyword dotted named => exact .super keyword dotted named
  | lambda keyword listed _ body => exact .lambda keyword listed body

end Parser

-----------------------------------------------------------------------------------------
-- Whole sources
-----------------------------------------------------------------------------------------

open Grammar

/-- A derived program is read. -/
theorem Program.parse_of_derives {tokens : List Token} {tree : Program}
    (h : Derives .nearest .declarations tokens tree []) (stop : Token) (first : Nat)
    : ∃ program next,
        Program.parse tokens stop first = (.ok program, next)
          ∧ Stmts.unnumbered program = tree := by
  have completes := (Parser.Reads.of_derives h).read.2
    (Parser.budget ⟨tokens, stop, first⟩) rfl (by simp only [Parser.budget, Parser.Lasts]; omega)
  obtain ⟨program, last, ran, rfl⟩ := completes stop first
  refine ⟨program, last, ?_, rfl⟩
  unfold Program.parse
  dsimp only
  rw [ran]
  rfl

/-- A derived expression is read. -/
theorem Expr.parse?_of_derives {tokens : List Token} {tree : Expr}
    (h : Derives .nearest .expression tokens tree []) (stop : Token) (first : Nat)
    : ∃ expr next,
        Expr.parse? tokens stop first = (some expr, next) ∧ expr.unnumbered = tree := by
  have gives := (Parser.Reads.of_derives h).read
    (Parser.budget ⟨tokens, stop, first⟩) .nil (by simp only [Parser.budget, Parser.Lasts]; omega)
  obtain ⟨expr, last, rfl, ran⟩ := gives stop first
  refine ⟨expr, last, ?_, rfl⟩
  unfold Expr.parse?
  dsimp only
  rw [ran]
  rfl

/-- Tokens are read as a program, or as an expression, if and only if the grammar derives them,
whichever `if` it gives an `else` to. What is read is the tree of the derivation in which every
`else` belongs to the nearest `if`, up to the numbers of occurrences.
-/
theorem Grammar.read_iff_derives (tokens : List Token) (stop : Token) (first : Nat)
    : ((∃ program next, Program.parse tokens stop first = (.ok program, next))
        ↔ ∃ tree, Derives .any .declarations tokens tree [])
      ∧ (∀ tree : Program,
        (∃ program next,
          Program.parse tokens stop first = (.ok program, next)
            ∧ Stmts.unnumbered program = tree)
          ↔ Derives .nearest .declarations tokens tree [])
      ∧ ((∃ expr next, Expr.parse? tokens stop first = (some expr, next))
        ↔ ∃ tree, Derives .any .expression tokens tree [])
      ∧ ∀ tree : Expr,
        (∃ expr next,
          Expr.parse? tokens stop first = (some expr, next) ∧ expr.unnumbered = tree)
          ↔ Derives .nearest .expression tokens tree [] := by
  refine ⟨⟨?_, ?_⟩, fun tree => ⟨?_, fun derived => ?_⟩, ⟨?_, ?_⟩,
    fun tree => ⟨?_, fun derived => ?_⟩⟩
  · rintro ⟨program, next, parsed⟩
    exact ⟨_, Program.derives_of_parse .any parsed⟩
  · rintro ⟨tree, derived⟩
    obtain ⟨nearest, derived⟩ := derived.nearest
    obtain ⟨program, next, parsed, _⟩ := Program.parse_of_derives derived stop first
    exact ⟨program, next, parsed⟩
  · rintro ⟨program, next, parsed, rfl⟩
    exact Program.derives_of_parse .nearest parsed
  · exact Program.parse_of_derives derived stop first
  · rintro ⟨expr, next, parsed⟩
    exact ⟨_, Expr.derives_of_parse? .any parsed⟩
  · rintro ⟨tree, derived⟩
    obtain ⟨nearest, derived⟩ := derived.nearest
    obtain ⟨expr, next, parsed, _⟩ := Expr.parse?_of_derives derived stop first
    exact ⟨expr, next, parsed⟩
  · rintro ⟨expr, next, parsed, rfl⟩
    exact Expr.derives_of_parse? .nearest parsed
  · exact Expr.parse?_of_derives derived stop first

end Lox
