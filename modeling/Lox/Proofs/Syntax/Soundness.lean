import Lox.Proofs.Syntax.Derivation

/-! What is read is derived. A reader that succeeds has taken tokens that the grammar derives, and
its result is their tree. One theorem for each reader, by induction on the budget as the readers
descend.
-/

namespace Lox

-----------------------------------------------------------------------------------------
-- Tests of tokens
-----------------------------------------------------------------------------------------

theorem Token.isMark_iff (token : Token) (mark : Mark)
    : token.isMark mark = true ↔ token.kind = .mark mark := by
  unfold Token.isMark
  cases token.kind <;> simp [TokenKind.sameCategory]

theorem Token.isKeyword_iff (token : Token) (keyword : Keyword)
    : token.isKeyword keyword = true ↔ token.kind = .keyword keyword := by
  unfold Token.isKeyword
  cases token.kind <;> simp [TokenKind.sameCategory]

theorem Token.isIdentifier_iff (token : Token)
    : token.isIdentifier = true ↔ token.kind = .identifier := by
  unfold Token.isIdentifier
  cases token.kind <;> simp [TokenKind.sameCategory]

namespace Reader

variable {α β : Type}

/-- The next two tokens decide which of two readers goes on. -/
theorem run_seesTwo (test testSecond : Token → Bool) (yes no : Reader β) (ahead : List Token)
    (stop : Token) (first : Nat)
    : (do if (← sees test) && (← seesSecond testSecond) then yes else no : Reader β)
          ⟨ahead, stop, first⟩
      = (if (ahead.head?.any test && ahead.tail.head?.any testSecond) = true then yes else no)
          ⟨ahead, stop, first⟩ := by
  cases ahead <;> rfl

-----------------------------------------------------------------------------------------
-- What readers take
-----------------------------------------------------------------------------------------

/-- Whenever the reader succeeds on the tokens, its result and the tokens that are left come to a
goal.
-/
def Takes (reader : Reader α) (ahead : List Token) (goal : α → List Token → Prop) : Prop :=
  ∀ (stop : Token) (first : Nat) (value : α) (after : Cursor),
    reader ⟨ahead, stop, first⟩ = .ok value after → goal value after.ahead

namespace Takes

variable {reader : Reader α} {next : α → Reader β} {ahead : List Token}
  {goal : α → List Token → Prop} {last : β → List Token → Prop}

theorem pure {value : α} (h : goal value ahead) : Takes (Pure.pure value) ahead goal := by
  intro stop first _ _ ran
  cases ran
  exact h

theorem fail {cause : SyntaxCause} : Takes (Reader.fail cause) ahead goal := by
  intro stop first value after ran
  cases ran

theorem failAt {token : Token} {cause : SyntaxCause}
    : Takes (Reader.failAt token cause) ahead goal := by
  intro stop first value after ran
  cases ran

/-- One reader after the other. -/
theorem bind (h : Takes reader ahead goal)
    (rest : ∀ value middle, goal value middle → Takes (next value) middle last)
    : Takes (reader >>= next) ahead last := by
  intro stop first value after ran
  simp only [Bind.bind, EStateM.bind] at ran
  split at ran
  · next inner middle ranFirst =>
      exact rest inner middle.ahead (h stop first inner middle ranFirst) _ _ value after ran
  · cases ran

theorem map {change : α → β} (h : Takes reader ahead goal)
    (rest : ∀ value middle, goal value middle → last (change value) middle)
    : Takes (change <$> reader) ahead last :=
  bind h fun value middle reached => pure (rest value middle reached)

theorem mono {weaker : α → List Token → Prop} (h : Takes reader ahead goal)
    (weaken : ∀ value rest, goal value rest → weaker value rest)
    : Takes reader ahead weaker :=
  fun stop first value after ran => weaken value after.ahead (h stop first value after ran)

theorem synchronized (h : Takes reader ahead goal)
    : Takes (Reader.synchronized reader) ahead goal := by
  intro stop first value after ran
  simp only [Reader.synchronized] at ran
  split at ran
  · next ranInside =>
      cases ran
      exact h stop first _ _ ranInside
  · cases ran

/-- A token that passes a test has to be next. -/
theorem expect {test : Token → Bool} {cause : SyntaxCause} {next : Token → Reader β}
    (rest
      : ∀ token more, ahead = token :: more → test token = true → Takes (next token) more last)
    : Takes (Reader.expect test cause >>= next) ahead last := by
  have found : Takes (Reader.expect test cause) ahead fun token more =>
      ahead = token :: more ∧ test token = true := by
    intro stop first value after ran
    cases ahead with
    | nil => cases ran
    | cons token more =>
        simp only [Reader.expect] at ran
        split at ran
        · next passes =>
            cases ran
            exact ⟨rfl, passes⟩
        · cases ran
  exact bind found fun token more reached => rest token more reached.1 reached.2

theorem expectMark {mark : Mark} {cause : SyntaxCause} {next : Token → Reader β}
    (rest
      : ∀ token more, ahead = token :: more → token.kind = .mark mark
        → Takes (next token) more last)
    : Takes (Reader.expectMark mark cause >>= next) ahead last :=
  expect fun token more taken passes => rest token more taken ((token.isMark_iff mark).1 passes)

theorem expectName {cause : SyntaxCause} {next : Token → Reader β}
    (rest
      : ∀ token more, ahead = token :: more → token.kind = .identifier
        → Takes (next token) more last)
    : Takes (Reader.expectName cause >>= next) ahead last :=
  expect fun token more taken passes => rest token more taken (token.isIdentifier_iff.1 passes)

/-- A token that passes a test is taken, any other one is left. -/
theorem accept {test : Token → Bool} {next : Bool → Reader β}
    (yes
      : ∀ token more, ahead = token :: more → test token = true → Takes (next true) more last)
    (no : (∀ token ∈ ahead.head?, test token = false) → Takes (next false) ahead last)
    : Takes (Reader.accept test >>= next) ahead last := by
  have tested : Takes (Reader.accept test) ahead fun taken middle =>
      (taken = true ∧ ∃ token, ahead = token :: middle ∧ test token = true)
        ∨ (taken = false ∧ middle = ahead ∧ ∀ token ∈ ahead.head?, test token = false) := by
    intro stop first value after ran
    cases ahead with
    | nil =>
        cases ran
        exact .inr ⟨rfl, rfl, nofun⟩
    | cons token more =>
        simp only [Reader.accept] at ran
        split at ran
        · next passes =>
            cases ran
            exact .inl ⟨rfl, token, rfl, passes⟩
        · next fails =>
            cases ran
            refine .inr ⟨rfl, rfl, fun other next => ?_⟩
            cases next
            exact Bool.eq_false_iff.2 fails
  refine bind tested fun taken middle reached => ?_
  rcases reached with ⟨rfl, token, taken, passes⟩ | ⟨rfl, rfl, none⟩
  · exact yes token middle taken passes
  · exact no none

theorem acceptMark {mark : Mark} {next : Bool → Reader β}
    (yes
      : ∀ token more, ahead = token :: more → token.kind = .mark mark
        → Takes (next true) more last)
    (no : (∀ token ∈ ahead.head?, token.isMark mark = false) → Takes (next false) ahead last)
    : Takes (Reader.acceptMark mark >>= next) ahead last :=
  accept (fun token more taken passes => yes token more taken ((token.isMark_iff mark).1 passes)) no

theorem acceptKeyword {keyword : Keyword} {next : Bool → Reader β}
    (yes
      : ∀ token more, ahead = token :: more → token.kind = .keyword keyword
        → Takes (next true) more last)
    (no
      : (∀ token ∈ ahead.head?, token.isKeyword keyword = false) → Takes (next false) ahead last)
    : Takes (Reader.accept (·.isKeyword keyword) >>= next) ahead last :=
  accept
    (fun token more taken passes => yes token more taken ((token.isKeyword_iff keyword).1 passes))
    no

/-- The token that passes a test is of use. -/
theorem take? {test : Token → Bool} {next : Option Token → Reader β}
    (some
      : ∀ token more, ahead = token :: more → test token = true
        → Takes (next (some token)) more last)
    (none : Takes (next none) ahead last)
    : Takes (Reader.take? test >>= next) ahead last := by
  have tested : Takes (Reader.take? test) ahead fun taken middle =>
      (∃ token, taken = .some token ∧ ahead = token :: middle ∧ test token = true)
        ∨ (taken = .none ∧ middle = ahead) := by
    intro stop first value after ran
    cases ahead with
    | nil =>
        cases ran
        exact .inr ⟨rfl, rfl⟩
    | cons token more =>
        simp only [Reader.take?] at ran
        split at ran
        · next passes =>
            cases ran
            exact .inl ⟨token, rfl, rfl, passes⟩
        · cases ran
          exact .inr ⟨rfl, rfl⟩
  refine bind tested fun taken middle reached => ?_
  rcases reached with ⟨token, rfl, taken, passes⟩ | ⟨rfl, rfl⟩
  · exact some token middle taken passes
  · exact none

/-- A reader that only looks comes first. -/
theorem look (h : Takes reader ahead fun _ middle => middle = ahead)
    (rest : ∀ value, Takes (next value) ahead last)
    : Takes (reader >>= next) ahead last :=
  bind h fun value _ same => same ▸ rest value

/-- Testing the next token takes nothing. -/
theorem sees {test : Token → Bool} : Takes (Reader.sees test) ahead fun _ rest => rest = ahead := by
  intro stop first value after ran
  cases ran
  rfl

/-- The next token is looked at and left. -/
theorem peek? {next : Option Token → Reader β}
    (some : ∀ token more, ahead = token :: more → Takes (next (some token)) ahead last)
    (none : Takes (next none) ahead last)
    : Takes (Reader.peek? >>= next) ahead last := by
  intro stop first value after ran
  cases ahead with
  | nil => exact none stop first value after ran
  | cons token more => exact some token more rfl stop first value after ran

/-- The next token is passed over. -/
theorem skip {token : Token} {more : List Token} {next : Unit → Reader β}
    (rest : Takes (next ()) more last)
    : Takes (Reader.skip >>= next) (token :: more) last := rest

/-- The next two tokens are tested. -/
theorem seesTwo {test testSecond : Token → Bool} {yes no : Reader β}
    (both
      : ∀ token second more, ahead = token :: second :: more → test token = true
        → testSecond second = true → Takes yes ahead last)
    (other : Takes no ahead last)
    : Takes
        (do if (← Reader.sees test) && (← Reader.seesSecond testSecond) then yes else no)
        ahead last := by
  intro stop first value after ran
  rw [run_seesTwo] at ran
  split at ran
  · next passes =>
      obtain ⟨passes, passesSecond⟩ := Bool.and_eq_true_iff.1 passes
      rcases ahead with _ | ⟨token, _ | ⟨second, more⟩⟩
      · cases passes
      · cases passesSecond
      · exact both token second more rfl passes passesSecond stop first value after ran
  · exact other stop first value after ran

/-- A number is given to an occurrence. -/
theorem occurrence {token : Token} {next : Occurrence → Reader β}
    (rest : ∀ id, Takes (next ⟨id, token⟩) ahead last)
    : Takes (Reader.occurrence token >>= next) ahead last :=
  fun stop first => rest first stop (first + 1)

/-- More is read after a token that passes a test. -/
theorem ifAccepted {test : Token → Bool} {next : Option α → Reader β}
    (yes
      : ∀ token more, ahead = token :: more → test token = true
        → Takes (reader >>= fun value => next (some value)) more last)
    (no : (∀ token ∈ ahead.head?, test token = false) → Takes (next none) ahead last)
    : Takes (Reader.ifAccepted test reader >>= next) ahead last := by
  rw [Reader.ifAccepted, bind_assoc]
  refine accept (fun token more taken passes => ?_) fun none => ?_
  · rw [if_pos rfl, bind_map_left]
    exact yes token more taken passes
  · exact no none

/-- More is read unless a mark is next. -/
theorem unlessMark {mark : Mark} {next : Option α → Reader β}
    (some : Takes (reader >>= fun value => next (some value)) ahead last)
    (none : Takes (next none) ahead last)
    : Takes (Reader.unlessMark mark reader >>= next) ahead last := by
  rw [Reader.unlessMark, bind_assoc]
  refine look .sees fun seen => ?_
  cases seen with
  | true => exact none
  | false =>
      rw [if_neg Bool.false_ne_true, bind_map_left]
      exact some

end Takes

end Reader

namespace Parser

open Reader Grammar

variable {attachment : Attachment}

/-- A declaration as it is read before it moves on from an error. -/
def declaring (budget : Nat) : Reader Stmt := do
  if ← accept (·.isKeyword .class) then classDeclaration budget
  else if (← sees (·.isKeyword .fun)) && (← seesSecond (·.isIdentifier)) then
    skip
    let function ← function budget
    return .function function
  else if ← accept (·.isKeyword .var) then varDeclaration budget
  else statement budget

theorem declaration_eq (budget : Nat)
    : declaration (budget + 1) = synchronized (declaring budget) := by
  rw [declaration]
  rfl

-----------------------------------------------------------------------------------------
-- Lists of names
-----------------------------------------------------------------------------------------

theorem takes_parameterNames (room : Nat) (ahead : List Token)
    : Takes (parameterNames room) ahead fun names rest =>
        ParameterList ahead names rest ∧ names.length ≤ room := by
  induction room generalizing ahead with
  | zero => exact .fail
  | succ room ih =>
      unfold parameterNames
      refine .expectName ?_
      rintro name more rfl named
      refine .accept ?_ ?_
      · rintro comma others rfl separated
        refine .bind (ih others) fun names rest derived => .pure ⟨?_, ?_⟩
        · exact .more named ((comma.isMark_iff _).1 separated) derived.1
        · exact Nat.succ_le_succ derived.2
      · intro _
        exact .pure ⟨.one named, Nat.le_add_left 1 room⟩

/-- The parameters after their opening parenthesis. -/
theorem takes_parameters {opening : Token} (opened : opening.kind = .mark .leftParen)
    (ahead : List Token)
    : Takes parameters ahead fun names rest => Parameters (opening :: ahead) names rest := by
  unfold parameters
  refine .unlessMark ?_ ?_
  · refine .bind (takes_parameterNames maxArity ahead) fun names middle derived => ?_
    refine .expectMark ?_
    rintro closing rest rfl closed
    exact .pure (.some opened derived.1 derived.2 closed)
  · refine .expectMark ?_
    rintro closing rest rfl closed
    exact .pure (.none opened closed)

theorem takes_superclass (ahead : List Token)
    : Takes superclass ahead fun clause rest =>
        Clause ahead (clause.map Occurrence.unnumbered) rest := by
  unfold superclass
  refine .accept ?_ ?_
  · rintro less more rfl sign
    refine .expectName ?_
    rintro name rest rfl named
    exact .occurrence fun id => .pure (.some ((less.isMark_iff _).1 sign) named)
  · intro _
    exact .pure .none

/-- Looking for the end of a block takes nothing. -/
theorem takes_bodyEnds (ahead : List Token) : Takes bodyEnds ahead fun _ rest => rest = ahead := by
  unfold bodyEnds
  refine .look .sees fun seen => ?_
  cases seen with
  | true => exact .pure rfl
  | false =>
      intro stop first value after ran
      cases ran
      rfl

-----------------------------------------------------------------------------------------
-- Tiers of operators
-----------------------------------------------------------------------------------------

theorem tighter_of_tighter? {tier tighter : Tier} (h : tier.tighter? = some tighter)
    : Tighter tier tighter := by
  cases tier <;> cases h <;> constructor

theorem factor_of_tighter? {tier : Tier} (h : tier.tighter? = none) : tier = .factor := by
  cases tier <;> cases h
  rfl

theorem unaryOperator_of_mark {token : Token}
    (h : (token.isMark .bang || token.isMark .minus) = true)
    : UnaryOperator token.kind := by
  rcases Bool.or_eq_true_iff.1 h with h | h
  · exact (token.isMark_iff _).1 h ▸ .bang
  · exact (token.isMark_iff _).1 h ▸ .minus

/-- An operator of a tier extends a chain on the left. -/
theorem derives_join {tier : Tier} {operator : Token} {tokens middle rest : List Token}
    {left right : Expr} (passes : tier.operator operator = true)
    (before : Derives attachment (.chain tier) tokens left.unnumbered (operator :: middle))
    (operand : Derives attachment (.operand tier) middle right.unnumbered rest)
    : Derives attachment (.chain tier) tokens (tier.join operator left right).unnumbered rest := by
  unfold Tier.operator at passes
  split at passes
  case h_1 kind => exact .logical before (kind ▸ .or) operand
  case h_2 kind => exact .logical before (kind ▸ .and) operand
  case h_3 kind => exact .binary before (kind ▸ .bangEqual) operand
  case h_4 kind => exact .binary before (kind ▸ .equalEqual) operand
  case h_5 kind => exact .binary before (kind ▸ .greater) operand
  case h_6 kind => exact .binary before (kind ▸ .greaterEqual) operand
  case h_7 kind => exact .binary before (kind ▸ .less) operand
  case h_8 kind => exact .binary before (kind ▸ .lessEqual) operand
  case h_9 kind => exact .binary before (kind ▸ .minus) operand
  case h_10 kind => exact .binary before (kind ▸ .plus) operand
  case h_11 kind => exact .binary before (kind ▸ .slash) operand
  case h_12 kind => exact .binary before (kind ▸ .star) operand
  case h_13 => cases passes

-----------------------------------------------------------------------------------------
-- Every reader takes what the grammar derives
-----------------------------------------------------------------------------------------

/-- A `for` loop is read as its `while` form. -/
theorem unnumbered_ofFor (initializer : Option Stmt) (condition increment : Option Expr)
    (body : Stmt)
    : (Stmt.ofFor initializer condition increment body).unnumbered
      = whileForm (initializer.map Stmt.unnumbered) (condition.map Expr.unnumbered)
          (increment.map Expr.unnumbered) body.unnumbered := by
  cases initializer <;> cases condition <;> cases increment <;> rfl

/-- A statement is derived, and an `else` after it does not fit. -/
def Stated (attachment : Attachment) (ahead : List Token) (stmt : Stmt) (rest : List Token) :
    Prop :=
  ∃ unmatched,
    Derives attachment (.statement unmatched) ahead stmt.unnumbered rest
      ∧ (unmatched = true → ∀ token ∈ rest.head?, token.kind ≠ .keyword .else)

/-- A statement of the kind that no `else` can follow. -/
theorem Stated.matched {ahead rest : List Token} {stmt : Stmt}
    (h : Derives attachment (.statement false) ahead stmt.unnumbered rest)
    : Stated attachment ahead stmt rest :=
  ⟨false, h, nofun⟩

/-- Declarations are derived up to the brace that closes their block. -/
def Closed (attachment : Attachment) (ahead : List Token) (stmts : List Stmt)
    (rest : List Token) : Prop :=
  ∃ closing : Token,
    closing.kind = .mark .rightBrace
      ∧ Derives attachment .declarations ahead (Stmts.unnumbered stmts) (closing :: rest)

/-- The block from its opening brace on. -/
theorem Closed.block {ahead rest : List Token} {stmts : List Stmt} {opening : Token}
    (h : Closed attachment ahead stmts rest) (opened : opening.kind = .mark .leftBrace)
    : Derives attachment .block (opening :: ahead) (Stmts.unnumbered stmts) rest := by
  obtain ⟨closing, closed, derived⟩ := h
  exact .block opened derived closed

/-- An expression that may be missing before a mark. -/
theorem takes_optional {mark : Mark} {reader : Reader Expr} {ahead : List Token}
    (h
      : Takes reader ahead fun expr rest =>
          Derives attachment .expression ahead expr.unnumbered rest)
    : Takes (unlessMark mark reader) ahead fun value rest =>
        Derives attachment .optional ahead (value.map Expr.unnumbered) rest := by
  unfold unlessMark
  refine .look .sees fun seen => ?_
  split
  · exact .pure .absent
  · exact .map h fun _ _ derived => .present derived

theorem takes_breakStatement {word : Token} (keyword : word.kind = .keyword .break)
    (ahead : List Token)
    : Takes (breakStatement word) ahead (Stated attachment (word :: ahead)) := by
  unfold breakStatement
  refine .expectMark ?_
  rintro semicolon rest rfl ended
  exact .pure (.matched (.break keyword ended))

mutual

theorem takes_declaration (budget : Nat) (ahead : List Token)
    : Takes (declaration budget) ahead fun stmt rest =>
        Derives attachment .declaration ahead stmt.unnumbered rest := by
  cases budget with
  | zero => exact .fail
  | succ budget =>
      unfold declaration
      refine .synchronized (.acceptKeyword ?_ fun _ => ?_)
      · rintro word more rfl keyword
        exact takes_classDeclaration budget keyword more
      refine .seesTwo ?_ ?_
      · rintro word name more rfl passes _
        refine .skip (.bind (takes_function budget _) fun function rest declared => .pure ?_)
        exact .named ((word.isKeyword_iff _).1 passes) declared
      refine .acceptKeyword ?_ fun _ => ?_
      · rintro word more rfl keyword
        exact (takes_varDeclaration budget keyword more).mono fun _ _ declared => .var declared
      refine (takes_statement budget ahead).mono fun stmt rest stated => ?_
      obtain ⟨unmatched, derived, _⟩ := stated
      exact .statement derived

termination_by budget
decreasing_by all_goals omega

/-- A class after its keyword. -/
theorem takes_classDeclaration (budget : Nat) {word : Token}
    (keyword : word.kind = .keyword .class) (ahead : List Token)
    : Takes (classDeclaration budget) ahead fun stmt rest =>
        Derives attachment .declaration (word :: ahead) stmt.unnumbered rest := by
  cases budget with
  | zero => exact .fail
  | succ budget =>
      unfold classDeclaration
      refine .expectName ?_
      rintro name afterName rfl named
      refine .bind (takes_superclass afterName) fun superclass middle clause => ?_
      refine .expectMark ?_
      rintro opening inside rfl opened
      refine .bind (takes_members budget inside) fun members afterMembers derived => ?_
      refine .expectMark ?_
      rintro closing rest rfl closed
      exact .pure (.class keyword named clause opened derived closed)
termination_by budget
decreasing_by all_goals omega

theorem takes_members (budget : Nat) (ahead : List Token)
    : Takes (members budget) ahead fun members rest =>
        Derives attachment .members ahead
          (Functions.unnumbered members.1, Functions.unnumbered members.2) rest := by
  cases budget with
  | zero => exact .fail
  | succ budget =>
      unfold members
      refine .look (takes_bodyEnds ahead) fun ends => ?_
      split
      · exact .pure .noMember
      refine .accept ?_ fun _ => ?_
      · rintro word more rfl passes
        refine .bind (takes_function budget more) fun function middle first => ?_
        refine .bind (takes_members budget middle) fun members rest others => .pure ?_
        exact .staticMember ((word.isKeyword_iff _).1 passes) first others
      · refine .bind (takes_function budget ahead) fun function middle first => ?_
        refine .bind (takes_members budget middle) fun members rest others => .pure ?_
        exact .member first others
termination_by budget
decreasing_by all_goals omega

theorem takes_function (budget : Nat) (ahead : List Token)
    : Takes (function budget) ahead fun function rest =>
        Derives attachment .function ahead function.unnumbered rest := by
  cases budget with
  | zero => exact .fail
  | succ budget =>
      unfold function
      refine .expectName ?_
      rintro name afterName rfl named
      refine .expectMark ?_
      rintro opening more rfl opened
      refine .bind (takes_parameters opened more) fun parameters afterParameters listed => ?_
      refine .expectMark ?_
      rintro openingBody inside rfl openedBody
      refine .bind (takes_block budget inside) fun body rest closed => .pure ?_
      exact .function named listed (closed.block openedBody)
termination_by budget
decreasing_by all_goals omega

/-- A variable after its keyword. -/
theorem takes_varDeclaration (budget : Nat) {word : Token} (keyword : word.kind = .keyword .var)
    (ahead : List Token)
    : Takes (varDeclaration budget) ahead fun stmt rest =>
        Derives attachment .varDecl (word :: ahead) stmt.unnumbered rest := by
  cases budget with
  | zero => exact .fail
  | succ budget =>
      unfold varDeclaration
      refine .expectName ?_
      rintro name afterName rfl named
      refine .ifAccepted ?_ fun _ => ?_
      · rintro equal more rfl passes
        refine .bind (takes_expression budget more) fun value middle initializer => ?_
        refine .expectMark ?_
        rintro semicolon rest rfl ended
        exact .pure (.initialized keyword named ((equal.isMark_iff _).1 passes) initializer ended)
      · refine .expectMark ?_
        rintro semicolon rest rfl ended
        exact .pure (.uninitialized keyword named ended)
termination_by budget
decreasing_by all_goals omega

theorem takes_statement (budget : Nat) (ahead : List Token)
    : Takes (statement budget) ahead (Stated attachment ahead) := by
  cases budget with
  | zero => exact .fail
  | succ budget =>
      have plain : Takes (expressionStatement budget) ahead (Stated attachment ahead) :=
        (takes_expressionStatement budget ahead).mono fun _ _ derived =>
          .matched (.expressionStatement derived)
      unfold statement
      refine .peek? ?_ plain
      rintro word more rfl
      dsimp only
      split
      case h_1 keyword => exact .skip (takes_forStatement budget keyword more)
      case h_2 keyword => exact .skip (takes_ifStatement budget keyword more)
      case h_3 keyword => exact .skip (takes_whileStatement budget keyword more)
      case h_4 keyword => exact .skip (takes_breakStatement keyword more)
      case h_5 keyword => exact .skip (takes_returnStatement budget keyword more)
      case h_6 opened =>
        refine .skip (.map (takes_block budget more) fun body rest closed => ?_)
        exact .matched (.blockStatement (closed.block opened))
      case h_7 keyword => exact .skip (takes_printStatement budget keyword more)
      case h_8 => exact plain
termination_by budget
decreasing_by all_goals omega

theorem takes_forInitializer (budget : Nat) (ahead : List Token)
    : Takes (forInitializer budget) ahead fun start rest =>
        Derives attachment .forInitializer ahead (start.map Stmt.unnumbered) rest := by
  cases budget with
  | zero => exact .fail
  | succ budget =>
      unfold forInitializer
      refine .acceptMark ?_ fun _ => ?_
      · rintro semicolon rest rfl ended
        exact .pure (.noInitializer ended)
      refine .acceptKeyword ?_ fun _ => ?_
      · rintro word more rfl keyword
        refine .map (takes_varDeclaration budget keyword more) fun stmt rest declared => ?_
        exact .initializerVar declared
      · refine .map (takes_expressionStatement budget ahead) fun stmt rest stated => ?_
        exact .initializerExpr stated
termination_by budget
decreasing_by all_goals omega

theorem takes_forStatement (budget : Nat) {word : Token} (keyword : word.kind = .keyword .for)
    (ahead : List Token)
    : Takes (forStatement budget) ahead (Stated attachment (word :: ahead)) := by
  cases budget with
  | zero => exact .fail
  | succ budget =>
      unfold forStatement
      refine .expectMark ?_
      rintro opening more rfl opened
      refine .bind (takes_forInitializer budget more) fun initializer afterInitializer start => ?_
      refine .bind (takes_optional (takes_expression budget afterInitializer))
        fun condition middle test => ?_
      refine .expectMark ?_
      rintro semicolon afterCondition rfl ended
      refine .bind (takes_optional (takes_expression budget afterCondition))
        fun increment middle step => ?_
      refine .expectMark ?_
      rintro closing afterIncrement rfl closed
      refine .bind (takes_statement budget afterIncrement) fun body rest stated => .pure ?_
      obtain ⟨unmatched, derived, noElse⟩ := stated
      refine ⟨unmatched, ?_, noElse⟩
      rw [unnumbered_ofFor]
      exact .for keyword opened start test ended step closed derived
termination_by budget
decreasing_by all_goals omega

theorem takes_ifStatement (budget : Nat) {word : Token} (keyword : word.kind = .keyword .if)
    (ahead : List Token)
    : Takes (ifStatement budget) ahead (Stated attachment (word :: ahead)) := by
  cases budget with
  | zero => exact .fail
  | succ budget =>
      unfold ifStatement
      refine .expectMark ?_
      rintro opening more rfl opened
      refine .bind (takes_expression budget more) fun condition middle test => ?_
      refine .expectMark ?_
      rintro closing afterCondition rfl closed
      refine .bind (takes_statement budget afterCondition) fun positive afterPositive stated => ?_
      obtain ⟨unmatched, taken, noElse⟩ := stated
      refine .ifAccepted ?_ fun none => ?_
      · rintro otherwise next rfl passes
        have keywordElse := (otherwise.isKeyword_iff _).1 passes
        refine .bind (takes_statement budget next) fun negative rest stated => .pure ?_
        obtain ⟨unmatchedElse, left, noElseAfter⟩ := stated
        -- the `else` shows that the branch before it ends in no `if` of its own
        cases unmatched with
        | true => exact absurd keywordElse (noElse rfl otherwise rfl)
        | false =>
            refine ⟨unmatchedElse, ?_, noElseAfter⟩
            exact .ifElse keyword opened test closed taken (fun _ => rfl) keywordElse left
      · refine .pure ⟨true, .if keyword opened test closed taken, fun _ token next => ?_⟩
        exact fun keywordElse => Bool.false_ne_true
          ((none token next).symm.trans ((token.isKeyword_iff _).2 keywordElse))
termination_by budget
decreasing_by all_goals omega

theorem takes_whileStatement (budget : Nat) {word : Token} (keyword : word.kind = .keyword .while)
    (ahead : List Token)
    : Takes (whileStatement budget) ahead (Stated attachment (word :: ahead)) := by
  cases budget with
  | zero => exact .fail
  | succ budget =>
      unfold whileStatement
      refine .expectMark ?_
      rintro opening more rfl opened
      refine .bind (takes_expression budget more) fun condition middle test => ?_
      refine .expectMark ?_
      rintro closing afterCondition rfl closed
      refine .bind (takes_statement budget afterCondition) fun body rest stated => .pure ?_
      obtain ⟨unmatched, derived, noElse⟩ := stated
      exact ⟨unmatched, .while keyword opened test closed derived, noElse⟩
termination_by budget
decreasing_by all_goals omega

theorem takes_returnStatement (budget : Nat) {word : Token}
    (keyword : word.kind = .keyword .return) (ahead : List Token)
    : Takes (returnStatement budget word) ahead (Stated attachment (word :: ahead)) := by
  cases budget with
  | zero => exact .fail
  | succ budget =>
      unfold returnStatement
      refine .bind (takes_optional (takes_expression budget ahead)) fun value middle derived => ?_
      refine .expectMark ?_
      rintro semicolon rest rfl ended
      refine .pure (.matched ?_)
      cases value <;> exact .return keyword derived ended
termination_by budget
decreasing_by all_goals omega

theorem takes_printStatement (budget : Nat) {word : Token}
    (keyword : word.kind = .keyword .print) (ahead : List Token)
    : Takes (printStatement budget word) ahead (Stated attachment (word :: ahead)) := by
  cases budget with
  | zero => exact .fail
  | succ budget =>
      unfold printStatement
      refine .bind (takes_expression budget ahead) fun value middle derived => ?_
      refine .expectMark ?_
      rintro semicolon rest rfl ended
      exact .pure (.matched (.print keyword derived ended))
termination_by budget
decreasing_by all_goals omega

theorem takes_expressionStatement (budget : Nat) (ahead : List Token)
    : Takes (expressionStatement budget) ahead fun stmt rest =>
        Derives attachment .exprStmt ahead stmt.unnumbered rest := by
  cases budget with
  | zero => exact .fail
  | succ budget =>
      unfold expressionStatement
      refine .bind (takes_expression budget ahead) fun value middle derived => ?_
      refine .expectMark ?_
      rintro semicolon rest rfl ended
      exact .pure (.exprStmt derived ended)
termination_by budget
decreasing_by all_goals omega

theorem takes_block (budget : Nat) (ahead : List Token)
    : Takes (block budget) ahead (Closed attachment ahead) := by
  cases budget with
  | zero => exact .fail
  | succ budget =>
      unfold block
      refine .look (takes_bodyEnds ahead) fun ends => ?_
      split
      · refine .expectMark ?_
        rintro closing rest rfl closed
        exact .pure ⟨closing, closed, .noDeclaration⟩
      refine .bind (takes_declaration budget ahead) fun stmt middle first => ?_
      refine .bind (takes_block budget middle) fun stmts rest others => .pure ?_
      obtain ⟨closing, closed, derived⟩ := others
      exact ⟨closing, closed, .moreDeclarations first derived⟩
termination_by budget
decreasing_by all_goals omega

theorem takes_expression (budget : Nat) (ahead : List Token)
    : Takes (expression budget) ahead fun expr rest =>
        Derives attachment .expression ahead expr.unnumbered rest := by
  cases budget with
  | zero => exact .fail
  | succ budget =>
      unfold expression
      refine .bind (takes_conditional budget ahead) fun target middle derived => ?_
      refine .take? ?_ (.pure (.expression derived))
      rintro equal more rfl passes
      have sign := (equal.isMark_iff _).1 passes
      refine .bind (takes_expression budget more) fun value rest inside => ?_
      have assigns := derived.assigns
      split
      · next read =>
          obtain ⟨_, named, rfl⟩ := assigns
          exact .occurrence fun id => .pure (.assign named sign inside)
      · next object property =>
          obtain ⟨dot, called, dotted, named⟩ := assigns
          exact .pure (.set called dotted named sign inside)
      · exact .failAt
termination_by budget
decreasing_by all_goals omega

theorem takes_conditional (budget : Nat) (ahead : List Token)
    : Takes (conditional budget) ahead fun expr rest =>
        Derives attachment .ternary ahead expr.unnumbered rest := by
  cases budget with
  | zero => exact .fail
  | succ budget =>
      unfold conditional
      refine .bind (takes_chain budget .or ahead) fun condition middle test => ?_
      refine .acceptMark ?_ fun _ => .pure (.ternary test)
      rintro question more rfl asked
      refine .bind (takes_expression budget more) fun positive middle taken => ?_
      refine .expectMark ?_
      rintro colon next rfl separated
      refine .bind (takes_conditional budget next) fun negative rest left => .pure ?_
      exact .conditional test asked taken separated left
termination_by budget
decreasing_by all_goals omega

theorem takes_chain (budget : Nat) (tier : Tier) (ahead : List Token)
    : Takes (chain budget tier) ahead fun expr rest =>
        Derives attachment (.chain tier) ahead expr.unnumbered rest := by
  cases budget with
  | zero => exact .fail
  | succ budget =>
      unfold chain
      refine .bind (takes_operand budget tier ahead) fun left middle derived => ?_
      exact takes_chainFrom budget (.chain derived)
termination_by budget
decreasing_by all_goals omega

/-- The rest of a chain, whose left part was derived from the tokens before. -/
theorem takes_chainFrom (budget : Nat) {tier : Tier} {tokens ahead : List Token} {left : Expr}
    (before : Derives attachment (.chain tier) tokens left.unnumbered ahead)
    : Takes (chainFrom budget tier left) ahead fun expr rest =>
        Derives attachment (.chain tier) tokens expr.unnumbered rest := by
  cases budget with
  | zero => exact .fail
  | succ budget =>
      unfold chainFrom
      refine .take? ?_ (.pure before)
      rintro operator more rfl passes
      refine .bind (takes_operand budget tier more) fun right middle derived => ?_
      exact takes_chainFrom budget (derives_join passes before derived)
termination_by budget
decreasing_by all_goals omega

theorem takes_operand (budget : Nat) (tier : Tier) (ahead : List Token)
    : Takes (operand budget tier) ahead fun expr rest =>
        Derives attachment (.operand tier) ahead expr.unnumbered rest := by
  cases budget with
  | zero => exact .fail
  | succ budget =>
      unfold operand
      split
      · next tighter found =>
          exact (takes_chain budget tighter ahead).mono fun _ _ derived =>
            .operand (tighter_of_tighter? found) derived
      · next none =>
          cases factor_of_tighter? none
          exact (takes_unary budget ahead).mono fun _ _ derived => .factor derived
termination_by budget
decreasing_by all_goals omega

theorem takes_unary (budget : Nat) (ahead : List Token)
    : Takes (unary budget) ahead fun expr rest =>
        Derives attachment .unary ahead expr.unnumbered rest := by
  cases budget with
  | zero => exact .fail
  | succ budget =>
      unfold unary
      refine .take? ?_ ?_
      · rintro operator more rfl passes
        refine .bind (takes_unary budget more) fun operand rest derived => .pure ?_
        exact .unary (unaryOperator_of_mark passes) derived
      · refine .bind (takes_primary budget ahead) fun callee middle derived => ?_
        exact (takes_calls budget (.primary derived)).mono fun _ _ called => .unaryCall called
termination_by budget
decreasing_by all_goals omega

/-- What follows a callee, which was derived from the tokens before. -/
theorem takes_calls (budget : Nat) {tokens ahead : List Token} {callee : Expr}
    (before : Derives attachment .call tokens callee.unnumbered ahead)
    : Takes (calls budget callee) ahead fun expr rest =>
        Derives attachment .call tokens expr.unnumbered rest := by
  cases budget with
  | zero => exact .fail
  | succ budget =>
      unfold calls
      refine .acceptMark ?_ fun _ => ?_
      · rintro opening more rfl opened
        refine .unlessMark ?_ ?_
        · refine .bind (takes_arguments budget maxArity more) fun given middle derived => ?_
          refine .expectMark ?_
          rintro closing rest rfl closed
          have few : (Exprs.unnumbered given).length ≤ 255 := by
            rw [Exprs.length_unnumbered]
            exact derived.2
          exact takes_calls budget (.call before opened derived.1 few closed)
        · refine .expectMark ?_
          rintro closing rest rfl closed
          exact takes_calls budget (.callNone before opened closed)
      refine .acceptMark ?_ fun _ => .pure before
      rintro dot more rfl dotted
      refine .expectName ?_
      rintro name rest rfl named
      exact takes_calls budget (.get before dotted named)
termination_by budget
decreasing_by all_goals omega

theorem takes_arguments (budget room : Nat) (ahead : List Token)
    : Takes (arguments budget room) ahead fun exprs rest =>
        Derives attachment .arguments ahead (Exprs.unnumbered exprs) rest
          ∧ exprs.length ≤ room := by
  cases budget with
  | zero => exact .fail
  | succ budget =>
      cases room with
      | zero => exact .fail
      | succ room =>
          unfold arguments
          refine .bind (takes_expression budget ahead) fun expr middle first => ?_
          refine .acceptMark ?_ fun _ => .pure ⟨.argument first, Nat.le_add_left 1 room⟩
          rintro comma more rfl separated
          refine .bind (takes_arguments budget room more) fun exprs rest others => .pure ?_
          exact ⟨.moreArguments first separated others.1, Nat.succ_le_succ others.2⟩
termination_by budget
decreasing_by all_goals omega

theorem takes_primary (budget : Nat) (ahead : List Token)
    : Takes (primary budget) ahead fun expr rest =>
        Derives attachment .primary ahead expr.unnumbered rest := by
  cases budget with
  | zero => exact .fail
  | succ budget =>
      unfold primary
      refine .peek? ?_ .fail
      rintro token more rfl
      dsimp only
      split
      case h_1 kind => exact .skip (.pure (.literal (kind ▸ .false)))
      case h_2 kind => exact .skip (.pure (.literal (kind ▸ .true)))
      case h_3 kind => exact .skip (.pure (.literal (kind ▸ .nil)))
      case h_4 value kind => exact .skip (.pure (.literal (kind ▸ .number value)))
      case h_5 content kind => exact .skip (.pure (.literal (kind ▸ .string content)))
      case h_6 kind => exact .skip (.occurrence fun id => .pure (.this kind))
      case h_7 kind =>
        refine .skip (.expectMark ?_)
        rintro dot more rfl dotted
        refine .expectName ?_
        rintro method rest rfl named
        exact .occurrence fun id => .pure (.super kind dotted named)
      case h_8 kind => exact .skip (.occurrence fun id => .pure (.name kind))
      case h_9 kind => exact .skip (takes_lambda budget kind more)
      case h_10 kind =>
        refine .skip (.bind (takes_expression budget more) fun inner middle derived => ?_)
        refine .expectMark ?_
        rintro closing rest rfl closed
        exact .pure (.grouping kind derived closed)
      case h_11 => exact .fail
termination_by budget
decreasing_by all_goals omega

/-- A lambda after its keyword. -/
theorem takes_lambda (budget : Nat) {word : Token} (keyword : word.kind = .keyword .fun)
    (ahead : List Token)
    : Takes (lambda budget word) ahead fun expr rest =>
        Derives attachment .primary (word :: ahead) expr.unnumbered rest := by
  cases budget with
  | zero => exact .fail
  | succ budget =>
      unfold lambda
      refine .expectMark ?_
      rintro opening more rfl opened
      refine .bind (takes_parameters opened more) fun parameters afterParameters listed => ?_
      refine .expectMark ?_
      rintro openingBody inside rfl openedBody
      refine .bind (takes_block budget inside) fun body rest closed => .pure ?_
      exact .lambda keyword listed (closed.block openedBody)
termination_by budget
decreasing_by all_goals omega

end

-----------------------------------------------------------------------------------------
-- Whole sources
-----------------------------------------------------------------------------------------

/-- Declarations without an error are derived. By induction over the budget, which lasts since a
declaration takes a token.
-/
theorem declarations_derived (attachment : Attachment) (budget : Nat) (cursor : Cursor)
    (enough : cursor.ahead.length < budget) (none : (declarations budget cursor).2.1 = [])
    : Derives attachment .declarations cursor.ahead
        (Stmts.unnumbered (declarations budget cursor).1) [] := by
  induction budget generalizing cursor with
  | zero => exact absurd enough (Nat.not_lt_zero _)
  | succ budget ih =>
      unfold declarations at none ⊢
      split at none
      · next ended =>
          rw [if_pos ended, List.isEmpty_iff.1 ended]
          exact .noDeclaration
      · next more =>
          rw [if_neg more]
          split at none
          · next stmt after ran =>
              have first
                  : Derives attachment .declaration cursor.ahead stmt.unnumbered after.ahead :=
                takes_declaration budget cursor.ahead _ _ stmt after ran
              have shorter := first.least_le
              simp only [Nonterminal.least] at shorter
              exact .moreDeclarations first (ih after (by omega) none)
          · cases none

end Parser

open Grammar in
/-- A program that was read is derived, and is the tree of its derivation. -/
theorem Program.derives_of_parse (attachment : Attachment) {tokens : List Token} {stop : Token}
    {first next : Nat}
    {program : Program} (h : Program.parse tokens stop first = (.ok program, next))
    : Derives attachment .declarations tokens (Stmts.unnumbered program) [] := by
  have derived := Parser.declarations_derived attachment
    (Parser.budget ⟨tokens, stop, first⟩) ⟨tokens, stop, first⟩
    (by simp only [Parser.budget]; omega)
  unfold Program.parse at h
  dsimp only at h
  split at h
  · next none =>
      cases h
      exact derived (List.isEmpty_iff.1 none)
  · cases h

open Grammar in
/-- An expression that was read alone is derived, and is the tree of its derivation. -/
theorem Expr.derives_of_parse? (attachment : Attachment) {tokens : List Token} {stop : Token}
    {first next : Nat} {expr : Expr}
    (h : Expr.parse? tokens stop first = (some expr, next))
    : Derives attachment .expression tokens expr.unnumbered [] := by
  unfold Expr.parse? at h
  dsimp only at h
  split at h
  · next found after ran =>
      have derived : Derives attachment .expression tokens found.unnumbered after.ahead :=
        Parser.takes_expression _ tokens stop first found after ran
      split at h
      · next ended =>
          cases h
          exact List.isEmpty_iff.1 ended ▸ derived
      · cases h
  · cases h

end Lox
