import Lox.Proofs.Syntax.Recovery

/-! Readers before the end or a brace that closes what was opened before them. Whether a reader
succeeds or fails, it leaves the brace, and a reader that fails at the brace reports the brace. At
the end, the end is reported.
-/

namespace Lox

namespace Reader

open Grammar

variable {α β : Type} {inside : Bool} {token : Token} {front left middle behind : List Token}

-----------------------------------------------------------------------------------------
-- What readers leave
-----------------------------------------------------------------------------------------

/-- A closing brace is next, or nothing is. -/
def Closes (behind : List Token) : Prop :=
  ∀ token ∈ behind.head?, token.kind = .mark .rightBrace

theorem closes_of_startsWith (closed : StartsWith (· = .mark .rightBrace) behind)
    : Closes behind := by
  rcases closed with ⟨brace, more, rfl, kind⟩
  rintro _ ⟨⟩
  exact kind

/-- What a reader leaves of the tokens before the brace. Inside a statement, it leaves the
semicolon at least.
-/
structure Leaves (inside : Bool) (front left : List Token) : Prop where
  suffix : left <:+ front
  some : inside = true → front ≠ [] → left ≠ []

namespace Leaves

theorem refl (front : List Token) : Leaves inside front front :=
  ⟨List.suffix_rfl, fun _ some => some⟩

theorem trans (h : Leaves inside front middle) (rest : Leaves inside middle left)
    : Leaves inside front left where
  suffix := rest.suffix.trans h.suffix
  some within present := rest.some within (h.some within present)

end Leaves

/-- No closing brace passes the test and, inside a statement, no semicolon does. -/
def Within (inside : Bool) (test : Token → Bool) : Prop :=
  ∀ token,
    test token = true
    → token.kind ≠ .mark .rightBrace ∧ (inside = true → token.kind ≠ .mark .semicolon)

/-- The kind is not that of a closing brace nor, inside a statement, that of a semicolon. -/
abbrev Inner (inside : Bool) (kind : TokenKind) : Prop :=
  ((TokenKind.mark .rightBrace).sameCategory kind
    || (inside && (TokenKind.mark .semicolon).sameCategory kind)) = false

theorem within_of_kind {kind : TokenKind} (apart : Inner inside kind)
    : Within inside (·.kind.sameCategory kind) := by
  intro token passes
  replace passes : token.kind.sameCategory kind = true := passes
  rcases Bool.or_eq_false_iff.1 apart with ⟨brace, semicolon⟩
  refine ⟨fun same => ?_, fun within same => ?_⟩
  · rw [same, brace] at passes
    cases passes
  · rw [same] at passes
    rw [within, Bool.true_and, passes] at semicolon
    cases semicolon

/-- A token that is taken is no last semicolon. -/
theorem Within.leaves {test : Token → Bool} (h : Within inside test) (passes : test token = true)
    (whole : Braceless (token :: front))
    : Leaves inside (token :: front) front :=
  ⟨List.suffix_cons token front, fun within _ => whole.ne_nil_of_cons ((h token passes).2 within)⟩

/-- What is next and passes the test is before the brace. -/
theorem Within.next {test : Token → Bool} (h : Within inside test) (whole : Braceless front)
    (closed : Closes behind) {rest : List Token} (ahead : front ++ behind = token :: rest)
    (passes : test token = true)
    : front ≠ [] ∧ ∃ left, Leaves inside front left ∧ rest = left ++ behind := by
  cases front with
  | nil =>
      have brace : token ∈ behind.head? := by rw [← List.nil_append behind, ahead]; rfl
      exact absurd (closed token brace) (h token passes).1
  | cons first front =>
      rw [List.cons_append, List.cons.injEq] at ahead
      rcases ahead with ⟨rfl, rfl⟩
      exact ⟨List.cons_ne_nil _ _, front, h.leaves passes whole, rfl⟩

/-- The result leaves what is behind the tokens before the brace, and an error there is at what
comes behind them.
-/
def Leaving (inside : Bool) (front behind : List Token) (stop : Token)
    : EStateM.Result SyntaxError Cursor α → Prop
  | .ok _ after =>
    ∃ left next, Leaves inside front left ∧ after = ⟨left ++ behind, stop, next⟩
  | .error error after =>
    ∃ left next,
      left <:+ front ∧ after = ⟨left ++ behind, stop, next⟩
        ∧ (left = [] → error.token = behind.headD stop)

theorem Leaving.trans {result : EStateM.Result SyntaxError Cursor α} {stop : Token}
    (h : Leaving inside middle behind stop result) (leaves : Leaves inside front middle)
    : Leaving inside front behind stop result := by
  cases result with
  | ok value after =>
      rcases h with ⟨left, next, leavesNext, after⟩
      exact ⟨left, next, leaves.trans leavesNext, after⟩
  | error error after =>
      rcases h with ⟨left, next, suffix, rest⟩
      exact ⟨left, next, suffix.trans leaves.suffix, rest⟩

/-- On the tokens before the brace, the reader leaves what is behind them. -/
def Stays (inside : Bool) (front behind : List Token) (reader : Reader α) : Prop :=
  ∀ (stop : Token) (first : Nat),
    Leaving inside front behind stop (reader ⟨front ++ behind, stop, first⟩)

namespace Stays

/-- The reader goes on as another one where it has left some of the tokens. -/
theorem goesOn {reader next : Reader α} (h : Stays inside left behind next)
    (leaves : Leaves inside front left)
    (ran
      : ∀ stop first,
          reader ⟨front ++ behind, stop, first⟩ = next ⟨left ++ behind, stop, first⟩)
    : Stays inside front behind reader := by
  intro stop first
  rw [ran]
  exact (h stop first).trans leaves

theorem bind {reader : Reader α} {next : α → Reader β} (h : Stays inside front behind reader)
    (rest : ∀ value left, Leaves inside front left → Stays inside left behind (next value))
    : Stays inside front behind (reader >>= next) := by
  intro stop first
  have read := h stop first
  simp only [Bind.bind, EStateM.bind]
  cases ran : reader ⟨front ++ behind, stop, first⟩ with
  | error error after =>
      rw [ran] at read
      exact read
  | ok value after =>
      rw [ran] at read
      rcases read with ⟨left, first, leaves, rfl⟩
      exact (rest value left leaves stop first).trans leaves

theorem pure {value : α} : Stays inside front behind (Pure.pure value : Reader α) :=
  fun _ first => ⟨front, first, .refl front, rfl⟩

/-- An error at an earlier token is noticed before the brace. -/
theorem failAt {cause : SyntaxCause} (present : front ≠ [])
    : Stays inside front behind (Reader.failAt token cause : Reader α) :=
  fun _ first => ⟨front, first, List.suffix_rfl, rfl, fun none => absurd none present⟩

end Stays

/-- The reader leaves every closing brace that comes behind whole statements. -/
def Keeps (inside : Bool) (reader : Reader α) : Prop :=
  ∀ front behind,
    Braceless front
    → Closes behind
    → Stays inside front behind reader

/-- The reader does so when the token is the next of the statements. -/
def KeepsAt (token : Token) (inside : Bool) (reader : Reader α) : Prop :=
  ∀ front behind,
    Braceless (token :: front)
    → Closes behind
    → Stays inside (token :: front) behind reader

namespace Keeps

variable {reader : Reader α} {test : Token → Bool} {kind : TokenKind} {mark : Mark}
  {cause : SyntaxCause}

theorem keepsAt (h : Keeps inside reader) : KeepsAt token inside reader :=
  fun front behind whole closed => h (token :: front) behind whole closed

/-- What stays inside a statement stays before the brace. -/
theorem outside (h : Keeps true reader) : Keeps inside reader := by
  intro front behind whole closed stop first
  have read := h front behind whole closed stop first
  cases ran : reader ⟨front ++ behind, stop, first⟩ with
  | ok value after =>
      rw [ran] at read
      rcases read with ⟨left, next, leaves, after⟩
      exact ⟨left, next, ⟨leaves.suffix, fun _ => leaves.some rfl⟩, after⟩
  | error error after =>
      rw [ran] at read
      exact read

theorem bind {next : α → Reader β} (h : Keeps inside reader)
    (rest : ∀ value, Keeps inside (next value))
    : Keeps inside (reader >>= next) :=
  fun front behind whole closed =>
    (h front behind whole closed).bind fun value left leaves =>
      rest value left behind (whole.suffix leaves.suffix) closed

theorem pure {value : α} : Keeps inside (Pure.pure value : Reader α) := fun _ _ _ _ => .pure

theorem map {change : α → β} (h : Keeps inside reader) : Keeps inside (change <$> reader) :=
  h.bind fun _ => pure

theorem fail : Keeps inside (Reader.fail cause : Reader α) := by
  intro front behind _ _ stop first
  refine ⟨front, first, List.suffix_rfl, rfl, ?_⟩
  rintro rfl
  rfl

theorem occurrence : Keeps inside (Reader.occurrence token) :=
  fun front _ _ _ _ first => ⟨front, first + 1, .refl front, rfl⟩

theorem sees : Keeps inside (Reader.sees test) :=
  fun front _ _ _ _ first => ⟨front, first, .refl front, rfl⟩

theorem take? (within : Within inside test) : Keeps inside (Reader.take? test) := by
  intro front behind whole closed stop first
  cases ahead : front ++ behind with
  | nil => exact ⟨front, first, .refl front, by rw [ahead]⟩
  | cons token rest =>
      simp only [Reader.take?]
      split
      · next passes =>
          rcases within.next whole closed ahead passes with ⟨_, left, leaves, rfl⟩
          exact ⟨left, first, leaves, rfl⟩
      · exact ⟨front, first, .refl front, by rw [ahead]⟩

/-- A token that is taken inside a statement is not the last of it. -/
theorem taken {next : Option Token → Reader β} (within : Within true test)
    (some
      : ∀ token front behind,
          Braceless front
          → front ≠ []
          → Closes behind
          → Stays true front behind (next (some token)))
    (none : Keeps true (next none))
    : Keeps true (Reader.take? test >>= next) := by
  intro front behind whole closed
  cases ahead : front ++ behind with
  | nil =>
      refine (none front behind whole closed).goesOn (.refl front) fun stop first => ?_
      simp only [Bind.bind, EStateM.bind, Reader.take?, ahead]
  | cons token rest =>
      by_cases passes : test token = true
      · rcases within.next whole closed ahead passes with ⟨present, left, leaves, rfl⟩
        have goes :=
          some token left behind (whole.suffix leaves.suffix) (leaves.some rfl present) closed
        refine goes.goesOn leaves fun stop first => ?_
        simp only [Bind.bind, EStateM.bind, Reader.take?, ahead, if_pos passes]
      · refine (none front behind whole closed).goesOn (.refl front) fun stop first => ?_
        simp only [Bind.bind, EStateM.bind, Reader.take?, ahead, if_neg passes]

theorem accept (within : Within inside test) : Keeps inside (Reader.accept test) := by
  intro front behind whole closed stop first
  cases ahead : front ++ behind with
  | nil => exact ⟨front, first, .refl front, by rw [ahead]⟩
  | cons token rest =>
      simp only [Reader.accept]
      split
      · next passes =>
          rcases within.next whole closed ahead passes with ⟨_, left, leaves, rfl⟩
          exact ⟨left, first, leaves, rfl⟩
      · exact ⟨front, first, .refl front, by rw [ahead]⟩

theorem expect (within : Within inside test) : Keeps inside (Reader.expect test cause) := by
  intro front behind whole closed stop first
  have atNext (none : front = []) : behind.headD stop = (front ++ behind).headD stop := by
    rw [none, List.nil_append]
  cases ahead : front ++ behind with
  | nil =>
      rw [ahead] at atNext
      exact ⟨front, first, List.suffix_rfl, by rw [ahead], fun none => (atNext none).symm⟩
  | cons token rest =>
      rw [ahead] at atNext
      simp only [Reader.expect]
      split
      · next passes =>
          rcases within.next whole closed ahead passes with ⟨_, left, leaves, rfl⟩
          exact ⟨left, first, leaves, rfl⟩
      · exact ⟨front, first, List.suffix_rfl, by rw [ahead], fun none => (atNext none).symm⟩

theorem acceptMark (within : Inner inside (.mark mark))
    : Keeps inside (Reader.acceptMark mark) :=
  accept (within_of_kind within)

theorem expectMark (within : Inner inside (.mark mark))
    : Keeps inside (Reader.expectMark mark cause) :=
  expect (within_of_kind within)

theorem expectName : Keeps inside (Reader.expectName cause) := by
  refine expect (within_of_kind ?_)
  cases inside <;> rfl

theorem ifAccepted (within : Within inside test) (h : Keeps inside reader)
    : Keeps inside (Reader.ifAccepted test reader) := by
  refine (accept within).bind fun accepted => ?_
  split
  · exact h.map
  · exact pure

theorem unlessMark (h : Keeps inside reader) : Keeps inside (Reader.unlessMark mark reader) := by
  refine sees.bind fun seen => ?_
  split
  · exact pure
  · exact h.map

/-- No brace is opened among the statements, so that the body that would follow is not read. -/
theorem expectLeftBrace {next : Token → Reader β}
    : Keeps inside (Reader.expectMark .leftBrace cause >>= next) := by
  intro front behind whole closed stop first
  have fails {token : Token} (other : token.kind ≠ .mark .leftBrace)
      : token.isMark .leftBrace = false :=
    Bool.eq_false_iff.2 fun passes => other ((token.isMark_iff _).1 passes)
  rcases front with _ | ⟨token, front⟩
  · rcases behind with _ | ⟨brace, more⟩
    · exact ⟨[], first, List.suffix_rfl, rfl, fun _ => rfl⟩
    have other : brace.isMark .leftBrace = false := fails (by simp [closed brace rfl])
    simp only [Bind.bind, EStateM.bind, Reader.expectMark, Reader.expect, List.nil_append, other,
      if_neg Bool.false_ne_true]
    exact ⟨[], first, List.suffix_rfl, rfl, fun _ => rfl⟩
  · have other := fails (whole.plain token (.head _)).1
    simp only [Bind.bind, EStateM.bind, Reader.expectMark, Reader.expect, List.cons_append, other,
      if_neg Bool.false_ne_true]
    exact ⟨token :: front, first, List.suffix_rfl, rfl, fun none => by cases none⟩

/-- The next token is looked at. -/
theorem peek? {next : Option Token → Reader β} (atEnd : Keeps inside (next none))
    (atBrace : ∀ brace, brace.kind = .mark .rightBrace → Keeps inside (next (some brace)))
    (atToken : ∀ token, token.kind ≠ .mark .leftBrace → KeepsAt token inside (next (some token)))
    : Keeps inside (Reader.peek? >>= next) := by
  intro front behind whole closed
  rcases front with _ | ⟨token, front⟩
  · rcases behind with _ | ⟨brace, more⟩
    · exact atEnd [] [] whole closed
    · exact atBrace brace (closed brace rfl) [] (brace :: more) whole closed
  · exact atToken token (whole.plain token (.head _)).1 front behind whole closed

/-- The next two tokens are tested. -/
theorem seesTwo {testSecond : Token → Bool} {yes no : Reader β}
    (within : Within inside test)
    (both : ∀ token, test token = true → KeepsAt token inside yes) (other : Keeps inside no)
    : Keeps inside
        (do if (← Reader.sees test) && (← Reader.seesSecond testSecond) then yes else no) := by
  intro front behind whole closed
  by_cases passes
    : ((front ++ behind).head?.any test && (front ++ behind).tail.head?.any testSecond) = true
  · have passesFirst := (Bool.and_eq_true_iff.1 passes).1
    rcases front with _ | ⟨token, front⟩
    · rcases behind with _ | ⟨brace, more⟩
      · cases passesFirst
      · exact absurd (closed brace rfl) (within brace passesFirst).1
    have yes := both token passesFirst front behind whole closed
    refine yes.goesOn (.refl _) fun stop first => ?_
    rw [run_seesTwo, if_pos passes]
  · refine (other front behind whole closed).goesOn (.refl _) fun stop first => ?_
    rw [run_seesTwo, if_neg passes]

end Keeps

/-- The next token is passed over. -/
theorem KeepsAt.skip {kind : TokenKind} {next : Unit → Reader β} (is : token.kind = kind)
    (other : kind ≠ .mark .semicolon) (rest : Keeps inside (next ()))
    : KeepsAt token inside (Reader.skip >>= next) := by
  intro front behind whole closed
  have leaves : Leaves inside (token :: front) front :=
    ⟨List.suffix_cons token front, fun _ _ => whole.ne_nil_of_cons (is ▸ other)⟩
  exact (rest front behind whole.tail closed).goesOn leaves fun _ _ => rfl

end Reader

namespace Parser

open Reader Cursor Grammar

theorem keeps_parameterNames (room : Nat) : Keeps true (parameterNames room) := by
  induction room with
  | zero => exact .fail
  | succ room ih =>
      unfold parameterNames
      refine .bind .expectName fun name => .bind (.acceptMark rfl) fun more => ?_
      split
      · exact .bind ih fun names => .pure
      · exact .pure

theorem keeps_parameters : Keeps true parameters := by
  unfold parameters
  refine .bind (.unlessMark (keeps_parameterNames maxArity)) fun names => ?_
  exact .bind (.expectMark rfl) fun _ => .pure

theorem keeps_superclass : Keeps true superclass := by
  unfold superclass
  refine .bind (.acceptMark rfl) fun given => ?_
  split
  · exact .bind .expectName fun name => .bind .occurrence fun _ => .pure
  · exact .pure

theorem within_operator (tier : Tier) : Within true tier.operator := by
  intro token passes
  refine ⟨fun same => ?_, fun _ same => ?_⟩ <;>
  · unfold Tier.operator at passes
    rw [same] at passes
    cases tier <;> cases passes

theorem within_sign : Within true fun token => token.isMark .bang || token.isMark .minus := by
  intro token passes
  rcases Bool.or_eq_true_iff.1 passes with passes | passes
  · exact within_of_kind rfl token passes
  · exact within_of_kind rfl token passes

/-- A lambda ends where its body would start. -/
theorem keeps_lambda (budget : Nat) (keyword : Token) : Keeps true (lambda budget keyword) := by
  cases budget with
  | zero => exact .fail
  | succ budget =>
      unfold lambda
      refine .bind (.expectMark rfl) fun _ => .bind keeps_parameters fun parameters => ?_
      exact .expectLeftBrace

mutual

theorem keeps_expression (budget : Nat) : Keeps true (expression budget) := by
  cases budget with
  | zero => exact .fail
  | succ budget =>
      unfold expression
      refine .bind (keeps_conditional budget) fun target => .taken (within_of_kind rfl) ?_ .pure
      intro equal front behind whole present closed
      refine .bind (keeps_expression budget front behind whole closed) fun value left leaves => ?_
      split
      · exact (Keeps.occurrence left behind (whole.suffix leaves.suffix) closed).bind
          fun written _ _ => .pure
      · exact .pure
      · exact .failAt (leaves.some rfl present)
termination_by budget
decreasing_by all_goals omega

theorem keeps_conditional (budget : Nat) : Keeps true (conditional budget) := by
  cases budget with
  | zero => exact .fail
  | succ budget =>
      unfold conditional
      refine .bind (keeps_chain budget .or) fun condition => .bind (.acceptMark rfl) fun asked => ?_
      split
      · refine .bind (keeps_expression budget) fun positive => .bind (.expectMark rfl) fun _ => ?_
        exact .bind (keeps_conditional budget) fun negative => .pure
      · exact .pure
termination_by budget
decreasing_by all_goals omega

theorem keeps_chain (budget : Nat) (tier : Tier) : Keeps true (chain budget tier) := by
  cases budget with
  | zero => exact .fail
  | succ budget =>
      unfold chain
      exact .bind (keeps_operand budget tier) fun left => keeps_chainFrom budget tier left
termination_by budget
decreasing_by all_goals omega

theorem keeps_chainFrom (budget : Nat) (tier : Tier) (left : Expr)
    : Keeps true (chainFrom budget tier left) := by
  cases budget with
  | zero => exact .fail
  | succ budget =>
      unfold chainFrom
      refine .bind (.take? (within_operator tier)) fun found => ?_
      split
      · exact .pure
      · exact .bind (keeps_operand budget tier) fun right => keeps_chainFrom budget tier _
termination_by budget
decreasing_by all_goals omega

theorem keeps_operand (budget : Nat) (tier : Tier) : Keeps true (operand budget tier) := by
  cases budget with
  | zero => exact .fail
  | succ budget =>
      unfold operand
      split
      · exact keeps_chain budget _
      · exact keeps_unary budget
termination_by budget
decreasing_by all_goals omega

theorem keeps_unary (budget : Nat) : Keeps true (unary budget) := by
  cases budget with
  | zero => exact .fail
  | succ budget =>
      unfold unary
      refine .bind (.take? within_sign) fun found => ?_
      split
      · exact .bind (keeps_unary budget) fun operand => .pure
      · exact .bind (keeps_primary budget) fun callee => keeps_calls budget callee
termination_by budget
decreasing_by all_goals omega

theorem keeps_calls (budget : Nat) (callee : Expr) : Keeps true (calls budget callee) := by
  cases budget with
  | zero => exact .fail
  | succ budget =>
      unfold calls
      refine .bind (.acceptMark rfl) fun opened => ?_
      split
      · refine .bind (.unlessMark (keeps_arguments budget maxArity)) fun given => ?_
        exact .bind (.expectMark rfl) fun closing => keeps_calls budget _
      refine .bind (.acceptMark rfl) fun dotted => ?_
      split
      · exact .bind .expectName fun property => keeps_calls budget _
      · exact .pure
termination_by budget
decreasing_by all_goals omega

theorem keeps_arguments (budget room : Nat) : Keeps true (arguments budget room) := by
  cases budget with
  | zero => exact .fail
  | succ budget =>
      cases room with
      | zero => exact .fail
      | succ room =>
          unfold arguments
          refine .bind (keeps_expression budget) fun first => .bind (.acceptMark rfl) fun more => ?_
          split
          · exact .bind (keeps_arguments budget room) fun others => .pure
          · exact .pure
termination_by budget
decreasing_by all_goals omega

theorem keeps_primary (budget : Nat) : Keeps true (primary budget) := by
  cases budget with
  | zero => exact .fail
  | succ budget =>
      unfold primary
      refine .peek? .fail (fun brace kind => ?_) fun token _ => ?_
      · simp only [kind]
        exact .fail
      dsimp only
      split
      case h_1 kind | h_2 kind | h_3 kind | h_4 kind | h_5 kind => exact .skip kind nofun .pure
      case h_6 kind | h_8 kind => exact .skip kind nofun (.bind .occurrence fun place => .pure)
      case h_7 kind =>
        refine .skip kind nofun (.bind (.expectMark rfl) fun _ => ?_)
        exact .bind .expectName fun method => .bind .occurrence fun place => .pure
      case h_9 kind => exact .skip kind nofun (keeps_lambda budget token)
      case h_10 kind =>
        refine .skip kind nofun (.bind (keeps_expression budget) fun inner => ?_)
        exact .bind (.expectMark rfl) fun _ => .pure
      case h_11 => exact Keeps.fail.keepsAt
termination_by budget
decreasing_by all_goals omega

end

theorem keeps_expressionStatement (budget : Nat) : Keeps false (expressionStatement budget) := by
  cases budget with
  | zero => exact .fail
  | succ budget =>
      unfold expressionStatement
      refine .bind (keeps_expression budget).outside fun value => ?_
      exact .bind (.expectMark rfl) fun _ => .pure

theorem keeps_printStatement (budget : Nat) (keyword : Token)
    : Keeps false (printStatement budget keyword) := by
  cases budget with
  | zero => exact .fail
  | succ budget =>
      unfold printStatement
      refine .bind (keeps_expression budget).outside fun value => ?_
      exact .bind (.expectMark rfl) fun _ => .pure

theorem keeps_returnStatement (budget : Nat) (keyword : Token)
    : Keeps false (returnStatement budget keyword) := by
  cases budget with
  | zero => exact .fail
  | succ budget =>
      unfold returnStatement
      refine .bind (.unlessMark (keeps_expression budget).outside) fun value => ?_
      exact .bind (.expectMark rfl) fun _ => .pure

theorem keeps_breakStatement (keyword : Token) : Keeps false (breakStatement keyword) := by
  unfold breakStatement
  exact .bind (.expectMark rfl) fun _ => .pure

theorem keeps_varDeclaration (budget : Nat) : Keeps false (varDeclaration budget) := by
  cases budget with
  | zero => exact .fail
  | succ budget =>
      unfold varDeclaration
      refine .bind .expectName fun name => ?_
      have value : Keeps false (expression budget) := (keeps_expression budget).outside
      refine .bind (.ifAccepted (within_of_kind rfl) value) fun initializer => ?_
      exact .bind (.expectMark rfl) fun _ => .pure

theorem keeps_forInitializer (budget : Nat) : Keeps false (forInitializer budget) := by
  cases budget with
  | zero => exact .fail
  | succ budget =>
      unfold forInitializer
      refine .bind (.acceptMark rfl) fun ended => ?_
      split
      · exact .pure
      refine .bind (.accept (within_of_kind rfl)) fun declares => ?_
      split
      · exact (keeps_varDeclaration budget).map
      · exact (keeps_expressionStatement budget).map

mutual

theorem keeps_statement (budget : Nat) : Keeps false (statement budget) := by
  cases budget with
  | zero => exact .fail
  | succ budget =>
      unfold statement
      refine .peek? (keeps_expressionStatement budget) (fun brace kind => ?_) fun token opens => ?_
      · simp only [kind]
        exact keeps_expressionStatement budget
      dsimp only
      split
      case h_1 kind => exact .skip kind nofun (keeps_forStatement budget)
      case h_2 kind => exact .skip kind nofun (keeps_ifStatement budget)
      case h_3 kind => exact .skip kind nofun (keeps_whileStatement budget)
      case h_4 kind => exact .skip kind nofun (keeps_breakStatement token)
      case h_5 kind => exact .skip kind nofun (keeps_returnStatement budget token)
      case h_6 kind => exact absurd kind opens
      case h_7 kind => exact .skip kind nofun (keeps_printStatement budget token)
      case h_8 => exact (keeps_expressionStatement budget).keepsAt
termination_by budget
decreasing_by all_goals omega

theorem keeps_forStatement (budget : Nat) : Keeps false (forStatement budget) := by
  cases budget with
  | zero => exact .fail
  | succ budget =>
      have optional (mark : Mark) : Keeps false (unlessMark mark (expression budget)) :=
        .unlessMark (keeps_expression budget).outside
      unfold forStatement
      refine .bind (.expectMark rfl) fun _ => .bind (keeps_forInitializer budget) fun start => ?_
      refine .bind (optional .semicolon) fun condition => .bind (.expectMark rfl) fun _ => ?_
      refine .bind (optional .rightParen) fun increment => .bind (.expectMark rfl) fun _ => ?_
      exact .bind (keeps_statement budget) fun body => .pure
termination_by budget
decreasing_by all_goals omega

theorem keeps_ifStatement (budget : Nat) : Keeps false (ifStatement budget) := by
  cases budget with
  | zero => exact .fail
  | succ budget =>
      unfold ifStatement
      refine .bind (.expectMark rfl) fun _ => .bind (keeps_expression budget).outside fun test => ?_
      refine .bind (.expectMark rfl) fun _ => .bind (keeps_statement budget) fun positive => ?_
      exact .bind (.ifAccepted (within_of_kind rfl) (keeps_statement budget)) fun negative => .pure
termination_by budget
decreasing_by all_goals omega

theorem keeps_whileStatement (budget : Nat) : Keeps false (whileStatement budget) := by
  cases budget with
  | zero => exact .fail
  | succ budget =>
      unfold whileStatement
      refine .bind (.expectMark rfl) fun _ => .bind (keeps_expression budget).outside fun test => ?_
      exact .bind (.expectMark rfl) fun _ => .bind (keeps_statement budget) fun body => .pure
termination_by budget
decreasing_by all_goals omega

end

theorem keeps_function (budget : Nat) : Keeps false (function budget) := by
  cases budget with
  | zero => exact .fail
  | succ budget =>
      unfold function
      refine .bind .expectName fun name => .bind (.expectMark rfl) fun _ => ?_
      exact .bind keeps_parameters.outside fun parameters => .expectLeftBrace

theorem keeps_classDeclaration (budget : Nat) : Keeps false (classDeclaration budget) := by
  cases budget with
  | zero => exact .fail
  | succ budget =>
      unfold classDeclaration
      refine .bind .expectName fun name => .bind keeps_superclass.outside fun superclass => ?_
      exact .expectLeftBrace

/-- Before it moves on, a declaration leaves the brace. -/
theorem keeps_declaring (budget : Nat) : Keeps false (declaring budget) := by
  unfold declaring
  refine .bind (.accept (within_of_kind rfl)) fun ofClass => ?_
  split
  · exact keeps_classDeclaration budget
  refine .seesTwo (within_of_kind rfl) (fun word passes => ?_) ?_
  · refine .skip ((word.isKeyword_iff _).1 passes) nofun (.bind (keeps_function budget) ?_)
    exact fun function => .pure
  refine .bind (.accept (within_of_kind rfl)) fun declares => ?_
  split
  · exact keeps_varDeclaration budget
  · exact keeps_statement budget

/-- A declaration leaves the brace, and takes a token before it, unless it reports the brace. -/
theorem declaration_leaves (budget : Nat) {front behind : List Token} (whole : Braceless front)
    (closed : StartsWith (· = .mark .rightBrace) behind) (stop : Token) (first : Nat)
    : match declaration (budget + 1) ⟨front ++ behind, stop, first⟩ with
      | .ok _ after =>
        ∃ left, left <:+ front ∧ left.length < front.length ∧ after.ahead = left ++ behind
      | .error error after =>
        error.token ∈ behind.head?
          ∨ ∃ left, left <:+ front ∧ left.length < front.length ∧ after.ahead = left ++ behind := by
  have taken := @takes_declaration .any (budget + 1) (front ++ behind) stop first
  have read := keeps_declaring budget front behind whole (closes_of_startsWith closed) stop first
  rw [declaration_eq] at taken ⊢
  simp only [synchronized] at taken ⊢
  cases ran : declaring budget ⟨front ++ behind, stop, first⟩ with
  | ok stmt after =>
      rw [ran] at read taken
      rcases read with ⟨left, next, leaves, rfl⟩
      have least := (taken stmt _ rfl).least_le
      simp only [List.length_append, Nonterminal.least] at least
      exact ⟨left, leaves.suffix, by omega, rfl⟩
  | error error after =>
      rw [ran] at read
      rcases read with ⟨left, next, suffix, rfl, atBrace⟩
      by_cases none : left = []
      · rcases closed with ⟨brace, more, rfl, _⟩
        exact .inl (atBrace none ▸ rfl)
      · refine .inr ⟨recovered left, (recovered_suffix left).trans suffix, ?_, ?_⟩
        · exact Nat.lt_of_lt_of_le (length_recovered_lt none) suffix.length_le
        · rw [synchronize_eq, recovered_append (whole.suffix suffix) none]

/-- A brace that nothing has opened is reported. By induction over the budget, as the declarations
come nearer to the brace.
-/
theorem declarations_report {budget : Nat} {front behind : List Token} (whole : Braceless front)
    (closed : StartsWith (· = .mark .rightBrace) behind) (enough : front.length + 1 < budget)
    (stop : Token) (first : Nat)
    : ∃ error ∈ (declarations budget ⟨front ++ behind, stop, first⟩).2.1,
        error.token ∈ behind.head? := by
  induction budget generalizing front stop first with
  | zero => exact absurd enough (Nat.not_lt_zero _)
  | succ budget ih =>
      obtain ⟨less, rfl⟩ : ∃ less, budget = less + 1 := ⟨budget - 1, by omega⟩
      have some : (front ++ behind).isEmpty = false := by
        rcases closed with ⟨brace, more, rfl, _⟩
        simp
      have read := declaration_leaves less whole closed stop first
      rw [declarations, some, if_neg Bool.false_ne_true]
      cases ran : declaration (less + 1) ⟨front ++ behind, stop, first⟩ with
      | ok stmt after =>
          rw [ran] at read
          rcases after with ⟨ahead, stop, first⟩
          rcases read with ⟨left, suffix, shorter, rfl⟩
          exact ih (whole.suffix suffix) (by omega) stop first
      | error error after =>
          rw [ran] at read
          rcases after with ⟨ahead, stop, first⟩
          rcases read with atBrace | ⟨left, suffix, shorter, rfl⟩
          · exact ⟨error, .head _, atBrace⟩
          · rcases ih (whole.suffix suffix) (by omega) stop first with ⟨other, member, atBrace⟩
            exact ⟨other, .tail _ member, atBrace⟩

end Parser

end Lox
