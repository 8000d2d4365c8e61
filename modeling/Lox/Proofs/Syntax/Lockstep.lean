import Lox.Proofs.Syntax.Blocks
import Lox.Proofs.Syntax.Tracking

/-! Two readings of the same tokens go on in lockstep, reader by reader. One theorem for each
reader, by induction on the budget as the readers descend.
-/

namespace Lox

namespace Parser

open Reader Grammar

/-- A budget for the tokens, for a reader that is a number of readers away from the next one that
takes a token.
-/
abbrev Lasting (descent : Nat) (front : List Token) (budget : Nat) : Prop :=
  32 * front.length + descent ≤ budget

-----------------------------------------------------------------------------------------
-- Readers that need a token
-----------------------------------------------------------------------------------------

theorem starves_of_takes {α : Type} {reader : Reader α} {symbol : Nonterminal}
    {tree : α → symbol.Tree}
    (takes
      : Takes reader [] fun value rest => Derives .any symbol [] (tree value) rest)
    (least : symbol.least = 1)
    : Starves reader :=
  takes.mono fun _ rest derived => by
    have short := derived.least_le
    simp [least] at short

theorem starves_expression (budget : Nat) : Starves (expression budget) :=
  starves_of_takes (takes_expression budget []) rfl

theorem starves_expressionStatement (budget : Nat) : Starves (expressionStatement budget) :=
  starves_of_takes (takes_expressionStatement budget []) rfl

theorem starves_declaration (budget : Nat) : Starves (declaration budget) :=
  starves_of_takes (takes_declaration budget []) rfl

theorem starves_arguments (budget room : Nat) : Starves (arguments budget room) := by
  cases budget with
  | zero => exact .fail
  | succ budget =>
      cases room with
      | zero => exact .fail
      | succ room => exact (starves_expression budget).bind

theorem quiet_operator (tier : Tier) : Tracks.Quiet tier.operator := by
  intro token semicolon
  unfold Tier.operator
  rw [semicolon]
  cases tier <;> rfl

theorem quiet_sign : Tracks.Quiet fun token => token.isMark .bang || token.isMark .minus := by
  intro token semicolon
  change (token.kind.sameCategory _ || token.kind.sameCategory _) = false
  rw [semicolon]
  rfl

-----------------------------------------------------------------------------------------
-- Lists of names
-----------------------------------------------------------------------------------------

section

variable {pairing : Pairing} {front : List Token}

theorem tracks_parameterNames (room : Nat)
    : Tracks pairing true front id (parameterNames room) (parameterNames room) := by
  induction room generalizing front with
  | zero => exact .fail
  | succ room ih =>
      unfold parameterNames
      refine .expectName fun name more _ => ?_
      refine .acceptMark rfl (fun comma others _ => ?_) (.pure rfl)
      exact .bind ih fun names _ _ => .pure rfl

theorem tracks_parameters : Tracks pairing true front id parameters parameters := by
  unfold parameters
  have starves : Starves (parameterNames maxArity) := by
    unfold maxArity parameterNames
    exact Takes.expectName fun token more taken => by cases taken
  refine .bind (.unlessMark (tracks_parameterNames maxArity) starves) fun names _ _ => ?_
  refine .expectMark fun _ _ _ => .pure ?_
  cases names <;> rfl

theorem tracks_superclass
    : Tracks pairing true front (Option.map (Occurrence.renumber pairing.number)) superclass
        superclass := by
  unfold superclass
  refine .acceptMark rfl (fun less more _ => ?_) (.pure rfl)
  exact .expectName fun name _ _ => .occurrence fun id => .pure rfl

/-- Where a body ends for want of tokens, another token may come behind them. -/
theorem tracks_bodyEnds : Tracks pairing false front id bodyEnds bodyEnds := by
  cases front with
  | nil =>
      have ends : Tracks pairing false [] id (Pure.pure true) (Pure.pure true) := .pure rfl
      exact ends.atEnd (fun _ _ => rfl) (fun _ _ => rfl) nofun
  | cons token more =>
      have seen
          : Tracks pairing false (token :: more) id (Pure.pure (token.isMark .rightBrace))
              (Pure.pure (token.isMark .rightBrace)) :=
        .pure rfl
      have ran (ahead : List Token) (stop : Token) (id : Nat)
          : bodyEnds ⟨token :: ahead, stop, id⟩
            = (Pure.pure (token.isMark .rightBrace) : Reader Bool) ⟨token :: ahead, stop, id⟩ := by
        cases brace : token.isMark .rightBrace with
        | true => exact congrFun (if_pos brace) _
        | false => exact congrFun (if_neg (Bool.eq_false_iff.1 brace)) _
      exact seen.goesOn List.suffix_rfl (ran more) fun behind => ran (more ++ behind)

end

-----------------------------------------------------------------------------------------
-- Every reader
-----------------------------------------------------------------------------------------

section

variable (pairing : Pairing)

/-- What the other reading makes of the members of a class. -/
def renumberMembers (number : Nat → Nat) (members : List FunctionDecl × List FunctionDecl) :
    List FunctionDecl × List FunctionDecl :=
  (Functions.renumber number members.1, Functions.renumber number members.2)

theorem tracks_breakStatement (front : List Token) (keyword : Token)
    : Tracks pairing true front (Stmt.renumber pairing.number) (breakStatement keyword)
        (breakStatement keyword) := by
  unfold breakStatement
  exact .expectMark fun _ _ _ => .pure rfl

mutual

theorem tracks_declaration (budget other : Nat) (front : List Token)
    (enough : Lasting 20 front budget) (enoughOther : Lasting 20 front other)
    : Tracks pairing true front (Stmt.renumber pairing.number) (declaration budget)
        (declaration other) := by
  obtain ⟨budget, rfl⟩ : ∃ less, budget = less + 1 := ⟨budget - 1, by omega⟩
  obtain ⟨other, rfl⟩ : ∃ less, other = less + 1 := ⟨other - 1, by omega⟩
  rw [declaration_eq, declaration_eq]
  exact .synchronized (tracks_declaring budget other front (by omega) (by omega))
termination_by 2 * budget
decreasing_by all_goals omega

/-- A declaration before it moves on. -/
theorem tracks_declaring (budget other : Nat) (front : List Token)
    (enough : Lasting 19 front budget) (enoughOther : Lasting 19 front other)
    : Tracks pairing true front (Stmt.renumber pairing.number) (declaring budget)
        (declaring other) := by
  unfold declaring
  refine .accept (.inl (Tracks.quiet_of_kind rfl)) ?_ ?_
  · rintro word more rfl
    simp only [Lasting, List.length_cons] at enough enoughOther
    exact tracks_classDeclaration budget other more (by omega) (by omega)
  refine .seesNamed ?_ ?_
  · rintro word name more rfl
    simp only [Lasting, List.length_cons] at enough enoughOther
    refine .skip (.bind (tracks_function budget other _ ?_ ?_) fun function _ _ => .pure rfl) <;>
      (simp only [Lasting, List.length_cons]; omega)
  refine .accept (.inl (Tracks.quiet_of_kind rfl)) ?_ ?_
  · rintro word more rfl
    simp only [Lasting, List.length_cons] at enough enoughOther
    exact tracks_varDeclaration budget other more (by omega) (by omega)
  · exact tracks_statement budget other front (by omega) (by omega)
termination_by 2 * budget + 1
decreasing_by all_goals omega

theorem tracks_classDeclaration (budget other : Nat) (front : List Token)
    (enough : Lasting 1 front budget) (enoughOther : Lasting 1 front other)
    : Tracks pairing true front (Stmt.renumber pairing.number) (classDeclaration budget)
        (classDeclaration other) := by
  obtain ⟨budget, rfl⟩ : ∃ less, budget = less + 1 := ⟨budget - 1, by omega⟩
  obtain ⟨other, rfl⟩ : ∃ less, other = less + 1 := ⟨other - 1, by omega⟩
  unfold classDeclaration
  refine .expectName ?_
  rintro name afterName rfl
  refine .bind tracks_superclass fun superclass middle shorter => ?_
  refine .expectMark ?_
  rintro opening inside rfl
  simp only [Lasting, List.length_cons] at enough enoughOther shorter
  -- members end where the tokens do, but the brace behind them has to be there
  refine .bindTaking (tracks_members budget other inside (by omega) (by omega))
    (@takes_members .any budget inside) (fun _ _ => .inr .expectMark) ?_
  rintro ⟨methods, statics⟩ left _ _
  exact .expectMark fun _ _ _ => .pure rfl
termination_by 2 * budget
decreasing_by all_goals omega

theorem tracks_members (budget other : Nat) (front : List Token)
    (enough : Lasting 2 front budget) (enoughOther : Lasting 2 front other)
    : Tracks pairing false front (renumberMembers pairing.number) (members budget)
        (members other) := by
  obtain ⟨budget, rfl⟩ : ∃ less, budget = less + 1 := ⟨budget - 1, by omega⟩
  obtain ⟨other, rfl⟩ : ∃ less, other = less + 1 := ⟨other - 1, by omega⟩
  unfold members
  refine .bindTaking tracks_bodyEnds (takes_bodyEnds front) nofun fun ends left shorter same => ?_
  subst same
  -- a member and the others, which it goes before
  have goesOn (ahead : List Token) (ofClass : Bool) (le : ahead.length ≤ left.length)
      : Tracks pairing false ahead (renumberMembers pairing.number)
          (do
            let function ← function budget
            let (methods, statics) ← members budget
            if ofClass then return (methods, function :: statics)
            else return (function :: methods, statics))
          (do
            let function ← function other
            let (methods, statics) ← members other
            if ofClass then return (methods, function :: statics)
            else return (function :: methods, statics)) := by
    refine .bindTaking (tracks_function budget other ahead (by omega) (by omega))
      (@takes_function .any budget ahead) nofun fun function middle _ derived => ?_
    have taken := derived.least_le
    simp only [Nonterminal.least] at taken
    refine .bindTaking (tracks_members budget other middle (by omega) (by omega))
      (@takes_members .any budget middle) nofun ?_
    rintro ⟨methods, statics⟩ rest _ _
    cases ofClass with
    | true | false => exact .pure rfl
  cases ends with
  | true => exact .pure rfl
  | false =>
      refine .accept (.inl (Tracks.quiet_of_kind rfl)) ?_ (goesOn left false (Nat.le_refl _))
      rintro word more rfl
      exact goesOn more true (Nat.le_succ _)
termination_by 2 * budget
decreasing_by all_goals omega

theorem tracks_function (budget other : Nat) (front : List Token)
    (enough : Lasting 1 front budget) (enoughOther : Lasting 1 front other)
    : Tracks pairing true front (FunctionDecl.renumber pairing.number) (function budget)
        (function other) := by
  obtain ⟨budget, rfl⟩ : ∃ less, budget = less + 1 := ⟨budget - 1, by omega⟩
  obtain ⟨other, rfl⟩ : ∃ less, other = less + 1 := ⟨other - 1, by omega⟩
  unfold function
  refine .expectName ?_
  rintro name afterName rfl
  refine .expectMark ?_
  rintro opening more rfl
  refine .bind tracks_parameters fun parameters middle shorter => ?_
  refine .expectMark ?_
  rintro openingBody inside rfl
  simp only [Lasting, List.length_cons] at enough enoughOther shorter
  exact .bind (tracks_block budget other inside (by omega) (by omega)) fun body _ _ => .pure rfl
termination_by 2 * budget
decreasing_by all_goals omega

theorem tracks_varDeclaration (budget other : Nat) (front : List Token)
    (enough : Lasting 1 front budget) (enoughOther : Lasting 1 front other)
    : Tracks pairing true front (Stmt.renumber pairing.number) (varDeclaration budget)
        (varDeclaration other) := by
  obtain ⟨budget, rfl⟩ : ∃ less, budget = less + 1 := ⟨budget - 1, by omega⟩
  obtain ⟨other, rfl⟩ : ∃ less, other = less + 1 := ⟨other - 1, by omega⟩
  unfold varDeclaration
  refine .expectName ?_
  rintro name afterName rfl
  simp only [Lasting, List.length_cons] at enough enoughOther
  have value (equal : Token) (more : List Token) (taken : afterName = equal :: more)
      : Tracks pairing true more (Expr.renumber pairing.number) (expression budget)
          (expression other) := by
    subst taken
    simp only [List.length_cons] at enough enoughOther
    exact tracks_expression budget other more (by omega) (by omega)
  refine .bind (.ifAccepted (Tracks.quiet_of_kind rfl) value) fun initializer _ _ => ?_
  refine .expectMark fun _ _ _ => .pure ?_
  cases initializer <;> rfl
termination_by 2 * budget
decreasing_by all_goals omega

theorem tracks_statement (budget other : Nat) (front : List Token)
    (enough : Lasting 19 front budget) (enoughOther : Lasting 19 front other)
    : Tracks pairing true front (Stmt.renumber pairing.number) (statement budget)
        (statement other) := by
  obtain ⟨budget, rfl⟩ : ∃ less, budget = less + 1 := ⟨budget - 1, by omega⟩
  obtain ⟨other, rfl⟩ : ∃ less, other = less + 1 := ⟨other - 1, by omega⟩
  have plain := tracks_expressionStatement budget other front (by omega) (by omega)
  unfold statement
  refine .peek? (starves_expressionStatement budget) ?_ plain
  rintro word more rfl
  simp only [Lasting, List.length_cons] at enough enoughOther
  dsimp only
  split
  · exact .skip (tracks_forStatement budget other more (by omega) (by omega))
  · exact .skip (tracks_ifStatement budget other more (by omega) (by omega))
  · exact .skip (tracks_whileStatement budget other more (by omega) (by omega))
  · exact .skip (tracks_breakStatement pairing more word)
  · exact .skip (tracks_returnStatement budget other more word (by omega) (by omega))
  · exact .skip (.map (tracks_block budget other more (by omega) (by omega)) fun _ => rfl)
  · exact .skip (tracks_printStatement budget other more word (by omega) (by omega))
  · exact plain
termination_by 2 * budget
decreasing_by all_goals omega

theorem tracks_forInitializer (budget other : Nat) (front : List Token)
    (enough : Lasting 19 front budget) (enoughOther : Lasting 19 front other)
    : Tracks pairing true front (Option.map (Stmt.renumber pairing.number)) (forInitializer budget)
        (forInitializer other) := by
  obtain ⟨budget, rfl⟩ : ∃ less, budget = less + 1 := ⟨budget - 1, by omega⟩
  obtain ⟨other, rfl⟩ : ∃ less, other = less + 1 := ⟨other - 1, by omega⟩
  have starves
      : Starves
          (do
            if ← accept (·.isKeyword .var) then some <$> varDeclaration budget
            else some <$> expressionStatement budget) :=
    Takes.accept nofun fun _ => (starves_expressionStatement budget).map
  unfold forInitializer
  refine .accept (.inr starves) (fun _ _ _ => .pure rfl) ?_
  refine .accept (.inl (Tracks.quiet_of_kind rfl)) ?_ ?_
  · rintro word more rfl
    simp only [Lasting, List.length_cons] at enough enoughOther
    exact .map (tracks_varDeclaration budget other more (by omega) (by omega)) fun _ => rfl
  · exact .map (tracks_expressionStatement budget other front (by omega) (by omega)) fun _ => rfl
termination_by 2 * budget
decreasing_by all_goals omega

theorem tracks_forStatement (budget other : Nat) (front : List Token)
    (enough : Lasting 1 front budget) (enoughOther : Lasting 1 front other)
    : Tracks pairing true front (Stmt.renumber pairing.number) (forStatement budget)
        (forStatement other) := by
  obtain ⟨budget, rfl⟩ : ∃ less, budget = less + 1 := ⟨budget - 1, by omega⟩
  obtain ⟨other, rfl⟩ : ∃ less, other = less + 1 := ⟨other - 1, by omega⟩
  unfold forStatement
  refine .expectMark ?_
  rintro opening more rfl
  simp only [Lasting, List.length_cons] at enough enoughOther
  refine .bind (tracks_forInitializer budget other more (by omega) (by omega))
    fun initializer afterInitializer shorter => ?_
  refine .bind (.unlessMark (tracks_expression budget other afterInitializer (by omega) (by omega))
    (starves_expression budget)) fun condition middle shorterCondition => ?_
  refine .expectMark ?_
  rintro semicolon afterCondition rfl
  simp only [List.length_cons] at shorterCondition
  refine .bind (.unlessMark (tracks_expression budget other afterCondition (by omega) (by omega))
    (starves_expression budget)) fun increment middle shorterIncrement => ?_
  refine .expectMark ?_
  rintro closing afterIncrement rfl
  simp only [List.length_cons] at shorterIncrement
  refine .bind (tracks_statement budget other afterIncrement (by omega) (by omega))
    fun body _ _ => .pure ?_
  rw [Stmt.ofFor_renumber]
termination_by 2 * budget
decreasing_by all_goals omega

theorem tracks_ifStatement (budget other : Nat) (front : List Token)
    (enough : Lasting 1 front budget) (enoughOther : Lasting 1 front other)
    : Tracks pairing true front (Stmt.renumber pairing.number) (ifStatement budget)
        (ifStatement other) := by
  obtain ⟨budget, rfl⟩ : ∃ less, budget = less + 1 := ⟨budget - 1, by omega⟩
  obtain ⟨other, rfl⟩ : ∃ less, other = less + 1 := ⟨other - 1, by omega⟩
  unfold ifStatement
  refine .expectMark ?_
  rintro opening more rfl
  simp only [Lasting, List.length_cons] at enough enoughOther
  refine .bind (tracks_expression budget other more (by omega) (by omega))
    fun condition middle shorter => ?_
  refine .expectMark ?_
  rintro closing afterCondition rfl
  simp only [List.length_cons] at shorter
  refine .bind (tracks_statement budget other afterCondition (by omega) (by omega))
    fun positive afterPositive shorterPositive => ?_
  have branch (otherwise : Token) (next : List Token) (taken : afterPositive = otherwise :: next)
      : Tracks pairing true next (Stmt.renumber pairing.number) (statement budget)
          (statement other) := by
    subst taken
    simp only [List.length_cons] at shorterPositive
    exact tracks_statement budget other next (by omega) (by omega)
  refine .bind (.ifAccepted (Tracks.quiet_of_kind rfl) branch) fun negative _ _ => .pure ?_
  cases negative <;> rfl
termination_by 2 * budget
decreasing_by all_goals omega

theorem tracks_whileStatement (budget other : Nat) (front : List Token)
    (enough : Lasting 1 front budget) (enoughOther : Lasting 1 front other)
    : Tracks pairing true front (Stmt.renumber pairing.number) (whileStatement budget)
        (whileStatement other) := by
  obtain ⟨budget, rfl⟩ : ∃ less, budget = less + 1 := ⟨budget - 1, by omega⟩
  obtain ⟨other, rfl⟩ : ∃ less, other = less + 1 := ⟨other - 1, by omega⟩
  unfold whileStatement
  refine .expectMark ?_
  rintro opening more rfl
  simp only [Lasting, List.length_cons] at enough enoughOther
  refine .bind (tracks_expression budget other more (by omega) (by omega))
    fun condition middle shorter => ?_
  refine .expectMark ?_
  rintro closing afterCondition rfl
  simp only [List.length_cons] at shorter
  exact .bind (tracks_statement budget other afterCondition (by omega) (by omega))
    fun body _ _ => .pure rfl
termination_by 2 * budget
decreasing_by all_goals omega

theorem tracks_returnStatement (budget other : Nat) (front : List Token) (keyword : Token)
    (enough : Lasting 18 front budget) (enoughOther : Lasting 18 front other)
    : Tracks pairing true front (Stmt.renumber pairing.number) (returnStatement budget keyword)
        (returnStatement other keyword) := by
  obtain ⟨budget, rfl⟩ : ∃ less, budget = less + 1 := ⟨budget - 1, by omega⟩
  obtain ⟨other, rfl⟩ : ∃ less, other = less + 1 := ⟨other - 1, by omega⟩
  unfold returnStatement
  refine .bind (.unlessMark (tracks_expression budget other front (by omega) (by omega))
    (starves_expression budget)) fun value _ _ => ?_
  refine .expectMark fun _ _ _ => .pure ?_
  cases value <;> rfl
termination_by 2 * budget
decreasing_by all_goals omega

theorem tracks_printStatement (budget other : Nat) (front : List Token) (keyword : Token)
    (enough : Lasting 18 front budget) (enoughOther : Lasting 18 front other)
    : Tracks pairing true front (Stmt.renumber pairing.number) (printStatement budget keyword)
        (printStatement other keyword) := by
  obtain ⟨budget, rfl⟩ : ∃ less, budget = less + 1 := ⟨budget - 1, by omega⟩
  obtain ⟨other, rfl⟩ : ∃ less, other = less + 1 := ⟨other - 1, by omega⟩
  unfold printStatement
  refine .bind (tracks_expression budget other front (by omega) (by omega)) fun value _ _ => ?_
  exact .expectMark fun _ _ _ => .pure rfl
termination_by 2 * budget
decreasing_by all_goals omega

theorem tracks_expressionStatement (budget other : Nat) (front : List Token)
    (enough : Lasting 18 front budget) (enoughOther : Lasting 18 front other)
    : Tracks pairing true front (Stmt.renumber pairing.number) (expressionStatement budget)
        (expressionStatement other) := by
  obtain ⟨budget, rfl⟩ : ∃ less, budget = less + 1 := ⟨budget - 1, by omega⟩
  obtain ⟨other, rfl⟩ : ∃ less, other = less + 1 := ⟨other - 1, by omega⟩
  unfold expressionStatement
  refine .bind (tracks_expression budget other front (by omega) (by omega)) fun value _ _ => ?_
  exact .expectMark fun _ _ _ => .pure rfl
termination_by 2 * budget
decreasing_by all_goals omega

theorem tracks_block (budget other : Nat) (front : List Token)
    (enough : Lasting 21 front budget) (enoughOther : Lasting 21 front other)
    : Tracks pairing true front (Stmts.renumber pairing.number) (block budget) (block other) := by
  obtain ⟨budget, rfl⟩ : ∃ less, budget = less + 1 := ⟨budget - 1, by omega⟩
  obtain ⟨other, rfl⟩ : ∃ less, other = less + 1 := ⟨other - 1, by omega⟩
  unfold block
  refine .bindTaking tracks_bodyEnds (takes_bodyEnds front) (fun _ ends => .inr ?_)
    fun ends left shorter same => ?_
  · split
    · exact .expectMark
    · exact (starves_declaration budget).bind
  subst same
  cases ends with
  | true => exact .expectMark fun _ _ _ => .pure rfl
  | false =>
      refine .bindTaking (tracks_declaration budget other left (by omega) (by omega))
        (@takes_declaration .any budget left) (fun _ _ => .inl rfl) fun first middle _ derived => ?_
      have taken := derived.least_le
      simp only [Nonterminal.least] at taken
      exact .bind (tracks_block budget other middle (by omega) (by omega)) fun rest _ _ => .pure rfl
termination_by 2 * budget
decreasing_by all_goals omega

theorem tracks_expression (budget other : Nat) (front : List Token)
    (enough : Lasting 17 front budget) (enoughOther : Lasting 17 front other)
    : Tracks pairing true front (Expr.renumber pairing.number) (expression budget)
        (expression other) := by
  obtain ⟨budget, rfl⟩ : ∃ less, budget = less + 1 := ⟨budget - 1, by omega⟩
  obtain ⟨other, rfl⟩ : ∃ less, other = less + 1 := ⟨other - 1, by omega⟩
  unfold expression
  refine .bind (tracks_conditional budget other front (by omega) (by omega))
    fun target middle shorter => ?_
  refine .take? (Tracks.quiet_of_kind rfl) ?_ (.pure rfl)
  rintro equal more rfl
  simp only [List.length_cons] at shorter
  refine .bind (tracks_expression budget other more (by omega) (by omega)) fun value _ _ => ?_
  cases target with
  | «variable» read => exact .occurrence fun id => .pure rfl
  | get object property => exact .pure rfl
  | _ => exact .failAt
termination_by 2 * budget
decreasing_by all_goals omega

theorem tracks_conditional (budget other : Nat) (front : List Token)
    (enough : Lasting 16 front budget) (enoughOther : Lasting 16 front other)
    : Tracks pairing true front (Expr.renumber pairing.number) (conditional budget)
        (conditional other) := by
  obtain ⟨budget, rfl⟩ : ∃ less, budget = less + 1 := ⟨budget - 1, by omega⟩
  obtain ⟨other, rfl⟩ : ∃ less, other = less + 1 := ⟨other - 1, by omega⟩
  unfold conditional
  have room : Lasting (2 * level .or + 1) front budget := by simp only [level]; omega
  have roomOther : Lasting (2 * level .or + 1) front other := by simp only [level]; omega
  refine .bind (tracks_chain budget other .or front room roomOther)
    fun condition middle shorter => ?_
  refine .acceptMark rfl ?_ (.pure rfl)
  rintro question more rfl
  simp only [List.length_cons] at shorter
  refine .bind (tracks_expression budget other more (by omega) (by omega))
    fun positive middle shorterPositive => ?_
  refine .expectMark ?_
  rintro colon next rfl
  simp only [List.length_cons] at shorterPositive
  exact .bind (tracks_conditional budget other next (by omega) (by omega))
    fun negative _ _ => .pure rfl
termination_by 2 * budget
decreasing_by all_goals omega

theorem tracks_chain (budget other : Nat) (tier : Tier) (front : List Token)
    (enough : Lasting (2 * level tier + 1) front budget)
    (enoughOther : Lasting (2 * level tier + 1) front other)
    : Tracks pairing true front (Expr.renumber pairing.number) (chain budget tier)
        (chain other tier) := by
  obtain ⟨budget, rfl⟩ : ∃ less, budget = less + 1 := ⟨budget - 1, by omega⟩
  obtain ⟨other, rfl⟩ : ∃ less, other = less + 1 := ⟨other - 1, by omega⟩
  unfold chain
  refine .bind (tracks_operand budget other tier front (by omega) (by omega))
    fun left middle shorter => ?_
  have low : 2 ≤ level tier := by cases tier <;> decide
  exact tracks_chainFrom budget other tier left middle (by omega) (by omega)
termination_by 2 * budget
decreasing_by all_goals omega

theorem tracks_chainFrom (budget other : Nat) (tier : Tier) (left : Expr) (front : List Token)
    (enough : Lasting 1 front budget) (enoughOther : Lasting 1 front other)
    : Tracks pairing true front (Expr.renumber pairing.number) (chainFrom budget tier left)
        (chainFrom other tier (left.renumber pairing.number)) := by
  obtain ⟨budget, rfl⟩ : ∃ less, budget = less + 1 := ⟨budget - 1, by omega⟩
  obtain ⟨other, rfl⟩ : ∃ less, other = less + 1 := ⟨other - 1, by omega⟩
  unfold chainFrom
  refine .take? (quiet_operator tier) ?_ (.pure rfl)
  rintro operator more rfl
  simp only [Lasting, List.length_cons] at enough enoughOther
  have high : level tier ≤ 7 := by cases tier <;> decide
  refine .bind (tracks_operand budget other tier more (by omega) (by omega))
    fun right middle shorter => ?_
  rw [← Tier.join_renumber]
  exact tracks_chainFrom budget other tier _ middle (by omega) (by omega)
termination_by 2 * budget
decreasing_by all_goals omega

theorem tracks_operand (budget other : Nat) (tier : Tier) (front : List Token)
    (enough : Lasting (2 * level tier) front budget)
    (enoughOther : Lasting (2 * level tier) front other)
    : Tracks pairing true front (Expr.renumber pairing.number) (operand budget tier)
        (operand other tier) := by
  have low : 2 ≤ level tier := by cases tier <;> decide
  obtain ⟨budget, rfl⟩ : ∃ less, budget = less + 1 := ⟨budget - 1, by omega⟩
  obtain ⟨other, rfl⟩ : ∃ less, other = less + 1 := ⟨other - 1, by omega⟩
  unfold operand
  split
  · next tighter found =>
      have higher := level_of_tighter (tighter_of_tighter? found)
      exact tracks_chain budget other tighter front (by omega) (by omega)
  · exact tracks_unary budget other front (by omega) (by omega)
termination_by 2 * budget
decreasing_by all_goals omega

theorem tracks_unary (budget other : Nat) (front : List Token)
    (enough : Lasting 2 front budget) (enoughOther : Lasting 2 front other)
    : Tracks pairing true front (Expr.renumber pairing.number) (unary budget)
        (unary other) := by
  obtain ⟨budget, rfl⟩ : ∃ less, budget = less + 1 := ⟨budget - 1, by omega⟩
  obtain ⟨other, rfl⟩ : ∃ less, other = less + 1 := ⟨other - 1, by omega⟩
  unfold unary
  refine .take? quiet_sign ?_ ?_
  · rintro operator more rfl
    simp only [Lasting, List.length_cons] at enough enoughOther
    exact .bind (tracks_unary budget other more (by omega) (by omega)) fun operand _ _ => .pure rfl
  · refine .bind (tracks_primary budget other front (by omega) (by omega))
      fun callee middle shorter => ?_
    exact tracks_calls budget other callee middle (by omega) (by omega)
termination_by 2 * budget
decreasing_by all_goals omega

theorem tracks_calls (budget other : Nat) (callee : Expr) (front : List Token)
    (enough : Lasting 1 front budget) (enoughOther : Lasting 1 front other)
    : Tracks pairing true front (Expr.renumber pairing.number) (calls budget callee)
        (calls other (callee.renumber pairing.number)) := by
  obtain ⟨budget, rfl⟩ : ∃ less, budget = less + 1 := ⟨budget - 1, by omega⟩
  obtain ⟨other, rfl⟩ : ∃ less, other = less + 1 := ⟨other - 1, by omega⟩
  unfold calls
  refine .acceptMark rfl ?_ (.acceptMark rfl ?_ (.pure rfl))
  · rintro opening more rfl
    simp only [Lasting, List.length_cons] at enough enoughOther
    have given := tracks_arguments budget other maxArity more (by omega) (by omega)
    have starves := starves_arguments budget maxArity
    refine .bind (.unlessMark given starves) fun given middle shorter => ?_
    refine .expectMark ?_
    rintro closing rest rfl
    simp only [List.length_cons] at shorter
    have same
        : Expr.call (callee.renumber pairing.number) closing
            ((given.map (Exprs.renumber pairing.number)).getD [])
          = (Expr.call callee closing (given.getD [])).renumber pairing.number := by
      cases given <;> rfl
    rw [same]
    exact tracks_calls budget other _ rest (by omega) (by omega)
  · rintro dot more rfl
    refine .expectName ?_
    rintro name rest rfl
    simp only [Lasting, List.length_cons] at enough enoughOther
    exact tracks_calls budget other (.get callee name) rest (by omega) (by omega)
termination_by 2 * budget
decreasing_by all_goals omega

theorem tracks_arguments (budget other room : Nat) (front : List Token)
    (enough : Lasting 18 front budget) (enoughOther : Lasting 18 front other)
    : Tracks pairing true front (Exprs.renumber pairing.number) (arguments budget room)
        (arguments other room) := by
  obtain ⟨budget, rfl⟩ : ∃ less, budget = less + 1 := ⟨budget - 1, by omega⟩
  obtain ⟨other, rfl⟩ : ∃ less, other = less + 1 := ⟨other - 1, by omega⟩
  cases room with
  | zero => exact .fail
  | succ room =>
      unfold arguments
      refine .bind (tracks_expression budget other front (by omega) (by omega))
        fun first middle shorter => ?_
      refine .acceptMark rfl ?_ (.pure rfl)
      rintro comma more rfl
      simp only [List.length_cons] at shorter
      exact .bind (tracks_arguments budget other room more (by omega) (by omega))
        fun others _ _ => .pure rfl
termination_by 2 * budget
decreasing_by all_goals omega

theorem tracks_primary (budget other : Nat) (front : List Token)
    (enough : Lasting 1 front budget) (enoughOther : Lasting 1 front other)
    : Tracks pairing true front (Expr.renumber pairing.number) (primary budget)
        (primary other) := by
  obtain ⟨budget, rfl⟩ : ∃ less, budget = less + 1 := ⟨budget - 1, by omega⟩
  obtain ⟨other, rfl⟩ : ∃ less, other = less + 1 := ⟨other - 1, by omega⟩
  unfold primary
  refine .peek? .fail ?_ .fail
  rintro token more rfl
  simp only [Lasting, List.length_cons] at enough enoughOther
  dsimp only
  split
  · exact .skip (.pure rfl)
  · exact .skip (.pure rfl)
  · exact .skip (.pure rfl)
  · exact .skip (.pure rfl)
  · exact .skip (.pure rfl)
  · exact .skip (.occurrence fun id => .pure rfl)
  · exact .skip (.expectMark fun _ _ _ => .expectName fun _ _ _ => .occurrence fun id => .pure rfl)
  · exact .skip (.occurrence fun id => .pure rfl)
  · exact .skip (tracks_lambda budget other more token (by omega) (by omega))
  · refine .skip (.bind (tracks_expression budget other more (by omega) (by omega))
      fun inner _ _ => ?_)
    exact .expectMark fun _ _ _ => .pure rfl
  · exact .fail
termination_by 2 * budget
decreasing_by all_goals omega

theorem tracks_lambda (budget other : Nat) (front : List Token) (keyword : Token)
    (enough : Lasting 1 front budget) (enoughOther : Lasting 1 front other)
    : Tracks pairing true front (Expr.renumber pairing.number) (lambda budget keyword)
        (lambda other keyword) := by
  obtain ⟨budget, rfl⟩ : ∃ less, budget = less + 1 := ⟨budget - 1, by omega⟩
  obtain ⟨other, rfl⟩ : ∃ less, other = less + 1 := ⟨other - 1, by omega⟩
  unfold lambda
  refine .expectMark ?_
  rintro opening more rfl
  refine .bind tracks_parameters fun parameters middle shorter => ?_
  refine .expectMark ?_
  rintro openingBody inside rfl
  simp only [Lasting, List.length_cons] at enough enoughOther shorter
  exact .bind (tracks_block budget other inside (by omega) (by omega)) fun body _ _ => .pure rfl
termination_by 2 * budget
decreasing_by all_goals omega

end

end

-----------------------------------------------------------------------------------------
-- Whole sources
-----------------------------------------------------------------------------------------

section

variable {number : Nat → Nat} {first : Nat}

/-- Other numbers for the same tokens. -/
def renumbering (stop : Token) (counts : ∀ id, first ≤ id → number (id + 1) = number id + 1) :
    Pairing :=
  ⟨stop, [], stop, number, first, counts⟩

/-- Every declaration takes a token, also one with an error. -/
theorem length_declaration_lt (budget : Nat) {token : Token} {more : List Token}
    (enough : Lasting 20 (token :: more) budget) (stop : Token) (id : Nat)
    : match declaration budget ⟨token :: more, stop, id⟩ with
      | .ok _ after | .error _ after => after.ahead.length < (token :: more).length := by
  obtain ⟨budget, rfl⟩ : ∃ less, budget = less + 1 := ⟨budget - 1, by omega⟩
  have taken := @takes_declaration .any (budget + 1) (token :: more) stop id
  have read := tracks_declaring (renumbering stop fun id (_ : 0 ≤ id) => rfl) budget budget
    (token :: more) (by omega) (by omega) (fun _ _ _ _ => nofun) id (Nat.zero_le id)
  rw [declaration_eq] at taken ⊢
  simp only [synchronized, renumbering, Pairing.one] at taken read ⊢
  cases ran : declaring budget ⟨token :: more, stop, id⟩ with
  | ok stmt after =>
      rw [ran] at taken
      have least := (taken stmt after rfl).least_le
      simp only [Nonterminal.least] at least
      omega
  | error error after =>
      rw [ran] at read
      rcases read with ⟨left, last, suffix, _, rfl, _⟩
      dsimp only
      rw [Pairing.one, Cursor.synchronize_eq]
      by_cases none : left = []
      · rw [none]
        exact Nat.succ_pos _
      · exact Nat.lt_of_lt_of_le (Cursor.length_recovered_lt none) suffix.length_le

/-- Declarations come to the end, under other numbers with the same errors. By induction over the
budget.
-/
theorem declarations_renumber (counts : ∀ id, first ≤ id → number (id + 1) = number id + 1)
    (stop : Token) (budget other : Nat) (tokens : List Token) (id : Nat) (le : first ≤ id)
    (enough : Lasting 32 tokens budget) (enoughOther : Lasting 32 tokens other)
    : ∃ stmts errors last,
        first ≤ last
        ∧ declarations budget ⟨tokens, stop, id⟩ = (stmts, errors, ⟨[], stop, last⟩)
        ∧ declarations other ⟨tokens, stop, number id⟩
          = (Stmts.renumber number stmts, errors, ⟨[], stop, number last⟩) := by
  induction budget generalizing other tokens id with
  | zero => omega
  | succ budget ih =>
      obtain ⟨other, rfl⟩ : ∃ less, other = less + 1 := ⟨other - 1, by omega⟩
      cases tokens with
      | nil => exact ⟨[], [], id, le, rfl, rfl⟩
      | cons token more =>
          have room : Lasting 20 (token :: more) budget := by omega
          have roomOther : Lasting 20 (token :: more) other := by omega
          have read := tracks_declaration (renumbering stop counts) budget other (token :: more)
            room roomOther (fun _ _ _ _ => nofun) id le
          have shorter := length_declaration_lt budget room stop id
          simp only [renumbering, Pairing.one, Pairing.other, List.append_nil] at read
          unfold declarations
          rw [if_neg (by simp), if_neg (by simp)]
          cases ran : declaration budget ⟨token :: more, stop, id⟩ with
          | ok stmt after | error error after =>
              rw [ran] at read shorter
              rcases read with ⟨left, middle, _, leMiddle, rfl, follows⟩
              rw [follows (.inr (.inl ⟨rfl, rfl⟩))]
              simp only [Lasting, List.length_cons, Pairing.one] at enough enoughOther shorter
              obtain ⟨stmts, errors, last, leLast, same, sameOther⟩ :=
                ih other left middle leMiddle (by omega) (by omega)
              simp only [Pairing.one, Pairing.other, List.append_nil, same, sameOther]
              exact ⟨_, _, last, leLast, rfl, rfl⟩

end

end Parser

section

variable {number : Nat → Nat} {first : Nat}

/-- Under other numbers a source is read alike. -/
theorem Program.parse_renumber (counts : ∀ id, first ≤ id → number (id + 1) = number id + 1)
    (tokens : List Token) (stop : Token)
    : first ≤ (Program.parse tokens stop first).2
      ∧ Program.parse tokens stop (number first)
        = ((Program.parse tokens stop first).1.map (Stmts.renumber number),
            number (Program.parse tokens stop first).2) := by
  have read := Parser.declarations_renumber counts stop _ _ tokens first (Nat.le_refl _)
    (Nat.le_refl _) (Nat.le_refl _)
  obtain ⟨stmts, errors, last, le, same, sameOther⟩ := read
  simp only [Program.parse, Parser.budget, Nat.mul_add, Nat.mul_one, same, sameOther]
  refine ⟨le, ?_⟩
  cases errors <;> rfl

/-- Under other numbers an expression is read alike. -/
theorem Expr.parse?_renumber (counts : ∀ id, first ≤ id → number (id + 1) = number id + 1)
    (tokens : List Token) (stop : Token)
    : Expr.parse? tokens stop (number first)
      = ((Expr.parse? tokens stop first).1.map (Expr.renumber number),
          number (Expr.parse? tokens stop first).2) := by
  let pairing := Parser.renumbering stop counts
  have read := Parser.tracks_expression pairing (Parser.budget ⟨tokens, stop, first⟩)
    (Parser.budget ⟨tokens, stop, number first⟩) tokens
    (by simp only [Parser.budget]; omega) (by simp only [Parser.budget]; omega)
    (fun _ _ _ _ => nofun) first (Nat.le_refl _)
  unfold Expr.parse?
  dsimp only
  cases ran
      : Parser.expression (Parser.budget ⟨tokens, stop, first⟩) ⟨tokens, stop, first⟩ with
  | ok expr after | error error after =>
      simp only [pairing, Parser.renumbering, Pairing.one, Pairing.other, List.append_nil, ran]
        at read
      obtain ⟨left, last, _, _, rfl, other⟩ := read
      rw [other (.inr (.inl ⟨rfl, rfl⟩))]
      cases left <;> rfl

/-- Neither the budget nor the numbers matter to the errors of a source. -/
theorem Program.syntaxErrors_eq_of_lasting {budget : Nat} {tokens : List Token}
    (enough : 32 * (tokens.length + 1) ≤ budget) (stop : Token) (id first : Nat)
    : (Parser.declarations budget ⟨tokens, stop, id⟩).2.1
      = Program.syntaxErrors tokens stop first := by
  let number (other : Nat) : Nat := first + (other - id)
  have counts (other : Nat) (le : id ≤ other) : number (other + 1) = number other + 1 := by
    simp only [number]
    omega
  have read := Parser.declarations_renumber counts stop budget
    (Parser.budget ⟨tokens, stop, first⟩) tokens id (Nat.le_refl _) enough (Nat.le_refl _)
  obtain ⟨stmts, errors, last, _, same, sameOther⟩ := read
  have here : number id = first := by simp only [number, Nat.sub_self, Nat.add_zero]
  rw [here] at sameOther
  rw [Program.syntaxErrors_eq, same, sameOther]

end

end Lox
