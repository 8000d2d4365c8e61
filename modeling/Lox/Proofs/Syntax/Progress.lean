import Lox.Proofs.Syntax.Lockstep

/-! Readers go forward. Whatever a reader comes to, the tokens that it leaves are the last of those
that it found; most readers take one at least. An error stands at one of the tokens that were found,
at or before the cursor, so that moving on from it goes past the error.
-/

namespace Lox

-----------------------------------------------------------------------------------------
-- Where errors stand
-----------------------------------------------------------------------------------------

/-- The error stands at the first of some tokens, or at the end if there are none. These are among
the last of the front, and what is left comes not before them.
-/
def SyntaxError.Between (error : SyntaxError) (front left : List Token) (stop : Token) : Prop :=
  ∃ spot, left <:+ spot ∧ spot <:+ front ∧ error.token = spot.headD stop

theorem SyntaxError.Between.later {error : SyntaxError} {front left last : List Token}
    {stop : Token} (h : error.Between front left stop) (ends : last <:+ left)
    : error.Between front last stop := by
  obtain ⟨spot, suffix, inside, same⟩ := h
  exact ⟨spot, ends.trans suffix, inside, same⟩

namespace Reader

-----------------------------------------------------------------------------------------
-- Readers that go forward
-----------------------------------------------------------------------------------------

/-- On the tokens ahead, the reader leaves the last of them, and takes at least so many if it
succeeds. If it fails, its error stands in the front. The budget runs out only if it was lacking.
-/
def Advances {α : Type} (front : List Token) (least lack : Nat) (reader : Reader α)
    (ahead : List Token) : Prop :=
  ahead <:+ front
  → ∀ stop first,
      match reader ⟨ahead, stop, first⟩ with
      | .ok _ after =>
        ∃ left last,
          after = ⟨left, stop, last⟩ ∧ left <:+ ahead ∧ left.length + least ≤ ahead.length
      | .error error after =>
        ∃ left last,
          after = ⟨left, stop, last⟩
          ∧ left <:+ ahead
          ∧ error.Between front left stop
          ∧ (error.cause = .budget → 0 < lack)

namespace Advances

variable {α β : Type} {front ahead more : List Token} {least lack : Nat} {reader : Reader α}
  {token : Token} {cause : SyntaxCause} {test : Token → Bool} {mark : Mark}

theorem pure {value : α} : Advances front 0 lack (Pure.pure value) ahead :=
  fun _ _ first => ⟨ahead, first, rfl, List.suffix_rfl, Nat.le_refl _⟩

/-- A failure at the next token. -/
theorem failing (known : cause = .budget → 0 < lack)
    : Advances front least lack (Reader.fail cause : Reader α) ahead :=
  fun inside _ first =>
    ⟨ahead, first, rfl, List.suffix_rfl, ⟨ahead, List.suffix_rfl, inside, rfl⟩, known⟩

theorem fail (known : cause ≠ .budget)
    : Advances front least lack (Reader.fail cause : Reader α) ahead :=
  failing fun same => absurd same known

/-- The budget has run out. -/
theorem exhausted (lacks : 0 < lack)
    : Advances front least lack (Reader.fail .budget : Reader α) ahead :=
  failing fun _ => lacks

/-- A failure at a token that was passed before. -/
theorem failAt (known : cause ≠ .budget) (behind : ahead <:+ token :: more)
    (inside : token :: more <:+ front)
    : Advances front least lack (Reader.failAt token cause : Reader α) ahead :=
  fun _ _ first =>
    ⟨ahead, first, rfl, List.suffix_rfl, ⟨token :: more, behind, inside, rfl⟩,
      fun same => absurd same known⟩

/-- How many tokens are taken may be forgotten. -/
theorem loose (h : Advances front least lack reader ahead) : Advances front 0 lack reader ahead := by
  intro inside stop first
  have read := h inside stop first
  cases ran : reader ⟨ahead, stop, first⟩ with
  | ok value after =>
      rw [ran] at read
      obtain ⟨left, last, same, suffix, _⟩ := read
      exact ⟨left, last, same, suffix, suffix.length_le⟩
  | error error after =>
      rw [ran] at read
      exact read

/-- The front may be made use of. -/
theorem within (h : ahead <:+ front → Advances front least lack reader ahead)
    : Advances front least lack reader ahead :=
  fun inside => h inside inside

/-- Where one reader does the same as another one on fewer tokens. -/
theorem goesOn {goes : Reader α} {fewer : List Token}
    (h : Advances front (least - taken) lack goes fewer) (ends : fewer <:+ ahead)
    (shorter : fewer.length + taken ≤ ahead.length)
    (ran : ∀ stop first, reader ⟨ahead, stop, first⟩ = goes ⟨fewer, stop, first⟩)
    : Advances front least lack reader ahead := by
  intro inside stop first
  have read := h (ends.trans inside) stop first
  rw [ran]
  cases result : goes ⟨fewer, stop, first⟩ with
  | ok value after =>
      rw [result] at read
      obtain ⟨left, last, same, suffix, least⟩ := read
      exact ⟨left, last, same, suffix.trans ends, by omega⟩
  | error error after =>
      rw [result] at read
      obtain ⟨left, last, same, suffix, error⟩ := read
      exact ⟨left, last, same, suffix.trans ends, error⟩

/-- One reader after the other. -/
theorem bind {taken : Nat} {next : α → Reader β} (h : Advances front taken lack reader ahead)
    (rest
      : ∀ value left, left <:+ ahead → left.length + taken ≤ ahead.length
        → Advances front (least - taken) lack (next value) left)
    : Advances front least lack (reader >>= next) ahead := by
  intro inside stop first
  have read := h inside stop first
  simp only [Bind.bind, EStateM.bind]
  cases ran : reader ⟨ahead, stop, first⟩ with
  | error error after =>
      rw [ran] at read
      exact read
  | ok value after =>
      rw [ran] at read
      obtain ⟨left, middle, rfl, suffix, shorter⟩ := read
      have follows := rest value left suffix shorter (suffix.trans inside) stop middle
      dsimp only
      cases ranNext : next value ⟨left, stop, middle⟩ with
      | ok result after =>
          rw [ranNext] at follows
          obtain ⟨last, final, same, suffixLast, shorterLast⟩ := follows
          exact ⟨last, final, same, suffixLast.trans suffix, by omega⟩
      | error error after =>
          rw [ranNext] at follows
          obtain ⟨last, final, same, suffixLast, error⟩ := follows
          exact ⟨last, final, same, suffixLast.trans suffix, error⟩

theorem map {change : α → β} (h : Advances front least lack reader ahead)
    : Advances front least lack (change <$> reader) ahead :=
  h.bind fun value _ _ _ => by
    rw [Nat.sub_self]
    exact pure

/-- An error is left behind. -/
theorem synchronized (h : Advances front least lack reader ahead)
    : Advances front least lack (Reader.synchronized reader) ahead := by
  intro inside stop first
  have read := h inside stop first
  simp only [Reader.synchronized]
  cases ran : reader ⟨ahead, stop, first⟩ with
  | ok value after =>
      rw [ran] at read
      exact read
  | error error after =>
      rw [ran] at read
      obtain ⟨left, last, rfl, suffix, between, lacks⟩ := read
      have moved := Cursor.recovered_suffix left
      exact ⟨Cursor.recovered left, last, Cursor.synchronize_eq left stop last, moved.trans suffix,
        between.later moved, lacks⟩

/-- A token that passes a test has to be next. -/
theorem expect {next : Token → Reader β} (known : cause ≠ .budget)
    (rest
      : ∀ token more, ahead = token :: more
        → Advances front (least - 1) lack (next token) more)
    : Advances front least lack (Reader.expect test cause >>= next) ahead := by
  have fails : Advances front least lack (Reader.fail cause : Reader β) ahead := fail known
  cases ahead with
  | nil => exact fails
  | cons token more =>
      by_cases passes : test token = true
      · refine (rest token more rfl).goesOn (List.suffix_cons token more) (Nat.le_refl _) ?_
        intro stop first
        simp only [Bind.bind, EStateM.bind, Reader.expect, if_pos passes]
      · intro inside stop first
        have read := fails inside stop first
        simp only [Bind.bind, EStateM.bind, Reader.expect, if_neg passes]
        exact read

theorem expectMark {next : Token → Reader β} (known : cause ≠ .budget)
    (rest
      : ∀ token more, ahead = token :: more
        → Advances front (least - 1) lack (next token) more)
    : Advances front least lack (Reader.expectMark mark cause >>= next) ahead :=
  expect known rest

theorem expectName {next : Token → Reader β} (known : cause ≠ .budget)
    (rest
      : ∀ token more, ahead = token :: more
        → Advances front (least - 1) lack (next token) more)
    : Advances front least lack (Reader.expectName cause >>= next) ahead :=
  expect known rest

/-- A token that passes a test is taken, any other one is left. -/
theorem accept {next : Bool → Reader β}
    (yes
      : ∀ token more, ahead = token :: more
        → Advances front (least - 1) lack (next true) more)
    (no : Advances front least lack (next false) ahead)
    : Advances front least lack (Reader.accept test >>= next) ahead := by
  cases ahead with
  | nil => exact no
  | cons token more =>
      by_cases passes : test token = true
      · refine (yes token more rfl).goesOn (List.suffix_cons token more) (Nat.le_refl _) ?_
        intro stop first
        simp only [Bind.bind, EStateM.bind, Reader.accept, if_pos passes]
      · intro inside stop first
        have read := no inside stop first
        simp only [Bind.bind, EStateM.bind, Reader.accept, if_neg passes]
        exact read

theorem acceptMark {next : Bool → Reader β}
    (yes
      : ∀ token more, ahead = token :: more
        → Advances front (least - 1) lack (next true) more)
    (no : Advances front least lack (next false) ahead)
    : Advances front least lack (Reader.acceptMark mark >>= next) ahead :=
  accept yes no

/-- The token that passes a test is of use. -/
theorem take? {next : Option Token → Reader β}
    (some
      : ∀ token more, ahead = token :: more
        → Advances front (least - 1) lack (next (some token)) more)
    (none : Advances front least lack (next none) ahead)
    : Advances front least lack (Reader.take? test >>= next) ahead := by
  cases ahead with
  | nil => exact none
  | cons token more =>
      by_cases passes : test token = true
      · refine (some token more rfl).goesOn (List.suffix_cons token more) (Nat.le_refl _) ?_
        intro stop first
        simp only [Bind.bind, EStateM.bind, Reader.take?, if_pos passes]
      · intro inside stop first
        have read := none inside stop first
        simp only [Bind.bind, EStateM.bind, Reader.take?, if_neg passes]
        exact read

/-- The next token is looked at and left. -/
theorem peek? {next : Option Token → Reader β}
    (some
      : ∀ token more, ahead = token :: more
        → Advances front least lack (next (some token)) ahead)
    (none : Advances front least lack (next none) ahead)
    : Advances front least lack (Reader.peek? >>= next) ahead := by
  cases ahead with
  | nil => exact none
  | cons token more => exact some token more rfl

/-- The next token is passed over. -/
theorem skip {next : Unit → Reader β} (rest : Advances front (least - 1) lack (next ()) more)
    : Advances front least lack (Reader.skip >>= next) (token :: more) :=
  rest.goesOn (List.suffix_cons token more) (Nat.le_refl _) fun _ _ => rfl

/-- Testing the next token takes nothing. -/
theorem sees : Advances front 0 lack (Reader.sees test) ahead :=
  fun _ _ first => ⟨ahead, first, rfl, List.suffix_rfl, Nat.le_refl _⟩

/-- The next two tokens are tested. -/
theorem seesTwo {testSecond : Token → Bool} {yes no : Reader β}
    (both
      : ∀ token second more, ahead = token :: second :: more
        → Advances front least lack yes ahead)
    (other : Advances front least lack no ahead)
    : Advances front least lack
        (do if (← Reader.sees test) && (← Reader.seesSecond testSecond) then yes else no)
        ahead := by
  have branch
      : Advances front least lack
          (if (ahead.head?.any test && ahead.tail.head?.any testSecond) = true then yes else no)
          ahead := by
    split
    · next passes =>
        obtain ⟨passesFirst, passesSecond⟩ := Bool.and_eq_true_iff.1 passes
        rcases ahead with _ | ⟨token, _ | ⟨second, more⟩⟩
        · cases passesFirst
        · cases passesSecond
        · exact both token second more rfl
    · exact other
  intro inside stop first
  rw [run_seesTwo]
  exact branch inside stop first

/-- A number is given to an occurrence. -/
theorem occurrence {next : Occurrence → Reader β}
    (rest : ∀ id, Advances front least lack (next ⟨id, token⟩) ahead)
    : Advances front least lack (Reader.occurrence token >>= next) ahead :=
  fun inside stop first => rest first inside stop (first + 1)

/-- More is read after a token that passes a test. -/
theorem ifAccepted
    (yes : ∀ token more, ahead = token :: more → Advances front least lack reader more)
    : Advances front 0 lack (Reader.ifAccepted test reader) ahead :=
  accept (fun token more taken => (yes token more taken).loose.map) pure

/-- More is read unless a mark is next. -/
theorem unlessMark (h : Advances front least lack reader ahead)
    : Advances front 0 lack (Reader.unlessMark mark reader) ahead := by
  have branch
      : Advances front 0 lack
          (if ahead.head?.any (·.isMark mark) = true then Pure.pure none else some <$> reader)
          ahead := by
    split
    · exact pure
    · exact h.loose.map
  exact branch

end Advances

end Reader

namespace Parser

open Reader Grammar

-----------------------------------------------------------------------------------------
-- Lists of names
-----------------------------------------------------------------------------------------

section

variable {front ahead : List Token} {lack : Nat}

theorem advances_parameterNames (room : Nat)
    : Advances front 1 lack (parameterNames room) ahead := by
  induction room generalizing ahead with
  | zero => exact .fail (by decide)
  | succ room ih =>
      unfold parameterNames
      refine .expectName (by decide) fun name more _ => ?_
      refine .acceptMark (fun comma others _ => ?_) .pure
      exact .bind ih fun names _ _ _ => .pure

theorem advances_parameters : Advances front 1 lack parameters ahead := by
  unfold parameters
  refine .bind (.unlessMark (advances_parameterNames maxArity)) fun names left _ _ => ?_
  exact .expectMark nofun fun _ _ _ => .pure

theorem advances_superclass : Advances front 0 lack superclass ahead := by
  unfold superclass
  refine .acceptMark (fun less more _ => ?_) .pure
  exact .expectName nofun fun name _ _ => .occurrence fun id => .pure

theorem advances_bodyEnds : Advances front 0 lack bodyEnds ahead := by
  unfold bodyEnds
  refine .bind .sees fun seen left _ _ => ?_
  split
  · exact .pure
  · exact fun _ _ first => ⟨left, first, rfl, List.suffix_rfl, Nat.le_refl _⟩

theorem advances_breakStatement (keyword : Token)
    : Advances front 1 lack (breakStatement keyword) ahead := by
  unfold breakStatement
  exact .expectMark nofun fun _ _ _ => .pure

end

-----------------------------------------------------------------------------------------
-- Every reader
-----------------------------------------------------------------------------------------

mutual

theorem advances_declaration (budget lack : Nat) (front ahead : List Token)
    (enough : Lasting 20 ahead (budget + lack))
    : Advances front 1 lack (declaration budget) ahead := by
  cases budget with
  | zero => exact .exhausted (by omega)
  | succ budget => exact .synchronized (advances_declaring budget lack front ahead (by omega))
termination_by 2 * budget
decreasing_by all_goals omega

/-- A declaration before it moves on. -/
theorem advances_declaring (budget lack : Nat) (front ahead : List Token)
    (enough : Lasting 19 ahead (budget + lack))
    : Advances front 1 lack (declaring budget) ahead := by
  unfold declaring
  refine .accept ?_ (.seesTwo ?_ (.accept ?_ ?_))
  · rintro word more rfl
    simp only [Lasting, List.length_cons] at enough
    exact .loose (advances_classDeclaration budget lack front more (by omega))
  · rintro word name more rfl
    simp only [Lasting, List.length_cons] at enough
    have function := advances_function budget lack front (name :: more) (by
      simp only [Lasting, List.length_cons]
      omega)
    exact .skip (.bind function fun function _ _ _ => .pure)
  · rintro word more rfl
    simp only [Lasting, List.length_cons] at enough
    exact .loose (advances_varDeclaration budget lack front more (by omega))
  · exact advances_statement budget lack front ahead enough
termination_by 2 * budget + 1
decreasing_by all_goals omega

theorem advances_classDeclaration (budget lack : Nat) (front ahead : List Token)
    (enough : Lasting 1 ahead (budget + lack))
    : Advances front 1 lack (classDeclaration budget) ahead := by
  cases budget with
  | zero => exact .exhausted (by omega)
  | succ budget =>
      unfold classDeclaration
      refine .expectName nofun ?_
      rintro name afterName rfl
      refine .bind advances_superclass fun superclass middle _ shorter => ?_
      refine .expectMark nofun ?_
      rintro opening inside rfl
      simp only [Lasting, List.length_cons] at enough shorter
      refine .bind (advances_members budget lack front inside (by omega)) ?_
      rintro ⟨methods, statics⟩ left _ _
      exact .expectMark nofun fun _ _ _ => .pure
termination_by 2 * budget
decreasing_by all_goals omega

theorem advances_members (budget lack : Nat) (front ahead : List Token)
    (enough : Lasting 2 ahead (budget + lack))
    : Advances front 0 lack (members budget) ahead := by
  cases budget with
  | zero => exact .exhausted (by omega)
  | succ budget =>
      unfold members
      refine .bind advances_bodyEnds fun ends left _ shorter => ?_
      -- a member and the others, which it goes before
      have goesOn (rest : List Token) (ofClass : Bool) (le : rest.length ≤ left.length)
          : Advances front 0 lack
              (do
                let function ← function budget
                let (methods, statics) ← members budget
                if ofClass then return (methods, function :: statics)
                else return (function :: methods, statics)) rest := by
        refine .bind (advances_function budget lack front rest (by omega))
          fun function middle _ taken => ?_
        refine .bind (advances_members budget lack front middle (by omega)) ?_
        rintro ⟨methods, statics⟩ last _ _
        cases ofClass with
        | true | false => exact .pure
      cases ends with
      | true => exact .pure
      | false =>
          refine .accept ?_ (goesOn left false (Nat.le_refl _))
          rintro word more rfl
          exact goesOn more true (Nat.le_succ _)
termination_by 2 * budget
decreasing_by all_goals omega

theorem advances_function (budget lack : Nat) (front ahead : List Token)
    (enough : Lasting 1 ahead (budget + lack))
    : Advances front 1 lack (function budget) ahead := by
  cases budget with
  | zero => exact .exhausted (by omega)
  | succ budget =>
      unfold function
      refine .expectName nofun ?_
      rintro name afterName rfl
      refine .expectMark nofun ?_
      rintro opening more rfl
      refine .bind advances_parameters fun parameters middle _ shorter => ?_
      refine .expectMark nofun ?_
      rintro openingBody inside rfl
      simp only [Lasting, List.length_cons] at enough shorter
      exact .bind (advances_block budget lack front inside (by omega)) fun body _ _ _ => .pure
termination_by 2 * budget
decreasing_by all_goals omega

theorem advances_varDeclaration (budget lack : Nat) (front ahead : List Token)
    (enough : Lasting 1 ahead (budget + lack))
    : Advances front 1 lack (varDeclaration budget) ahead := by
  cases budget with
  | zero => exact .exhausted (by omega)
  | succ budget =>
      unfold varDeclaration
      refine .expectName nofun ?_
      rintro name afterName rfl
      simp only [Lasting, List.length_cons] at enough
      have value (equal : Token) (more : List Token) (taken : afterName = equal :: more)
          : Advances front 1 lack (expression budget) more := by
        subst taken
        simp only [List.length_cons] at enough
        exact advances_expression budget lack front more (by omega)
      refine .bind (.ifAccepted value) fun initializer _ _ _ => ?_
      exact .expectMark nofun fun _ _ _ => .pure
termination_by 2 * budget
decreasing_by all_goals omega

theorem advances_statement (budget lack : Nat) (front ahead : List Token)
    (enough : Lasting 19 ahead (budget + lack))
    : Advances front 1 lack (statement budget) ahead := by
  cases budget with
  | zero => exact .exhausted (by omega)
  | succ budget =>
      have plain := advances_expressionStatement budget lack front ahead (by omega)
      unfold statement
      refine .peek? ?_ plain
      rintro word more rfl
      simp only [Lasting, List.length_cons] at enough
      dsimp only
      split
      · exact .skip (.loose (advances_forStatement budget lack front more (by omega)))
      · exact .skip (.loose (advances_ifStatement budget lack front more (by omega)))
      · exact .skip (.loose (advances_whileStatement budget lack front more (by omega)))
      · exact .skip (.loose (advances_breakStatement word))
      · exact .skip (.loose (advances_returnStatement budget lack front more word (by omega)))
      · exact .skip (.loose (.map (advances_block budget lack front more (by omega))))
      · exact .skip (.loose (advances_printStatement budget lack front more word (by omega)))
      · exact plain
termination_by 2 * budget
decreasing_by all_goals omega

theorem advances_forInitializer (budget lack : Nat) (front ahead : List Token)
    (enough : Lasting 19 ahead (budget + lack))
    : Advances front 1 lack (forInitializer budget) ahead := by
  cases budget with
  | zero => exact .exhausted (by omega)
  | succ budget =>
      unfold forInitializer
      refine .acceptMark (fun _ _ _ => .pure) (.accept ?_ ?_)
      · rintro word more rfl
        simp only [Lasting, List.length_cons] at enough
        exact .loose (.map (advances_varDeclaration budget lack front more (by omega)))
      · exact .map (advances_expressionStatement budget lack front ahead (by omega))
termination_by 2 * budget
decreasing_by all_goals omega

theorem advances_forStatement (budget lack : Nat) (front ahead : List Token)
    (enough : Lasting 1 ahead (budget + lack))
    : Advances front 1 lack (forStatement budget) ahead := by
  cases budget with
  | zero => exact .exhausted (by omega)
  | succ budget =>
      unfold forStatement
      refine .expectMark nofun ?_
      rintro opening more rfl
      simp only [Lasting, List.length_cons] at enough
      refine .bind (advances_forInitializer budget lack front more (by omega))
        fun initializer afterInitializer _ shorter => ?_
      have condition := advances_expression budget lack front afterInitializer (by omega)
      refine .bind (.unlessMark condition) fun condition middle _ shorterCondition => ?_
      refine .expectMark nofun ?_
      rintro semicolon afterCondition rfl
      simp only [List.length_cons] at shorterCondition
      have increment := advances_expression budget lack front afterCondition (by omega)
      refine .bind (.unlessMark increment) fun increment middle _ shorterIncrement => ?_
      refine .expectMark nofun ?_
      rintro closing afterIncrement rfl
      simp only [List.length_cons] at shorterIncrement
      exact .bind (advances_statement budget lack front afterIncrement (by omega))
        fun body _ _ _ => .pure
termination_by 2 * budget
decreasing_by all_goals omega

theorem advances_ifStatement (budget lack : Nat) (front ahead : List Token)
    (enough : Lasting 1 ahead (budget + lack))
    : Advances front 1 lack (ifStatement budget) ahead := by
  cases budget with
  | zero => exact .exhausted (by omega)
  | succ budget =>
      unfold ifStatement
      refine .expectMark nofun ?_
      rintro opening more rfl
      simp only [Lasting, List.length_cons] at enough
      refine .bind (advances_expression budget lack front more (by omega))
        fun condition middle _ shorter => ?_
      refine .expectMark nofun ?_
      rintro closing afterCondition rfl
      simp only [List.length_cons] at shorter
      refine .bind (advances_statement budget lack front afterCondition (by omega))
        fun positive afterPositive _ shorterPositive => ?_
      have branch (otherwise : Token) (next : List Token) (taken : afterPositive = otherwise :: next)
          : Advances front 1 lack (statement budget) next := by
        subst taken
        simp only [List.length_cons] at shorterPositive
        exact advances_statement budget lack front next (by omega)
      exact .bind (.ifAccepted branch) fun negative _ _ _ => .pure
termination_by 2 * budget
decreasing_by all_goals omega

theorem advances_whileStatement (budget lack : Nat) (front ahead : List Token)
    (enough : Lasting 1 ahead (budget + lack))
    : Advances front 1 lack (whileStatement budget) ahead := by
  cases budget with
  | zero => exact .exhausted (by omega)
  | succ budget =>
      unfold whileStatement
      refine .expectMark nofun ?_
      rintro opening more rfl
      simp only [Lasting, List.length_cons] at enough
      refine .bind (advances_expression budget lack front more (by omega))
        fun condition middle _ shorter => ?_
      refine .expectMark nofun ?_
      rintro closing afterCondition rfl
      simp only [List.length_cons] at shorter
      exact .bind (advances_statement budget lack front afterCondition (by omega))
        fun body _ _ _ => .pure
termination_by 2 * budget
decreasing_by all_goals omega

theorem advances_returnStatement (budget lack : Nat) (front ahead : List Token) (keyword : Token)
    (enough : Lasting 18 ahead (budget + lack))
    : Advances front 1 lack (returnStatement budget keyword) ahead := by
  cases budget with
  | zero => exact .exhausted (by omega)
  | succ budget =>
      unfold returnStatement
      have value := advances_expression budget lack front ahead (by omega)
      refine .bind (.unlessMark value) fun value _ _ _ => ?_
      exact .expectMark nofun fun _ _ _ => .pure
termination_by 2 * budget
decreasing_by all_goals omega

theorem advances_printStatement (budget lack : Nat) (front ahead : List Token) (keyword : Token)
    (enough : Lasting 18 ahead (budget + lack))
    : Advances front 1 lack (printStatement budget keyword) ahead := by
  cases budget with
  | zero => exact .exhausted (by omega)
  | succ budget =>
      unfold printStatement
      refine .bind (advances_expression budget lack front ahead (by omega)) fun value _ _ _ => ?_
      exact .expectMark nofun fun _ _ _ => .pure
termination_by 2 * budget
decreasing_by all_goals omega

theorem advances_expressionStatement (budget lack : Nat) (front ahead : List Token)
    (enough : Lasting 18 ahead (budget + lack))
    : Advances front 1 lack (expressionStatement budget) ahead := by
  cases budget with
  | zero => exact .exhausted (by omega)
  | succ budget =>
      unfold expressionStatement
      refine .bind (advances_expression budget lack front ahead (by omega)) fun value _ _ _ => ?_
      exact .expectMark nofun fun _ _ _ => .pure
termination_by 2 * budget
decreasing_by all_goals omega

theorem advances_block (budget lack : Nat) (front ahead : List Token)
    (enough : Lasting 21 ahead (budget + lack))
    : Advances front 1 lack (block budget) ahead := by
  cases budget with
  | zero => exact .exhausted (by omega)
  | succ budget =>
      unfold block
      refine .bind advances_bodyEnds fun ends left _ shorter => ?_
      cases ends with
      | true => exact .expectMark nofun fun _ _ _ => .pure
      | false =>
          refine .bind (advances_declaration budget lack front left (by omega))
            fun first middle _ taken => ?_
          exact .bind (.loose (advances_block budget lack front middle (by omega)))
            fun rest _ _ _ => .pure
termination_by 2 * budget
decreasing_by all_goals omega

theorem advances_expression (budget lack : Nat) (front ahead : List Token)
    (enough : Lasting 17 ahead (budget + lack))
    : Advances front 1 lack (expression budget) ahead := by
  cases budget with
  | zero => exact .exhausted (by omega)
  | succ budget =>
      unfold expression
      refine .within fun inside => ?_
      refine .bind (advances_conditional budget lack front ahead (by omega))
        fun target middle ends shorter => ?_
      refine .take? ?_ .pure
      rintro equal more rfl
      simp only [List.length_cons] at shorter
      refine .bind (.loose (advances_expression budget lack front more (by omega)))
        fun value left suffix _ => ?_
      cases target with
      | «variable» read => exact .occurrence fun id => .pure
      | get object property => exact .pure
      | _ =>
          -- the sign is behind the cursor
          exact .failAt nofun (suffix.trans (List.suffix_cons equal more)) (ends.trans inside)
termination_by 2 * budget
decreasing_by all_goals omega

theorem advances_conditional (budget lack : Nat) (front ahead : List Token)
    (enough : Lasting 16 ahead (budget + lack))
    : Advances front 1 lack (conditional budget) ahead := by
  cases budget with
  | zero => exact .exhausted (by omega)
  | succ budget =>
      unfold conditional
      have room : Lasting (2 * level .or + 1) ahead (budget + lack) := by
        simp only [level]
        omega
      refine .bind (advances_chain budget lack .or front ahead room)
        fun condition middle _ shorter => ?_
      refine .acceptMark ?_ .pure
      rintro question more rfl
      simp only [List.length_cons] at shorter
      refine .bind (advances_expression budget lack front more (by omega))
        fun positive middle _ shorterPositive => ?_
      refine .expectMark nofun ?_
      rintro colon next rfl
      simp only [List.length_cons] at shorterPositive
      exact .bind (advances_conditional budget lack front next (by omega))
        fun negative _ _ _ => .pure
termination_by 2 * budget
decreasing_by all_goals omega

theorem advances_chain (budget lack : Nat) (tier : Tier) (front ahead : List Token)
    (enough : Lasting (2 * level tier + 1) ahead (budget + lack))
    : Advances front 1 lack (chain budget tier) ahead := by
  cases budget with
  | zero => exact .exhausted (by omega)
  | succ budget =>
      unfold chain
      refine .bind (advances_operand budget lack tier front ahead (by omega))
        fun left middle _ shorter => ?_
      have low : 2 ≤ level tier := by cases tier <;> decide
      exact advances_chainFrom budget lack tier left front middle (by omega)
termination_by 2 * budget
decreasing_by all_goals omega

theorem advances_chainFrom (budget lack : Nat) (tier : Tier) (left : Expr)
    (front ahead : List Token) (enough : Lasting 1 ahead (budget + lack))
    : Advances front 0 lack (chainFrom budget tier left) ahead := by
  cases budget with
  | zero => exact .exhausted (by omega)
  | succ budget =>
      unfold chainFrom
      refine .take? ?_ .pure
      rintro operator more rfl
      simp only [Lasting, List.length_cons] at enough
      have high : level tier ≤ 7 := by cases tier <;> decide
      refine .bind (advances_operand budget lack tier front more (by omega))
        fun right middle _ shorter => ?_
      exact advances_chainFrom budget lack tier _ front middle (by omega)
termination_by 2 * budget
decreasing_by all_goals omega

theorem advances_operand (budget lack : Nat) (tier : Tier) (front ahead : List Token)
    (enough : Lasting (2 * level tier) ahead (budget + lack))
    : Advances front 1 lack (operand budget tier) ahead := by
  have low : 2 ≤ level tier := by cases tier <;> decide
  cases budget with
  | zero => exact .exhausted (by omega)
  | succ budget =>
      unfold operand
      split
      · next tighter found =>
          have higher := level_of_tighter (tighter_of_tighter? found)
          exact advances_chain budget lack tighter front ahead (by omega)
      · exact advances_unary budget lack front ahead (by omega)
termination_by 2 * budget
decreasing_by all_goals omega

theorem advances_unary (budget lack : Nat) (front ahead : List Token)
    (enough : Lasting 2 ahead (budget + lack))
    : Advances front 1 lack (unary budget) ahead := by
  cases budget with
  | zero => exact .exhausted (by omega)
  | succ budget =>
      unfold unary
      refine .take? ?_ ?_
      · rintro operator more rfl
        simp only [Lasting, List.length_cons] at enough
        exact .bind (.loose (advances_unary budget lack front more (by omega)))
          fun operand _ _ _ => .pure
      · refine .bind (advances_primary budget lack front ahead (by omega))
          fun callee middle _ shorter => ?_
        exact advances_calls budget lack callee front middle (by omega)
termination_by 2 * budget
decreasing_by all_goals omega

theorem advances_calls (budget lack : Nat) (callee : Expr) (front ahead : List Token)
    (enough : Lasting 1 ahead (budget + lack))
    : Advances front 0 lack (calls budget callee) ahead := by
  cases budget with
  | zero => exact .exhausted (by omega)
  | succ budget =>
      unfold calls
      refine .acceptMark ?_ (.acceptMark ?_ .pure)
      · rintro opening more rfl
        simp only [Lasting, List.length_cons] at enough
        have given := advances_arguments budget lack maxArity front more (by omega)
        refine .bind (.unlessMark given) fun given middle _ shorter => ?_
        refine .expectMark nofun ?_
        rintro closing rest rfl
        simp only [List.length_cons] at shorter
        exact advances_calls budget lack _ front rest (by omega)
      · rintro dot more rfl
        refine .expectName nofun ?_
        rintro name rest rfl
        simp only [Lasting, List.length_cons] at enough
        exact advances_calls budget lack _ front rest (by omega)
termination_by 2 * budget
decreasing_by all_goals omega

theorem advances_arguments (budget lack room : Nat) (front ahead : List Token)
    (enough : Lasting 18 ahead (budget + lack))
    : Advances front 1 lack (arguments budget room) ahead := by
  cases budget with
  | zero => exact .exhausted (by omega)
  | succ budget =>
      cases room with
      | zero => exact .fail nofun
      | succ room =>
          unfold arguments
          refine .bind (advances_expression budget lack front ahead (by omega))
            fun first middle _ shorter => ?_
          refine .acceptMark ?_ .pure
          rintro comma more rfl
          simp only [List.length_cons] at shorter
          exact .bind (.loose (advances_arguments budget lack room front more (by omega)))
            fun others _ _ _ => .pure
termination_by 2 * budget
decreasing_by all_goals omega

theorem advances_primary (budget lack : Nat) (front ahead : List Token)
    (enough : Lasting 1 ahead (budget + lack))
    : Advances front 1 lack (primary budget) ahead := by
  cases budget with
  | zero => exact .exhausted (by omega)
  | succ budget =>
      unfold primary
      refine .peek? ?_ (.fail nofun)
      rintro token more rfl
      simp only [Lasting, List.length_cons] at enough
      dsimp only
      split
      · exact .skip .pure
      · exact .skip .pure
      · exact .skip .pure
      · exact .skip .pure
      · exact .skip .pure
      · exact .skip (.occurrence fun id => .pure)
      · exact .skip (.expectMark nofun fun _ _ _ => .expectName nofun fun _ _ _ =>
          .occurrence fun id => .pure)
      · exact .skip (.occurrence fun id => .pure)
      · exact .skip (.loose (advances_lambda budget lack front more token (by omega)))
      · have inner := advances_expression budget lack front more (by omega)
        exact .skip (.bind inner.loose fun inner _ _ _ => .expectMark nofun fun _ _ _ => .pure)
      · exact .fail nofun
termination_by 2 * budget
decreasing_by all_goals omega

theorem advances_lambda (budget lack : Nat) (front ahead : List Token) (keyword : Token)
    (enough : Lasting 1 ahead (budget + lack))
    : Advances front 1 lack (lambda budget keyword) ahead := by
  cases budget with
  | zero => exact .exhausted (by omega)
  | succ budget =>
      unfold lambda
      refine .expectMark nofun ?_
      rintro opening more rfl
      refine .bind advances_parameters fun parameters middle _ shorter => ?_
      refine .expectMark nofun ?_
      rintro openingBody inside rfl
      simp only [Lasting, List.length_cons] at enough shorter
      exact .bind (advances_block budget lack front inside (by omega)) fun body _ _ _ => .pure
termination_by 2 * budget
decreasing_by all_goals omega

end

end Parser

end Lox
