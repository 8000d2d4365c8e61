import Lox.Proofs.Syntax.Recovery
import Lox.Proofs.Syntax.Renumbering

/-! Two readings of the same tokens, one of which has more tokens behind them. What comes behind
does not matter as long as tokens are left before it; budgets do not matter if they last, and the
numbers of occurrences are only handed on. So the one reading follows the other step by step.
-/

namespace Lox

open Cursor Grammar

-----------------------------------------------------------------------------------------
-- Two readings
-----------------------------------------------------------------------------------------

/-- A reading of tokens up to their end, and another one with more tokens behind them, with another
end and with other numbers.
-/
structure Pairing where
  stop : Token
  behind : List Token
  otherStop : Token
  /-- The number of an occurrence in the other reading. -/
  number : Nat → Nat
  first : Nat
  counts : ∀ id, first ≤ id → number (id + 1) = number id + 1

namespace Pairing

variable {α β : Type} {pairing : Pairing} {fine : Bool} {front left : List Token}

/-- Where the first reading is when it has these tokens left. -/
def one (pairing : Pairing) (left : List Token) (id : Nat) : Cursor := ⟨left, pairing.stop, id⟩

/-- Where the other reading is then. -/
def other (pairing : Pairing) (left : List Token) (id : Nat) : Cursor :=
  ⟨left ++ pairing.behind, pairing.otherStop, pairing.number id⟩

/-- It does not matter what is behind the tokens that are left. Some are left, or nothing else is
behind them. If all goes well, a semicolon behind them is as good as nothing.
-/
def Settled (pairing : Pairing) (fine : Bool) (left : List Token) : Prop :=
  left ≠ [] ∨ (pairing.behind = [] ∧ pairing.otherStop = pairing.stop)
    ∨ (fine = true ∧ StartsWith (· = .mark .semicolon) pairing.behind)

/-- No `fun` is the last of the tokens with a name right behind it. -/
def Apart (pairing : Pairing) (front : List Token) : Prop :=
  ∀ token ∈ front.getLast?,
    token.kind = .keyword .fun → ∀ next ∈ pairing.behind.head?, next.kind ≠ .identifier

theorem Apart.suffix (h : pairing.Apart front) (ends : left <:+ front) : pairing.Apart left := by
  rcases ends with ⟨taken, rfl⟩
  intro token last
  apply h token
  rw [List.getLast?_append, Option.mem_def.1 last]
  rfl

/-- What matters neither later nor for a failure does not matter now. -/
theorem Settled.earlier (h : pairing.Settled fine left) (ends : left <:+ front)
    : pairing.Settled fine front := by
  refine h.imp_left fun some none => some ?_
  rw [none, List.suffix_nil] at ends
  exact ends

theorem Settled.weaken (h : pairing.Settled false left) : pairing.Settled fine left := by
  rcases h with some | same | ⟨impossible, _⟩
  · exact .inl some
  · exact .inr (.inl same)
  · cases impossible

/-- The other reading comes to the same result if what is behind does not matter. -/
def Matches (pairing : Pairing) (fine : Bool) (front : List Token) (change : α → β) :
    EStateM.Result SyntaxError Cursor α → EStateM.Result SyntaxError Cursor β → Prop
  | .ok value after, result =>
    ∃ left id,
      left <:+ front ∧ pairing.first ≤ id ∧ after = pairing.one left id
        ∧ (pairing.Settled fine left → result = .ok (change value) (pairing.other left id))
  | .error error after, result =>
    ∃ left id,
      left <:+ front ∧ pairing.first ≤ id ∧ after = pairing.one left id
        ∧ (pairing.Settled false left → result = .error error (pairing.other left id))

theorem Matches.earlier {middle : List Token} {change : α → β}
    {result : EStateM.Result SyntaxError Cursor α}
    {otherResult : EStateM.Result SyntaxError Cursor β}
    (h : pairing.Matches fine middle change result otherResult) (ends : middle <:+ front)
    : pairing.Matches fine front change result otherResult := by
  cases result with
  | ok value after | error error after =>
      rcases h with ⟨left, id, suffix, le, same⟩
      exact ⟨left, id, suffix.trans ends, le, same⟩

/-- At the end the other reading is free if something matters that is behind. -/
theorem Matches.unsettled {change : α → β} {result : EStateM.Result SyntaxError Cursor α}
    {otherResult : EStateM.Result SyntaxError Cursor β}
    (h : pairing.Matches fine [] change result otherResult) (free : ¬ pairing.Settled fine [])
    (otherwise : EStateM.Result SyntaxError Cursor β)
    : pairing.Matches fine [] change result otherwise := by
  cases result with
  | ok value after =>
      rcases h with ⟨left, id, suffix, le, same, _⟩
      cases List.suffix_nil.1 suffix
      exact ⟨[], id, suffix, le, same, fun settled => absurd settled free⟩
  | error error after =>
      rcases h with ⟨left, id, suffix, le, same, _⟩
      cases List.suffix_nil.1 suffix
      exact ⟨[], id, suffix, le, same, fun settled => absurd settled.weaken free⟩

end Pairing

namespace Reader

open Pairing

-----------------------------------------------------------------------------------------
-- Readers that need a token
-----------------------------------------------------------------------------------------

/-- The reader never succeeds at the end. -/
def Starves {α : Type} (reader : Reader α) : Prop := Takes reader [] fun _ _ => False

namespace Starves

variable {α β : Type} {reader : Reader α} {next : α → Reader β}

theorem bind (h : Starves reader) : Starves (reader >>= next) :=
  Takes.bind h fun _ _ impossible => impossible.elim

theorem map {change : α → β} (h : Starves reader) : Starves (change <$> reader) := h.bind

theorem expectMark {mark : Mark} {cause : SyntaxCause} {next : Token → Reader β}
    : Starves (Reader.expectMark mark cause >>= next) :=
  Takes.expectMark nofun

end Starves

-----------------------------------------------------------------------------------------
-- Readers that follow one another
-----------------------------------------------------------------------------------------

/-- On the tokens, the other reader follows the first one. Where that one succeeds, the result of
the other is changed.
-/
def Tracks {α β : Type} (pairing : Pairing) (fine : Bool) (front : List Token) (change : α → β)
    (reader : Reader α) (other : Reader β) : Prop :=
  pairing.Apart front
    → ∀ id,
        pairing.first ≤ id
        → pairing.Matches fine front change (reader (pairing.one front id))
            (other (pairing.other front id))

namespace Tracks

variable {α β γ δ : Type} {pairing : Pairing} {fine : Bool} {front : List Token} {change : α → β}
  {changeNext : γ → δ} {reader : Reader α} {other : Reader β} {next : α → Reader γ}
  {otherNext : β → Reader δ} {cause : SyntaxCause} {test : Token → Bool} {mark : Mark}

theorem pure {value : α} {changed : β} (same : changed = change value)
    : Tracks pairing fine front change (Pure.pure value) (Pure.pure changed) :=
  fun _ id le => ⟨front, id, List.suffix_rfl, le, rfl, fun _ => same ▸ rfl⟩

theorem fail : Tracks pairing fine front change (Reader.fail cause) (Reader.fail cause) := by
  intro _ id le
  refine ⟨front, id, List.suffix_rfl, le, rfl, fun settled => ?_⟩
  cases front with
  | cons token front => rfl
  | nil =>
      rcases settled with some | ⟨none, same⟩ | ⟨impossible, _⟩
      · exact absurd rfl some
      · simp only [Reader.fail, Pairing.other, Pairing.one, none, same, Cursor.next,
          List.append_nil, List.headD_nil]
      · cases impossible

theorem failAt {token : Token}
    : Tracks pairing fine front change (Reader.failAt token cause) (Reader.failAt token cause) :=
  fun _ id le => ⟨front, id, List.suffix_rfl, le, rfl, fun _ => rfl⟩

/-- One reader after the other. What the first one takes is of use. For the first one a semicolon
is as good as the end, or else the next one needs more tokens.
-/
theorem bindTaking {least : Bool} {goal : α → List Token → Prop}
    (h : Tracks pairing least front change reader other) (takes : Takes reader front goal)
    (needs : fine = true → ∀ value, least = true ∨ Starves (next value))
    (rest
      : ∀ value left, left.length ≤ front.length → goal value left
        → Tracks pairing fine left changeNext (next value) (otherNext (change value)))
    : Tracks pairing fine front changeNext (reader >>= next) (other >>= otherNext) := by
  intro apart id le
  have read := h apart id le
  have taken := takes pairing.stop id
  simp only [Bind.bind, EStateM.bind]
  change ∀ value after, reader (pairing.one front id) = .ok value after → _ at taken
  cases ran : reader (pairing.one front id) with
  | error error after =>
      rw [ran] at read
      rcases read with ⟨left, last, suffix, leLast, same, follows⟩
      exact ⟨left, last, suffix, leLast, same, fun settled => by rw [follows settled]⟩
  | ok value after =>
      rw [ran] at read taken
      rcases read with ⟨left, middle, suffix, leMiddle, rfl, follows⟩
      have reached := taken value _ rfl
      have more := rest value left suffix.length_le reached (apart.suffix suffix) middle leMiddle
      dsimp only
      cases ranNext : next value (pairing.one left middle) with
      | ok result after =>
          rw [ranNext] at more
          rcases more with ⟨last, final, suffixLast, leLast, same, followsNext⟩
          refine ⟨last, final, suffixLast.trans suffix, leLast, same, fun settled => ?_⟩
          have earlier := settled.earlier suffixLast
          have enough : pairing.Settled least left := by
            cases fine with
            | false => exact earlier.weaken
            | true =>
                rcases needs rfl value with rfl | starves
                · exact earlier
                · refine .inl ?_
                  rintro rfl
                  exact starves pairing.stop middle result after ranNext
          rw [follows enough]
          exact followsNext settled
      | error error after =>
          rw [ranNext] at more
          rcases more with ⟨last, final, suffixLast, leLast, same, followsNext⟩
          refine ⟨last, final, suffixLast.trans suffix, leLast, same, fun settled => ?_⟩
          rw [follows (settled.earlier suffixLast).weaken]
          exact followsNext settled

theorem bind (h : Tracks pairing true front change reader other)
    (rest
      : ∀ value left, left.length ≤ front.length
        → Tracks pairing fine left changeNext (next value) (otherNext (change value)))
    : Tracks pairing fine front changeNext (reader >>= next) (other >>= otherNext) :=
  have any : Takes reader front fun _ _ => True := fun _ _ _ _ _ => trivial
  h.bindTaking any (fun _ _ => .inl rfl) fun value left shorter _ => rest value left shorter

theorem map (h : Tracks pairing true front change reader other) {make : α → γ} {otherMake : β → δ}
    (same : ∀ value, otherMake (change value) = changeNext (make value))
    : Tracks pairing fine front changeNext (make <$> reader) (otherMake <$> other) :=
  h.bind fun value _ _ => pure (same value)

-----------------------------------------------------------------------------------------
-- Readers of one token
-----------------------------------------------------------------------------------------

/-- Both readers go on as others do. -/
theorem goesOn {goes : Reader α} {otherGoes : Reader β} {left : List Token}
    (h : Tracks pairing fine left change goes otherGoes) (ends : left <:+ front)
    (ran : ∀ stop id, reader ⟨front, stop, id⟩ = goes ⟨left, stop, id⟩)
    (otherRan
      : ∀ behind stop id, other ⟨front ++ behind, stop, id⟩ = otherGoes ⟨left ++ behind, stop, id⟩)
    : Tracks pairing fine front change reader other := by
  intro apart id le
  unfold Pairing.one Pairing.other
  rw [ran, otherRan]
  exact (h (apart.suffix ends) id le).earlier ends

/-- At the end both readers go on as others do. Where a semicolon is as good, the other one goes on
so before a semicolon too, or else nothing succeeds.
-/
theorem atEnd {goes : Reader α} {otherGoes : Reader β}
    (h : Tracks pairing fine [] change goes otherGoes)
    (ran : ∀ stop id, reader ⟨[], stop, id⟩ = goes ⟨[], stop, id⟩)
    (otherRan : ∀ stop id, other ⟨[], stop, id⟩ = otherGoes ⟨[], stop, id⟩)
    (quiet
      : fine = true
        → (∀ behind stop id, StartsWith (· = .mark .semicolon) behind
            → other ⟨behind, stop, id⟩ = otherGoes ⟨behind, stop, id⟩)
          ∨ Starves goes)
    : Tracks pairing fine [] change reader other := by
  intro apart id le
  have read := h apart id le
  simp only [Pairing.one, Pairing.other, ran, List.nil_append] at read ⊢
  by_cases none : pairing.behind = [] ∧ pairing.otherStop = pairing.stop
  · rw [none.1] at read ⊢
    rwa [otherRan]
  by_cases semicolon : fine = true ∧ StartsWith (· = .mark .semicolon) pairing.behind
  case neg =>
    refine read.unsettled ?_ _
    rintro (some | same | starts)
    · exact some rfl
    · exact none same
    · exact semicolon starts
  rcases quiet semicolon.1 with quiet | starves
  · rwa [quiet _ _ _ semicolon.2]
  · cases ended : goes ⟨[], pairing.stop, id⟩ with
    | ok value after => exact (starves _ _ _ _ ended).elim
    | error error after =>
        rw [ended] at read
        rcases read with ⟨left, last, suffix, leLast, same, _⟩
        cases List.suffix_nil.1 suffix
        refine ⟨[], last, suffix, leLast, same, ?_⟩
        rintro (some | same | ⟨impossible, _⟩)
        · exact absurd rfl some
        · exact absurd same none
        · cases impossible

/-- A token that passes a test has to be next. -/
theorem expect {next : Token → Reader γ} {otherNext : Token → Reader δ}
    (rest
      : ∀ token more, front = token :: more → test token = true
        → Tracks pairing fine more changeNext (next token) (otherNext token))
    : Tracks pairing fine front changeNext (Reader.expect test cause >>= next)
        (Reader.expect test cause >>= otherNext) := by
  cases front with
  | nil =>
      have fails : Tracks pairing fine [] changeNext (Reader.fail cause) (Reader.fail cause) := fail
      exact fails.atEnd (fun _ _ => rfl) (fun _ _ => rfl) fun _ => .inr .fail
  | cons token more =>
      by_cases passes : test token = true
      · have goes := rest token more rfl passes
        refine goes.goesOn (List.suffix_cons token more) ?_ ?_ <;> intros <;>
          simp only [Bind.bind, EStateM.bind, Reader.expect, List.cons_append, if_pos passes]
      · have fails
            : Tracks pairing fine (token :: more) changeNext (Reader.fail cause)
                (Reader.fail cause) :=
          fail
        refine fails.goesOn List.suffix_rfl ?_ ?_ <;> intros <;>
          simp only [Bind.bind, EStateM.bind, Reader.expect, List.cons_append, if_neg passes] <;>
          rfl

theorem expectMark {next : Token → Reader γ} {otherNext : Token → Reader δ}
    (rest
      : ∀ token more, front = token :: more
        → Tracks pairing fine more changeNext (next token) (otherNext token))
    : Tracks pairing fine front changeNext (Reader.expectMark mark cause >>= next)
        (Reader.expectMark mark cause >>= otherNext) :=
  expect fun token more taken _ => rest token more taken

theorem expectName {next : Token → Reader γ} {otherNext : Token → Reader δ}
    (rest
      : ∀ token more, front = token :: more
        → Tracks pairing fine more changeNext (next token) (otherNext token))
    : Tracks pairing fine front changeNext (Reader.expectName cause >>= next)
        (Reader.expectName cause >>= otherNext) :=
  expect fun token more taken _ => rest token more taken

/-- No semicolon passes the test. -/
def Quiet (test : Token → Bool) : Prop :=
  ∀ token, token.kind = .mark .semicolon → test token = false

theorem quiet_of_kind {kind : TokenKind}
    (apart : (TokenKind.mark .semicolon).sameCategory kind = false)
    : Quiet (·.kind.sameCategory kind) := by
  intro token same
  change token.kind.sameCategory kind = false
  rw [same, apart]

/-- A token that passes a test is taken, any other one is left. -/
theorem accept {next : Bool → Reader γ} {otherNext : Bool → Reader δ}
    (quiet : Quiet test ∨ Starves (next false))
    (yes
      : ∀ token more, front = token :: more
        → Tracks pairing fine more changeNext (next true) (otherNext true))
    (no : Tracks pairing fine front changeNext (next false) (otherNext false))
    : Tracks pairing fine front changeNext (Reader.accept test >>= next)
        (Reader.accept test >>= otherNext) := by
  cases front with
  | nil =>
      refine no.atEnd (fun _ _ => rfl) (fun _ _ => rfl) fun _ => quiet.imp_left fun quiet => ?_
      rintro _ stop id ⟨token, more, rfl, semicolon⟩
      simp only [Bind.bind, EStateM.bind, Reader.accept, quiet token semicolon,
        if_neg Bool.false_ne_true]
  | cons token more =>
      by_cases passes : test token = true
      · refine (yes token more rfl).goesOn (List.suffix_cons token more) ?_ ?_ <;> intros <;>
          simp only [Bind.bind, EStateM.bind, Reader.accept, List.cons_append, if_pos passes]
      · refine no.goesOn List.suffix_rfl ?_ ?_ <;> intros <;>
          simp only [Bind.bind, EStateM.bind, Reader.accept, List.cons_append, if_neg passes]

theorem acceptMark {next : Bool → Reader γ} {otherNext : Bool → Reader δ}
    (other : (TokenKind.mark .semicolon).sameCategory (.mark mark) = false)
    (yes
      : ∀ token more, front = token :: more
        → Tracks pairing fine more changeNext (next true) (otherNext true))
    (no : Tracks pairing fine front changeNext (next false) (otherNext false))
    : Tracks pairing fine front changeNext (Reader.acceptMark mark >>= next)
        (Reader.acceptMark mark >>= otherNext) :=
  accept (.inl (quiet_of_kind other)) yes no

/-- The token that passes a test is of use. -/
theorem take? {next : Option Token → Reader γ} {otherNext : Option Token → Reader δ}
    (quiet : Quiet test)
    (some
      : ∀ token more, front = token :: more
        → Tracks pairing fine more changeNext (next (some token)) (otherNext (some token)))
    (none : Tracks pairing fine front changeNext (next none) (otherNext none))
    : Tracks pairing fine front changeNext (Reader.take? test >>= next)
        (Reader.take? test >>= otherNext) := by
  cases front with
  | nil =>
      refine none.atEnd (fun _ _ => rfl) (fun _ _ => rfl) fun _ => .inl ?_
      rintro _ stop id ⟨token, more, rfl, semicolon⟩
      simp only [Bind.bind, EStateM.bind, Reader.take?, quiet token semicolon,
        if_neg Bool.false_ne_true]
  | cons token more =>
      by_cases passes : test token = true
      · refine (some token more rfl).goesOn (List.suffix_cons token more) ?_ ?_ <;> intros <;>
          simp only [Bind.bind, EStateM.bind, Reader.take?, List.cons_append, if_pos passes]
      · refine none.goesOn List.suffix_rfl ?_ ?_ <;> intros <;>
          simp only [Bind.bind, EStateM.bind, Reader.take?, List.cons_append, if_neg passes]

/-- The next token is looked at. -/
theorem peek? {next : Option Token → Reader γ} {otherNext : Option Token → Reader δ}
    (starves : Starves (next none))
    (some
      : ∀ token more, front = token :: more
        → Tracks pairing fine front changeNext (next (some token)) (otherNext (some token)))
    (none : Tracks pairing fine front changeNext (next none) (otherNext none))
    : Tracks pairing fine front changeNext (Reader.peek? >>= next)
        (Reader.peek? >>= otherNext) := by
  cases front with
  | nil => exact none.atEnd (fun _ _ => rfl) (fun _ _ => rfl) fun _ => .inr starves
  | cons token more =>
      exact (some token more rfl).goesOn List.suffix_rfl (fun _ _ => rfl) fun _ _ _ => rfl

/-- The next token is passed over. -/
theorem skip {token : Token} {more : List Token} {next : Unit → Reader γ}
    {otherNext : Unit → Reader δ}
    (rest : Tracks pairing fine more changeNext (next ()) (otherNext ()))
    : Tracks pairing fine (token :: more) changeNext (Reader.skip >>= next)
        (Reader.skip >>= otherNext) :=
  rest.goesOn (List.suffix_cons token more) (fun _ _ => rfl) fun _ _ _ => rfl

/-- A number is given to an occurrence. -/
theorem occurrence {token : Token} {next : Occurrence → Reader γ}
    {otherNext : Occurrence → Reader δ}
    (rest
      : ∀ id,
          Tracks pairing fine front changeNext (next ⟨id, token⟩)
            (otherNext ⟨pairing.number id, token⟩))
    : Tracks pairing fine front changeNext (Reader.occurrence token >>= next)
        (Reader.occurrence token >>= otherNext) := by
  intro apart id le
  have read := rest id apart (id + 1) (Nat.le_succ_of_le le)
  rw [Pairing.other, pairing.counts id le] at read
  exact read

/-- The keyword `fun` and a name are looked for. -/
theorem seesNamed {yes no : Reader γ} {otherYes otherNo : Reader δ}
    (both
      : ∀ token second more, front = token :: second :: more
        → Tracks pairing fine front changeNext yes otherYes)
    (neither : Tracks pairing fine front changeNext no otherNo)
    : Tracks pairing fine front changeNext
        (do
          if (← Reader.sees (·.isKeyword .fun)) && (← Reader.seesSecond (·.isIdentifier)) then yes
          else no)
        (do
          if (← Reader.sees (·.isKeyword .fun)) && (← Reader.seesSecond (·.isIdentifier)) then
            otherYes
          else otherNo) := by
  rcases front with _ | ⟨token, _ | ⟨second, more⟩⟩
  · refine neither.atEnd (fun _ _ => rfl) (fun _ _ => rfl) fun _ => .inl ?_
    rintro _ stop id ⟨token, more, rfl, semicolon⟩
    have other : token.isKeyword .fun = false :=
      Bool.eq_false_iff.2 fun passes => by
        cases semicolon.symm.trans ((token.isKeyword_iff _).1 passes)
    rw [run_seesTwo, List.head?_cons, Option.any_some, other, Bool.false_and,
      if_neg Bool.false_ne_true]
  · intro apart id le
    have read := neither apart id le
    have other
        : ((token :: pairing.behind).head?.any (·.isKeyword .fun)
            && (token :: pairing.behind).tail.head?.any (·.isIdentifier)) = false := by
      rw [Bool.eq_false_iff]
      intro passes
      obtain ⟨word, name⟩ := Bool.and_eq_true_iff.1 passes
      obtain ⟨found, member, named⟩ := (Option.any_eq_true _ _).1 name
      exact apart token rfl ((token.isKeyword_iff _).1 word) found member
        (found.isIdentifier_iff.1 named)
    unfold Pairing.one Pairing.other at read ⊢
    rw [run_seesTwo, run_seesTwo, List.singleton_append, other]
    simpa using read
  · by_cases passes : (token.isKeyword .fun && second.isIdentifier) = true
    · refine (both token second more rfl).goesOn List.suffix_rfl ?_ ?_ <;> intros <;>
        exact congrFun (if_pos passes) _
    · refine neither.goesOn List.suffix_rfl ?_ ?_ <;> intros <;>
        exact congrFun (if_neg passes) _

-----------------------------------------------------------------------------------------
-- What is read on demand
-----------------------------------------------------------------------------------------

/-- More is read after a token that passes a test. -/
theorem ifAccepted (quiet : Quiet test)
    (h : ∀ token more, front = token :: more → Tracks pairing true more change reader other)
    : Tracks pairing fine front (Option.map change) (Reader.ifAccepted test reader)
        (Reader.ifAccepted test other) := by
  unfold Reader.ifAccepted
  refine accept (.inl quiet) (fun token more taken => ?_) (pure rfl)
  exact (h token more taken).map fun _ => rfl

/-- More is read unless a mark is next. -/
theorem unlessMark (h : Tracks pairing true front change reader other) (starves : Starves reader)
    : Tracks pairing fine front (Option.map change) (Reader.unlessMark mark reader)
        (Reader.unlessMark mark other) := by
  have read : Tracks pairing fine front (Option.map change) (some <$> reader) (some <$> other) :=
    h.map fun _ => rfl
  cases front with
  | nil => exact read.atEnd (fun _ _ => rfl) (fun _ _ => rfl) fun _ => .inr starves.map
  | cons token more =>
      by_cases passes : token.isMark mark = true
      · have absent
            : Tracks pairing fine (token :: more) (Option.map change) (Pure.pure none)
                (Pure.pure none) :=
          pure rfl
        refine absent.goesOn List.suffix_rfl ?_ ?_ <;> intros <;>
          exact congrFun (if_pos passes) _
      · refine read.goesOn List.suffix_rfl ?_ ?_ <;> intros <;>
          exact congrFun (if_neg passes) _

-----------------------------------------------------------------------------------------
-- Moving on
-----------------------------------------------------------------------------------------

/-- What moves on only to tokens that are left does not notice what is behind them. By induction
over the tokens that are skipped.
-/
theorem skipToStatement_append_of_some {previous : Token} {tokens : List Token}
    (some : skipToStatement previous tokens ≠ []) (behind : List Token)
    : skipToStatement previous (tokens ++ behind) = skipToStatement previous tokens ++ behind := by
  induction tokens generalizing previous with
  | nil => exact absurd rfl some
  | cons token rest ih =>
      rw [skipToStatement] at some
      rw [List.cons_append, skipToStatement, skipToStatement]
      split
      · rfl
      · next goesOn =>
          rw [if_neg goesOn] at some
          exact ih some

theorem synchronized (h : Tracks pairing fine front change reader other)
    : Tracks pairing fine front change (Reader.synchronized reader)
        (Reader.synchronized other) := by
  intro apart id le
  have read := h apart id le
  simp only [Reader.synchronized]
  cases ran : reader (pairing.one front id) with
  | ok value after =>
      rw [ran] at read
      rcases read with ⟨left, last, suffix, leLast, same, follows⟩
      exact ⟨left, last, suffix, leLast, same, fun settled => by rw [follows settled]⟩
  | error error after =>
      rw [ran] at read
      rcases read with ⟨left, last, suffix, leLast, rfl, follows⟩
      have moved := recovered_suffix left
      refine ⟨recovered left, last, moved.trans suffix, leLast, ?_, fun settled => ?_⟩
      · exact synchronize_eq left pairing.stop last
      rw [follows (settled.earlier moved)]
      dsimp only
      rw [Pairing.other, synchronize_eq, Pairing.other]
      rcases settled with some | ⟨none, _⟩ | ⟨impossible, _⟩
      · cases left with
        | nil => exact absurd rfl some
        | cons token rest =>
            have goesOn := skipToStatement_append_of_some some pairing.behind
            rw [List.cons_append, recovered, goesOn, recovered]
      · rw [none, List.append_nil, List.append_nil]
      · cases impossible

end Tracks

end Reader

end Lox
