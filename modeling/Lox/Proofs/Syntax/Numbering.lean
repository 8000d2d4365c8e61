import Mathlib.Data.List.Nodup
import Lox.Proofs.Scoping.Occurrences
import Lox.Proofs.Syntax.Spelling
import Lox.Syntax.Parser

/-! The numbers of occurrences in what is read from tokens. Every reader numbers the occurrences
of its result apart and in the interval that it counts through, whether it succeeds or not, and
gives only trees whose places are proper.
-/

namespace Lox

-----------------------------------------------------------------------------------------
-- Listings that are numbered in an interval
-----------------------------------------------------------------------------------------

/-- The occurrences of a listing are numbered apart from `first` on and below `next`, and all
places are proper.
-/
structure Numbered (listing : Surroundings → List Place) (first next : Nat) : Prop where
  le : first ≤ next
  distinct : ∀ around, ((listing around).filterMap Place.number?).Nodup
  range : ∀ around, ∀ id ∈ (listing around).filterMap Place.number?, first ≤ id ∧ id < next
  proper : ∀ around, ∀ place ∈ listing around, place.act.Proper

namespace Numbered

variable {listing more : Surroundings → List Place} {first middle next : Nat}

/-- Those that are looked up are numbered apart. -/
theorem apart (h : Numbered listing first next) (around : Surroundings)
    : ((listing around).filterMap Place.id?).Nodup :=
  (h.distinct around).sublist (Place.sublist_numbers _)

theorem within (h : Numbered listing first next) (around : Surroundings)
    : ∀ id ∈ (listing around).filterMap Place.id?, first ≤ id ∧ id < next :=
  fun id member => h.range around id ((Place.sublist_numbers _).subset member)

theorem nil (first : Nat) : Numbered (fun _ => []) first first where
  le := Nat.le.refl
  distinct _ := .nil
  range _ := List.forall_mem_nil _
  proper _ := List.forall_mem_nil _

/-- Listings of consecutive intervals. -/
theorem append (h : Numbered listing first middle) (rest : Numbered more middle next)
    : Numbered (fun around => listing around ++ more around) first next where
  le := Nat.le_trans h.le rest.le
  distinct around := by
    rw [List.filterMap_append, List.nodup_append]
    refine ⟨h.distinct around, rest.distinct around, fun id member other memberMore same => ?_⟩
    have below := (h.range around id member).2
    have above := (rest.range around other memberMore).1
    omega
  range around id member := by
    rw [List.filterMap_append, List.mem_append] at member
    have left := h.le
    have right := rest.le
    rcases member with member | member
    · have range := h.range around id member
      omega
    · have range := rest.range around id member
      omega
  proper around := List.forall_mem_append.2 ⟨h.proper around, rest.proper around⟩

/-- The order within a listing does not matter. -/
theorem perm (h : Numbered listing first next)
    (same : ∀ around, (more around).Perm (listing around))
    : Numbered more first next where
  le := h.le
  distinct around := ((same around).filterMap _).nodup_iff.2 (h.distinct around)
  range around id member := h.range around id (((same around).filterMap _).mem_iff.1 member)
  proper around place member := h.proper around place ((same around).mem_iff.1 member)

/-- Listings of consecutive intervals, the later one first. -/
theorem append_swap (h : Numbered listing first middle) (rest : Numbered more middle next)
    : Numbered (fun around => more around ++ listing around) first next :=
  (h.append rest).perm fun _ => List.perm_append_comm

/-- A listing in other surroundings. -/
theorem inside (h : Numbered listing first next) (change : Surroundings → Surroundings)
    : Numbered (fun around => listing (change around)) first next where
  le := h.le
  distinct around := h.distinct (change around)
  range around := h.range (change around)
  proper around := h.proper (change around)

/-- A place without an occurrence takes no number. -/
theorem cons (h : Numbered listing first next) (act : Act)
    (change : Surroundings → Surroundings) (proper : act.Proper)
    (none : ∀ around, Place.number? ⟨around, act⟩ = none)
    : Numbered (fun around => ⟨change around, act⟩ :: listing around) first next where
  le := h.le
  distinct around := by
    rw [List.filterMap_cons_none (none _)]
    exact h.distinct around
  range around := by
    rw [List.filterMap_cons_none (none _)]
    exact h.range around
  proper around := List.forall_mem_cons.2 ⟨proper, h.proper around⟩

/-- A place with an occurrence takes the next number. -/
theorem one {act : Act} (first : Nat) (proper : act.Proper)
    (some : ∀ around, Place.number? ⟨around, act⟩ = some first)
    : Numbered (fun around => [⟨around, act⟩]) first (first + 1) where
  le := Nat.le_succ first
  distinct around := by
    rw [List.filterMap_cons_some (some around)]
    exact List.nodup_singleton first
  range around id member := by
    rw [List.filterMap_cons_some (some around)] at member
    cases List.mem_singleton.1 member
    exact ⟨Nat.le.refl, Nat.lt_succ_self first⟩
  proper _ := List.forall_mem_singleton.2 proper

theorem use {kind : Use} {token : Token} (first : Nat)
    (proper : Act.Proper (.use kind ⟨first, token⟩))
    : Numbered (fun around => [⟨around, .use kind ⟨first, token⟩⟩]) first (first + 1) :=
  one first proper fun _ => rfl

/-- Numbers before the first do not count. -/
theorem weaken (h : Numbered listing middle next) (le : first ≤ middle)
    : Numbered listing first next :=
  { h with
    le := Nat.le_trans le h.le
    range := fun around id member =>
      ⟨Nat.le_trans le (h.range around id member).1, (h.range around id member).2⟩ }

end Numbered

-----------------------------------------------------------------------------------------
-- What readers yield
-----------------------------------------------------------------------------------------

namespace Reader

variable {α β : Type}

/-- A reader that starts with well-spelled tokens and the number `first` counts on and comes to a
goal, unless it fails.
-/
def Yields (first : Nat) (reader : Reader α) (goal : α → Nat → Prop) : Prop :=
  ∀ cursor : Cursor,
    cursor.nextId = first
    → (∀ token ∈ cursor.ahead, token.Spelled)
    → match reader cursor with
      | .ok value after =>
        (∀ token ∈ after.ahead, token.Spelled) ∧ first ≤ after.nextId ∧ goal value after.nextId
      | .error _ after => (∀ token ∈ after.ahead, token.Spelled) ∧ first ≤ after.nextId

namespace Yields

variable {first : Nat} {reader : Reader α} {goal : α → Nat → Prop}

theorem pure {value : α} (h : goal value first) : Yields first (Pure.pure value) goal := by
  rintro cursor rfl spelled
  exact ⟨spelled, Nat.le.refl, h⟩

/-- One reader after the other. -/
theorem bind {next : α → Reader β} {last : β → Nat → Prop} (h : Yields first reader goal)
    (rest
      : ∀ value middle, first ≤ middle → goal value middle → Yields middle (next value) last)
    : Yields first (reader >>= next) last := by
  rintro cursor rfl spelled
  have read := h cursor rfl spelled
  simp only [Bind.bind, EStateM.bind]
  cases ran : reader cursor with
  | error cause after =>
      rw [ran] at read
      exact read
  | ok value after =>
      rw [ran] at read
      obtain ⟨spelled, le, reached⟩ := read
      have more := rest value after.nextId le reached after rfl spelled
      dsimp only
      cases ranNext : next value after with
      | ok other last =>
          rw [ranNext] at more
          exact ⟨more.1, Nat.le_trans le more.2.1, more.2.2⟩
      | error cause last =>
          rw [ranNext] at more
          exact ⟨more.1, Nat.le_trans le more.2⟩

/-- A reader that takes no number comes first. -/
theorem look {next : α → Reader β} {last : β → Nat → Prop}
    (h : Yields first reader fun _ next => next = first)
    (rest : ∀ value, Yields first (next value) last)
    : Yields first (reader >>= next) last :=
  bind h fun value _ _ same => same ▸ rest value

/-- A reader that takes no number comes first, and its result is of use. -/
theorem take {known : α → Prop} {next : α → Reader β} {last : β → Nat → Prop}
    (h : Yields first reader fun value next => next = first ∧ known value)
    (rest : ∀ value, known value → Yields first (next value) last)
    : Yields first (reader >>= next) last :=
  bind h fun value _ _ reached => reached.1 ▸ rest value reached.2

theorem map {change : α → β} {last : β → Nat → Prop} (h : Yields first reader goal)
    (rest : ∀ value middle, goal value middle → last (change value) middle)
    : Yields first (change <$> reader) last :=
  bind h fun value middle _ reached => pure (rest value middle reached)

theorem mono {weaker : α → Nat → Prop} (h : Yields first reader goal)
    (weaken : ∀ value next, first ≤ next → goal value next → weaker value next)
    : Yields first reader weaker := by
  rintro cursor rfl spelled
  have read := h cursor rfl spelled
  split at read
  · next value after ran =>
      exact ⟨read.1, read.2.1, weaken value after.nextId read.2.1 read.2.2⟩
  · exact read

theorem fail {cause : SyntaxCause} : Yields first (Reader.fail cause) goal := by
  rintro cursor rfl spelled
  exact ⟨spelled, Nat.le.refl⟩

theorem failAt {token : Token} {cause : SyntaxCause}
    : Yields first (Reader.failAt token cause) goal := by
  rintro cursor rfl spelled
  exact ⟨spelled, Nat.le.refl⟩

/-- Skipping on to the next statement takes no number. -/
theorem synchronized (h : Yields first reader goal)
    : Yields first (Reader.synchronized reader) goal := by
  have skipped (previous : Token) (tokens : List Token)
      : ∀ token ∈ Cursor.skipToStatement previous tokens, token ∈ tokens := by
    induction tokens generalizing previous with
    | nil => exact List.forall_mem_nil _
    | cons token rest ih =>
        unfold Cursor.skipToStatement
        split
        · exact fun _ member => member
        · exact fun other member => .tail _ (ih token other member)
  rintro cursor rfl spelled
  have read := h cursor rfl spelled
  simp only [Reader.synchronized]
  cases ran : reader cursor with
  | ok value after =>
      rw [ran] at read
      exact read
  | error cause after =>
      rw [ran] at read
      obtain ⟨spelled, le⟩ := read
      simp only [Cursor.synchronize]
      split
      · exact ⟨spelled, le⟩
      · next token rest ahead =>
          rw [ahead, List.forall_mem_cons] at spelled
          exact ⟨fun other member => spelled.2 other (skipped token rest other member), le⟩

end Yields

-----------------------------------------------------------------------------------------
-- Readers of one token
-----------------------------------------------------------------------------------------

variable (first : Nat)

/-- The tokens that a reader looks at are well spelled, and no number is used up. -/
theorem yields_peek? : Yields first peek? fun found next =>
    next = first ∧ ∀ token, found = some token → token.Spelled := by
  rintro cursor rfl spelled
  exact ⟨spelled, Nat.le.refl, rfl, fun token found => spelled token (List.mem_of_mem_head? found)⟩

theorem yields_sees (test : Token → Bool)
    : Yields first (sees test) fun _ next => next = first := by
  rintro cursor rfl spelled
  exact ⟨spelled, Nat.le.refl, rfl⟩

theorem yields_seesSecond (test : Token → Bool)
    : Yields first (seesSecond test) fun _ next => next = first := by
  rintro cursor rfl spelled
  exact ⟨spelled, Nat.le.refl, rfl⟩

theorem yields_atEnd : Yields first atEnd fun _ next => next = first := by
  rintro cursor rfl spelled
  exact ⟨spelled, Nat.le.refl, rfl⟩

theorem yields_skip : Yields first skip fun _ next => next = first := by
  rintro ⟨ahead, stop, next⟩ rfl spelled
  cases ahead with
  | nil => exact ⟨spelled, Nat.le.refl, rfl⟩
  | cons token rest => exact ⟨(List.forall_mem_cons.1 spelled).2, Nat.le.refl, rfl⟩

theorem yields_take? (test : Token → Bool)
    : Yields first (take? test) fun found next =>
        next = first ∧ ∀ token, found = some token → token.Spelled := by
  rintro ⟨ahead, stop, next⟩ rfl spelled
  cases ahead with
  | nil => exact ⟨spelled, Nat.le.refl, rfl, nofun⟩
  | cons token rest =>
      have both := List.forall_mem_cons.1 spelled
      simp only [take?]
      by_cases passes : test token = true
      · rw [if_pos passes]
        refine ⟨both.2, Nat.le.refl, rfl, ?_⟩
        rintro _ ⟨⟩
        exact both.1
      · rw [if_neg passes]
        exact ⟨spelled, Nat.le.refl, rfl, nofun⟩

theorem yields_accept (test : Token → Bool)
    : Yields first (accept test) fun _ next => next = first := by
  rintro ⟨ahead, stop, next⟩ rfl spelled
  cases ahead with
  | nil => exact ⟨spelled, Nat.le.refl, rfl⟩
  | cons token rest =>
      have both := List.forall_mem_cons.1 spelled
      simp only [accept]
      by_cases passes : test token = true
      · rw [if_pos passes]
        exact ⟨both.2, Nat.le.refl, rfl⟩
      · rw [if_neg passes]
        exact ⟨spelled, Nat.le.refl, rfl⟩

theorem yields_expect (test : Token → Bool) (cause : SyntaxCause)
    : Yields first (expect test cause) fun token next =>
        next = first ∧ test token = true ∧ token.Spelled := by
  rintro ⟨ahead, stop, next⟩ rfl spelled
  cases ahead with
  | nil => exact ⟨spelled, Nat.le.refl⟩
  | cons token rest =>
      have both := List.forall_mem_cons.1 spelled
      simp only [expect]
      by_cases passes : test token = true
      · rw [if_pos passes]
        exact ⟨both.2, Nat.le.refl, rfl, passes, both.1⟩
      · rw [if_neg passes]
        exact ⟨spelled, Nat.le.refl⟩

theorem yields_expectMark (mark : Mark) (cause : SyntaxCause)
    : Yields first (expectMark mark cause) fun _ next => next = first :=
  (yields_expect first _ cause).mono fun _ _ _ h => h.1

/-- A name is not reserved. -/
theorem yields_expectName (cause : SyntaxCause)
    : Yields first (expectName cause) fun name next =>
        next = first ∧ ¬ Reserved name.lexeme := by
  refine (yields_expect first _ cause).mono fun name next _ h => ⟨h.1, h.2.2.name ?_⟩
  have identifier := h.2.1
  unfold Token.isIdentifier at identifier
  cases kind : name.kind <;> simp_all [TokenKind.sameCategory]

/-- The goal of a reader that may leave out what it would read. -/
def orNothing (first : Nat) (goal : α → Nat → Prop) : Option α → Nat → Prop
  | none, next => next = first
  | some value, next => goal value next

/-- What is read on demand takes numbers only if it is there. -/
theorem yields_ifAccepted {first : Nat} {reader : Reader α} {goal : α → Nat → Prop}
    (test : Token → Bool) (h : Yields first reader goal)
    : Yields first (ifAccepted test reader) (orNothing first goal) := by
  refine .look (yields_accept first test) fun accepted => ?_
  split
  · exact h.map fun value next reached => reached
  · exact .pure rfl

theorem yields_unlessMark {first : Nat} {reader : Reader α} {goal : α → Nat → Prop}
    (mark : Mark) (h : Yields first reader goal)
    : Yields first (unlessMark mark reader) (orNothing first goal) := by
  refine .look (yields_sees first _) fun seen => ?_
  split
  · exact .pure rfl
  · exact h.map fun value next reached => reached

/-- An occurrence takes the next number. -/
theorem yields_occurrence (token : Token)
    : Yields first (occurrence token) fun found next =>
        found = ⟨first, token⟩ ∧ next = first + 1 := by
  rintro cursor rfl spelled
  exact ⟨spelled, Nat.le_succ _, rfl, rfl⟩

end Reader

-----------------------------------------------------------------------------------------
-- Parts of declarations
-----------------------------------------------------------------------------------------

namespace Parser

open Reader

theorem yields_parameterNames (room first : Nat)
    : Yields first (parameterNames room) fun names next =>
        next = first ∧ ∀ name ∈ names, ¬ Reserved name.lexeme := by
  induction room with
  | zero => exact .fail
  | succ room ih =>
      refine .take (yields_expectName first .parameterName) fun name free => ?_
      refine .look (yields_accept first _) fun more => ?_
      split
      · refine .take ih fun names others => .pure ⟨rfl, ?_⟩
        exact List.forall_mem_cons.2 ⟨free, others⟩
      · exact .pure ⟨rfl, List.forall_mem_singleton.2 free⟩

theorem yields_parameters (first : Nat)
    : Yields first parameters fun names next =>
        next = first ∧ ∀ name ∈ names, ¬ Reserved name.lexeme := by
  refine .bind (yields_unlessMark _ (yields_parameterNames maxArity first))
    fun names next _ reached => .look (yields_expectMark next _ _) fun _ => .pure ?_
  cases names with
  | none => exact ⟨reached, List.forall_mem_nil _⟩
  | some names => exact reached

theorem yields_superclass (first : Nat)
    : Yields first superclass fun clause next =>
        ∀ name, Numbered (Places.ofClause name clause) first next := by
  refine .look (yields_accept first _) fun given => ?_
  split
  · refine .take (yields_expectName first .superclassName) fun token free => ?_
    refine .bind (yields_occurrence first token) fun found next _ reached => .pure fun name => ?_
    obtain ⟨rfl, rfl⟩ := reached
    unfold Places.ofClause
    by_cases same : token.lexeme = name.lexeme
    · simp only [Occurrence.name, same, if_true]
      exact .one first trivial fun _ => rfl
    · simp only [Occurrence.name, same, if_false]
      exact .use first free
  · exact .pure fun name => .nil first

theorem yields_bodyEnds (first : Nat)
    : Yields first bodyEnds fun _ next => next = first := by
  refine .look (yields_sees first _) fun brace => ?_
  split
  · exact .pure rfl
  · exact yields_atEnd first

end Parser

/-- Parameters take no numbers. -/
theorem Numbered.parameters (first : Nat) (names : List Token)
    (free : ∀ name ∈ names, ¬ Reserved name.lexeme)
    : Numbered (Places.ofParameters names) first first := by
  induction names with
  | nil => exact .nil first
  | cons name rest ih =>
      rw [List.forall_mem_cons] at free
      exact ((ih free.2).inside fun around => around.declare name.lexeme .parameter).cons
        (.declare name) id free.1 fun _ => rfl

/-- A function is numbered as its body. -/
theorem Numbered.function {name : Option Token} {keyword : Token} {parameters : List Token}
    {body : List Stmt} {first next : Nat} (free : ∀ name ∈ parameters, ¬ Reserved name.lexeme)
    (h : Numbered (Places.ofStmts body) first next) (kind : BodyKind)
    : Numbered (Places.ofFunction kind ⟨name, keyword, parameters, body⟩) first next :=
  ((Numbered.parameters first parameters free).inside fun around =>
      around.atFunction kind ⟨name, keyword, parameters, body⟩).append
    (h.inside fun around =>
      (around.atFunction kind ⟨name, keyword, parameters, body⟩).declareAll
        (FunctionDecl.parameterNames ⟨name, keyword, parameters, body⟩))

end Lox
