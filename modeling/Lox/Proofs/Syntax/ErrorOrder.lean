import Lox.Proofs.Scanning.Tokenizing
import Lox.Proofs.Syntax.Progress

/-! The errors of a source in order. A declaration that starts before the end ends strictly later, and
past its error if it has one. The next one starts there, so that its error stands further on.
-/

namespace Lox

-----------------------------------------------------------------------------------------
-- What runs when a reader does
-----------------------------------------------------------------------------------------

namespace Reader

variable {α β γ : Type} {reader : Reader α} {part : Reader β} {cursor inner : Cursor}
  {error : SyntaxError}

/-- Where the reader leaves the cursor, whether it succeeds or not. -/
def leaves (reader : Reader α) (cursor : Cursor) : Cursor :=
  match reader cursor with
  | .ok _ after | .error _ after => after

/-- The reader fails there with the error. -/
def Raises (reader : Reader α) (cursor : Cursor) (error : SyntaxError) : Prop :=
  ∃ after, reader cursor = .error error after

/-- To run the reader at its cursor, the part is run at a cursor of its own: a reader runs itself, the
first of two in a row, the second one where the first has succeeded, and what it moves on after.
-/
inductive Runs
  : {α β : Type} → Reader α → Cursor → Reader β → Cursor → Prop
  | itself {α : Type} {reader : Reader α} {cursor : Cursor} : Runs reader cursor reader cursor
  | first {α β γ : Type} {reader : Reader α} {next : α → Reader γ} {part : Reader β}
      {cursor inner : Cursor} (runs : Runs reader cursor part inner)
    : Runs (reader >>= next) cursor part inner
  | next {α β γ : Type} {reader : Reader α} {next : α → Reader γ} {part : Reader β}
      {cursor after inner : Cursor} {value : α} (ran : reader cursor = .ok value after)
      (runs : Runs (next value) after part inner)
    : Runs (reader >>= next) cursor part inner
  | synchronized {α β : Type} {reader : Reader α} {part : Reader β} {cursor inner : Cursor}
      (runs : Runs reader cursor part inner)
    : Runs (Reader.synchronized reader) cursor part inner

/-- What a part runs is run, by induction over what runs the part. -/
theorem Runs.trans {deeper : Reader γ} {innermost : Cursor} (h : Runs reader cursor part inner)
    (runs : Runs part inner deeper innermost)
    : Runs reader cursor deeper innermost := by
  induction h with
  | itself => exact runs
  | first _ ih => exact .first (ih runs)
  | next ran _ ih => exact .next ran (ih runs)
  | synchronized _ ih => exact .synchronized (ih runs)

/-- No failure is caught, by induction over what runs. -/
theorem Runs.raises (h : Runs reader cursor part inner) (raises : part.Raises inner error)
    : reader.Raises cursor error := by
  induction h with
  | itself => exact raises
  | first _ ih =>
      obtain ⟨after, ran⟩ := ih raises
      exact ⟨after, by simp only [Bind.bind, EStateM.bind, ran]⟩
  | next first _ ih =>
      obtain ⟨after, ran⟩ := ih raises
      exact ⟨after, by simp only [Bind.bind, EStateM.bind, first, ran]⟩
  | synchronized _ ih =>
      obtain ⟨after, ran⟩ := ih raises
      exact ⟨after.synchronize, by simp only [Reader.synchronized, ran]⟩

end Reader

namespace Parser

open Reader

variable {cursor inner : Cursor} {error : SyntaxError}

/-- A block that goes on runs a declaration. -/
theorem block_runs {budget : Nat} {token : Token} {more : List Token} {stop : Token} {first : Nat}
    (other : token.isMark .rightBrace = false)
    : Runs (block (budget + 1)) ⟨token :: more, stop, first⟩ (declaration budget)
        ⟨token :: more, stop, first⟩ := by
  have ends
      : bodyEnds ⟨token :: more, stop, first⟩
        = .ok false ⟨token :: more, stop, first⟩ :=
    congrFun (if_neg (Bool.eq_false_iff.1 other)) _
  rw [block]
  exact .next ends (.first .itself)

/-- A declaration runs the one inside it that comes right behind an opening brace. -/
theorem declaration_runs {budget : Nat} {brace token : Token} {more : List Token} {stop : Token}
    {first : Nat} (opens : brace.kind = .mark .leftBrace) (other : token.isMark .rightBrace = false)
    : Runs (declaration (budget + 3)) ⟨brace :: token :: more, stop, first⟩ (declaration budget)
        ⟨token :: more, stop, first⟩ := by
  have block
      : Runs (declaration (budget + 3)) ⟨brace :: token :: more, stop, first⟩ (block (budget + 1))
          ⟨token :: more, stop, first⟩ := by
    obtain ⟨_, lexeme, line⟩ := brace
    cases opens
    rw [declaration_eq, declaring]
    -- no other declaration starts with the brace
    refine .synchronized (.next rfl (.next rfl (.next rfl (.next rfl ?_))))
    change Runs (statement (budget + 2)) _ _ _
    rw [statement]
    exact .next rfl (.next rfl (.first .itself))
  exact block.trans (block_runs other)

/-- A declaration runs the one behind any number of opening braces, by induction over them. -/
theorem declaration_runs_inside {budget : Nat} {braces : List Token} {token : Token}
    {more : List Token} {stop : Token} {first : Nat}
    (opens : ∀ brace ∈ braces, brace.kind = .mark .leftBrace)
    (other : token.isMark .rightBrace = false)
    : Runs (declaration (budget + 3 * braces.length)) ⟨braces ++ token :: more, stop, first⟩
        (declaration budget) ⟨token :: more, stop, first⟩ := by
  induction braces with
  | nil => exact .itself
  | cons brace rest ih =>
      obtain ⟨opensFirst, opensRest⟩ := List.forall_mem_cons.1 opens
      refine Runs.trans ?_ (ih opensRest)
      cases rest with
      | nil => exact declaration_runs opensFirst other
      | cons next rest =>
          apply declaration_runs opensFirst
          have opensNext := opensRest next List.mem_cons_self
          simp only [Token.isMark, opensNext]
          rfl

/-- Going through the declarations on a budget comes to run this one on a budget of its own. -/
inductive Visits : (budget : Nat) → Cursor → (left : Nat) → Cursor → Prop
  | here {budget cursor} (some : cursor.ahead ≠ []) : Visits (budget + 1) cursor budget cursor
  | later {budget cursor left inner} (some : cursor.ahead ≠ [])
    (visits : Visits budget ((declaration budget).leaves cursor) left inner)
    : Visits (budget + 1) cursor left inner

/-- Nothing is gone through at the end. Elsewhere the first declaration comes before the others. -/
theorem visits_succ_iff {budget left : Nat}
    : Visits (budget + 1) cursor left inner
      ↔ cursor.ahead ≠ []
        ∧ ((left = budget ∧ inner = cursor)
          ∨ Visits budget ((declaration budget).leaves cursor) left inner) := by
  constructor
  · rintro (some | ⟨some, visits⟩)
    · exact ⟨some, .inl ⟨rfl, rfl⟩⟩
    · exact ⟨some, .inr visits⟩
  · rintro ⟨some, ⟨rfl, rfl⟩ | visits⟩
    · exact .here some
    · exact .later some visits

/-- The errors are those of the declarations that are gone through. By induction over the budget. -/
theorem mem_errors_iff {budget : Nat}
    : error ∈ (declarations budget cursor).2.1
      ↔ ∃ left inner, Visits budget cursor left inner ∧ (declaration left).Raises inner error := by
  induction budget generalizing cursor with
  | zero =>
      constructor
      · nofun
      · rintro ⟨left, inner, ⟨⟩, _⟩
  | succ budget ih =>
      unfold declarations
      simp only [visits_succ_iff, or_and_right, exists_or, and_assoc, exists_and_left]
      split
      · next none => simp [List.isEmpty_iff.1 none]
      · next some =>
          have some := mt List.isEmpty_iff.2 some
          cases ran : declaration budget cursor with
          | ok stmt after | error found after =>
              simp [some, ih, leaves, Raises, ran, eq_comm]

-----------------------------------------------------------------------------------------
-- One declaration
-----------------------------------------------------------------------------------------

/-- The declaration ends at some of the tokens behind the first one. If it fails, it does so at one of
its tokens, which is not among those that are left.
-/
def GoesOn (budget : Nat) (cursor : Cursor) : Prop :=
  ∃ left last,
    (declaration budget).leaves cursor = ⟨left, cursor.stop, last⟩
    ∧ left <:+ cursor.ahead.tail
    ∧ ∀ error,
        (declaration budget).Raises cursor error
        → ∃ spot,
            spot <:+ cursor.ahead
            ∧ left <:+ spot.tail
            ∧ error.token = spot.headD cursor.stop

theorem tail_suffix {left tokens : List Token} (h : left <:+ tokens) : left.tail <:+ tokens.tail := by
  obtain ⟨taken, rfl⟩ := h
  cases taken with
  | nil => exact List.suffix_rfl
  | cons token taken => exact (List.tail_suffix left).trans (List.suffix_append taken left)

theorem recovered_suffix_tail (tokens : List Token) : Cursor.recovered tokens <:+ tokens.tail := by
  cases tokens with
  | nil => exact List.suffix_rfl
  | cons token more => exact Cursor.skipToStatement_suffix token more

/-- On any budget a declaration that starts before the end goes on. -/
theorem goesOn_of_cons (budget : Nat) {token : Token} {more : List Token}
    (ahead : cursor.ahead = token :: more)
    : GoesOn (budget + 1) cursor := by
  obtain ⟨tokens, stop, first⟩ := cursor
  cases ahead
  obtain ⟨lack, enough⟩ : ∃ lack, Lasting 19 (token :: more) (budget + lack) :=
    ⟨_, Nat.le_add_left _ _⟩
  have read := advances_declaring budget lack (token :: more) (token :: more) enough
    List.suffix_rfl stop first
  simp only [GoesOn, leaves, Raises, declaration_eq, synchronized]
  cases ran : declaring budget ⟨token :: more, stop, first⟩ with
  | ok stmt after =>
      rw [ran] at read
      obtain ⟨left, last, rfl, suffix, shorter⟩ := read
      refine ⟨left, last, rfl, ?_, ?_⟩
      · rcases List.suffix_cons_iff.1 suffix with rfl | suffix
        · exact absurd shorter (Nat.not_succ_le_self _)
        · exact suffix
      · rintro _ ⟨_, ⟨⟩⟩
  | error error after =>
      rw [ran] at read
      obtain ⟨left, last, rfl, suffix, ⟨spot, behind, inside, same⟩, _⟩ := read
      have moved := recovered_suffix_tail left
      refine ⟨Cursor.recovered left, last, ?_, moved.trans (tail_suffix suffix), ?_⟩
      · exact Cursor.synchronize_eq left stop last
      · rintro _ ⟨_, ⟨⟩⟩
        exact ⟨spot, inside, moved.trans (tail_suffix behind), same⟩

-----------------------------------------------------------------------------------------
-- All declarations
-----------------------------------------------------------------------------------------

/-- Errors stand at ever later tokens, and not for want of a budget. By induction over the budget. -/
theorem exists_spots {budget : Nat} {tokens : List Token} (stop : Token) (first : Nat)
    (enough : Lasting 32 tokens budget)
    : ∃ spots : List (List Token),
        (declarations budget ⟨tokens, stop, first⟩).2.1.map SyntaxError.token
          = spots.map (List.headD · stop)
        ∧ (∀ spot ∈ spots, spot <:+ tokens)
        ∧ spots.Pairwise fun spot later => later.length < spot.length := by
  induction budget generalizing tokens first with
  | zero => omega
  | succ budget ih =>
      cases tokens with
      | nil => exact ⟨[], rfl, List.forall_mem_nil _, .nil⟩
      | cons token more =>
          obtain ⟨budget, rfl⟩ : ∃ less, budget = less + 1 := ⟨budget - 1, by omega⟩
          have goes : GoesOn (budget + 1) ⟨token :: more, stop, first⟩ := goesOn_of_cons budget rfl
          unfold GoesOn leaves Raises at goes
          obtain ⟨left, last, after, suffix, raises⟩ := goes
          have shorter := suffix.length_le
          simp only [Lasting, List.length_cons, List.tail_cons] at enough shorter
          obtain ⟨spots, same, inside, later⟩ := @ih left last (by omega)
          have inner (spot : List Token) (mem : spot ∈ spots) : spot <:+ token :: more :=
            (inside spot mem).trans (suffix.trans (List.suffix_cons token more))
          rw [declarations, if_neg (by simp)]
          cases ran : declaration (budget + 1) ⟨token :: more, stop, first⟩ with
          | ok stmt ended =>
              rw [ran] at after
              cases after
              exact ⟨spots, same, inner, later⟩
          | error error ended =>
              rw [ran] at after raises
              cases after
              obtain ⟨spot, found, behind, stands⟩ := raises error ⟨_, rfl⟩
              cases spot with
              | nil =>
                  -- nothing is left to be read
                  cases List.suffix_nil.1 behind
                  exact ⟨[[]], congrArg (· :: []) stands, List.forall_mem_singleton.2 found,
                    List.pairwise_singleton _ _⟩
              | cons next others =>
                  refine ⟨(next :: others) :: spots, congrArg₂ List.cons stands same,
                    List.forall_mem_cons.2 ⟨found, inner⟩, List.pairwise_cons.2 ⟨?_, later⟩⟩
                  intro spot mem
                  exact Nat.lt_succ_of_le ((inside spot mem).trans behind).length_le

/-- The declarations that are gone through have budgets that last, by induction over them. -/
theorem Visits.lasting {budget left : Nat} (h : Visits budget cursor left inner)
    (enough : Lasting 32 cursor.ahead budget)
    : Lasting 20 inner.ahead left := by
  induction h with
  | here => omega
  | @later budget cursor left inner some _ ih =>
      obtain ⟨token, more, ahead⟩ := List.exists_cons_of_ne_nil some
      simp only [Lasting, ahead, List.length_cons] at enough
      obtain ⟨budget, rfl⟩ : ∃ less, budget = less + 1 := ⟨budget - 1, by omega⟩
      obtain ⟨left, last, after, suffix, _⟩ := goesOn_of_cons budget ahead
      have shorter := suffix.length_le
      rw [ahead, List.tail_cons] at shorter
      rw [after] at ih
      exact ih (by simp only [Lasting]; omega)

/-- No declaration is given up for want of a budget. -/
theorem cause_ne_budget {budget : Nat} (enough : Lasting 32 cursor.ahead budget)
    : ∀ error ∈ (declarations budget cursor).2.1, error.cause ≠ .budget := by
  intro error mem
  obtain ⟨left, ⟨ahead, stop, first⟩, visits, after, ran⟩ := mem_errors_iff.1 mem
  have read := advances_declaration left 0 ahead ahead (visits.lasting enough) List.suffix_rfl
    stop first
  rw [ran] at read
  obtain ⟨_, _, _, _, _, lacks⟩ := read
  exact fun spent => Nat.lt_irrefl 0 (lacks spent)

/-- A larger budget comes to the same program, which ends where the tokens do. -/
theorem declarations_budget_add (start : Cursor) (more : Nat)
    : declarations (budget start + more) start = declarations (budget start) start
      ∧ ∃ last, (declarations (budget start) start).2.2 = ⟨[], start.stop, last⟩ := by
  have counts (other : Nat) (_ : 0 ≤ other) : id (other + 1) = id other + 1 := rfl
  obtain ⟨stmts, errors, last, _, same, sameMore⟩ :=
    declarations_renumber counts start.stop (budget start) (budget start + more) start.ahead
      start.nextId (Nat.zero_le _) (Nat.le_refl _) (Nat.le_add_right _ _)
  rw [Stmts.renumber_id] at sameMore
  exact ⟨sameMore.trans same.symm, last, congrArg (·.2.2) same⟩

/-- A larger budget comes to the same expression, or to the same error. -/
theorem expression_budget_add (start : Cursor) (more : Nat)
    : expression (budget start + more) start = expression (budget start) start := by
  have counts (other : Nat) (_ : 0 ≤ other) : id (other + 1) = id other + 1 := rfl
  have read := tracks_expression (renumbering start.stop counts) (budget start)
    (budget start + more) start.ahead (by simp only [budget]; omega) (by simp only [budget]; omega)
    (fun _ _ _ _ => nofun) start.nextId (Nat.zero_le _)
  simp only [renumbering, Pairing.one, Pairing.other, List.append_nil, id_eq] at read
  cases ran : expression (budget start) start with
  | ok expr after | error error after =>
      rw [ran] at read
      obtain ⟨left, last, _, _, rfl, other⟩ := read
      have same := other (.inr (.inl ⟨rfl, rfl⟩))
      simpa only [Pairing.one, Pairing.other, List.append_nil, Expr.renumber_id, id_eq] using same

end Parser

-----------------------------------------------------------------------------------------
-- Lines
-----------------------------------------------------------------------------------------

namespace Lexer

/-- No item ends on a line before that of the one before it, by induction over the parts. -/
theorem Tokenizes.lines {before ahead : List UInt8} {cut : List Piece} {stream : List Item}
    (h : Tokenizes before ahead cut stream)
    : ((1 + newlines before) :: stream.map Item.line).Pairwise (· ≤ ·) := by
  have later {line next : Nat} {others : List Nat} (ordered : (next :: others).Pairwise (· ≤ ·))
      (le : line ≤ next)
      : (line :: next :: others).Pairwise (· ≤ ·) := by
    refine List.pairwise_cons.2 ⟨List.forall_mem_cons.2 ⟨le, ?_⟩, ordered⟩
    exact fun other mem => le.trans (List.rel_of_pairwise_cons ordered mem)
  have le (before span : List UInt8) : 1 + newlines before ≤ 1 + newlines (before ++ span) := by
    rw [newlines_append]
    omega
  induction h with
  | stop => exact later (List.pairwise_singleton _ _) (Nat.le_refl _)
  | gap _ _ ih => exact (later ih (le _ _)).sublist ((List.sublist_cons_self _ _).cons_cons _)
  | token _ _ ih | error _ _ ih => exact later ih (le _ _)

/-- So it is with the tokens, of which the last one ends the source. -/
theorem lines_ofBytes (bytes : List UInt8)
    : ((Scan.ofBytes bytes).tokens ++ [(Scan.ofBytes bytes).stop]).Pairwise
        fun token later => token.line ≤ later.line := by
  have lines := (tokenizes [] bytes).lines.of_cons
  rw [← stream_ofBytes, List.pairwise_map] at lines
  have tokens
      : (Scan.ofBytes bytes).tokens ++ [(Scan.ofBytes bytes).stop]
        = (Scan.ofBytes bytes).stream.filterMap Item.token? := by
    rw [Scan.stream, List.filterMap_append]
    rfl
  rw [tokens, List.pairwise_filterMap]
  refine lines.imp fun {item later} le => ?_
  rintro token found next foundNext
  cases item with
  | error => cases found
  | token =>
      cases later with
      | error => cases foundNext
      | token =>
          cases found
          cases foundNext
          exact le

end Lexer

-----------------------------------------------------------------------------------------
-- Whole sources
-----------------------------------------------------------------------------------------

namespace Parser

open Reader

/-- Reading a program from there on comes to run the declaration. -/
def ProgramRuns (start : Cursor) (left : Nat) (inner : Cursor) : Prop :=
  ∃ outer visited,
    Visits (budget start) start outer visited
    ∧ Runs (declaration outer) visited (declaration left) inner

/-- Reading an expression from there on comes to run the declaration. -/
def ExpressionRuns (start : Cursor) (left : Nat) (inner : Cursor) : Prop :=
  Runs (expression (budget start)) start (declaration left) inner

/-- The budget does not run out in a declaration that is run, so that it goes on. -/
theorem ProgramRuns.goesOn {start inner : Cursor} {left : Nat} (h : ProgramRuns start left inner)
    (some : inner.ahead ≠ [])
    : GoesOn left inner := by
  obtain ⟨outer, visited, visits, runs⟩ := h
  cases left with
  | zero =>
      have raises : (declaration 0).Raises inner ⟨inner.next, .budget⟩ := ⟨inner, rfl⟩
      have mem := mem_errors_iff.2 ⟨outer, visited, visits, runs.raises raises⟩
      have enough : Lasting 32 start.ahead (budget start) := Nat.le_refl _
      exact absurd rfl (cause_ne_budget enough _ mem)
  | succ left =>
      obtain ⟨token, more, ahead⟩ := List.exists_cons_of_ne_nil some
      exact goesOn_of_cons left ahead

theorem expression_leaves (start : Cursor)
    : ∃ left last,
        (expression (budget start)).leaves start = ⟨left, start.stop, last⟩
        ∧ left <:+ start.ahead
        ∧ ∀ error, (expression (budget start)).Raises start error → error.cause ≠ .budget := by
  obtain ⟨tokens, stop, first⟩ := start
  have read := advances_expression (budget ⟨tokens, stop, first⟩) 0 tokens tokens
    (by simp only [budget]; omega) List.suffix_rfl stop first
  unfold leaves Raises
  cases ran : expression (budget ⟨tokens, stop, first⟩) ⟨tokens, stop, first⟩ with
  | ok expr after =>
      rw [ran] at read
      obtain ⟨left, last, same, suffix, _⟩ := read
      exact ⟨left, last, same, suffix, by rintro _ ⟨_, ⟨⟩⟩⟩
  | error error after =>
      rw [ran] at read
      obtain ⟨left, last, same, suffix, _, lacks⟩ := read
      refine ⟨left, last, same, suffix, ?_⟩
      rintro _ ⟨_, ⟨⟩⟩ spent
      exact Nat.lt_irrefl 0 (lacks spent)

theorem ExpressionRuns.goesOn {start inner : Cursor} {left : Nat}
    (h : ExpressionRuns start left inner) (some : inner.ahead ≠ [])
    : GoesOn left inner := by
  cases left with
  | zero =>
      have raises : (declaration 0).Raises inner ⟨inner.next, .budget⟩ := ⟨inner, rfl⟩
      obtain ⟨_, _, _, _, spent⟩ := expression_leaves start
      exact absurd rfl (spent _ (Runs.raises h raises))
  | succ left =>
      obtain ⟨token, more, ahead⟩ := List.exists_cons_of_ne_nil some
      exact goesOn_of_cons left ahead

/-- The place of the first of the last tokens. -/
theorem getElem?_of_suffix {spot tokens : List Token} (h : spot <:+ tokens) (stop : Token)
    : (tokens ++ [stop])[tokens.length - spot.length]? = some (spot.headD stop) := by
  obtain ⟨taken, rfl⟩ := h
  rw [List.length_append, Nat.add_sub_cancel, List.append_assoc,
    List.getElem?_append_right (Nat.le_refl _), Nat.sub_self]
  cases spot <;> rfl

/-- The places that errors stand at, from the first one to the last. -/
theorem exists_positions (start : Cursor)
    : ∃ positions : List Nat,
        positions.Pairwise (· < ·)
        ∧ positions.map (fun place => (start.ahead ++ [start.stop])[place]?)
          = (Program.syntaxErrors start.ahead start.stop start.nextId).map
              fun error => some error.token := by
  have enough : Lasting 32 start.ahead (budget start) := Nat.le_refl _
  obtain ⟨spots, same, inside, later⟩ := exists_spots start.stop start.nextId enough
  refine ⟨spots.map fun spot => start.ahead.length - spot.length, ?_, ?_⟩
  · rw [List.pairwise_map]
    refine later.imp_of_mem fun {spot next} mem memNext shorter => ?_
    have le := (inside spot mem).length_le
    omega
  · have tokens := congrArg (List.map some) same
    rw [List.map_map, List.map_map] at tokens
    rw [Program.syntaxErrors_eq, List.map_map]
    refine Eq.trans (List.map_congr_left fun spot mem => ?_) tokens.symm
    exact getElem?_of_suffix (inside spot mem) start.stop

/-- Where the tokens come line by line, so do the errors. -/
theorem error_lines {start : Cursor}
    (lines
      : (start.ahead ++ [start.stop]).Pairwise fun token later => token.line ≤ later.line)
    : ((Program.syntaxErrors start.ahead start.stop start.nextId).map
        fun error => error.token.line).Pairwise (· ≤ ·) := by
  obtain ⟨positions, increasing, same⟩ := exists_positions start
  have ordered
      : (positions.map fun place => (start.ahead ++ [start.stop])[place]?).Pairwise
          fun one other => ∀ token ∈ one, ∀ later ∈ other, token.line ≤ later.line := by
    rw [List.pairwise_map]
    refine increasing.imp fun {place next} before token found later foundLater => ?_
    obtain ⟨inside, rfl⟩ := List.getElem?_eq_some_iff.1 found
    obtain ⟨insideNext, rfl⟩ := List.getElem?_eq_some_iff.1 foundLater
    exact List.pairwise_iff_getElem.1 lines place next inside insideNext before
  rw [same, List.pairwise_map] at ordered
  rw [List.pairwise_map]
  exact ordered.imp fun le => le _ rfl _ rfl

/-- There are errors if and only if a declaration fails, also one inside another. -/
theorem parse_error_iff (start : Cursor)
    : (∃ errors, (Program.parse start.ahead start.stop start.nextId).1 = .error errors)
      ↔ ∃ left inner error,
          ProgramRuns start left inner ∧ (declaration left).Raises inner error := by
  have some
      : (∃ errors, (Program.parse start.ahead start.stop start.nextId).1 = .error errors)
        ↔ ∃ error, error ∈ (declarations (budget start) start).2.1 := by
    unfold Program.parse
    dsimp only
    generalize declarations (budget start) start = read
    obtain ⟨program, _ | ⟨error, errors⟩, last⟩ := read <;> simp
  rw [some]
  constructor
  · rintro ⟨error, mem⟩
    obtain ⟨left, inner, visits, raises⟩ := mem_errors_iff.1 mem
    exact ⟨left, inner, error, ⟨left, inner, visits, .itself⟩, raises⟩
  · rintro ⟨left, inner, error, ⟨outer, visited, visits, runs⟩, raises⟩
    exact ⟨error, mem_errors_iff.2 ⟨outer, visited, visits, runs.raises raises⟩⟩

/-- The declaration behind any number of opening braces is run, so that it goes on. If it fails, its
error is one of the program.
-/
theorem goesOn_inside {braces : List Token} {token : Token} {more : List Token} (stop : Token)
    (first : Nat) (opens : ∀ brace ∈ braces, brace.kind = .mark .leftBrace)
    (other : token.isMark .rightBrace = false)
    : ∃ left,
        GoesOn left ⟨token :: more, stop, first⟩
        ∧ ∀ error,
            (declaration left).Raises ⟨token :: more, stop, first⟩ error
            → error ∈ Program.syntaxErrors (braces ++ token :: more) stop first := by
  let start : Cursor := ⟨braces ++ token :: more, stop, first⟩
  obtain ⟨left, enough⟩ : ∃ left, budget start = left + 3 * braces.length + 1 :=
    ⟨budget start - 3 * braces.length - 1, by
      simp only [start, budget, List.length_append]
      omega⟩
  have visits : Visits (budget start) start (left + 3 * braces.length) start :=
    enough ▸ .here (by simp [start])
  have runs : ProgramRuns start left ⟨token :: more, stop, first⟩ :=
    ⟨_, start, visits, declaration_runs_inside opens other⟩
  refine ⟨left, runs.goesOn (List.cons_ne_nil _ _), ?_⟩
  intro error raises
  obtain ⟨outer, visited, visits, inside⟩ := runs
  rw [Program.syntaxErrors_eq]
  exact mem_errors_iff.2 ⟨outer, visited, visits, inside.raises raises⟩

/-- Reading ends on its budget as on any larger one, which is never used up: a program at the end of
the tokens, an expression there or before.
-/
structure Ends (start : Cursor) : Prop where
  program : ∀ more, declarations (budget start + more) start = declarations (budget start) start
  expression : ∀ more, expression (budget start + more) start = expression (budget start) start
  atEnd : ∃ last, (declarations (budget start) start).2.2 = ⟨[], start.stop, last⟩
  inside
    : ∃ left last,
        (Parser.expression (budget start)).leaves start = ⟨left, start.stop, last⟩
        ∧ left <:+ start.ahead
  programSpends
    : ∀ error ∈ Program.syntaxErrors start.ahead start.stop start.nextId, error.cause ≠ .budget
  expressionSpends
    : ∀ error, (Parser.expression (budget start)).Raises start error → error.cause ≠ .budget

theorem ends (start : Cursor) : Ends start := by
  obtain ⟨left, last, leaves, suffix, spent⟩ := expression_leaves start
  have enough : Lasting 32 start.ahead (budget start) := Nat.le_refl _
  have spentProgram := cause_ne_budget enough
  rw [← Program.syntaxErrors_eq start.ahead start.stop start.nextId] at spentProgram
  exact ⟨fun more => (declarations_budget_add start more).1, expression_budget_add start,
    (declarations_budget_add start 0).2, ⟨left, last, leaves, suffix⟩, spentProgram, spent⟩

/-- Reading ends. Whatever declaration is run before the end of the tokens goes on. There are errors if
and only if one of these fails, and they stand at later and later tokens.
-/
theorem reading_goes_forward (start : Cursor)
    : Ends start
      ∧ (∀ left inner,
          (ProgramRuns start left inner ∨ ExpressionRuns start left inner)
          → inner.ahead ≠ []
          → GoesOn left inner)
      ∧ ((∃ errors, (Program.parse start.ahead start.stop start.nextId).1 = .error errors)
        ↔ ∃ left inner error,
            ProgramRuns start left inner ∧ (declaration left).Raises inner error)
      ∧ (∃ positions : List Nat,
          positions.Pairwise (· < ·)
          ∧ positions.map (fun place => (start.ahead ++ [start.stop])[place]?)
            = (Program.syntaxErrors start.ahead start.stop start.nextId).map
                fun error => some error.token)
      ∧ ∀ bytes first,
          ((Program.syntaxErrors (Scan.ofBytes bytes).tokens (Scan.ofBytes bytes).stop first).map
            fun error => error.token.line).Pairwise (· ≤ ·) := by
  refine ⟨ends start, ?_, parse_error_iff start, exists_positions start, ?_⟩
  · rintro left inner (runs | runs) some
    · exact runs.goesOn some
    · exact runs.goesOn some
  · intro bytes first
    have lines := Lexer.lines_ofBytes bytes
    exact @error_lines ⟨(Scan.ofBytes bytes).tokens, (Scan.ofBytes bytes).stop, first⟩ lines

end Parser

end Lox
