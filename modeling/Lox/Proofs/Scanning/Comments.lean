import Lox.Proofs.Scanning.Reference

/-! Comments that can be nested. The scanner measures a comment by the number of levels that are
open; the comment ends where as many delimiters close a level as open one.
-/

namespace Lox.Lexer

-----------------------------------------------------------------------------------------
-- Delimiters
-----------------------------------------------------------------------------------------

variable {depth : Nat} {first second : UInt8} {part rest : List UInt8}

theorem delimiters_opening (rest : List UInt8)
    : delimiters (ascii '/' :: ascii '*' :: rest) = .opening :: delimiters rest := by
  rw [delimiters, if_pos (by decide)]

theorem delimiters_closing (rest : List UInt8)
    : delimiters (ascii '*' :: ascii '/' :: rest) = .closing :: delimiters rest := by
  rw [delimiters, if_neg (by decide), if_pos (by decide)]

/-- A byte that no delimiter starts with is passed over. -/
theorem delimiters_cons (opening : [first, second] ≠ blockOpening)
    (closing : [first, second] ≠ blockClosing) (start : part <+: second :: rest)
    : delimiters (first :: part) = delimiters part := by
  cases part with
  | nil => rfl
  | cons next part =>
      rcases List.cons_prefix_cons.mp start with ⟨rfl, _⟩
      rw [delimiters, if_neg opening, if_neg closing]

-----------------------------------------------------------------------------------------
-- Levels
-----------------------------------------------------------------------------------------

/-- The delimiters of a part close as many levels as were open before it. -/
def Closing (depth : Nat) (part : List UInt8) : Prop :=
  (delimiters part).count .closing = depth + (delimiters part).count .opening

/-- A part closes all levels at its end and not before. -/
structure Closes (depth : Nat) (part : List UInt8) : Prop where
  closed : Closing depth part
  first : ∀ shorter, shorter <+: part → Closing depth shorter → shorter = part

theorem not_closing_nil : ¬ Closing (depth + 1) [] := by simp [Closing, delimiters]

theorem not_closing_singleton (byte : UInt8) : ¬ Closing (depth + 1) [byte] := by
  simp [Closing, delimiters]

theorem closing_opening
    : Closing (depth + 1) (ascii '/' :: ascii '*' :: part) ↔ Closing (depth + 2) part := by
  simp only [Closing, delimiters_opening, List.count_cons]
  simp
  omega

theorem closing_closing
    : Closing (depth + 1) (ascii '*' :: ascii '/' :: part) ↔ Closing depth part := by
  simp only [Closing, delimiters_closing, List.count_cons]
  simp
  omega

/-- Where no level is open there is nothing to close. -/
theorem closes_zero : Closes 0 part ↔ part = [] := by
  constructor
  · intro h
    exact (h.first [] List.nil_prefix rfl).symm
  · rintro rfl
    exact ⟨rfl, fun shorter start _ => List.prefix_nil.mp start⟩

/-- After a delimiter, the levels that are open then are left to close. -/
theorem closes_pair {other : Nat}
    (same : ∀ more, Closing (depth + 1) (first :: second :: more) ↔ Closing other more)
    : Closes (depth + 1) (first :: second :: part) ↔ Closes other part := by
  constructor
  · intro h
    refine ⟨(same part).mp h.closed, ?_⟩
    intro shorter start closed
    have whole := h.first (first :: second :: shorter) (by simpa using start)
      ((same shorter).mpr closed)
    simpa using whole
  · intro h
    refine ⟨(same part).mpr h.closed, ?_⟩
    intro shorter start closed
    rcases shorter with _ | ⟨byte, _ | ⟨next, shorter⟩⟩
    · exact absurd closed not_closing_nil
    · exact absurd closed (not_closing_singleton byte)
    · simp only [List.cons_prefix_cons] at start
      rcases start with ⟨rfl, rfl, start⟩
      rw [h.first shorter start ((same shorter).mp closed)]

/-- A byte that no delimiter starts with leaves the levels as they are. -/
theorem closes_cons (opening : [first, second] ≠ blockOpening)
    (closing : [first, second] ≠ blockClosing) (start : part <+: second :: rest)
    : Closes (depth + 1) (first :: part) ↔ Closes (depth + 1) part := by
  have same {more} (prefixed : more <+: part)
      : Closing (depth + 1) (first :: more) ↔ Closing (depth + 1) more := by
    rw [Closing, Closing, delimiters_cons opening closing (prefixed.trans start)]
  constructor
  · intro h
    refine ⟨(same List.prefix_rfl).mp h.closed, ?_⟩
    intro shorter prefixed closed
    have whole := h.first (first :: shorter) (by simpa using prefixed)
      ((same prefixed).mpr closed)
    simpa using whole
  · intro h
    refine ⟨(same List.prefix_rfl).mpr h.closed, ?_⟩
    intro shorter prefixed closed
    cases shorter with
    | nil => exact absurd closed not_closing_nil
    | cons byte shorter =>
        rcases List.cons_prefix_cons.mp prefixed with ⟨rfl, inside⟩
        rw [h.first shorter inside ((same inside).mp closed)]

/-- A part that closes levels which are open has two bytes at least. -/
theorem Closes.two_le (h : Closes (depth + 1) part)
    : ∃ first second more, part = first :: second :: more := by
  rcases part with _ | ⟨first, _ | ⟨second, more⟩⟩
  · exact absurd h.closed not_closing_nil
  · exact absurd h.closed (not_closing_singleton first)
  · exact ⟨first, second, more, rfl⟩

/-- The last level is closed by a slash, by induction over the delimiters. -/
theorem Closes.getLast? (h : Closes (depth + 1) part) : part.getLast? = some (ascii '/') := by
  induction part using delimiters.induct generalizing depth with
  | case1 first second more opening ih =>
      simp only [blockOpening, List.cons.injEq] at opening
      rcases opening with ⟨rfl, rfl, _⟩
      have inside := ih ((closes_pair fun _ => closing_opening).mp h)
      simp [List.getLast?_cons, inside]
  | case2 first second more _ closing ih =>
      simp only [blockClosing, List.cons.injEq] at closing
      rcases closing with ⟨rfl, rfl, _⟩
      have inside := (closes_pair fun _ => closing_closing).mp h
      cases depth with
      | zero =>
          cases closes_zero.mp inside
          rfl
      | succ depth => simp [List.getLast?_cons, ih inside]
  | case3 first second more opening closing ih =>
      rw [List.getLast?_cons_cons]
      exact ih ((closes_cons opening closing List.prefix_rfl).mp h)
  | case4 part short =>
      rcases h.two_le with ⟨first, second, more, rfl⟩
      exact (short first second more rfl).elim

-----------------------------------------------------------------------------------------
-- Measuring a comment
-----------------------------------------------------------------------------------------

/-- Two bytes more have been read when a delimiter has been. -/
private theorem exists_pair {other size total : Nat} {bytes : List UInt8}
    (same : ∀ {part}, Closes (depth + 1) (first :: second :: part) ↔ Closes other part)
    : (∃ part rest,
          bytes = part ++ rest ∧ total = size + 2 + part.length ∧ Closes other part)
      ↔ ∃ part rest,
          first :: second :: bytes = part ++ rest
          ∧ total = size + part.length
          ∧ Closes (depth + 1) part := by
  constructor
  · rintro ⟨part, rest, rfl, rfl, closes⟩
    refine ⟨first :: second :: part, rest, rfl, ?_, same.mpr closes⟩
    simp only [List.length_cons]
    omega
  · rintro ⟨part, rest, split, rfl, closes⟩
    rcases closes.two_le with ⟨byte, next, more, rfl⟩
    simp only [List.cons_append, List.cons.injEq] at split
    rcases split with ⟨rfl, rfl, rfl⟩
    refine ⟨more, rest, rfl, ?_, same.mp closes⟩
    simp only [List.length_cons]
    omega

/-- The measure of a comment is the size of the part that closes all its levels, by induction over
the bytes that are read.
-/
theorem commentSize?_eq_some_iff {depth size total : Nat} {bytes : List UInt8}
    : commentSize? depth size bytes = some total
      ↔ ∃ part rest, bytes = part ++ rest ∧ total = size + part.length ∧ Closes depth part := by
  induction depth, size, bytes using commentSize?.induct generalizing total with
  | case1 bytes size =>
      constructor
      · intro measured
        refine ⟨[], bytes, rfl, ?_, closes_zero.mpr rfl⟩
        simpa [commentSize?] using measured.symm
      · rintro ⟨part, rest, rfl, rfl, closes⟩
        cases closes_zero.mp closes
        simp [commentSize?]
  | case2 depth size =>
      constructor
      · intro measured
        cases measured
      · rintro ⟨part, rest, split, _, closes⟩
        rcases closes.two_le with ⟨first, second, more, rfl⟩
        simp at split
  | case3 depth size byte =>
      constructor
      · intro measured
        cases measured
      · rintro ⟨part, rest, split, _, closes⟩
        rcases closes.two_le with ⟨first, second, more, rfl⟩
        simp at split
  | case4 size depth first second rest opening ih =>
      rw [Bool.and_eq_true, decide_eq_true_eq, decide_eq_true_eq] at opening
      rcases opening with ⟨rfl, rfl⟩
      rw [commentSize?, if_pos (by decide), ih]
      exact exists_pair (closes_pair fun _ => closing_opening)
  | case5 size depth first second rest opening closing ih =>
      rw [Bool.and_eq_true, decide_eq_true_eq, decide_eq_true_eq] at closing
      rcases closing with ⟨rfl, rfl⟩
      rw [commentSize?, if_neg (by decide), if_pos (by decide), ih]
      exact exists_pair (closes_pair fun _ => closing_closing)
  | case6 size depth first second rest opening closing ih =>
      have noOpening : [first, second] ≠ blockOpening := by simpa [blockOpening] using opening
      have noClosing : [first, second] ≠ blockClosing := by simpa [blockClosing] using closing
      rw [commentSize?, if_neg opening, if_neg closing, ih]
      constructor
      · rintro ⟨part, after, split, rfl, closes⟩
        have start : part <+: second :: rest := ⟨after, split.symm⟩
        refine ⟨first :: part, after, congrArg (first :: ·) split, ?_,
          (closes_cons noOpening noClosing start).mpr closes⟩
        rw [List.length_cons]
        omega
      · rintro ⟨part, after, split, rfl, closes⟩
        rcases closes.two_le with ⟨byte, next, more, rfl⟩
        rw [List.cons_append, List.cons.injEq] at split
        rcases split with ⟨rfl, split⟩
        have start : next :: more <+: second :: rest := ⟨after, split.symm⟩
        refine ⟨next :: more, after, split, ?_, (closes_cons noOpening noClosing start).mp closes⟩
        rw [List.length_cons]
        omega

/-- Behind its opening delimiter, a comment closes one level. -/
theorem blockComment_iff {part : List UInt8}
    : BlockComment (blockOpening ++ part) ↔ Closes 1 part := by
  have balanced (bytes) : Balanced (blockOpening ++ bytes) ↔ Closing 1 bytes := by
    have read : delimiters (blockOpening ++ bytes) = .opening :: delimiters bytes :=
      delimiters_opening bytes
    simp only [Balanced, Closing, read, List.count_cons]
    simp
    omega
  constructor
  · intro comment
    refine ⟨(balanced part).mp comment.balanced, ?_⟩
    intro shorter start closed
    have whole := comment.first (blockOpening ++ shorter) (List.prefix_append _ _)
      ((List.prefix_append_right_inj _).mpr start) ((balanced shorter).mpr closed)
    exact List.append_cancel_left whole
  · intro closes
    refine ⟨List.prefix_append _ _, (balanced part).mpr closes.closed, ?_⟩
    rintro shorter ⟨more, rfl⟩ start closed
    have inside := (List.prefix_append_right_inj _).mp start
    rw [closes.first more inside ((balanced more).mp closed)]

theorem BlockComment.exists_closes {span : List UInt8} (h : BlockComment span)
    : ∃ part, span = blockOpening ++ part ∧ Closes 1 part := by
  rcases h.opens with ⟨part, rfl⟩
  exact ⟨part, rfl, blockComment_iff.mp h⟩

end Lox.Lexer
