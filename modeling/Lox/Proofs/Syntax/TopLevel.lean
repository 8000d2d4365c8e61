import Lox.Proofs.Syntax.Lockstep

/-! A malformed statement at the top level. Nothing that comes behind it is looked at before its
error is noticed, so the error is that of the statement alone. Moving on then ends right behind the
statement, wherever in it the error was noticed, and what comes behind it is read as if it came
alone.
-/

namespace Lox

open Cursor Reader Lox.Parser Grammar

variable {part rest : List Token} {error : SyntaxError}

-----------------------------------------------------------------------------------------
-- A statement alone
-----------------------------------------------------------------------------------------

/-- A declaration that can be read goes up to the only semicolon. -/
theorem Single.eq_nil_of_derives {attachment : Attachment} {stmt : Stmt} (h : Single part)
    (derived : Derives attachment .declaration part stmt rest)
    : rest = [] := by
  obtain ⟨last, is, before, rfl⟩ := derived.ends
  cases rest with
  | nil => rfl
  | cons token rest =>
      have inside : last ∈ (before ++ last :: token :: rest).dropLast := by
        rw [List.dropLast_append_of_ne_nil (List.cons_ne_nil _ _)]
        simp
      rcases is with semicolon | brace
      · exact absurd semicolon (h.others last inside)
      · exact absurd brace (h.plain last (List.dropLast_subset _ inside)).2

/-- Alone, a statement with an error at one of its tokens has this error only, and the reader has
not come to its end.
-/
theorem Single.declaring_of_error (h : Single part) {stop : Token} {first : Nat}
    (ends : stop ∉ part)
    (wrong : ∃ error ∈ Program.syntaxErrors part stop first, error.token ∈ part)
    : ∃ error left last,
        Program.syntaxErrors part stop first = [error]
        ∧ error.token ∈ part ∧ left <:+ part ∧ left ≠ []
        ∧ declaring (32 * part.length + 30) ⟨part, stop, first⟩
          = .error error ⟨left, stop, last⟩ := by
  have alone := keeps_declaring (32 * part.length + 30) part [] h.toBraceless nofun stop first
  have taken := @takes_declaration .any (32 * part.length + 31) part stop first
  simp only [Program.syntaxErrors_eq, Parser.budget, Nat.mul_add, Nat.mul_one] at wrong ⊢
  have some : part.isEmpty = false := List.isEmpty_eq_false_iff.2 h.some
  rw [declarations, some, if_neg Bool.false_ne_true, declaration_eq] at wrong ⊢
  rw [declaration_eq] at taken
  rw [List.append_nil] at alone
  simp only [synchronized] at wrong taken ⊢
  cases ran : declaring (32 * part.length + 30) ⟨part, stop, first⟩ with
  | ok stmt after =>
      rw [ran] at wrong taken
      rcases after with ⟨ahead, stop, last⟩
      cases h.eq_nil_of_derives (taken stmt _ rfl)
      obtain ⟨error, member, _⟩ := wrong
      exact absurd member (List.not_mem_nil)
  | error error after =>
      rw [ran] at wrong alone
      rcases alone with ⟨left, last, suffix, rfl, atEnd⟩
      simp only [List.append_nil] at wrong ⊢
      have moved : synchronize ⟨left, stop, last⟩ = ⟨[], stop, last⟩ := by
        rw [synchronize_eq]
        by_cases none : left = []
        · rw [none, recovered]
        · rw [← List.append_nil left, recovered_single h suffix none]
      have nothing
          : declarations (32 * part.length + 31) ⟨[], stop, last⟩ = ([], [], ⟨[], stop, last⟩) :=
        rfl
      rw [moved, nothing] at wrong ⊢
      obtain ⟨other, member, own⟩ := wrong
      cases List.mem_singleton.1 member
      refine ⟨error, left, last, rfl, own, suffix, fun none => ?_, rfl⟩
      rw [atEnd none] at own
      exact ends own

/-- What the reader of a statement does before it comes to the end does not depend on what comes
behind the statement.
-/
theorem Malformed.of_error {left : List Token} {stop : Token} {first last : Nat} (h : Single part)
    (own : error.token ∈ part) (suffix : left <:+ part) (some : left ≠ [])
    (ran
      : declaring (32 * part.length + 30) ⟨part, stop, first⟩ = .error error ⟨left, stop, last⟩)
    (rest : List Token)
    : Malformed part rest error where
  toSingle := h
  own := own
  fails budget enough := by
    refine ⟨left, suffix, some, fun stopOther firstOther => ?_⟩
    let number (id : Nat) : Nat := firstOther + (id - first)
    have counts (id : Nat) (le : first ≤ id) : number (id + 1) = number id + 1 := by
      simp only [number]
      omega
    let pairing : Pairing := ⟨stop, rest, stopOther, number, first, counts⟩
    have apart : pairing.Apart part := by
      intro token final keyword
      cases keyword.symm.trans (h.ended token final)
    rw [List.length_append] at enough
    obtain ⟨budget, rfl⟩ : ∃ less, budget = less + 1 := ⟨budget - 1, by omega⟩
    have read := tracks_declaring pairing (32 * part.length + 30) budget part (by omega) (by omega)
      apart first (Nat.le_refl _)
    have start : number first = firstOther := by simp only [number, Nat.sub_self, Nat.add_zero]
    simp only [Pairing.one, Pairing.other, pairing, start, ran] at read
    obtain ⟨leftOther, lastOther, _, _, same, follows⟩ := read
    cases same
    have other := follows (.inl some)
    refine ⟨(), number last, trivial, ?_⟩
    rw [declaration_eq]
    simp only [synchronized, other, failAt, Pairing.other, synchronize_eq]

-----------------------------------------------------------------------------------------
-- A statement before others
-----------------------------------------------------------------------------------------

/-- A statement with an error at one of its tokens is reported with the error that it has alone, and
then exactly what is behind it is reported as if it came alone.
-/
theorem Program.parse_append_of_single (single : Single part) {stop : Token} {first : Nat}
    (ends : stop ∉ part)
    (wrong : ∃ error ∈ Program.syntaxErrors part stop first, error.token ∈ part)
    : ∃ error,
        Program.syntaxErrors part stop first = [error]
        ∧ ∀ (rest : List Token) (stopRest : Token) (firstRest firstWhole : Nat),
            (Program.parse (part ++ rest) stopRest firstWhole).1
            = .error (error :: Program.syntaxErrors rest stopRest firstRest) := by
  obtain ⟨error, left, last, alone, own, suffix, some, ran⟩ :=
    single.declaring_of_error ends wrong
  refine ⟨error, alone, fun rest stopRest firstRest firstWhole => ?_⟩
  have malformed : Malformed part rest error := .of_error single own suffix some ran rest
  obtain ⟨less, next, enough, same⟩ :=
    Program.syntaxErrors_of_goes (.stumbled malformed.stumbles) stopRest firstWhole
  rw [Program.syntaxErrors_eq_of_lasting enough stopRest next firstRest] at same
  rw [Program.syntaxErrors] at same
  cases parsed : (Program.parse (part ++ rest) stopRest firstWhole).1 with
  | ok program =>
      rw [parsed] at same
      cases same
  | error errors =>
      rw [parsed] at same
      exact congrArg _ same

/-- The statement `print ;` is reported at its semicolon, and then what is behind it. -/
theorem Program.parse_append_of_print
    : ∃ error,
        Program.syntaxErrors [⟨.keyword .print, "print", 1⟩, ⟨.mark .semicolon, ";", 1⟩]
            (.endOfInput 1) 0
          = [error]
        ∧ ∀ (rest : List Token) (stopRest : Token) (firstRest firstWhole : Nat),
            (Program.parse
                ([⟨.keyword .print, "print", 1⟩, ⟨.mark .semicolon, ";", 1⟩] ++ rest) stopRest
                firstWhole).1
            = .error (error :: Program.syntaxErrors rest stopRest firstRest) := by
  have single : Single [⟨.keyword .print, "print", 1⟩, ⟨.mark .semicolon, ";", 1⟩] :=
    .pair rfl nofun nofun nofun
  refine Program.parse_append_of_single single ?_ ?_
  · intro member
    have kind := List.mem_map_of_mem member (f := Token.kind)
    simp [Token.endOfInput] at kind
  · exact ⟨⟨⟨.mark .semicolon, ";", 1⟩, .expression⟩, .head _, .tail _ (.head _)⟩

end Lox
