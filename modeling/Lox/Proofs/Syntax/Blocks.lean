import Lox.Proofs.Syntax.Braces
import Lox.Proofs.Syntax.Failures

/-! The errors of a block. Its first malformed statement is reported. Every declaration around it
then skips another statement, so that the other malformed ones can be missed, and a closing brace
that is left over is reported in their place.
-/

namespace Lox

open Cursor Reader Lox.Parser Grammar

-----------------------------------------------------------------------------------------
-- The statements of a block
-----------------------------------------------------------------------------------------

/-- A statement that cannot be read before the rest. The error is at one of its own tokens, and the
reader stops there.
-/
structure Malformed (part rest : List Token) (error : SyntaxError) : Prop extends Single part where
  own : error.token ∈ part
  fails
    : ∀ budget,
        32 * (part ++ rest).length + 20 ≤ budget
        → ∃ back,
            back <:+ part ∧ back ≠ []
            ∧ Fails (declaration budget) (part ++ rest) (recovered (back ++ rest)) error

/-- A block goes on with a statement that has no brace. -/
theorem Single.misses_rightBrace {part : List Token} (h : Single part) (rest : List Token)
    : Misses (·.isMark .rightBrace) (part ++ rest) := by
  cases part with
  | nil => exact absurd rfl h.some
  | cons token part =>
      rintro _ ⟨⟩
      exact Bool.eq_false_iff.2 fun passes =>
        (h.plain token (.head _)).2 ((token.isMark_iff _).1 passes)

/-- The error of a malformed statement is left behind its semicolon. -/
theorem Malformed.stumbles {part rest : List Token} {error : SyntaxError}
    (h : Malformed part rest error)
    : Stumbles (part ++ rest) rest error where
  shorter := by
    have some := List.length_pos_iff.2 h.some
    rw [List.length_append]
    omega
  fails budget enough := by
    obtain ⟨back, suffix, some, fails⟩ := h.fails budget enough
    rwa [recovered_single h.toSingle suffix some] at fails

/-- A statement cannot be read if none starts with its first token. -/
theorem Malformed.of_nothing {token : Token} {more rest : List Token} (h : Single (token :: more))
    (nothing : 3 < opening token.kind)
    : Malformed (token :: more) rest ⟨token, .expression⟩ where
  toSingle := h
  own := .head _
  fails budget enough :=
    ⟨token :: more, List.suffix_rfl, List.cons_ne_nil _ _, fails_declaration nothing (by omega)⟩

/-- A statement of a block, with its error if it is malformed. -/
structure Part where
  tokens : List Token
  error? : Option SyntaxError

/-- The tokens of statements. -/
def Part.text (parts : List Part) : List Token := parts.flatMap Part.tokens

/-- Statements without braces, well-formed and malformed, before the braces that close them. None
behind a well-formed one starts with an `else`, with which that one would go on.
-/
inductive Written (closings : List Token) : List Part → Prop
  | none : Written closings []
  | stated {tokens : List Token} {stmt : Stmt} {parts : List Part}
      (derived
        : Derives .nearest .declaration (tokens ++ (Part.text parts ++ closings)) stmt
            (Part.text parts ++ closings))
      (plain
        : ∀ token ∈ tokens, token.kind ≠ .mark .leftBrace ∧ token.kind ≠ .mark .rightBrace)
      (apart : Misses (·.isKeyword .else) (Part.text parts ++ closings))
      (others : Written closings parts)
    : Written closings (⟨tokens, .none⟩ :: parts)
  | malformed {tokens : List Token} {error : SyntaxError} {parts : List Part}
      (first : Malformed tokens (Part.text parts ++ closings) error)
      (others : Written closings parts)
    : Written closings (⟨tokens, some error⟩ :: parts)

namespace Written

variable {closings : List Token} {parts before after : List Part} {part : Part}

theorem text_cons (part : Part) (parts : List Part)
    : Part.text (part :: parts) ++ closings = part.tokens ++ (Part.text parts ++ closings) := by
  rw [Part.text, List.flatMap_cons, List.append_assoc]
  rfl

theorem tail (h : Written closings (part :: parts)) : Written closings parts := by
  cases h with
  | stated _ _ _ others => exact others
  | malformed _ others => exact others

/-- The statements behind one of them. -/
theorem behind (h : Written closings (before ++ part :: after)) : Written closings after := by
  induction before with
  | nil => exact h.tail
  | cons _ _ ih => exact ih h.tail

/-- By induction over the statements, each of which ends with a semicolon. -/
theorem braceless (h : Written closings parts) : Braceless (Part.text parts) := by
  induction h with
  | none => exact .nil
  | @stated tokens stmt parts derived plain _ _ ih =>
      refine Braceless.append ⟨plain, ?_⟩ ih
      obtain ⟨last, is, before, same⟩ := derived.ends
      have ended : tokens = before ++ [last] := by
        rw [List.append_cons] at same
        exact (List.append_cancel_right same).symm
      rw [ended] at plain ⊢
      rw [List.getLast?_concat]
      rintro _ ⟨⟩
      exact is.resolve_right (plain last (by simp)).2
  | malformed first _ ih => exact first.toBraceless.append ih

/-- A source goes through statements with the errors of the malformed ones. -/
theorem goes (h : Written closings parts)
    : Goes (Part.text parts ++ closings) closings (parts.filterMap Part.error?) := by
  induction h with
  | none => exact .refl closings
  | stated derived _ apart _ ih =>
      rw [text_cons]
      exact (Goes.stated derived apart).trans ih
  | malformed first _ ih =>
      rw [text_cons]
      exact (Goes.stumbled first.stumbles).trans ih

/-- A block breaks off at its first malformed statement. By induction over the statements before
it.
-/
theorem breaks {error : SyntaxError} (h : Written closings (before ++ part :: after))
    (fine : ∀ earlier ∈ before, earlier.error? = .none) (wrong : part.error? = some error)
    : Breaks (Part.text (before ++ part :: after) ++ closings) (Part.text after ++ closings)
        error := by
  induction before with
  | nil =>
      cases h with
      | stated => cases wrong
      | malformed first others =>
          cases wrong
          rw [List.nil_append, text_cons]
          exact .here first.stumbles (first.misses_rightBrace _)
  | cons earlier before ih =>
      rw [List.forall_mem_cons] at fine
      cases h with
      | stated derived _ apart others =>
          rw [List.cons_append, text_cons]
          exact .after derived apart (ih others fine.2)
      | malformed => cases fine.1

/-- Well-formed statements are declarations. -/
theorem derives (h : Written closings parts) (fine : ∀ part ∈ parts, part.error? = .none)
    : ∃ tree, Derives .nearest .declarations (Part.text parts ++ closings) tree closings := by
  induction h with
  | none => exact ⟨[], .noDeclaration⟩
  | stated derived _ _ _ ih =>
      rw [List.forall_mem_cons] at fine
      obtain ⟨tree, others⟩ := ih fine.2
      rw [text_cons]
      exact ⟨_, .moreDeclarations derived others⟩
  | malformed => cases fine _ (.head _)

/-- Every error is at a token of its statement. -/
theorem own (h : Written closings parts)
    : ∀ error ∈ parts.filterMap Part.error?, error.token ∈ Part.text parts := by
  induction h with
  | none => exact List.forall_mem_nil _
  | stated _ _ _ _ ih => exact fun error member => List.mem_append_right _ (ih error member)
  | malformed first _ ih =>
      refine List.forall_mem_cons.2 ⟨List.mem_append_left _ first.own, ?_⟩
      exact fun error member => List.mem_append_right _ (ih error member)

/-- Statements with a single semicolon are skipped one by one. -/
theorem iterate_recovered (singles : ∀ part ∈ parts, Single part.tokens)
    (closed : ∀ token ∈ closings, token.kind = .mark .rightBrace) (depth : Nat)
    : recovered^[depth] (Part.text parts ++ closings)
      = if depth ≤ parts.length then Part.text (parts.drop depth) ++ closings else [] := by
  induction depth generalizing parts with
  | zero => rfl
  | succ depth ih =>
      rw [Function.iterate_succ_apply]
      cases parts with
      | nil =>
          have none : recovered (Part.text [] ++ closings) = [] := recovered_closings closed
          rw [none, iterate_recovered_nil]
          rfl
      | cons part parts =>
          rw [List.forall_mem_cons] at singles
          rw [text_cons, recovered_single singles.1 List.suffix_rfl singles.1.some, ih singles.2]
          simp only [List.length_cons, Nat.succ_le_succ_iff, List.drop_succ_cons]

end Written

-----------------------------------------------------------------------------------------
-- Blocks in blocks
-----------------------------------------------------------------------------------------

/-- In so many blocks and bodies of functions, one in the other, the tokens inside come behind
declarations that can be read.
-/
inductive Nested : (depth : Nat) → (tokens inside : List Token) → Prop
  | here {inside : List Token} : Nested 0 inside inside
  | after {depth : Nat} {tokens middle inside : List Token} {stmt : Stmt}
      (first : Derives .nearest .declaration tokens stmt middle)
      (apart : Misses (·.isKeyword .else) middle) (others : Nested depth middle inside)
    : Nested depth tokens inside
  | block {depth : Nat} {brace : Token} {tokens inside : List Token}
      (opened : brace.kind = .mark .leftBrace) (body : Nested depth tokens inside)
    : Nested (depth + 1) (brace :: tokens) inside
  | function {depth : Nat} {word name brace : Token} {tokens middle inside names : List Token}
      (keyword : word.kind = .keyword .fun) (named : name.kind = .identifier)
      (listed : Parameters tokens names (brace :: middle)) (opened : brace.kind = .mark .leftBrace)
      (body : Nested depth middle inside)
    : Nested (depth + 1) (word :: name :: tokens) inside

namespace Nested

variable {depth : Nat} {tokens inside rest closings : List Token} {error : SyntaxError}

/-- An error moves on once for every block around it. -/
theorem breaks (h : Nested depth tokens inside) (fails : Breaks inside rest error)
    : Breaks tokens (recovered^[depth] rest) error := by
  induction h with
  | here => exact fails
  | after first apart _ ih => exact .after first apart (ih fails)
  | block opened _ ih =>
      rw [Function.iterate_succ_apply']
      exact .here (.block opened (ih fails)) (misses_of_kind opened rfl)
  | function keyword named listed opened _ ih =>
      rw [Function.iterate_succ_apply']
      exact .here (.function keyword named listed opened (ih fails)) (misses_of_kind keyword rfl)

/-- A source has the error of the block and goes on behind what was skipped. -/
theorem goes (h : Nested depth tokens inside) (some : depth ≠ 0) (fails : Breaks inside rest error)
    : Goes tokens (recovered^[depth] rest) [error] := by
  induction h with
  | here => exact absurd rfl some
  | after first apart _ ih => exact (Goes.stated first apart).trans (ih some fails)
  | block opened body =>
      rw [Function.iterate_succ_apply']
      exact .stumbled (.block opened (body.breaks fails))
  | function keyword named listed opened body =>
      rw [Function.iterate_succ_apply']
      exact .stumbled (.function keyword named listed opened (body.breaks fails))

/-- Where there is no block, a source comes to the tokens inside. -/
theorem goes_inside (h : Nested depth tokens inside) (none : depth = 0)
    : Goes tokens inside [] := by
  induction h with
  | here => exact .refl _
  | after first apart _ ih => exact (Goes.stated first apart).trans (ih none)
  | block | function => cases none

/-- The last brace closes the outermost block. -/
theorem closes {brace : Token} (opened : brace.kind = .mark .leftBrace)
    (closed : ∀ token ∈ closings, token.kind = .mark .rightBrace)
    (balanced : closings.length = depth + 1)
    (body
      : ∀ {inner more : List Token},
          (∀ token ∈ inner, token.kind = .mark .rightBrace)
          → inner.length = depth
          → closings ++ rest = inner ++ more
          → ∃ outer, Derives .nearest .declarations tokens outer more)
    : ∃ outer, Derives .nearest .block (brace :: tokens) outer rest := by
  have some : closings ≠ [] := List.ne_nil_of_length_eq_add_one balanced
  have last : closings = closings.dropLast ++ [closings.getLast some] :=
    (List.dropLast_concat_getLast some).symm
  have inner : ∀ token ∈ closings.dropLast, token.kind = .mark .rightBrace :=
    fun token member => closed token (List.dropLast_subset _ member)
  have ahead : closings ++ rest = closings.dropLast ++ closings.getLast some :: rest := by
    rw [List.append_cons, ← last]
  obtain ⟨outer, read⟩ := body inner (by rw [List.length_dropLast, balanced]; rfl) ahead
  exact ⟨outer, .block opened read (closed _ (List.getLast_mem some))⟩

/-- What can be read inside is part of declarations that can be read, if the blocks are closed. -/
theorem derives {tree : List Stmt} (h : Nested depth tokens inside)
    (closed : ∀ token ∈ closings, token.kind = .mark .rightBrace)
    (balanced : closings.length = depth)
    (read : Derives .nearest .declarations inside tree (closings ++ rest))
    : ∃ outer, Derives .nearest .declarations tokens outer rest := by
  induction h generalizing closings rest with
  | here =>
      cases List.length_eq_zero_iff.1 balanced
      exact ⟨tree, read⟩
  | after first _ _ ih =>
      obtain ⟨outer, others⟩ := ih closed balanced read
      exact ⟨_, .moreDeclarations first others⟩
  | block opened _ ih =>
      obtain ⟨outer, body⟩ := closes opened closed balanced
        fun inner less ahead => ih inner less (ahead ▸ read)
      exact ⟨_, .moreDeclarations (.statement (.blockStatement body)) .noDeclaration⟩
  | function keyword named listed opened _ ih =>
      obtain ⟨outer, body⟩ := closes opened closed balanced
        fun inner less ahead => ih inner less (ahead ▸ read)
      exact ⟨_, .moreDeclarations (.named keyword (.function named listed body)) .noDeclaration⟩

end Nested

-----------------------------------------------------------------------------------------
-- The errors of a source
-----------------------------------------------------------------------------------------

/-- The errors that a source is read with. -/
def Program.syntaxErrors (tokens : List Token) (stop : Token) (first : Nat) : List SyntaxError :=
  match (Program.parse tokens stop first).1 with
  | .ok _ => []
  | .error errors => errors

theorem Program.syntaxErrors_eq (tokens : List Token) (stop : Token) (first : Nat)
    : Program.syntaxErrors tokens stop first
      = (declarations (budget ⟨tokens, stop, first⟩) ⟨tokens, stop, first⟩).2.1 := by
  unfold Program.syntaxErrors Program.parse
  dsimp only
  generalize declarations (budget ⟨tokens, stop, first⟩) ⟨tokens, stop, first⟩ = read
  rcases read with ⟨program, _ | ⟨error, errors⟩, last⟩ <;> rfl

theorem Program.syntaxErrors_of_goes {tokens rest : List Token} {errors : List SyntaxError}
    (h : Goes tokens rest errors) (stop : Token) (first : Nat)
    : ∃ less last,
        32 * (rest.length + 1) ≤ less
        ∧ Program.syntaxErrors tokens stop first
          = errors ++ (declarations less ⟨rest, stop, last⟩).2.1 := by
  rw [Program.syntaxErrors_eq]
  exact h _ stop first (Nat.le_refl _)

/-- Either all statements are well-formed or there is a first malformed one. -/
theorem Part.exists_first (parts : List Part)
    : (∀ part ∈ parts, part.error? = none)
      ∨ ∃ before part after error,
          parts = before ++ part :: after
          ∧ (∀ earlier ∈ before, earlier.error? = none)
          ∧ part.error? = some error := by
  induction parts with
  | nil => exact .inl (List.forall_mem_nil _)
  | cons part parts ih =>
      cases wrong : part.error? with
      | some error => exact .inr ⟨[], part, parts, error, rfl, List.forall_mem_nil _, wrong⟩
      | none =>
          rcases ih with fine | ⟨before, other, after, error, rfl, fine, wrongOther⟩
          · exact .inl (List.forall_mem_cons.2 ⟨wrong, fine⟩)
          · refine .inr ⟨part :: before, other, after, error, rfl, ?_, wrongOther⟩
            exact List.forall_mem_cons.2 ⟨wrong, fine⟩

/-- If all statements before and behind one are well-formed, no other one is malformed. -/
theorem Part.after_unique {before after others more : List Part} {part other : Part}
    (same : before ++ part :: after = others ++ other :: more)
    (fine : ∀ earlier ∈ before, earlier.error? = none)
    (fineAfter : ∀ later ∈ after, later.error? = none) (wrong : other.error? ≠ none)
    : more = after := by
  rcases List.append_eq_append_iff.1 same with ⟨left, rfl, ahead⟩ | ⟨left, rfl, ahead⟩
  · cases left with
    | nil => exact (List.cons.inj ahead).2.symm
    | cons first left =>
        rw [List.cons_append, List.cons.injEq] at ahead
        refine absurd (fineAfter other ?_) wrong
        rw [ahead.2]
        simp
  · cases left with
    | nil => exact (List.cons.inj ahead).2
    | cons first left =>
        rw [List.cons_append, List.cons.injEq] at ahead
        refine absurd (fine other ?_) wrong
        rw [ahead.1]
        simp

section

variable {depth : Nat} {tokens closings : List Token} {before after parts : List Part} {part : Part}
  {error : SyntaxError}

/-- The first malformed statement is reported. If what was skipped ends before the braces, a brace
is reported as well, and otherwise nothing else.
-/
theorem Program.syntaxErrors_of_malformed
    (nested : Nested depth tokens (Part.text (before ++ part :: after) ++ closings))
    (deep : depth ≠ 0) (written : Written closings (before ++ part :: after))
    (fine : ∀ earlier ∈ before, earlier.error? = none) (wrong : part.error? = some error)
    (closed : ∀ token ∈ closings, token.kind = .mark .rightBrace) (some : closings ≠ [])
    (stop : Token) (first : Nat)
    : ∃ others,
        Program.syntaxErrors tokens stop first = error :: others
        ∧ (recovered^[depth] (Part.text after ++ closings) = [] → others = [])
        ∧ (recovered^[depth] (Part.text after ++ closings) ≠ []
          → ∃ other ∈ others, other.token.kind = .mark .rightBrace) := by
  have goes := nested.goes deep (written.breaks fine wrong)
  obtain ⟨less, last, enough, same⟩ := Program.syntaxErrors_of_goes goes stop first
  refine ⟨_, same, fun nothing => ?_, fun present => ?_⟩
  · obtain ⟨less, rfl⟩ : ∃ fewer, less = fewer + 1 := ⟨less - 1, by omega⟩
    rw [nothing]
    rfl
  · have whole : Braceless (Part.text after) := written.behind.braceless
    rcases iterate_recovered whole closed depth with nothing | ⟨left, suffix, ahead⟩
    · exact absurd nothing present
    cases closings with
    | nil => exact absurd rfl some
    | cons brace more =>
        have closing := closed brace (.head _)
        rw [ahead] at enough ⊢
        have room : left.length + 1 < less := by
          simp only [List.length_append] at enough
          omega
        obtain ⟨other, member, atBrace⟩ :=
          declarations_report (whole.suffix suffix) ⟨brace, more, rfl, closing⟩ room stop last
        exact ⟨other, member, Option.some.inj atBrace ▸ closing⟩

/-- All malformed statements are reported in this way if and only if the first is the only one, and
everything behind it was skipped.
-/
theorem Program.syntaxErrors_eq_iff_of_malformed
    (nested : Nested depth tokens (Part.text (before ++ part :: after) ++ closings))
    (deep : depth ≠ 0) (written : Written closings (before ++ part :: after))
    (fine : ∀ earlier ∈ before, earlier.error? = none) (wrong : part.error? = some error)
    (closed : ∀ token ∈ closings, token.kind = .mark .rightBrace) (some : closings ≠ [])
    (stop : Token) (first : Nat)
    : (Program.syntaxErrors tokens stop first).head?
        = ((before ++ part :: after).filterMap Part.error?).head?
      ∧ (Program.syntaxErrors tokens stop first = (before ++ part :: after).filterMap Part.error?
        ↔ (∀ later ∈ after, later.error? = none)
          ∧ recovered^[depth] (Part.text after ++ closings) = []) := by
  obtain ⟨others, same, nothing, present⟩ :=
    Program.syntaxErrors_of_malformed nested deep written fine wrong closed some stop first
  have expected
      : (before ++ part :: after).filterMap Part.error? = error :: after.filterMap Part.error? := by
    rw [List.filterMap_append, List.filterMap_eq_nil_iff.2 fine, List.filterMap_cons_some wrong]
    rfl
  rw [same, expected, List.cons_inj_right]
  refine ⟨rfl, fun promised => ?_, fun ⟨fineAfter, all⟩ => ?_⟩
  · have rest : Written closings after := written.behind
    have all : recovered^[depth] (Part.text after ++ closings) = [] := by
      by_contra left
      obtain ⟨other, member, closing⟩ := present left
      exact (rest.braceless.plain _ (rest.own other (promised ▸ member))).2 closing
    exact ⟨List.filterMap_eq_nil_iff.1 (promised.symm.trans (nothing all)), all⟩
  · rw [nothing all, List.filterMap_eq_nil_iff.2 fineAfter]

/-- Without a block around them, all malformed statements are reported. -/
theorem Program.syntaxErrors_of_shallow (nested : Nested 0 tokens (Part.text parts ++ []))
    (written : Written [] parts) (stop : Token) (first : Nat)
    : Program.syntaxErrors tokens stop first = parts.filterMap Part.error? := by
  have goes := (nested.goes_inside rfl).trans written.goes
  obtain ⟨less, last, enough, same⟩ := Program.syntaxErrors_of_goes goes stop first
  obtain ⟨less, rfl⟩ : ∃ fewer, less = fewer + 1 := ⟨less - 1, by omega⟩
  exact same.trans (List.append_nil _)

/-- Well-formed statements in closed blocks make a source without an error. -/
theorem Program.syntaxErrors_of_fine (nested : Nested depth tokens (Part.text parts ++ closings))
    (written : Written closings parts) (fine : ∀ part ∈ parts, part.error? = none)
    (closed : ∀ token ∈ closings, token.kind = .mark .rightBrace)
    (balanced : closings.length = depth) (stop : Token) (first : Nat)
    : Program.syntaxErrors tokens stop first = [] := by
  obtain ⟨tree, inner⟩ := written.derives fine
  have read
      : Derives .nearest .declarations (Part.text parts ++ closings) tree (closings ++ []) := by
    rwa [List.append_nil]
  obtain ⟨outer, derived⟩ := nested.derives closed balanced read
  obtain ⟨program, next, parsed, _⟩ := Program.parse_of_derives derived stop first
  rw [Program.syntaxErrors, parsed]

/-- The first malformed statement of a block is reported. All of them are, in order, and nothing
else, if and only if there is no block around them, or there is one of them at most and what is
skipped behind it reaches the end. Statements with a single semicolon are skipped one for each
block.
-/
theorem Program.syntaxErrors_of_nested
    (nested : Nested depth tokens (Part.text parts ++ closings)) (written : Written closings parts)
    (closed : ∀ token ∈ closings, token.kind = .mark .rightBrace)
    (balanced : closings.length = depth) (stop : Token) (first : Nat)
    : (Program.syntaxErrors tokens stop first).head? = (parts.filterMap Part.error?).head?
      ∧ (Program.syntaxErrors tokens stop first = parts.filterMap Part.error?
        ↔ depth = 0
          ∨ ∀ before part after,
              parts = before ++ part :: after
              → part.error? ≠ none
              → (∀ later ∈ after, later.error? = none)
                ∧ recovered^[depth] (Part.text after ++ closings) = [])
      ∧ ∀ after,
          after <:+ parts
          → (∀ part ∈ after, Single part.tokens)
          → depth ≠ 0
          → (recovered^[depth] (Part.text after ++ closings) = [] ↔ after.length < depth) := by
  by_cases shallow : depth = 0
  · cases shallow
    cases List.length_eq_zero_iff.1 balanced
    have same := Program.syntaxErrors_of_shallow nested written stop first
    exact ⟨congrArg _ same, iff_of_true same (.inl rfl), fun _ _ _ deep => absurd rfl deep⟩
  have some : closings ≠ [] := List.ne_nil_of_length_pos (by omega)
  refine and_assoc.1 ⟨?_, fun after _ singles _ => ?_⟩
  · rcases Part.exists_first parts with fine | ⟨before, part, after, error, rfl, fine, wrong⟩
    · have same := Program.syntaxErrors_of_fine nested written fine closed balanced stop first
      have expected : parts.filterMap Part.error? = [] := List.filterMap_eq_nil_iff.2 fine
      refine ⟨by rw [same, expected], iff_of_true (same.trans expected.symm) (.inr ?_)⟩
      rintro before part after rfl wrong
      exact absurd (fine part (by simp)) wrong
    · have reported := Program.syntaxErrors_eq_iff_of_malformed nested shallow written fine wrong
        closed some stop first
      refine ⟨reported.1, reported.2.trans ⟨fun only => .inr ?_, fun kept => ?_⟩⟩
      · intro _ _ _ split other
        cases Part.after_unique split fine only.1 other
        exact only
      · exact kept.resolve_left shallow before part after rfl (wrong ▸ Option.some_ne_none _)
  · rw [Written.iterate_recovered singles closed]
    split
    · next le => exact iff_of_false (by simp [some]) (Nat.not_lt.2 le)
    · next lt => exact iff_of_true rfl (Nat.lt_of_not_le lt)

end

/-- The only statement of `{ +; }` is reported, and the closing brace is not. -/
theorem Program.syntaxErrors_of_nested_block
    : Program.syntaxErrors
        [⟨.mark .leftBrace, "\x7b", 1⟩, ⟨.mark .plus, "+", 1⟩, ⟨.mark .semicolon, ";", 1⟩,
          ⟨.mark .rightBrace, "\x7d", 1⟩] (.endOfInput 1) 0
      = [⟨⟨.mark .plus, "+", 1⟩, .expression⟩] := by
  let plus : Token := ⟨.mark .plus, "+", 1⟩
  let semicolon : Token := ⟨.mark .semicolon, ";", 1⟩
  let closings : List Token := [⟨.mark .rightBrace, "\x7d", 1⟩]
  let part : Part := ⟨[plus, semicolon], some ⟨plus, .expression⟩⟩
  have nested
      : Nested 1 (⟨.mark .leftBrace, "\x7b", 1⟩ :: (Part.text [part] ++ closings))
          (Part.text [part] ++ closings) :=
    .block rfl .here
  have malformed : Malformed [plus, semicolon] closings ⟨plus, .expression⟩ :=
    .of_nothing (.pair rfl nofun nofun nofun) (by decide)
  have closed : ∀ token ∈ closings, token.kind = .mark .rightBrace :=
    List.forall_mem_singleton.2 rfl
  have errors := Program.syntaxErrors_of_nested nested (.malformed malformed .none) closed rfl
    (.endOfInput 1) 0
  refine errors.2.1.2 (.inr ?_)
  intro before other after split _
  cases before with
  | nil =>
      cases split
      exact ⟨List.forall_mem_nil _, rfl⟩
  | cons first before => simp at split

/-- Of the two malformed statements of `{ +; +; }` the second is missed. -/
theorem Program.syntaxErrors_miss_malformed
    : ¬ ∀ (depth : Nat) (tokens closings : List Token) (parts : List Part) (stop : Token)
        (first : Nat),
          Nested depth tokens (Part.text parts ++ closings)
          → Written closings parts
          → (∀ token ∈ closings, token.kind = .mark .rightBrace)
          → closings.length = depth
          → Program.syntaxErrors tokens stop first = parts.filterMap Part.error? := by
  intro promise
  let plus : Token := ⟨.mark .plus, "+", 1⟩
  let semicolon : Token := ⟨.mark .semicolon, ";", 1⟩
  let opening : Token := ⟨.mark .leftBrace, "\x7b", 1⟩
  let closing : Token := ⟨.mark .rightBrace, "\x7d", 1⟩
  let part : Part := ⟨[plus, semicolon], some ⟨plus, .expression⟩⟩
  let tokens : List Token := opening :: (Part.text [part, part] ++ [closing])
  have malformed (rest : List Token) : Malformed [plus, semicolon] rest ⟨plus, .expression⟩ :=
    .of_nothing (.pair rfl nofun nofun nofun) (by decide)
  have promised
      : Program.syntaxErrors tokens (.endOfInput 1) 0
        = [⟨plus, .expression⟩, ⟨plus, .expression⟩] :=
    promise 1 tokens [closing] [part, part] (.endOfInput 1) 0 (.block rfl .here)
      (.malformed (malformed _) (.malformed (malformed _) .none)) (List.forall_mem_singleton.2 rfl)
      rfl
  have reported
      : Program.syntaxErrors tokens (.endOfInput 1) 0
        = [⟨plus, .expression⟩, ⟨closing, .expression⟩] := rfl
  have same := congrArg (List.map (·.token.lexeme)) (promised.symm.trans reported)
  exact absurd same (by decide)

end Lox
