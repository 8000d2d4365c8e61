import Mathlib.Logic.Function.Iterate
import Lox.Proofs.Syntax.Soundness

/-! Moving on after an error. What is skipped ends at a semicolon or before the keyword of a
statement, and every declaration around an error skips on from where the one inside it stopped.
-/

namespace Lox

-----------------------------------------------------------------------------------------
-- Statements without a brace
-----------------------------------------------------------------------------------------

/-- Tokens of whole statements in which nothing is opened or closed by a brace. -/
structure Braceless (front : List Token) : Prop where
  plain : ∀ token ∈ front, token.kind ≠ .mark .leftBrace ∧ token.kind ≠ .mark .rightBrace
  ended : ∀ token ∈ front.getLast?, token.kind = .mark .semicolon

namespace Braceless

variable {front left : List Token} {token : Token}

theorem nil : Braceless [] := ⟨List.forall_mem_nil _, nofun⟩

theorem suffix (h : Braceless front) (ends : left <:+ front) : Braceless left := by
  rcases ends with ⟨taken, rfl⟩
  refine ⟨fun token member => h.plain token (List.mem_append_right _ member), ?_⟩
  intro token last
  apply h.ended token
  rw [List.getLast?_append, Option.mem_def.1 last]
  rfl

theorem tail (h : Braceless (token :: front)) : Braceless front :=
  h.suffix (List.suffix_cons token front)

theorem append {more : List Token} (h : Braceless front) (others : Braceless more)
    : Braceless (front ++ more) := by
  refine ⟨List.forall_mem_append.2 ⟨h.plain, others.plain⟩, ?_⟩
  rw [List.getLast?_append]
  cases last : more.getLast? with
  | none => exact h.ended
  | some token =>
      rintro _ ⟨⟩
      exact others.ended token last

/-- Only a semicolon can be the last of them. -/
theorem ne_nil_of_cons (h : Braceless (token :: front)) (other : token.kind ≠ .mark .semicolon)
    : front ≠ [] := by
  rintro rfl
  exact other (h.ended token rfl)

end Braceless

/-- The only semicolon is the last token, and only the first one may be the keyword of a statement.
There is no brace.
-/
structure Single (part : List Token) : Prop extends Braceless part where
  some : part ≠ []
  others : ∀ token ∈ part.dropLast, token.kind ≠ .mark .semicolon
  words : ∀ token ∈ part.tail, Cursor.startsStatement token = false

/-- One token and its semicolon. -/
theorem Single.pair {token semicolon : Token} (ended : semicolon.kind = .mark .semicolon)
    (other : token.kind ≠ .mark .semicolon) (unopened : token.kind ≠ .mark .leftBrace)
    (unclosed : token.kind ≠ .mark .rightBrace)
    : Single [token, semicolon] where
  plain := by
    rintro _ (_ | ⟨_, _ | ⟨_, ⟨⟩⟩⟩)
    · exact ⟨unopened, unclosed⟩
    · rw [ended]
      exact ⟨nofun, nofun⟩
  ended := by
    rintro _ ⟨⟩
    exact ended
  some := List.cons_ne_nil _ _
  others := List.forall_mem_singleton.2 other
  words := List.forall_mem_singleton.2 (by rw [Cursor.startsStatement, ended])

-----------------------------------------------------------------------------------------
-- Moving on
-----------------------------------------------------------------------------------------

namespace Cursor

variable {tokens front back part closings : List Token} {previous : Token}

/-- The tokens that are ahead when an error before them has been left. -/
def recovered : List Token → List Token
  | [] => []
  | token :: rest => skipToStatement token rest

theorem synchronize_eq (tokens : List Token) (stop : Token) (first : Nat)
    : synchronize ⟨tokens, stop, first⟩ = ⟨recovered tokens, stop, first⟩ := by
  cases tokens <;> rfl

/-- By induction over the tokens that are skipped. -/
theorem skipToStatement_suffix (previous : Token) (tokens : List Token)
    : skipToStatement previous tokens <:+ tokens := by
  induction tokens generalizing previous with
  | nil => exact List.suffix_rfl
  | cons token rest ih =>
      rw [skipToStatement]
      split
      · exact List.suffix_rfl
      · exact (ih token).trans (List.suffix_cons token rest)

theorem recovered_suffix (tokens : List Token) : recovered tokens <:+ tokens := by
  cases tokens with
  | nil => exact List.suffix_rfl
  | cons token rest => exact (skipToStatement_suffix token rest).trans (List.suffix_cons token rest)

/-- The token of the error is passed over at least. -/
theorem length_recovered_lt (some : tokens ≠ []) : (recovered tokens).length < tokens.length := by
  cases tokens with
  | nil => exact absurd rfl some
  | cons token rest => exact Nat.lt_succ_of_le (skipToStatement_suffix token rest).length_le

/-- No more is skipped than the tokens up to a semicolon. By induction over these tokens. -/
theorem skipToStatement_append
    (ended : ∀ token ∈ (previous :: back).getLast?, token.kind = .mark .semicolon)
    (rest : List Token)
    : skipToStatement previous (back ++ rest) = skipToStatement previous back ++ rest := by
  induction back generalizing previous with
  | nil =>
      have is : previous.isMark .semicolon = true := (previous.isMark_iff _).2 (ended previous rfl)
      cases rest with
      | nil => rfl
      | cons token rest => simp only [List.nil_append, skipToStatement, is, Bool.true_or, if_true]
  | cons token back ih =>
      rw [List.cons_append, skipToStatement, skipToStatement]
      split
      · rfl
      · exact ih ended

theorem recovered_append (whole : Braceless back) (some : back ≠ []) (rest : List Token)
    : recovered (back ++ rest) = recovered back ++ rest := by
  cases back with
  | nil => exact absurd rfl some
  | cons token back => exact skipToStatement_append whole.ended rest

/-- Nothing is left where only the last token may be a semicolon and none is the keyword of a
statement. By induction over the tokens.
-/
theorem skipToStatement_eq_nil
    (others : ∀ token ∈ (previous :: back).dropLast, token.kind ≠ .mark .semicolon)
    (words : ∀ token ∈ back, startsStatement token = false)
    : skipToStatement previous back = [] := by
  induction back generalizing previous with
  | nil => rfl
  | cons token back ih =>
      rw [List.dropLast_cons_cons, List.forall_mem_cons] at others
      rw [List.forall_mem_cons] at words
      have same : previous.isMark .semicolon = false :=
        Bool.eq_false_iff.2 fun passes => others.1 ((previous.isMark_iff _).1 passes)
      rw [skipToStatement, same, words.1]
      exact ih others.2 words.2

/-- An error inside a statement with a single semicolon is left behind that semicolon. -/
theorem recovered_single (h : Single part) (inside : back <:+ part) (some : back ≠ [])
    (rest : List Token)
    : recovered (back ++ rest) = rest := by
  have alone : recovered back = [] := by
    rcases inside with ⟨before, rfl⟩
    cases back with
    | nil => rfl
    | cons token back =>
        apply skipToStatement_eq_nil
        · intro other member
          apply h.others other
          rw [List.dropLast_append_of_ne_nil some]
          exact List.mem_append_right _ member
        · intro other member
          apply h.words other
          cases before <;> simp [member]
  rw [recovered_append (h.toBraceless.suffix inside) some, alone, List.nil_append]

/-- Closing braces are skipped together. -/
theorem recovered_closings (closed : ∀ token ∈ closings, token.kind = .mark .rightBrace)
    : recovered closings = [] := by
  cases closings with
  | nil => rfl
  | cons brace more =>
      apply skipToStatement_eq_nil
      · intro token member same
        cases (closed token (List.dropLast_subset _ member)).symm.trans same
      · intro token member
        rw [startsStatement, closed token (.tail _ member)]

theorem iterate_recovered_nil (depth : Nat) : recovered^[depth] [] = [] :=
  Function.iterate_fixed rfl depth

/-- Errors before closing braces are left before the braces, or else nothing is. By induction over
the declarations around the error.
-/
theorem iterate_recovered (whole : Braceless front)
    (closed : ∀ token ∈ closings, token.kind = .mark .rightBrace) (depth : Nat)
    : recovered^[depth] (front ++ closings) = []
      ∨ ∃ left, left <:+ front ∧ recovered^[depth] (front ++ closings) = left ++ closings := by
  induction depth generalizing front with
  | zero => exact .inr ⟨front, List.suffix_rfl, rfl⟩
  | succ depth ih =>
      rw [Function.iterate_succ_apply]
      by_cases none : front = []
      · rw [none, List.nil_append, recovered_closings closed, iterate_recovered_nil]
        exact .inl rfl
      · rw [recovered_append whole none]
        rcases ih (whole.suffix (recovered_suffix front)) with nothing | ⟨left, suffix, same⟩
        · exact .inl nothing
        · exact .inr ⟨left, suffix.trans (recovered_suffix front), same⟩

end Cursor

end Lox
