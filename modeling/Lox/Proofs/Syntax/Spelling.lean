import Lox.Proofs.Scoping.Layers
import Lox.Token.Lexer

/-! The spelling of scanned words: no name is spelled like a keyword, and a keyword is spelled as
it should be. Only `this` and `super` matter here, since these are looked up by their text.
-/

namespace Lox

/-- A token is spelled as its kind has it, as far as `this` and `super` are concerned. -/
structure Token.Spelled (token : Token) : Prop where
  name : token.kind = .identifier → ¬ Reserved token.lexeme
  this : token.kind = .keyword .this → token.lexeme = "this"
  super : token.kind = .keyword .super → token.lexeme = "super"

namespace Lexer

/-- A word that is a name has no keyword's spelling, by the search among all keywords. -/
theorem spelled_word (bytes : List UInt8) (line : Nat)
    : Token.Spelled ⟨wordKind bytes, Text.decodeLossy bytes, line⟩ := by
  unfold wordKind Keyword.ofText?
  split
  · next keyword found =>
      have text := List.find?_some found
      simp only [decide_eq_true_eq] at text
      refine ⟨nofun, ?_, ?_⟩
      · rintro ⟨⟩
        exact text.symm
      · rintro ⟨⟩
        exact text.symm
  · next missing =>
      refine ⟨fun _ reserved => ?_, nofun, nofun⟩
      have others := List.find?_eq_none.1 missing
      simp only [Keyword.all, List.mem_cons, forall_eq_or_imp, decide_eq_true_eq] at others
      rcases reserved with same | same <;> simp_all [Keyword.text]

/-- Only words are names or keywords. -/
theorem spelled_recognized {first : UInt8} {rest : List UInt8} {kind : TokenKind} {size : Nat}
    (h : recognize first rest = (.token kind, size)) (line : Nat)
    : Token.Spelled ⟨kind, Text.decodeLossy (first :: rest.take size), line⟩ := by
  have other {kind : TokenKind} {text : String} (name : kind ≠ .identifier)
      (keyword : ∀ word, kind ≠ .keyword word)
      : Token.Spelled ⟨kind, text, line⟩ :=
    ⟨fun same => absurd same name, fun same => absurd same (keyword _),
      fun same => absurd same (keyword _)⟩
  unfold recognize at h
  split at h
  · cases h
  split at h
  · cases h
    exact spelled_word ..
  split at h
  · cases h
    exact other nofun nofun
  split at h
  · dsimp only at h
    split at h <;> cases h
    exact other nofun nofun
  split at h
  · cases h
  split at h
  · split at h <;> cases h
  split at h
  · split at h <;> cases h <;> exact other nofun nofun
  · cases h

theorem spelled_pieces (bytes : List UInt8)
    : ∀ piece ∈ pieces bytes, ∀ line found,
        piece.item? line = some (.token found) → found.Spelled := by
  induction bytes using pieces.induct with
  | case1 => simp [pieces]
  | case2 first rest content size recognized ih =>
      rw [pieces, recognized, List.forall_mem_cons]
      refine ⟨?_, ih⟩
      intro line found item
      cases content with
      | gap => cases item
      | token kind =>
          cases item
          exact spelled_recognized recognized line
      | error cause => cases item

theorem spelled_items (line : Nat) (pieces : List Piece)
    (h : ∀ piece ∈ pieces, ∀ line found, piece.item? line = some (.token found) → found.Spelled)
    : ∀ found, Item.token found ∈ items line pieces → found.Spelled := by
  induction pieces generalizing line with
  | nil => exact nofun
  | cons piece rest ih =>
      intro found member
      rw [List.forall_mem_cons] at h
      rw [items, List.mem_append, Option.mem_toList] at member
      rcases member with here | later
      · exact h.1 _ found here
      · exact ih _ h.2 found later

end Lexer

/-- The tokens of a scanned source are spelled as their kinds have it. -/
theorem Scan.spelled_tokens (source : String)
    : ∀ token ∈ (Scan.ofText source).tokens, token.Spelled := by
  intro token member
  obtain ⟨item, found, same⟩ := List.mem_filterMap.1 member
  cases item with
  | token other =>
      cases same
      exact Lexer.spelled_items 1 _ (Lexer.spelled_pieces _) token found
  | error _ => cases same

end Lox
