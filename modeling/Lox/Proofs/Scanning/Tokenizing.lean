import Lox.Proofs.Scanning.Reading
import Lox.Proofs.Scanning.Steps

/-! The scanner tokenizes a whole source as the reference says. Its pieces cover the source from one
end to the other and cut no character of a text.
-/

namespace Lox.Lexer

variable {first : UInt8} {rest span before : List UInt8} {content : Content}

-----------------------------------------------------------------------------------------
-- The reference and the scanner
-----------------------------------------------------------------------------------------

theorem newlines_append (front back : List UInt8)
    : newlines (front ++ back) = newlines front + newlines back :=
  List.count_append ..

/-- The line that the item ends on. -/
def Item.line : Item → Nat
  | .token found => found.line
  | .error found => found.line

/-- What scanning yields from a place on that some text stands before. -/
def streamFrom (before ahead : List UInt8) : List Item :=
  items (1 + newlines before) (pieces ahead)
    ++ [.token (.endOfInput (1 + newlines (before ++ ahead)))]

/-- The first piece has its item, and scanning goes on behind it. -/
theorem Reads.streamFrom_eq (h : Reads span rest content) (before : List UInt8)
    : streamFrom before (span ++ rest)
      = (Piece.item? ⟨span, content⟩ (1 + newlines (before ++ span))).toList
        ++ streamFrom (before ++ span) rest := by
  rw [streamFrom, h.pieces_eq, items, newlines_append before span, ← Nat.add_assoc,
    List.append_assoc, streamFrom, newlines_append before span, Nat.add_assoc, List.append_assoc]

/-- The reference yields what the scanner does, by induction over the parts of the source. -/
theorem Tokenizes.eq {ahead : List UInt8} {cut : List Piece} {stream : List Item}
    (h : Tokenizes before ahead cut stream)
    : cut = pieces ahead ∧ stream = streamFrom before ahead := by
  induction h with
  | stop => simp [streamFrom, pieces, items]
  | gap reads _ ih | token reads _ ih | error reads _ ih =>
      rcases ih with ⟨rfl, rfl⟩
      exact ⟨reads.pieces_eq.symm, (reads.streamFrom_eq _).symm⟩

/-- The scanner yields what the reference does, by induction over the pieces. -/
theorem tokenizes (before ahead : List UInt8)
    : Tokenizes before ahead (pieces ahead) (streamFrom before ahead) := by
  induction same : ahead.length using Nat.strongRecOn generalizing before ahead with
  | ind size ih =>
      cases ahead with
      | nil => simpa [streamFrom, pieces, items] using Tokenizes.stop
      | cons first rest =>
          rcases exists_reads first rest with ⟨tail, more, content, rfl, reads⟩
          have shorter : more.length < size := by
            rw [← same, List.length_cons, List.length_append]
            omega
          have next := ih more.length shorter (before ++ (first :: tail)) more rfl
          rw [← List.cons_append, reads.pieces_eq, reads.streamFrom_eq]
          cases content with
          | gap => exact .gap reads next
          | token kind => exact .token reads next
          | error cause => exact .error reads next

theorem stream_ofBytes (bytes : List UInt8) : (Scan.ofBytes bytes).stream = streamFrom [] bytes :=
  rfl

-----------------------------------------------------------------------------------------
-- Covering the source
-----------------------------------------------------------------------------------------

section Covering

variable {ahead : List UInt8} {cut : List Piece} {stream : List Item}

theorem Tokenizes.flatMap_bytes (h : Tokenizes before ahead cut stream)
    : cut.flatMap Piece.bytes = ahead := by
  induction h with
  | stop => rfl
  | gap _ _ ih | token _ _ ih | error _ _ ih => rw [List.flatMap_cons, ih]

theorem Tokenizes.bytes_ne_nil (h : Tokenizes before ahead cut stream)
    : ∀ piece ∈ cut, piece.bytes ≠ [] := by
  induction h with
  | stop => simp
  | gap reads _ ih | token reads _ ih | error reads _ ih =>
      exact List.forall_mem_cons.mpr ⟨reads.ne_nil, ih⟩

theorem Lexeme.ne_endOfInput {bytes : List UInt8} {kind : TokenKind} (h : Lexeme bytes kind)
    : kind ≠ .endOfInput := by
  cases h <;> simp

/-- The end of the input is yielded once and last, by induction over the parts of the source. -/
theorem Tokenizes.exists_stop (h : Tokenizes before ahead cut stream)
    : ∃ found line,
        stream = found ++ [.token (.endOfInput line)]
        ∧ ∀ token, .token token ∈ found → token.kind ≠ .endOfInput := by
  induction h with
  | stop => exact ⟨[], _, rfl, by simp⟩
  | gap _ _ ih => exact ih
  | token reads _ ih =>
      rcases ih with ⟨found, line, rfl, others⟩
      refine ⟨_ :: found, line, rfl, ?_⟩
      intro token member
      rcases List.mem_cons.mp member with same | inside
      · cases same
        cases reads with
        | lexeme lexeme => exact lexeme.ne_endOfInput
      · exact others token inside
  | error _ _ ih =>
      rcases ih with ⟨found, line, rfl, others⟩
      refine ⟨_ :: found, line, rfl, ?_⟩
      intro token member
      rcases List.mem_cons.mp member with same | inside
      · cases same
      · exact others token inside

-----------------------------------------------------------------------------------------
-- Cutting between characters
-----------------------------------------------------------------------------------------

theorem plain_of_separates : isBlank first = true ∨ first = ascii '\n' → Text.IsPlain first := by
  decide +revert +kernel

/-- No character goes over the end of a part, by cases of what is read. -/
theorem Reads.parted (h : Reads span rest content) : Text.Parted span rest := by
  cases h with
  | blank separates => exact .inl ⟨_, rfl, plain_of_separates separates⟩
  | lineComment line ends =>
      apply Or.inr
      intro byte head
      rw [ends byte head]
      decide
  | blockComment comment =>
      rcases comment.exists_closes with ⟨part, rfl, closes⟩
      have last := closes.getLast?
      exact .inl ⟨ascii '/', by simp [List.getLast?_append, last], by decide⟩
  | openComment | openString => exact .inr (by simp)
  | lexeme lexeme => exact .inl lexeme.ends_plain
  | byte strange plain => exact .inl ⟨_, rfl, plain⟩
  | character strange other continues ends => exact .inr (by simpa [continuesCharacter] using ends)

/-- No character goes over the end of some pieces, by induction over the parts of the source. -/
theorem Tokenizes.parted {front back : List Piece} (h : Tokenizes before ahead cut stream)
    (split : cut = front ++ back) (some : front ≠ [])
    : Text.Parted (front.flatMap Piece.bytes) (back.flatMap Piece.bytes) := by
  induction h generalizing front with
  | stop => exact absurd (List.append_eq_nil_iff.mp split.symm).1 some
  | gap reads more ih | token reads more ih | error reads more ih =>
      cases front with
      | nil => exact absurd rfl some
      | cons piece front =>
          rw [List.cons_append, List.cons.injEq] at split
          rcases split with ⟨rfl, split⟩
          cases front with
          | nil =>
              have behind := more.flatMap_bytes
              rw [split, List.nil_append] at behind
              simpa [behind] using reads.parted
          | cons next front =>
              apply (ih split (List.cons_ne_nil _ _)).imp_left
              rintro ⟨byte, last, plain⟩
              refine ⟨byte, ?_, plain⟩
              rw [List.flatMap_cons, List.getLast?_append, Option.mem_def.mp last]
              rfl

end Covering

/-- The scanner is the tokenizer that takes the longest lexeme. What it yields for a source, and the
pieces that it cuts the source into, are what the reference has and nothing else. The pieces cover
the source without a gap, none is empty, and the end of the input is yielded once and last. Where
the source is a text, no piece begins or ends inside a character.
-/
theorem maximal_munch (bytes : List UInt8)
    : (∀ cut stream,
        Tokenizes [] bytes cut stream ↔ cut = pieces bytes ∧ stream = (Scan.ofBytes bytes).stream)
      ∧ (pieces bytes).flatMap Piece.bytes = bytes
      ∧ (∀ piece ∈ pieces bytes, piece.bytes ≠ [])
      ∧ (∃ found line,
          (Scan.ofBytes bytes).stream = found ++ [.token (.endOfInput line)]
          ∧ ∀ token, .token token ∈ found → token.kind ≠ .endOfInput)
      ∧ ∀ text,
          bytes = Text.encode text
          → ∀ front back,
              pieces bytes = front ++ back
              → String.Pos.Raw.IsValid text ⟨(front.flatMap Piece.bytes).length⟩ := by
  have reads := tokenizes [] bytes
  rw [stream_ofBytes]
  refine ⟨?_, reads.flatMap_bytes, reads.bytes_ne_nil, reads.exists_stop, ?_⟩
  · intro cut stream
    constructor
    · exact Tokenizes.eq
    · rintro ⟨rfl, rfl⟩
      exact reads
  · rintro text rfl front back split
    cases front with
    | nil => exact String.Pos.Raw.isValid_zero
    | cons piece front =>
        apply Text.isValid_of_parted
        · rw [← reads.flatMap_bytes, split, List.flatMap_append]
        · exact reads.parted split (List.cons_ne_nil _ _)

/-- A character of two bytes and a semicolon are two pieces, and what divides them is a position in
the text.
-/
theorem maximal_munch_two_bytes
    : (pieces (Text.encode "é;")).length = 2 ∧ String.Pos.Raw.IsValid "é;" ⟨2⟩ := by
  have cut
      : pieces (Text.encode "é;")
        = [⟨[0xC3, 0xA9], .error (.unexpectedCharacter "é")⟩]
          ++ [⟨[0x3B], .token (.mark .semicolon)⟩] := by
    rw [Text.encode_eq, pieces_eq_piecesWithin (Nat.le_refl _)]
    rfl
  refine ⟨by rw [cut]; rfl, ?_⟩
  exact (maximal_munch (Text.encode "é;")).2.2.2.2 "é;" rfl _ _ cut

end Lox.Lexer
