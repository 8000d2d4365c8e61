import Lox.Proofs.Scanning.Tokenizing

/-! Scanning line by line. No lexeme goes over the end of a line unless it is a string, so what
follows a newline has no part in what is read before it, and the other way round.
-/

namespace Lox

/-- Neither a string nor a comment is left open. -/
structure LexicalCause.Closed (cause : LexicalCause) : Prop where
  string : cause ≠ .unterminatedString
  comment : cause ≠ .unterminatedComment

namespace Lexer

variable {first : UInt8} {rest tail span before : List UInt8} {content : Content}

-----------------------------------------------------------------------------------------
-- What a newline leaves as it is
-----------------------------------------------------------------------------------------

/-- A newline and what follows it. -/
def nextLine (bytes : List UInt8) : List UInt8 := ascii '\n' :: bytes

theorem head?_nextLine {byte : UInt8} {bytes : List UInt8}
    (h : byte ∈ (rest ++ nextLine bytes).head?)
    : byte ∈ rest.head? ∨ byte = ascii '\n' := by
  cases rest with
  | nil => exact .inr (Option.some.inj h).symm
  | cons next rest => exact .inl h

theorem Ends.nextLine {test : UInt8 → Bool} (h : Ends test rest) (other : test (ascii '\n') = false)
    (bytes : List UInt8)
    : Ends test (rest ++ nextLine bytes) := by
  intro byte head
  rcases head?_nextLine head with inside | rfl
  · exact h byte inside
  · simp [other]

theorem NoComment.nextLine (h : NoComment first rest) (bytes : List UInt8)
    : NoComment first (rest ++ nextLine bytes) := by
  constructor
  · intro start
    rcases prefix_pair_iff.mp start with ⟨slash, second⟩
    rcases head?_nextLine second with inside | newline
    · exact h.line (prefix_pair_iff.mpr ⟨slash, inside⟩)
    · cases newline
  · intro start
    rcases prefix_pair_iff.mp start with ⟨slash, second⟩
    rcases head?_nextLine second with inside | newline
    · exact h.block (prefix_pair_iff.mpr ⟨slash, inside⟩)
    · cases newline

/-- A lexeme is munched as before, by cases of its class. -/
theorem Munched.nextLine {kind : TokenKind} (h : Munched first tail rest kind) (bytes : List UInt8)
    : Munched first tail (rest ++ nextLine bytes) kind := by
  cases h with
  | word starts all ends => exact .word starts all (ends.nextLine (by decide) bytes)
  | whole starts all ends noPart =>
      refine .whole starts all (ends.nextLine (by decide) bytes) ?_
      rintro digit after written
      -- A point at the end of the line is followed by the newline, which is no digit.
      rcases rest with _ | ⟨point, _ | ⟨next, rest⟩⟩
      · cases written
      · cases written
        decide
      · cases written
        exact noPart digit _ rfl
  | decimal starts written all digits ends =>
      exact .decimal starts written all digits (ends.nextLine (by decide) bytes)
  | string starts written closed => exact .string starts written closed
  | mark written found noComment short =>
      refine .mark written found (noComment.nextLine bytes) ?_
      intro equal
      rcases head?_nextLine equal with inside | newline
      · exact short inside
      · cases newline
  | longMark written found => exact .longMark written found

-----------------------------------------------------------------------------------------
-- Parts before a newline
-----------------------------------------------------------------------------------------

/-- What is read before a newline is read whatever follows it, by cases of what is read. -/
theorem Reads.nextLine (h : Reads span rest content)
    (closed : ∀ cause, content = .error cause → cause.Closed) (bytes : List UInt8)
    : Reads span (rest ++ nextLine bytes) content := by
  cases h with
  | blank separates => exact .blank separates
  | lineComment line ends =>
      refine .lineComment line ?_
      intro byte head
      rcases head?_nextLine head with inside | newline
      · exact ends byte inside
      · exact newline
  | blockComment comment => exact .blockComment comment
  | openComment => exact absurd rfl (closed _ rfl).comment
  | lexeme lexeme longest noLine noBlock =>
      cases span with
      | nil => exact absurd rfl lexeme.ne_nil
      | cons first tail =>
          have munched := munched_of_longest lexeme longest ⟨noLine, noBlock⟩
          exact (munched.nextLine bytes).reads
  | openString => exact absurd rfl (closed _ rfl).string
  | byte strange plain => exact .byte (strange.startsNothing.strange _) plain
  | character strange other continues ends =>
      refine .character (strange.startsNothing.strange _) other continues ?_
      have run : Ends continuesCharacter rest := ends
      exact run.nextLine (by decide) bytes

/-- Scanning yields the items of a line before it goes on behind the newline, by induction over the
parts of the line.
-/
theorem Tokenizes.streamFrom_nextLine {ahead : List UInt8} {cut : List Piece} {stream : List Item}
    (h : Tokenizes before ahead cut stream)
    (closed : ∀ piece ∈ cut, ∀ cause, piece.content = .error cause → cause.Closed)
    (bytes : List UInt8)
    : streamFrom before (ahead ++ nextLine bytes)
      = items (1 + newlines before) cut ++ streamFrom (before ++ ahead ++ [ascii '\n']) bytes := by
  induction h with
  | @stop before =>
      have newline : Reads [ascii '\n'] bytes .gap := .blank (.inr rfl)
      simpa [items, nextLine, Piece.item?] using newline.streamFrom_eq before
  | @gap before _ _ _ _ reads _ ih
  | @token before _ _ _ _ _ reads _ ih
  | @error before _ _ _ _ _ reads _ ih =>
      rw [List.forall_mem_cons] at closed
      have first := (reads.nextLine closed.1 bytes).streamFrom_eq before
      rw [ih closed.2, ← List.append_assoc, ← List.append_assoc] at first
      rw [first, items, newlines_append, Nat.add_assoc, List.append_assoc before]

-----------------------------------------------------------------------------------------
-- Lines further down
-----------------------------------------------------------------------------------------

/-- The item as it is so many lines further down. -/
def Item.below (count : Nat) : Item → Item
  | .token found => .token { found with line := found.line + count }
  | .error found => .error { found with line := found.line + count }

theorem item?_below (piece : Piece) (line count : Nat)
    : piece.item? (line + count) = (piece.item? line).map (Item.below count) := by
  rcases piece with ⟨bytes, _ | kind | cause⟩ <;> rfl

/-- Where the pieces start further down, so do their items, by induction over the pieces. -/
theorem items_below (cut : List Piece) (line count : Nat)
    : items (line + count) cut = (items line cut).map (Item.below count) := by
  induction cut generalizing line with
  | nil => rfl
  | cons piece cut ih =>
      rw [items, items, Nat.add_right_comm, ih, item?_below]
      cases piece.item? (line + newlines piece.bytes) <;> simp

/-- What is scanned further down is what is scanned at the start, with other lines. -/
theorem streamFrom_below (before bytes : List UInt8)
    : streamFrom before bytes = (streamFrom [] bytes).map (Item.below (newlines before)) := by
  rw [streamFrom, streamFrom, List.map_append, ← items_below, newlines_append]
  simp [newlines, Item.below, Token.endOfInput, Nat.add_comm, Nat.add_left_comm]

/-- The cause of an error among the pieces is among the errors, by induction over the pieces. -/
theorem exists_error {piece : Piece} {cut : List Piece} {cause : LexicalCause}
    (member : piece ∈ cut) (isError : piece.content = .error cause) (line : Nat)
    : ∃ error ∈ (items line cut).filterMap Item.error?, error.cause = cause := by
  induction cut generalizing line with
  | nil => cases member
  | cons next cut ih =>
      rw [items, List.filterMap_append]
      rcases List.mem_cons.mp member with rfl | inside
      · refine ⟨⟨line + newlines piece.bytes, cause⟩, List.mem_append_left _ ?_, rfl⟩
        simp [Piece.item?, isError, Item.error?]
      · rcases ih inside (line + newlines next.bytes) with ⟨error, found, same⟩
        exact ⟨error, List.mem_append_right _ found, same⟩

/-- A source can be scanned line by line. If no string and no comment is left open in its first
lines, it yields what these lines yield before their end, and then what the other lines yield, with
lines that are counted on.
-/
theorem stream_append_newline (front back : List UInt8)
    (closed : ∀ error ∈ (Scan.ofBytes front).errors, error.cause.Closed)
    : (Scan.ofBytes (front ++ ascii '\n' :: back)).stream
      = (Scan.ofBytes front).items
        ++ (Scan.ofBytes back).stream.map (Item.below (newlines front + 1)) := by
  have closedPieces
      : ∀ piece ∈ pieces front, ∀ cause, piece.content = .error cause → cause.Closed := by
    intro piece member cause isError
    rcases exists_error member isError 1 with ⟨error, found, rfl⟩
    exact closed error found
  have line := (tokenizes [] front).streamFrom_nextLine closedPieces back
  have below := streamFrom_below (front ++ [ascii '\n']) back
  have count : newlines (front ++ [ascii '\n']) = newlines front + 1 := newlines_append ..
  rw [count] at below
  rw [stream_ofBytes, stream_ofBytes, ← below]
  exact line

/-- Slashes on two lines are two marks and no comment, also where an error stands before them. -/
theorem stream_append_newline_slashes
    : (Scan.ofText "#\n/\n/").stream
        = (Scan.ofText "#\n/").items ++ (Scan.ofText "/").stream.map (Item.below 2)
      ∧ (Scan.ofText "#\n/\n/").stream.length = 4 := by
  have errors : (Scan.ofText "#\n/").errors = [⟨1, .unexpectedCharacter "#"⟩] := by
    rw [Scan.ofText_eq]
    rfl
  have closed : ∀ error ∈ (Scan.ofText "#\n/").errors, error.cause.Closed := by
    rw [errors, List.forall_mem_singleton]
    constructor <;> simp
  have lines : newlines (Text.encode "#\n/") + 1 = 2 := by
    rw [Text.encode_eq]
    rfl
  have source : Text.encode "#\n/\n/" = Text.encode "#\n/" ++ ascii '\n' :: Text.encode "/" := by
    rw [Text.encode_eq, Text.encode_eq, Text.encode_eq]
    rfl
  have split := stream_append_newline (Text.encode "#\n/") (Text.encode "/") closed
  rw [lines, ← source] at split
  refine ⟨split, ?_⟩
  rw [Scan.ofText_eq]
  rfl

end Lexer
end Lox
