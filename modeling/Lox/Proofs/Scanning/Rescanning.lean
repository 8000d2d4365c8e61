import Lox.Proofs.Scanning.Tokenizing
import Lox.Proofs.Text.Decoding

/-! Scanning what was scanned. The text of a token is a lexeme of its kind by itself, also where
ill-formed bytes of a string were replaced in it, and a lexeme before a blank is read as a whole. So
the texts of tokens, with blanks between them, are scanned to the same tokens.
-/

namespace Lox

/-- What a token is and the text it was written as. -/
def Token.spelling (token : Token) : TokenKind × String := (token.kind, token.lexeme)

/-- The texts of tokens with a blank between any two. -/
def Token.joined (tokens : List Token) : String := " ".intercalate (tokens.map Token.lexeme)

namespace Lexer

variable {bytes rest : List UInt8} {kind : TokenKind}

-----------------------------------------------------------------------------------------
-- Lexemes before a blank
-----------------------------------------------------------------------------------------

/-- A blank follows, or nothing. -/
def BlankAhead (rest : List UInt8) : Prop := ∀ byte ∈ rest.head?, byte = ascii ' '

theorem blankAhead_nil : BlankAhead [] := by simp [BlankAhead]

theorem BlankAhead.ends {test : UInt8 → Bool} (h : BlankAhead rest)
    (other : test (ascii ' ') = false)
    : Ends test rest := by
  intro byte head
  rw [h byte head, other]
  exact Bool.false_ne_true

theorem BlankAhead.noComment (h : BlankAhead rest) (first : UInt8) : NoComment first rest := by
  constructor
  · intro start
    cases h _ (prefix_pair_iff.mp start).2
  · intro start
    cases h _ (prefix_pair_iff.mp start).2

/-- A lexeme before a blank is munched as a whole, by cases of its class. -/
theorem Lexeme.munched {first : UInt8} {tail : List UInt8} (h : Lexeme (first :: tail) kind)
    (blank : BlankAhead rest)
    : Munched first tail rest kind := by
  cases h.classified with
  | word starts isWord => exact .word starts isWord.2 (blank.ends (by decide))
  | whole starts digits =>
      refine .whole starts (List.forall_mem_cons.mp digits.digits).2 (blank.ends (by decide)) ?_
      intro digit after written
      rw [written] at blank
      cases blank (ascii '.') rfl
  | decimal starts written whole part =>
      exact .decimal starts written whole part (blank.ends (by decide))
  | string starts written closed => exact .string starts written closed
  | mark starts written =>
      rcases of_encode_mark written with ⟨rfl, found⟩ | ⟨rfl, found⟩
      · refine .mark rfl found (blank.noComment first) ?_
        intro equal
        cases blank _ equal
      · exact .longMark rfl found

theorem Lexeme.reads (h : Lexeme bytes kind) (blank : BlankAhead rest)
    : Reads bytes rest (.token kind) := by
  cases bytes with
  | nil => exact absurd rfl h.ne_nil
  | cons first tail => exact (h.munched blank).reads

-----------------------------------------------------------------------------------------
-- Lexemes written again
-----------------------------------------------------------------------------------------

theorem plain_quote : Text.IsPlain (ascii '"') := by decide

/-- The text of a string is the text of its content between quotes. -/
theorem decodeLossy_quoted (content : List UInt8)
    : Text.decodeLossy (ascii '"' :: (content ++ [ascii '"']))
      = "\"" ++ Text.decodeLossy content ++ "\"" := by
  rw [Text.decodeLossy_cons plain_quote, Text.decodeLossy_concat _ plain_quote,
    ← String.append_assoc]
  rfl

theorem plain_mark (sign : Mark) : ∀ byte ∈ Text.encode sign.text, Text.IsPlain byte := by
  cases sign <;> decide +kernel

/-- The text of a lexeme is a lexeme of the same kind, by cases of what it is a lexeme of. -/
theorem Lexeme.rewritten (h : Lexeme bytes kind)
    : Lexeme (Text.encode (Text.decodeLossy bytes)) kind := by
  have same (plain : ∀ byte ∈ bytes, Text.IsPlain byte)
      : Lexeme (Text.encode (Text.decodeLossy bytes)) kind := by
    rw [Text.encode_decodeLossy plain]
    exact h
  cases h with
  | mark sign => exact same (plain_mark sign)
  | keyword word => exact same (isWord_keyword word).plain
  | identifier word free => exact same word.plain
  | whole digits => exact same digits.plain
  | decimal whole part =>
      have point : Text.IsPlain (ascii '.') := by decide
      exact same (List.forall_mem_append.mpr
        ⟨whole.plain, List.forall_mem_cons.mpr ⟨point, part.plain⟩⟩)
  | @string content closed =>
      -- Ill-formed bytes are replaced, so the bytes are others; but none of them is a quote.
      have still : ascii '"' ∉ Text.encode (Text.decodeLossy content) := fun member =>
        closed (Text.mem_of_mem_encode_decodeLossy plain_quote member)
      have again := Lexeme.string still
      have quote : Text.encode "\"" = [ascii '"'] := Text.encode_eq _
      rw [Text.decodeLossy_encode] at again
      rw [decodeLossy_quoted, Text.encode_append, Text.encode_append, quote]
      exact again

-----------------------------------------------------------------------------------------
-- Tokens written again
-----------------------------------------------------------------------------------------

/-- The text of the token is a lexeme of its kind, and a string has its content between quotes. -/
structure Written (token : Token) : Prop where
  lexeme : Lexeme (Text.encode token.lexeme) token.kind
  quoted : ∀ content, token.kind = .string content → token.lexeme = "\"" ++ content ++ "\""

theorem Lexeme.written (h : Lexeme bytes kind) (line : Nat)
    : Written ⟨kind, Text.decodeLossy bytes, line⟩ := by
  refine ⟨h.rewritten, ?_⟩
  intro content same
  cases h with
  | string closed =>
      cases same
      exact decodeLossy_quoted _
  | mark | keyword | identifier | whole | decimal => cases same

/-- The tokens of a source are written so, by induction over its parts. -/
theorem Tokenizes.written {before ahead : List UInt8} {cut : List Piece} {stream : List Item}
    (h : Tokenizes before ahead cut stream)
    : ∀ token, .token token ∈ stream → token.kind ≠ .endOfInput → Written token := by
  induction h with
  | stop =>
      intro token member other
      cases List.mem_singleton.mp member
      exact absurd rfl other
  | gap _ _ ih => exact ih
  | token reads _ ih =>
      intro token member other
      rcases List.mem_cons.mp member with same | later
      · cases same
        cases reads with
        | lexeme lexeme => exact lexeme.written _
      · exact ih token later other
  | error _ _ ih =>
      intro token member other
      rcases List.mem_cons.mp member with same | later
      · cases same
      · exact ih token later other

/-- The piece that the text of a token is by itself. -/
def piece (token : Token) : Piece := ⟨Text.encode token.lexeme, .token token.kind⟩

/-- The piece between two such pieces. -/
def blankPiece : Piece := ⟨[ascii ' '], .gap⟩

/-- The texts of tokens are cut into these texts and the blanks. By induction over the tokens. -/
theorem pieces_joined {tokens : List Token} (written : ∀ token ∈ tokens, Written token)
    : pieces (Text.encode (Token.joined tokens)) = (tokens.map piece).intersperse blankPiece := by
  induction tokens with
  | nil =>
      rw [Text.encode_eq, pieces_eq_piecesWithin (Nat.le_refl _)]
      rfl
  | cons token rest ih =>
      rw [List.forall_mem_cons] at written
      have lexeme := written.1.lexeme
      cases rest with
      | nil =>
          have reads := lexeme.reads blankAhead_nil
          have only : Token.joined [token] = token.lexeme := String.intercalate_singleton
          have cut := reads.pieces_eq
          rw [List.append_nil] at cut
          rw [only, cut, pieces]
          rfl
      | cons next rest =>
          have blank : Reads [ascii ' '] (Text.encode (Token.joined (next :: rest))) .gap :=
            .blank (.inl (by decide))
          have text : Text.encode (Token.joined (token :: next :: rest))
              = Text.encode token.lexeme
                ++ ([ascii ' '] ++ Text.encode (Token.joined (next :: rest))) := by
            have space : Text.encode " " = [ascii ' '] := Text.encode_eq _
            have split : Token.joined (token :: next :: rest)
                = token.lexeme ++ " " ++ Token.joined (next :: rest) :=
              String.intercalate_cons_cons
            rw [split, Text.encode_append, Text.encode_append, space, List.append_assoc]
          have ahead : BlankAhead ([ascii ' '] ++ Text.encode (Token.joined (next :: rest))) := by
            intro byte head
            exact (Option.some.inj head).symm
          rw [text, (lexeme.reads ahead).pieces_eq, blank.pieces_eq, ih written.2]
          rfl

theorem items_cons_piece (token : Token) (rest : List Piece) (line : Nat)
    : ∃ after,
        items line (piece token :: rest)
        = .token { token with line := after } :: items after rest := by
  refine ⟨line + newlines (piece token).bytes, ?_⟩
  simp [items, Piece.item?, piece, Text.decodeLossy_encode]

/-- The pieces have the tokens as their items, on other lines, and no errors. By induction over the
tokens.
-/
theorem items_intersperse (tokens : List Token) (line : Nat)
    : (items line ((tokens.map piece).intersperse blankPiece)).filterMap Item.error? = []
      ∧ ((items line ((tokens.map piece).intersperse blankPiece)).filterMap Item.token?).map
          Token.spelling
        = tokens.map Token.spelling := by
  induction tokens generalizing line with
  | nil => exact ⟨rfl, rfl⟩
  | cons token rest ih =>
      cases rest with
      | nil =>
          obtain ⟨after, same⟩ := items_cons_piece token [] line
          simp only [List.map_cons, List.map_nil, List.intersperse_singleton, same]
          exact ⟨rfl, rfl⟩
      | cons next rest =>
          obtain ⟨after, same⟩ := items_cons_piece token
            (blankPiece :: ((next :: rest).map piece).intersperse blankPiece) line
          have blank (more : List Piece) : items after (blankPiece :: more) = items after more := by
            rfl
          have cut : ((token :: next :: rest).map piece).intersperse blankPiece
              = piece token :: blankPiece :: ((next :: rest).map piece).intersperse blankPiece :=
            rfl
          obtain ⟨clean, alike⟩ := ih after
          rw [cut, same, blank]
          exact ⟨clean, congrArg (token.spelling :: ·) alike⟩

/-- The tokens of a source before its end are written so. -/
theorem written_of_mem_tokens {token : Token} (member : token ∈ (Scan.ofBytes bytes).tokens)
    : Written token := by
  have reads := tokenizes [] bytes
  obtain ⟨found, line, split, others⟩ := reads.exists_stop
  obtain ⟨items, _⟩ := List.append_inj' split rfl
  obtain ⟨item, among, same⟩ := List.mem_filterMap.mp member
  cases item with
  | token scanned =>
      cases same
      have inItems : .token token ∈ found := items ▸ among
      have inStream : .token token ∈ streamFrom [] bytes := List.mem_append_left _ among
      exact reads.written token inStream (others token inItems)
  | error found => cases same

end Lexer

/-- Scanning the texts of tokens with blanks between them gives the tokens again. Whatever bytes
they were scanned from, there are no errors, and the tokens are of the same kinds, with the same
values of strings and numbers, and have the same texts. The text of a string is its content between
quotes.
-/
theorem Scan.ofText_joined (bytes : List UInt8)
    : (ofText (Token.joined (ofBytes bytes).tokens)).errors = []
      ∧ (ofText (Token.joined (ofBytes bytes).tokens)).tokens.map Token.spelling
        = (ofBytes bytes).tokens.map Token.spelling
      ∧ ∀ token ∈ (ofBytes bytes).tokens,
          ∀ content, token.kind = .string content → token.lexeme = "\"" ++ content ++ "\"" := by
  have written (token : Token) (member : token ∈ (ofBytes bytes).tokens) : Lexer.Written token :=
    Lexer.written_of_mem_tokens member
  obtain ⟨clean, alike⟩ := Lexer.items_intersperse (ofBytes bytes).tokens 1
  rw [← Lexer.pieces_joined written] at clean alike
  exact ⟨clean, alike, fun token member => (written token member).quoted⟩

end Lox
