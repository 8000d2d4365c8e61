import Lox.Token.Lexer

/-! A reference for scanning, which says what the pieces of a source are and not how they are found:
at each place there is a gap, the longest lexeme that the source goes on with, or an error.
-/

namespace Lox

/-- How a mark is written. -/
def Mark.text : Mark → String
  | .leftParen => "("
  | .rightParen => ")"
  | .leftBrace => "\x7b"
  | .rightBrace => "\x7d"
  | .comma => ","
  | .dot => "."
  | .minus => "-"
  | .plus => "+"
  | .semicolon => ";"
  | .slash => "/"
  | .star => "*"
  | .question => "?"
  | .colon => ":"
  | .bang => "!"
  | .bangEqual => "!="
  | .equal => "="
  | .equalEqual => "=="
  | .greater => ">"
  | .greaterEqual => ">="
  | .less => "<"
  | .lessEqual => "<="

namespace Lexer

-----------------------------------------------------------------------------------------
-- Lexemes
-----------------------------------------------------------------------------------------

/-- A letter or an underscore, then any number of letters, underscores and digits. -/
def IsWord : List UInt8 → Prop
  | [] => False
  | first :: rest => startsWord first ∧ ∀ byte ∈ rest, continuesWord byte

/-- At least one digit and nothing else. -/
structure IsDigits (bytes : List UInt8) : Prop where
  some : bytes ≠ []
  digits : ∀ byte ∈ bytes, isDigit byte

/-- The texts of tokens and what they are tokens of. -/
inductive Lexeme : List UInt8 → TokenKind → Prop
  | mark (sign : Mark) : Lexeme (Text.encode sign.text) (.mark sign)
  | keyword (word : Keyword) : Lexeme (Text.encode word.text) (.keyword word)
  | identifier {bytes} (word : IsWord bytes)
    (free : ∀ keyword : Keyword, bytes ≠ Text.encode keyword.text)
    : Lexeme bytes .identifier
  | whole {digits} (h : IsDigits digits)
    : Lexeme digits (.number (.ofScientific (digitsValue digits) true 0))
  | decimal {whole part} (whole_digits : IsDigits whole) (part_digits : IsDigits part)
    : Lexeme (whole ++ ascii '.' :: part)
        (.number (.ofScientific (digitsValue (whole ++ part)) true part.length))
  | string {content} (closed : ascii '"' ∉ content)
    : Lexeme (ascii '"' :: (content ++ [ascii '"'])) (.string (Text.decodeLossy content))

/-- The source does not go on with a longer lexeme than this part of it. -/
def Longest (span rest : List UInt8) : Prop :=
  ∀ longer kind, longer <+: span ++ rest → Lexeme longer kind → longer.length ≤ span.length

-----------------------------------------------------------------------------------------
-- Comments
-----------------------------------------------------------------------------------------

/-- What a comment in a line starts with. -/
def lineOpening : List UInt8 := [ascii '/', ascii '/']

/-- What a comment that can go over lines starts with, also inside another. -/
def blockOpening : List UInt8 := [ascii '/', ascii '*']

/-- What such a comment ends with. -/
def blockClosing : List UInt8 := [ascii '*', ascii '/']

/-- A delimiter of comments. -/
inductive Delimiter where
  | opening
  | closing
  deriving DecidableEq

/-- The delimiters in a text, matched from left to right, so that no two share a byte. -/
def delimiters : List UInt8 → List Delimiter
  | first :: second :: rest =>
    if [first, second] = blockOpening then .opening :: delimiters rest
    else if [first, second] = blockClosing then .closing :: delimiters rest
    else delimiters (second :: rest)
  | _ => []

/-- As many delimiters of one kind as of the other have been read. -/
def Balanced (bytes : List UInt8) : Prop :=
  (delimiters bytes).count .closing = (delimiters bytes).count .opening

/-- A comment that is closed at its end and not before. -/
structure BlockComment (span : List UInt8) : Prop where
  opens : blockOpening <+: span
  balanced : Balanced span
  first : ∀ part, blockOpening <+: part → part <+: span → Balanced part → part = span

-----------------------------------------------------------------------------------------
-- The pieces of a source
-----------------------------------------------------------------------------------------

/-- What no gap, lexeme, string or comment starts with. -/
structure Strange (bytes : List UInt8) : Prop where
  blank : ∀ byte ∈ bytes.head?, isBlank byte = false ∧ byte ≠ ascii '\n' ∧ byte ≠ ascii '"'
  lexeme : ∀ span kind, span <+: bytes → ¬ Lexeme span kind

/-- The first part of a source, what follows it and what the part is. -/
inductive Reads : (span rest : List UInt8) → Content → Prop
  | blank {byte rest} (separates : isBlank byte ∨ byte = ascii '\n') : Reads [byte] rest .gap
  | lineComment {text rest} (line : ascii '\n' ∉ text)
    (ends : ∀ byte ∈ rest.head?, byte = ascii '\n')
    : Reads (lineOpening ++ text) rest .gap
  | blockComment {span rest} (comment : BlockComment span) : Reads span rest .gap
  | openComment {span} (opens : blockOpening <+: span)
    (unclosed : ∀ part, part <+: span → ¬ BlockComment part)
    : Reads span [] (.error .unterminatedComment)
  | lexeme {span rest kind} (lexeme : Lexeme span kind) (longest : Longest span rest)
    (noLine : ¬ lineOpening <+: span ++ rest) (noBlock : ¬ blockOpening <+: span ++ rest)
    : Reads span rest (.token kind)
  | openString {text} (unclosed : ascii '"' ∉ text)
    : Reads (ascii '"' :: text) [] (.error .unterminatedString)
  | byte {byte rest} (strange : Strange (byte :: rest)) (plain : byte < 0x80)
    : Reads [byte] rest (.error (.unexpectedCharacter (Text.decodeLossy [byte])))
  | character {byte more rest} (strange : Strange (byte :: (more ++ rest))) (other : ¬ byte < 0x80)
    (continues : ∀ next ∈ more, continuesCharacter next)
    (ends : ∀ next ∈ rest.head?, ¬ continuesCharacter next)
    : Reads (byte :: more) rest (.error (.unexpectedCharacter (Text.decodeLossy (byte :: more))))

/-- What a source is cut into and what scanning yields for it, from a place on that some text stands
before. The line of an item counts the newlines up to the end of its piece; a last token ends the
source.
-/
inductive Tokenizes : (before ahead : List UInt8) → List Piece → List Item → Prop
  | stop {before} : Tokenizes before [] [] [.token (.endOfInput (1 + newlines before))]
  | gap {before span rest cut items} (reads : Reads span rest .gap)
    (more : Tokenizes (before ++ span) rest cut items)
    : Tokenizes before (span ++ rest) (⟨span, .gap⟩ :: cut) items
  | token {before span rest kind cut items} (reads : Reads span rest (.token kind))
    (more : Tokenizes (before ++ span) rest cut items)
    : Tokenizes before (span ++ rest) (⟨span, .token kind⟩ :: cut)
        (.token ⟨kind, Text.decodeLossy span, 1 + newlines (before ++ span)⟩ :: items)
  | error {before span rest cause cut items} (reads : Reads span rest (.error cause))
    (more : Tokenizes (before ++ span) rest cut items)
    : Tokenizes before (span ++ rest) (⟨span, .error cause⟩ :: cut)
        (.error ⟨1 + newlines (before ++ span), cause⟩ :: items)

end Lexer
end Lox
