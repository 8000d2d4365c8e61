import Lox.Diagnostic

/-!
Scanning: source bytes are cut into pieces, each a token, an error or a gap (a blank, a newline
or a comment). The pieces tile the source, every piece is as long as its class allows, and a
line is counted for each newline byte, whatever piece it stands in.
-/

namespace Lox

/-- What the scanner cannot make a token of. -/
inductive LexicalCause where
  | unexpectedCharacter (text : String)
  | unterminatedString
  | unterminatedComment
  deriving DecidableEq, Repr

/-- The wording of the cause. -/
def LexicalCause.message : LexicalCause → String
  | .unexpectedCharacter text => s!"Unexpected character: {text}"
  | .unterminatedString => "Unterminated string."
  | .unterminatedComment => "Unterminated block comment."

/-- A scanning error and the line its piece ends on. -/
structure LexicalError where
  line : Nat
  cause : LexicalCause
  deriving DecidableEq, Repr

/-- The error as a diagnostic. -/
def LexicalError.diagnostic (error : LexicalError) : Diagnostic :=
  .atLine error.line error.cause.message

namespace Lexer

/-- The byte of an ASCII character. -/
def ascii (c : Char) : UInt8 := c.toNat.toUInt8

/-- A decimal digit. -/
def isDigit (byte : UInt8) : Bool := ascii '0' ≤ byte && byte ≤ ascii '9'

/-- A byte that may start a word. -/
def startsWord (byte : UInt8) : Bool :=
  (ascii 'a' ≤ byte && byte ≤ ascii 'z') || (ascii 'A' ≤ byte && byte ≤ ascii 'Z') ||
    byte = ascii '_'

/-- A byte that may stand inside a word. -/
def continuesWord (byte : UInt8) : Bool := startsWord byte || isDigit byte

/-- A byte that separates tokens and counts no line. -/
def isBlank (byte : UInt8) : Bool :=
  byte = ascii ' ' || byte = ascii '\r' || byte = ascii '\t'

/-- A byte that is no newline. -/
def staysOnLine (byte : UInt8) : Bool := byte != ascii '\n'

/-- A byte that leaves a string open. -/
def staysInString (byte : UInt8) : Bool := byte != ascii '"'

/-- A byte that continues a character of several bytes. -/
def continuesCharacter (byte : UInt8) : Bool := Text.continuation.has byte

/-- The mark that one byte is by itself. -/
def mark? (byte : UInt8) : Option Mark :=
  match Char.ofUInt8 byte with
  | '(' => some .leftParen
  | ')' => some .rightParen
  | '\x7b' => some .leftBrace
  | '\x7d' => some .rightBrace
  | ',' => some .comma
  | '.' => some .dot
  | '-' => some .minus
  | '+' => some .plus
  | ';' => some .semicolon
  | '/' => some .slash
  | '*' => some .star
  | '?' => some .question
  | ':' => some .colon
  | '!' => some .bang
  | '=' => some .equal
  | '>' => some .greater
  | '<' => some .less
  | _ => none

/-- The mark that one mark and an equals sign form together. -/
def withEqual? : Mark → Option Mark
  | .bang => some .bangEqual
  | .equal => some .equalEqual
  | .greater => some .greaterEqual
  | .less => some .lessEqual
  | _ => none

/-- Measures a comment up to the delimiter that closes the outermost level, with `size` bytes
read so far and `depth` levels open. Delimiters are matched from left to right. -/
def commentSize? : (depth : Nat) → (size : Nat) → List UInt8 → Option Nat
  | 0, size, _ => some size
  | _ + 1, _, [] => none
  | _ + 1, _, [_] => none
  | depth + 1, size, first :: second :: rest =>
    if first = ascii '/' && second = ascii '*' then commentSize? (depth + 2) (size + 2) rest
    else if first = ascii '*' && second = ascii '/' then commentSize? depth (size + 2) rest
    else commentSize? (depth + 1) (size + 1) (second :: rest)

/-- The number of further bytes in a number: its digits, and a fraction only where a digit
follows the point. -/
def numberSize (rest : List UInt8) : Nat :=
  let whole := (rest.takeWhile isDigit).length
  match rest.drop whole with
  | point :: digit :: more =>
    if point = ascii '.' && isDigit digit then
      whole + 1 + ((digit :: more).takeWhile isDigit).length
    else whole
  | _ => whole

/-- The value of decimal digits. -/
def digitsValue (digits : List UInt8) : Nat :=
  digits.foldl (fun value digit => value * 10 + (digit.toNat - (ascii '0').toNat)) 0

/-- The double nearest to a written number. -/
def numberValue (written : List UInt8) : Float :=
  let digits := written.filter isDigit
  let fraction := written.length - (written.takeWhile isDigit).length - 1
  Float.ofScientific (digitsValue digits) true fraction

/-- What a piece of the source is. -/
inductive Content where
  | gap
  | token (kind : TokenKind)
  | error (cause : LexicalCause)

/-- Consecutive bytes of the source and what they are. -/
structure Piece where
  bytes : List UInt8
  content : Content

/-- A word is a keyword only as a whole. -/
def wordKind (bytes : List UInt8) : TokenKind :=
  match Keyword.ofText? (Text.decodeLossy bytes) with
  | some keyword => .keyword keyword
  | none => .identifier

/-- Tells what the piece is that starts with `first`, and how many bytes of `rest` it takes. -/
def recognize (first : UInt8) (rest : List UInt8) : Content × Nat :=
  if isBlank first || first = ascii '\n' then (.gap, 0)
  else if startsWord first then
    let size := (rest.takeWhile continuesWord).length
    (.token (wordKind (first :: rest.take size)), size)
  else if isDigit first then
    let size := numberSize rest
    (.token (.number (numberValue (first :: rest.take size))), size)
  else if first = ascii '"' then
    let content := rest.takeWhile staysInString
    if content.length < rest.length then
      (.token (.string (Text.decodeLossy content)), content.length + 1)
    else (.error .unterminatedString, rest.length)
  else if first = ascii '/' && rest.head? = some (ascii '/') then
    (.gap, (rest.takeWhile staysOnLine).length)
  else if first = ascii '/' && rest.head? = some (ascii '*') then
    match commentSize? 1 1 rest.tail with
    | some size => (.gap, size)
    | none => (.error .unterminatedComment, rest.length)
  else
    match mark? first with
    | some mark =>
      match if rest.head? = some (ascii '=') then withEqual? mark else none with
      | some longer => (.token (.mark longer), 1)
      | none => (.token (.mark mark), 0)
    | none =>
      let size := if first < 0x80 then 0 else (rest.takeWhile continuesCharacter).length
      (.error (.unexpectedCharacter (Text.decodeLossy (first :: rest.take size))), size)

/-- Cuts the source into its pieces. -/
def pieces : List UInt8 → List Piece
  | [] => []
  | first :: rest =>
    let (content, size) := recognize first rest
    ⟨first :: rest.take size, content⟩ :: pieces (rest.drop size)
termination_by bytes => bytes.length
decreasing_by simp only [List.length_drop, List.length_cons]; omega

/-- The number of newline bytes. -/
def newlines (bytes : List UInt8) : Nat := bytes.count (ascii '\n')

/-- What scanning yields for a piece. -/
inductive Item where
  | token (found : Token)
  | error (found : LexicalError)

/-- The item of a piece that ends on `line`; gaps have none. -/
def Piece.item? (piece : Piece) (line : Nat) : Option Item :=
  match piece.content with
  | .gap => none
  | .token kind => some (.token ⟨kind, Text.decodeLossy piece.bytes, line⟩)
  | .error cause => some (.error ⟨line, cause⟩)

/-- The items of consecutive pieces, the first of which starts on `line`. -/
def items (line : Nat) : List Piece → List Item
  | [] => []
  | piece :: rest =>
    let after := line + newlines piece.bytes
    (piece.item? after).toList ++ items after rest

/-- The token of an item. -/
def Item.token? : Item → Option Token
  | .token found => some found
  | .error _ => none

/-- The error of an item. -/
def Item.error? : Item → Option LexicalError
  | .token _ => none
  | .error found => some found

end Lexer

/-- A scanned source: its tokens and errors in order, and the token that ends it. -/
structure Scan where
  items : List Lexer.Item
  stop : Token

namespace Scan

/-- Scans source bytes. -/
def ofBytes (bytes : List UInt8) : Scan :=
  ⟨Lexer.items 1 (Lexer.pieces bytes), Token.endOfInput (1 + Lexer.newlines bytes)⟩

/-- Scans a source text. -/
def ofText (source : String) : Scan := ofBytes (Text.encode source)

/-- Everything that scanning yields, the end of the input last. -/
def stream (scan : Scan) : List Lexer.Item := scan.items ++ [.token scan.stop]

/-- The tokens before the end of the input. -/
def tokens (scan : Scan) : List Token := scan.items.filterMap Lexer.Item.token?

/-- The errors in order. -/
def errors (scan : Scan) : List LexicalError := scan.items.filterMap Lexer.Item.error?

/-- The token that the source starts with, the end of the input if it has no other. -/
def first (scan : Scan) : Token := scan.tokens.headD scan.stop

end Scan

end Lox
