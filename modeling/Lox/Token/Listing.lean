import Lox.Decimal.Notation
import Lox.Text.Quoted
import Lox.Token

/-!
Listings of tokens: one line a token for reading, and JSON, compact or spread over lines.
-/

namespace Lox

/-- The value of a literal on display, `null` for other tokens. -/
def TokenKind.literalText : TokenKind → String
  | .string content => content
  | .number value => Decimal.tokenLayout.write value
  | _ => "null"

/-- The line of a token: its category, its text and its value. -/
def Token.display (token : Token) : String :=
  s!"{token.kind.name} {token.lexeme} {token.kind.literalText}"

/-- JSON as far as listings need it. Members of an object keep their order. -/
inductive Listing where
  /-- A number, string or `null` in its written form. -/
  | atom (text : String)
  | object (members : List (String × Listing))
  | array (items : List Listing)

namespace Listing

/-- A JSON string. -/
def ofText (text : String) : Listing := .atom (Text.quote text)

/-- A token kind: its name, with the value under the name for a literal. -/
def ofKind (kind : TokenKind) : Listing :=
  match kind with
  | .string content => .object [(kind.name, .ofText content)]
  | .number value => .object [(kind.name, .atom (Decimal.jsonLayout.write value))]
  | _ => .ofText kind.name

/-- A token with all its fields. -/
def ofToken (token : Token) : Listing :=
  .object
    [("token_type", .ofKind token.kind), ("lexeme", .ofText token.lexeme),
      ("line", .atom (toString token.line))]

/-- Some tokens in order. -/
def ofTokens (tokens : List Token) : Listing := .array (tokens.map ofToken)

/-- The items between an opening and a closing bracket, in one line. -/
def enclose (opening closing : String) (items : List String) : String :=
  opening ++ String.intercalate "," items ++ closing

mutual

/-- The listing without blanks. -/
def compact : Listing → String
  | .atom text => text
  | .object members => enclose "\x7b" "\x7d" (compactMembers members)
  | .array items => enclose "[" "]" (compactItems items)

/-- The items of an array without blanks. -/
def compactItems : List Listing → List String
  | [] => []
  | item :: rest => item.compact :: compactItems rest

/-- The members of an object without blanks. -/
def compactMembers : List (String × Listing) → List String
  | [] => []
  | (key, item) :: rest => (Text.quote key ++ ":" ++ item.compact) :: compactMembers rest

end

/-- Blanks at the start of a line, two for a level. -/
def indent (level : Nat) : String := String.ofList (List.replicate (2 * level) ' ')

/-- The items between brackets, each in a line of its own one level deeper; nothing stands
between the brackets if there is no item. -/
def spread (level : Nat) (opening closing : String) (items : List String) : String :=
  if items.isEmpty then opening ++ closing
  else
    opening ++ "\n" ++ String.intercalate ",\n" (items.map (indent (level + 1) ++ ·)) ++ "\n" ++
      indent level ++ closing

mutual

/-- The listing spread over lines, inside `level` brackets. -/
def prettyAt (level : Nat) : Listing → String
  | .atom text => text
  | .object members => spread level "\x7b" "\x7d" (prettyMembers (level + 1) members)
  | .array items => spread level "[" "]" (prettyItems (level + 1) items)

/-- The items of an array, each spread over lines. -/
def prettyItems (level : Nat) : List Listing → List String
  | [] => []
  | item :: rest => item.prettyAt level :: prettyItems level rest

/-- The members of an object, each spread over lines. -/
def prettyMembers (level : Nat) : List (String × Listing) → List String
  | [] => []
  | (key, item) :: rest =>
    (Text.quote key ++ ": " ++ item.prettyAt level) :: prettyMembers level rest

end

/-- The listing spread over lines. -/
def pretty (listing : Listing) : String := listing.prettyAt 0

end Listing

end Lox
