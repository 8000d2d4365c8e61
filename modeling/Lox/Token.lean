/-!
Tokens of Lox: punctuation marks, keywords, names and literals, each with the text it was
written as and the line it ends on. Two tokens are alike when their categories and texts are.
-/

namespace Lox

/-- Punctuation and operators. -/
inductive Mark where
  | leftParen
  | rightParen
  | leftBrace
  | rightBrace
  | comma
  | dot
  | minus
  | plus
  | semicolon
  | slash
  | star
  | question
  | colon
  | bang
  | bangEqual
  | equal
  | equalEqual
  | greater
  | greaterEqual
  | less
  | lessEqual
  deriving DecidableEq, Repr

/-- The name of a mark in listings. -/
def Mark.name : Mark → String
  | .leftParen => "LEFT_PAREN"
  | .rightParen => "RIGHT_PAREN"
  | .leftBrace => "LEFT_BRACE"
  | .rightBrace => "RIGHT_BRACE"
  | .comma => "COMMA"
  | .dot => "DOT"
  | .minus => "MINUS"
  | .plus => "PLUS"
  | .semicolon => "SEMICOLON"
  | .slash => "SLASH"
  | .star => "STAR"
  | .question => "QUESTION"
  | .colon => "COLON"
  | .bang => "BANG"
  | .bangEqual => "BANG_EQUAL"
  | .equal => "EQUAL"
  | .equalEqual => "EQUAL_EQUAL"
  | .greater => "GREATER"
  | .greaterEqual => "GREATER_EQUAL"
  | .less => "LESS"
  | .lessEqual => "LESS_EQUAL"

/-- Words that are no names. -/
inductive Keyword where
  | and
  | break
  | «class»
  | else
  | false
  | fun
  | for
  | if
  | nil
  | or
  | print
  | return
  | static
  | super
  | this
  | true
  | var
  | while
  deriving DecidableEq, Repr

/-- The spelling of a keyword. -/
def Keyword.text : Keyword → String
  | .and => "and"
  | .break => "break"
  | .class => "class"
  | .else => "else"
  | .false => "false"
  | .fun => "fun"
  | .for => "for"
  | .if => "if"
  | .nil => "nil"
  | .or => "or"
  | .print => "print"
  | .return => "return"
  | .static => "static"
  | .super => "super"
  | .this => "this"
  | .true => "true"
  | .var => "var"
  | .while => "while"

/-- Every keyword. -/
def Keyword.all : List Keyword :=
  [.and, .break, .class, .else, .false, .fun, .for, .if, .nil, .or, .print, .return, .static,
    .super, .this, .true, .var, .while]

/-- The keyword with a given spelling. -/
def Keyword.ofText? (text : String) : Option Keyword :=
  Keyword.all.find? fun keyword => keyword.text = text

/-- The name of a keyword in listings. -/
def Keyword.name : Keyword → String
  | .and => "AND"
  | .break => "BREAK"
  | .class => "CLASS"
  | .else => "ELSE"
  | .false => "FALSE"
  | .fun => "FUN"
  | .for => "FOR"
  | .if => "IF"
  | .nil => "NIL"
  | .or => "OR"
  | .print => "PRINT"
  | .return => "RETURN"
  | .static => "STATIC"
  | .super => "SUPER"
  | .this => "THIS"
  | .true => "TRUE"
  | .var => "VAR"
  | .while => "WHILE"

/-- What a token is. A literal carries its value: a string without its quotes, a number as the
nearest double. -/
inductive TokenKind where
  | mark (sign : Mark)
  | keyword (word : Keyword)
  | identifier
  | string (content : String)
  | number (value : Float)
  | endOfInput

/-- The name of a token's category. -/
def TokenKind.name : TokenKind → String
  | .mark sign => sign.name
  | .keyword word => word.name
  | .identifier => "IDENTIFIER"
  | .string _ => "STRING"
  | .number _ => "NUMBER"
  | .endOfInput => "EOF"

/-- Two kinds are of one category; the values of literals do not count. -/
def TokenKind.sameCategory : TokenKind → TokenKind → Bool
  | .mark a, .mark b => a = b
  | .keyword a, .keyword b => a = b
  | .identifier, .identifier => true
  | .string _, .string _ => true
  | .number _, .number _ => true
  | .endOfInput, .endOfInput => true
  | _, _ => false

/-- A token of a source text. -/
structure Token where
  kind : TokenKind
  /-- The text it was written as, empty for the end of the input. -/
  lexeme : String
  /-- The line it ends on, counted from one. -/
  line : Nat

namespace Token

/-- The token after all others. -/
def endOfInput (line : Nat) : Token := ⟨.endOfInput, "", line⟩

/-- The token is this mark. -/
def isMark (token : Token) (mark : Mark) : Bool := token.kind.sameCategory (.mark mark)

/-- The token is this keyword. -/
def isKeyword (token : Token) (keyword : Keyword) : Bool :=
  token.kind.sameCategory (.keyword keyword)

/-- The token is a name. -/
def isIdentifier (token : Token) : Bool := token.kind.sameCategory .identifier

/-- The token ends the input. -/
def isEnd (token : Token) : Bool := token.kind.sameCategory .endOfInput

/-- Two tokens are alike: one category, one text. Neither lines nor values of literals count. -/
def alike (a b : Token) : Bool := a.kind.sameCategory b.kind && a.lexeme = b.lexeme

/-- How many tokens of a list are unlike each other. -/
def countUnlike : List Token → Nat
  | [] => 0
  | token :: rest => (if rest.any token.alike then 0 else 1) + countUnlike rest

end Token

end Lox
