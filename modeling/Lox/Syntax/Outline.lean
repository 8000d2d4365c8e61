import Lox.Syntax
import Lox.Text.Quoted

/-!
Outlines of syntax trees: nested parentheses that name each node and its tokens with their
lines. Occurrences can be annotated, for instance with the distance to their binding.
-/

namespace Lox

/-- The bits of a number as sixteen hexadecimal digits. -/
def bitsText (x : Float) : String :=
  let digits := (Nat.toDigits 16 x.toBits.toNat)
  String.ofList (List.replicate (16 - digits.length) '0' ++ digits)

namespace Outline

/-- Parts between parentheses, with single blanks between them. -/
def group (parts : List String) : String := "(" ++ String.intercalate " " parts ++ ")"

/-- A token with its line. -/
def ofToken (token : Token) : String := s!"{token.lexeme}@{token.line}"

/-- A keyword that stands for a node, with the line of its token. -/
def atLine (word : String) (token : Token) : String := s!"{word}@{token.line}"

/-- A constant. -/
def ofLiteral : Literal → String
  | .nil => "nil"
  | .bool value => if value then "true" else "false"
  | .number value => "#" ++ bitsText value
  | .string content => Text.quote content

/-- Parameters between parentheses. -/
def ofParameters (parameters : List Token) : String := group (parameters.map ofToken)

variable (note : Occurrence → String)

/-- An occurrence of a name with its annotation. -/
def ofOccurrence (occurrence : Occurrence) : String :=
  ofToken occurrence.token ++ note occurrence

mutual

/-- The outline of an expression. -/
def ofExpr : Expr → String
  | .literal value => ofLiteral value
  | .grouping inner => group ["group", ofExpr inner]
  | .unary operator operand => group ["unary", ofToken operator, ofExpr operand]
  | .binary operator left right =>
    group ["binary", ofToken operator, ofExpr left, ofExpr right]
  | .logical operator left right =>
    group ["logical", ofToken operator, ofExpr left, ofExpr right]
  | .conditional condition positive negative =>
    group ["ternary", ofExpr condition, ofExpr positive, ofExpr negative]
  | .variable occurrence => group ["var", ofOccurrence note occurrence]
  | .assign target value => group ["assign", ofOccurrence note target, ofExpr value]
  | .call callee closing arguments =>
    group (atLine "call" closing :: ofExpr callee :: ofExprs arguments)
  | .get object property => group ["get", ofToken property, ofExpr object]
  | .set object property value =>
    group ["set", ofToken property, ofExpr object, ofExpr value]
  | .this occurrence => group [atLine "this" occurrence.token ++ note occurrence]
  | .super occurrence method =>
    group [atLine "super" occurrence.token ++ note occurrence, ofToken method]
  | .lambda ⟨_, keyword, parameters, body⟩ =>
    group (atLine "lambda" keyword :: ofParameters parameters :: ofStmts body)

/-- The outlines of some expressions. -/
def ofExprs : List Expr → List String
  | [] => []
  | first :: rest => ofExpr first :: ofExprs rest

/-- The outline of a named function. -/
def ofFunction : FunctionDecl → String
  | ⟨_, keyword, parameters, body⟩ =>
    group ("fun" :: ofToken keyword :: ofParameters parameters :: ofStmts body)

/-- The outlines of some functions. -/
def ofFunctions : List FunctionDecl → List String
  | [] => []
  | first :: rest => ofFunction first :: ofFunctions rest

/-- The outline of a statement. -/
def ofStmt : Stmt → String
  | .expression value => group ["expr", ofExpr value]
  | .print keyword value => group [atLine "print" keyword, ofExpr value]
  | .var name none => group ["vardecl", ofToken name]
  | .var name (some initializer) => group ["vardecl", ofToken name, ofExpr initializer]
  | .block body => group ("block" :: ofStmts body)
  | .if condition positive none => group ["if", ofExpr condition, ofStmt positive]
  | .if condition positive (some negative) =>
    group ["if", ofExpr condition, ofStmt positive, ofStmt negative]
  | .while condition body => group ["while", ofExpr condition, ofStmt body]
  | .break keyword => group [atLine "break" keyword]
  | .function declaration => ofFunction declaration
  | .return keyword none => group [atLine "return" keyword]
  | .return keyword (some value) => group [atLine "return" keyword, ofExpr value]
  | .class ⟨name, superclass, methods, statics⟩ =>
    let parent :=
      match superclass with
      | none => "-"
      | some occurrence => group ["var", ofOccurrence note occurrence]
    group
      ["class", ofToken name, parent, group ("methods" :: ofFunctions methods),
        group ("statics" :: ofFunctions statics)]

/-- The outlines of some statements. -/
def ofStmts : List Stmt → List String
  | [] => []
  | first :: rest => ofStmt first :: ofStmts rest

end

end Outline

end Lox
