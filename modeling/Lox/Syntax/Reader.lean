import Lox.Diagnostic
import Lox.Syntax

/-!
Reading tokens: a cursor into the tokens of a source, the errors of syntax, and the steps that
look at a token, take it or insist on it. A reader that fails leaves the cursor where it
failed, and `synchronize` moves it on to the next likely statement.
-/

namespace Lox

/-- What a source does that the grammar does not allow. -/
inductive SyntaxCause where
  | className
  | superclassName
  | classBody
  | classEnd
  | functionName
  | functionParen
  | functionBody
  | lambdaParen
  | parameterName
  | parametersEnd
  | tooManyParameters
  | variableName
  | variableEnd
  | forParen
  | loopConditionEnd
  | forEnd
  | ifParen
  | ifEnd
  | whileParen
  | whileEnd
  | breakEnd
  | returnEnd
  | printEnd
  | expressionEnd
  | blockEnd
  | conditionalColon
  | assignmentTarget
  | tooManyArguments
  | argumentsEnd
  | propertyName
  | superDot
  | superMethod
  | groupEnd
  | expression
  /-- The budget of a reader ran out, which the entry points never let happen. -/
  | budget
  deriving DecidableEq, Repr

/-- The wording of the cause. -/
def SyntaxCause.message : SyntaxCause → String
  | .className => "Expect class name."
  | .superclassName => "Expect superclass name."
  | .classBody => "Expect '\x7b' before class body."
  | .classEnd => "Expect '\x7d' after class body."
  | .functionName => "Expect function name."
  | .functionParen => "Expect '(' after function name."
  | .functionBody => "Expect '\x7b' before function body."
  | .lambdaParen => "Expect '(' after 'fun'."
  | .parameterName => "Expect parameter name."
  | .parametersEnd => "Expect ')' after parameters."
  | .tooManyParameters => "Can't have more than 255 parameters."
  | .variableName => "Expect variable name."
  | .variableEnd => "Expect ';' after variable declaration."
  | .forParen => "Expect '(' after 'for'."
  | .loopConditionEnd => "Expect ';' after loop condition."
  | .forEnd => "Expect ')' after for clauses."
  | .ifParen => "Expect '(' after 'if'."
  | .ifEnd => "Expect ')' after if condition."
  | .whileParen => "Expect '(' after 'while'."
  | .whileEnd => "Expect ')' after condition."
  | .breakEnd => "Expect ';' after 'break'."
  | .returnEnd => "Expect ';' after return value."
  | .printEnd => "Expect ';' after value."
  | .expressionEnd => "Expect ';' after expression."
  | .blockEnd => "Expect '\x7d' after block."
  | .conditionalColon => "Expect ':' after then branch of conditional expression."
  | .assignmentTarget => "Invalid assignment target."
  | .tooManyArguments => "Can't have more than 255 arguments."
  | .argumentsEnd => "Expect ')' after arguments."
  | .propertyName => "Expect property name after '.'."
  | .superDot => "Expect '.' after 'super'."
  | .superMethod => "Expect superclass method name."
  | .groupEnd => "Expect ')' after expression."
  | .expression => "Expect expression."
  | .budget => "Nesting is too deep."

/-- An error of syntax at a token. -/
structure SyntaxError where
  token : Token
  cause : SyntaxCause

/-- The error as a diagnostic. -/
def SyntaxError.diagnostic (error : SyntaxError) : Diagnostic :=
  .atToken .syntactic error.token error.cause.message

/-- The most parameters or arguments there can be. -/
def maxArity : Nat := 255

/-- A place in the tokens of a source. -/
structure Cursor where
  /-- The tokens still to be read, without the one that ends the source. -/
  ahead : List Token
  /-- The token that ends the source. -/
  stop : Token
  /-- The number of the next occurrence. -/
  nextId : Nat

namespace Cursor

/-- The token to be read next. -/
def next (cursor : Cursor) : Token := cursor.ahead.headD cursor.stop

/-- The tokens behind the one to be read next. -/
def behind (cursor : Cursor) : List Token :=
  match cursor.ahead with
  | [] => []
  | _ :: rest => rest

/-- A token that a statement may start with, other than a name or a bracket. -/
def startsStatement (token : Token) : Bool :=
  match token.kind with
  | .keyword .class | .keyword .fun | .keyword .var | .keyword .for | .keyword .if
  | .keyword .while | .keyword .print | .keyword .return => true
  | _ => false

/-- Skips tokens up to one that starts a statement or follows a semicolon. -/
def skipToStatement (previous : Token) : List Token → List Token
  | [] => []
  | token :: rest =>
    if previous.isMark .semicolon || startsStatement token then token :: rest
    else skipToStatement token rest

/-- Moves past the token of an error, then on to the next likely statement. -/
def synchronize (cursor : Cursor) : Cursor :=
  match cursor.ahead with
  | [] => cursor
  | token :: rest => { cursor with ahead := skipToStatement token rest }

end Cursor

/-- A reader of tokens. On failure the cursor stays where the error was noticed. -/
abbrev Reader := EStateM SyntaxError Cursor

namespace Reader

/-- Fails at the token to be read next. -/
def fail {α : Type} (cause : SyntaxCause) : Reader α := fun cursor =>
  .error ⟨cursor.next, cause⟩ cursor

/-- Fails at a token read before. -/
def failAt {α : Type} (token : Token) (cause : SyntaxCause) : Reader α := fun cursor =>
  .error ⟨token, cause⟩ cursor

/-- The token to be read next, nothing at the end. -/
def peek? : Reader (Option Token) := fun cursor => .ok cursor.ahead.head? cursor

/-- Whether the next token passes a test; none does at the end. -/
def sees (test : Token → Bool) : Reader Bool := fun cursor =>
  .ok (cursor.ahead.head?.any test) cursor

/-- Whether the token after the next passes a test. -/
def seesSecond (test : Token → Bool) : Reader Bool := fun cursor =>
  .ok (cursor.behind.head?.any test) cursor

/-- Whether no token is left. -/
def atEnd : Reader Bool := fun cursor => .ok cursor.ahead.isEmpty cursor

/-- Moves past the next token. -/
def skip : Reader Unit := fun cursor => .ok () { cursor with ahead := cursor.behind }

/-- Takes the next token if it passes a test. -/
def take? (test : Token → Bool) : Reader (Option Token) := fun cursor =>
  match cursor.ahead with
  | [] => .ok none cursor
  | token :: rest =>
    if test token then .ok (some token) { cursor with ahead := rest } else .ok none cursor

/-- Takes the next token if it passes a test, and tells whether it did. -/
def accept (test : Token → Bool) : Reader Bool := fun cursor =>
  match cursor.ahead with
  | [] => .ok false cursor
  | token :: rest =>
    if test token then .ok true { cursor with ahead := rest } else .ok false cursor

/-- Takes the next token, which has to pass a test. -/
def expect (test : Token → Bool) (cause : SyntaxCause) : Reader Token := fun cursor =>
  match cursor.ahead with
  | [] => .error ⟨cursor.stop, cause⟩ cursor
  | token :: rest =>
    if test token then .ok token { cursor with ahead := rest } else .error ⟨token, cause⟩ cursor

/-- Whether the next token is a given mark. -/
def seesMark (mark : Mark) : Reader Bool := sees (·.isMark mark)

/-- Takes a mark if it is next. -/
def acceptMark (mark : Mark) : Reader Bool := accept (·.isMark mark)

/-- Takes a mark that has to be next. -/
def expectMark (mark : Mark) (cause : SyntaxCause) : Reader Token := expect (·.isMark mark) cause

/-- Takes a name that has to be next. -/
def expectName (cause : SyntaxCause) : Reader Token := expect (·.isIdentifier) cause

/-- Takes a token that passes a test and reads on, if there is one. -/
def ifAccepted {α : Type} (test : Token → Bool) (reader : Reader α) : Reader (Option α) := do
  if ← accept test then some <$> reader else return none

/-- Reads on unless a mark is next. -/
def unlessMark {α : Type} (mark : Mark) (reader : Reader α) : Reader (Option α) := do
  if ← seesMark mark then return none else some <$> reader

/-- A new occurrence of a name or keyword. -/
def occurrence (token : Token) : Reader Occurrence := fun cursor =>
  .ok ⟨cursor.nextId, token⟩ { cursor with nextId := cursor.nextId + 1 }

/-- Runs a reader; if it fails, moves on to the next likely statement before failing. -/
def synchronized {α : Type} (reader : Reader α) : Reader α := fun cursor =>
  match reader cursor with
  | .ok value after => .ok value after
  | .error error after => .error error after.synchronize

end Reader

end Lox
