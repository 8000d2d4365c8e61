import Lox.Syntax.Reader

/-!
Parsing by recursive descent, one reader for each rule of the grammar. Binary operators are
read tier by tier, each chain grouping to the left; assignments and conditionals group to the
right. A `for` loop becomes the blocks and the `while` loop that it abbreviates. A program
collects the errors of its declarations, each of which is left at the next likely statement.

Readers descend on a budget. No rule nests deeper than a fixed number of readers without
taking a token, so a budget in proportion to the tokens is never used up.
-/

namespace Lox

/-- The tiers of binary operators, the loosest first. -/
inductive Tier where
  | or
  | and
  | equality
  | comparison
  | term
  | factor
  deriving DecidableEq, Repr

namespace Tier

/-- The tier that binds next tighter; operands of the tightest are unary. -/
def tighter? : Tier → Option Tier
  | .or => some .and
  | .and => some .equality
  | .equality => some .comparison
  | .comparison => some .term
  | .term => some .factor
  | .factor => none

/-- The token is an operator of the tier. -/
def operator (tier : Tier) (token : Token) : Bool :=
  match tier, token.kind with
  | .or, .keyword .or => true
  | .and, .keyword .and => true
  | .equality, .mark .bangEqual | .equality, .mark .equalEqual => true
  | .comparison, .mark .greater | .comparison, .mark .greaterEqual
  | .comparison, .mark .less | .comparison, .mark .lessEqual => true
  | .term, .mark .minus | .term, .mark .plus => true
  | .factor, .mark .slash | .factor, .mark .star => true
  | _, _ => false

/-- The expression that an operator of the tier forms with its operands. -/
def join (tier : Tier) (operator : Token) (left right : Expr) : Expr :=
  match tier with
  | .or | .and => .logical operator left right
  | _ => .binary operator left right

end Tier

/-- What a `for` loop repeats: its body, in a block with the increment if there is one. -/
def Stmt.forRound (body : Stmt) (increment : Option Expr) : Stmt :=
  match increment with
  | some step => .block [body, .expression step]
  | none => body

/-- The `while` loop that a `for` loop stands for, in a block with the initializer if there is
one. -/
def Stmt.ofFor (initializer : Option Stmt) (condition increment : Option Expr) (body : Stmt) :
    Stmt :=
  let loop := .while (condition.getD (.literal (.bool true))) (body.forRound increment)
  match initializer with
  | some start => .block [start, loop]
  | none => loop

namespace Parser

open Reader

/-- Parameters, of which `room` more are allowed, up to the closing parenthesis. -/
def parameterNames : (room : Nat) → Reader (List Token)
  | 0 => fail .tooManyParameters
  | room + 1 => do
    let name ← expectName .parameterName
    if ← acceptMark .comma then
      let more ← parameterNames room
      return name :: more
    else
      return [name]

/-- The parameters of a function with the closing parenthesis; the opening one is read. -/
def parameters : Reader (List Token) := do
  let names ← unlessMark .rightParen (parameterNames maxArity)
  let _ ← expectMark .rightParen .parametersEnd
  return names.getD []

/-- A class clause `< NAME`, if there is one. -/
def superclass : Reader (Option Occurrence) := do
  if ← acceptMark .less then
    let name ← expectName .superclassName
    let occurrence ← occurrence name
    return some occurrence
  else
    return none

/-- Whether a block or class body can go no further. -/
def bodyEnds : Reader Bool := do
  if ← seesMark .rightBrace then return true else atEnd

mutual

/-- A declaration or statement. After an error the cursor is at the next likely statement. -/
def declaration : (budget : Nat) → Reader Stmt
  | 0 => fail .budget
  | budget + 1 => synchronized do
    if ← accept (·.isKeyword .class) then classDeclaration budget
    else if (← sees (·.isKeyword .fun)) && (← seesSecond (·.isIdentifier)) then
      skip
      let function ← function budget
      return .function function
    else if ← accept (·.isKeyword .var) then varDeclaration budget
    else statement budget

/-- `class NAME (< NAME)? { (static? function)* }` after its keyword. -/
def classDeclaration : (budget : Nat) → Reader Stmt
  | 0 => fail .budget
  | budget + 1 => do
    let name ← expectName .className
    let superclass ← superclass
    let _ ← expectMark .leftBrace .classBody
    let (methods, statics) ← members budget
    let _ ← expectMark .rightBrace .classEnd
    return .class ⟨name, superclass, methods, statics⟩

/-- The members of a class: its instance methods and its static ones. -/
def members : (budget : Nat) → Reader (List FunctionDecl × List FunctionDecl)
  | 0 => fail .budget
  | budget + 1 => do
    if ← bodyEnds then return ([], [])
    let ofClass ← accept (·.isKeyword .static)
    let function ← function budget
    let (methods, statics) ← members budget
    if ofClass then return (methods, function :: statics)
    else return (function :: methods, statics)

/-- `NAME ( parameters ) block`, the form of functions and methods. -/
def function : (budget : Nat) → Reader FunctionDecl
  | 0 => fail .budget
  | budget + 1 => do
    let name ← expectName .functionName
    let _ ← expectMark .leftParen .functionParen
    let parameters ← parameters
    let _ ← expectMark .leftBrace .functionBody
    let body ← block budget
    return ⟨some name, name, parameters, body⟩

/-- `var NAME (= expression)? ;` after its keyword. -/
def varDeclaration : (budget : Nat) → Reader Stmt
  | 0 => fail .budget
  | budget + 1 => do
    let name ← expectName .variableName
    let initializer ← ifAccepted (·.isMark .equal) (expression budget)
    let _ ← expectMark .semicolon .variableEnd
    return .var name initializer

/-- A statement that declares nothing. -/
def statement : (budget : Nat) → Reader Stmt
  | 0 => fail .budget
  | budget + 1 => do
    match ← peek? with
    | none => expressionStatement budget
    | some token =>
      match token.kind with
      | .keyword .for => skip; forStatement budget
      | .keyword .if => skip; ifStatement budget
      | .keyword .while => skip; whileStatement budget
      | .keyword .break => skip; breakStatement token
      | .keyword .return => skip; returnStatement budget token
      | .mark .leftBrace => skip; Stmt.block <$> block budget
      | .keyword .print => skip; printStatement budget token
      | _ => expressionStatement budget

/-- `;`, or a `var` declaration or an expression with its semicolon. -/
def forInitializer : (budget : Nat) → Reader (Option Stmt)
  | 0 => fail .budget
  | budget + 1 => do
    if ← acceptMark .semicolon then return none
    if ← accept (·.isKeyword .var) then some <$> varDeclaration budget
    else some <$> expressionStatement budget

/-- `for ( initializer expression? ; expression? ) statement` after its keyword. -/
def forStatement : (budget : Nat) → Reader Stmt
  | 0 => fail .budget
  | budget + 1 => do
    let _ ← expectMark .leftParen .forParen
    let initializer ← forInitializer budget
    let condition ← unlessMark .semicolon (expression budget)
    let _ ← expectMark .semicolon .loopConditionEnd
    let increment ← unlessMark .rightParen (expression budget)
    let _ ← expectMark .rightParen .forEnd
    let body ← statement budget
    return .ofFor initializer condition increment body

/-- `if ( expression ) statement (else statement)?` after its keyword. -/
def ifStatement : (budget : Nat) → Reader Stmt
  | 0 => fail .budget
  | budget + 1 => do
    let _ ← expectMark .leftParen .ifParen
    let condition ← expression budget
    let _ ← expectMark .rightParen .ifEnd
    let positive ← statement budget
    let negative ← ifAccepted (·.isKeyword .else) (statement budget)
    return .if condition positive negative

/-- `while ( expression ) statement` after its keyword. -/
def whileStatement : (budget : Nat) → Reader Stmt
  | 0 => fail .budget
  | budget + 1 => do
    let _ ← expectMark .leftParen .whileParen
    let condition ← expression budget
    let _ ← expectMark .rightParen .whileEnd
    let body ← statement budget
    return .while condition body

/-- `break ;` after its keyword. -/
def breakStatement (keyword : Token) : Reader Stmt := do
  let _ ← expectMark .semicolon .breakEnd
  return .break keyword

/-- `return expression? ;` after its keyword. -/
def returnStatement : (budget : Nat) → (keyword : Token) → Reader Stmt
  | 0, _ => fail .budget
  | budget + 1, keyword => do
    let value ← unlessMark .semicolon (expression budget)
    let _ ← expectMark .semicolon .returnEnd
    return .return keyword value

/-- `print expression ;` after its keyword. -/
def printStatement : (budget : Nat) → (keyword : Token) → Reader Stmt
  | 0, _ => fail .budget
  | budget + 1, keyword => do
    let value ← expression budget
    let _ ← expectMark .semicolon .printEnd
    return .print keyword value

/-- `expression ;` -/
def expressionStatement : (budget : Nat) → Reader Stmt
  | 0 => fail .budget
  | budget + 1 => do
    let value ← expression budget
    let _ ← expectMark .semicolon .expressionEnd
    return .expression value

/-- `declaration* }` after the opening brace. -/
def block : (budget : Nat) → Reader (List Stmt)
  | 0 => fail .budget
  | budget + 1 => do
    if ← bodyEnds then
      let _ ← expectMark .rightBrace .blockEnd
      return []
    let first ← declaration budget
    let rest ← block budget
    return first :: rest

/-- An expression. An assignment is recognised by its `=`, after its target was read as an
expression; the target is judged only when the value is read too. -/
def expression : (budget : Nat) → Reader Expr
  | 0 => fail .budget
  | budget + 1 => do
    let target ← conditional budget
    match ← take? (·.isMark .equal) with
    | none => return target
    | some equals =>
      let value ← expression budget
      match target with
      | .variable read =>
        let written ← occurrence read.token
        return .assign written value
      | .get object property => return .set object property value
      | _ => failAt equals .assignmentTarget

/-- `or-chain (? expression : conditional)?` -/
def conditional : (budget : Nat) → Reader Expr
  | 0 => fail .budget
  | budget + 1 => do
    let condition ← chain budget .or
    if ← acceptMark .question then
      let positive ← expression budget
      let _ ← expectMark .colon .conditionalColon
      let negative ← conditional budget
      return .conditional condition positive negative
    else
      return condition

/-- Operands of a tier between its operators. -/
def chain : (budget : Nat) → Tier → Reader Expr
  | 0, _ => fail .budget
  | budget + 1, tier => do
    let left ← operand budget tier
    chainFrom budget tier left

/-- The rest of a chain after its left part. -/
def chainFrom : (budget : Nat) → Tier → Expr → Reader Expr
  | 0, _, _ => fail .budget
  | budget + 1, tier, left => do
    match ← take? tier.operator with
    | none => return left
    | some operator =>
      let right ← operand budget tier
      chainFrom budget tier (tier.join operator left right)

/-- An operand of a tier: a chain of the next tighter one, or a unary expression. -/
def operand : (budget : Nat) → Tier → Reader Expr
  | 0, _ => fail .budget
  | budget + 1, tier =>
    match tier.tighter? with
    | some tighter => chain budget tighter
    | none => unary budget

/-- `(! | -) unary`, or a call. -/
def unary : (budget : Nat) → Reader Expr
  | 0 => fail .budget
  | budget + 1 => do
    match ← take? fun token => token.isMark .bang || token.isMark .minus with
    | some operator =>
      let operand ← unary budget
      return .unary operator operand
    | none =>
      let callee ← primary budget
      calls budget callee

/-- The argument lists and property names after a primary expression. -/
def calls : (budget : Nat) → Expr → Reader Expr
  | 0, _ => fail .budget
  | budget + 1, callee => do
    if ← acceptMark .leftParen then
      let given ← unlessMark .rightParen (arguments budget maxArity)
      let closing ← expectMark .rightParen .argumentsEnd
      calls budget (.call callee closing (given.getD []))
    else if ← acceptMark .dot then
      let property ← expectName .propertyName
      calls budget (.get callee property)
    else
      return callee

/-- Arguments, of which `room` more are allowed, up to the closing parenthesis. -/
def arguments : (budget room : Nat) → Reader (List Expr)
  | 0, _ => fail .budget
  | _ + 1, 0 => fail .tooManyArguments
  | budget + 1, room + 1 => do
    let first ← expression budget
    if ← acceptMark .comma then
      let more ← arguments budget room
      return first :: more
    else
      return [first]

/-- A literal, a name, `this`, `super.NAME`, a lambda or an expression in parentheses. -/
def primary : (budget : Nat) → Reader Expr
  | 0 => fail .budget
  | budget + 1 => do
    match ← peek? with
    | none => fail .expression
    | some token =>
      match token.kind with
      | .keyword .false => skip; return .literal (.bool false)
      | .keyword .true => skip; return .literal (.bool true)
      | .keyword .nil => skip; return .literal .nil
      | .number value => skip; return .literal (.number value)
      | .string content => skip; return .literal (.string content)
      | .keyword .this =>
        skip
        let place ← occurrence token
        return .this place
      | .keyword .super =>
        skip
        let _ ← expectMark .dot .superDot
        let method ← expectName .superMethod
        let place ← occurrence token
        return .super place method
      | .identifier =>
        skip
        let place ← occurrence token
        return .variable place
      | .keyword .fun => skip; lambda budget token
      | .mark .leftParen =>
        skip
        let inner ← expression budget
        let _ ← expectMark .rightParen .groupEnd
        return .grouping inner
      | _ => fail .expression

/-- `( parameters ) block` after the keyword of a lambda. -/
def lambda : (budget : Nat) → (keyword : Token) → Reader Expr
  | 0, _ => fail .budget
  | budget + 1, keyword => do
    let _ ← expectMark .leftParen .lambdaParen
    let parameters ← parameters
    let _ ← expectMark .leftBrace .functionBody
    let body ← block budget
    return .lambda ⟨none, keyword, parameters, body⟩

end

/-- Declarations up to the end, and the errors of those that have one. -/
def declarations : (budget : Nat) → Cursor → List Stmt × List SyntaxError × Cursor
  | 0, cursor => ([], [], cursor)
  | budget + 1, cursor =>
    if cursor.ahead.isEmpty then ([], [], cursor)
    else
      match declaration budget cursor with
      | .ok first after =>
        let (rest, errors, last) := declarations budget after
        (first :: rest, errors, last)
      | .error error after =>
        let (rest, errors, last) := declarations budget after
        (rest, error :: errors, last)

/-- A budget that no reader uses up from the cursor on. -/
def budget (cursor : Cursor) : Nat := 32 * (cursor.ahead.length + 1)

end Parser

/-- Reads a program. Occurrences are numbered from `firstId` on; the number after the last one
comes with the program, or with all of its errors in order. -/
def Program.parse (tokens : List Token) (stop : Token) (firstId : Nat) :
    Except (List SyntaxError) Program × Nat :=
  let cursor : Cursor := ⟨tokens, stop, firstId⟩
  let (program, errors, last) := Parser.declarations (Parser.budget cursor) cursor
  (if errors.isEmpty then .ok program else .error errors, last.nextId)

/-- Reads exactly one expression, with the numbering of `Program.parse`. -/
def Expr.parse? (tokens : List Token) (stop : Token) (firstId : Nat) : Option Expr × Nat :=
  let cursor : Cursor := ⟨tokens, stop, firstId⟩
  match Parser.expression (Parser.budget cursor) cursor with
  | .ok expr after => (if after.ahead.isEmpty then some expr else none, after.nextId)
  | .error _ after => (none, after.nextId)

end Lox
