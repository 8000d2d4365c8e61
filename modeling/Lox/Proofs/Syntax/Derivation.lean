import Lox.Syntax.Parser

/-! The grammar of Lox as a relation, apart from any way of reading. A derivation takes tokens from
the front of a list and leaves the rest; it fixes the syntax tree up to the numbers of occurrences.
The rules are those of the documented grammar, with one index that settles which `if` an `else`
belongs to.
-/

namespace Lox

-----------------------------------------------------------------------------------------
-- Trees without numbers
-----------------------------------------------------------------------------------------

/-- The occurrence, its number forgotten. -/
def Occurrence.unnumbered (occurrence : Occurrence) : Occurrence := ⟨0, occurrence.token⟩

mutual

/-- The expression, the numbers of its occurrences forgotten. -/
def Expr.unnumbered : Expr → Expr
  | .literal value => .literal value
  | .grouping inner => .grouping inner.unnumbered
  | .unary operator operand => .unary operator operand.unnumbered
  | .binary operator left right => .binary operator left.unnumbered right.unnumbered
  | .logical operator left right => .logical operator left.unnumbered right.unnumbered
  | .conditional condition positive negative =>
    .conditional condition.unnumbered positive.unnumbered negative.unnumbered
  | .variable occurrence => .variable occurrence.unnumbered
  | .assign target value => .assign target.unnumbered value.unnumbered
  | .call callee closing arguments =>
    .call callee.unnumbered closing (Exprs.unnumbered arguments)
  | .get object property => .get object.unnumbered property
  | .set object property value => .set object.unnumbered property value.unnumbered
  | .this occurrence => .this occurrence.unnumbered
  | .super occurrence method => .super occurrence.unnumbered method
  | .lambda function => .lambda function.unnumbered

def Exprs.unnumbered : List Expr → List Expr
  | [] => []
  | expr :: rest => expr.unnumbered :: Exprs.unnumbered rest

def FunctionDecl.unnumbered : FunctionDecl → FunctionDecl
  | ⟨name, keyword, parameters, body⟩ => ⟨name, keyword, parameters, Stmts.unnumbered body⟩

def Functions.unnumbered : List FunctionDecl → List FunctionDecl
  | [] => []
  | function :: rest => function.unnumbered :: Functions.unnumbered rest

def ClassDecl.unnumbered : ClassDecl → ClassDecl
  | ⟨name, superclass, methods, statics⟩ =>
    ⟨name, superclass.map Occurrence.unnumbered, Functions.unnumbered methods,
      Functions.unnumbered statics⟩

/-- The statement, the numbers of its occurrences forgotten. -/
def Stmt.unnumbered : Stmt → Stmt
  | .expression value => .expression value.unnumbered
  | .print keyword value => .print keyword value.unnumbered
  | .var name none => .var name none
  | .var name (some initializer) => .var name (some initializer.unnumbered)
  | .block body => .block (Stmts.unnumbered body)
  | .if condition positive none => .if condition.unnumbered positive.unnumbered none
  | .if condition positive (some negative) =>
    .if condition.unnumbered positive.unnumbered (some negative.unnumbered)
  | .while condition body => .while condition.unnumbered body.unnumbered
  | .break keyword => .break keyword
  | .function declaration => .function declaration.unnumbered
  | .return keyword none => .return keyword none
  | .return keyword (some value) => .return keyword (some value.unnumbered)
  | .class declaration => .class declaration.unnumbered

/-- The program, the numbers of its occurrences forgotten. -/
def Stmts.unnumbered : List Stmt → List Stmt
  | [] => []
  | stmt :: rest => stmt.unnumbered :: Stmts.unnumbered rest

end

theorem Exprs.length_unnumbered (exprs : List Expr)
    : (Exprs.unnumbered exprs).length = exprs.length := by
  induction exprs with
  | nil => rfl
  | cons expr rest ih => rw [Exprs.unnumbered, List.length_cons, ih, List.length_cons]

namespace Grammar

-----------------------------------------------------------------------------------------
-- Terminals
-----------------------------------------------------------------------------------------

/-- The operands of a tier are chains of the other one. -/
inductive Tighter : Tier → Tier → Prop
  | or : Tighter .or .and
  | and : Tighter .and .equality
  | equality : Tighter .equality .comparison
  | comparison : Tighter .comparison .term
  | term : Tighter .term .factor

/-- The operators that evaluate their right operand only if they have to. -/
inductive LogicalOperator : Tier → TokenKind → Prop
  | or : LogicalOperator .or (.keyword .or)
  | and : LogicalOperator .and (.keyword .and)

/-- The other binary operators. -/
inductive BinaryOperator : Tier → TokenKind → Prop
  | bangEqual : BinaryOperator .equality (.mark .bangEqual)
  | equalEqual : BinaryOperator .equality (.mark .equalEqual)
  | greater : BinaryOperator .comparison (.mark .greater)
  | greaterEqual : BinaryOperator .comparison (.mark .greaterEqual)
  | less : BinaryOperator .comparison (.mark .less)
  | lessEqual : BinaryOperator .comparison (.mark .lessEqual)
  | minus : BinaryOperator .term (.mark .minus)
  | plus : BinaryOperator .term (.mark .plus)
  | slash : BinaryOperator .factor (.mark .slash)
  | star : BinaryOperator .factor (.mark .star)

inductive UnaryOperator : TokenKind → Prop
  | bang : UnaryOperator (.mark .bang)
  | minus : UnaryOperator (.mark .minus)

/-- The token of a constant, and the constant. -/
inductive IsLiteral : TokenKind → Literal → Prop
  | number (value : Float) : IsLiteral (.number value) (.number value)
  | string (content : String) : IsLiteral (.string content) (.string content)
  | true : IsLiteral (.keyword .true) (.bool true)
  | false : IsLiteral (.keyword .false) (.bool false)
  | nil : IsLiteral (.keyword .nil) .nil

-----------------------------------------------------------------------------------------
-- Rules
-----------------------------------------------------------------------------------------

/-- The tree of a `for` loop: a `while` loop, in a block after the initializer, whose body is in a
block before the increment. A missing condition is `true`.
-/
def whileForm (initializer : Option Stmt) (condition increment : Option Expr) (body : Stmt) :
    Stmt :=
  let round := increment.elim body fun step => .block [body, .expression step]
  let loop := .while (condition.getD (.literal (.bool true))) round
  initializer.elim loop fun start => .block [start, loop]

/-- `IDENT ( "," IDENT )*` -/
inductive ParameterList : List Token → List Token → List Token → Prop
  | one {name : Token} {rest : List Token} (named : name.kind = .identifier)
    : ParameterList (name :: rest) [name] rest
  | more {name comma : Token} {tokens names rest : List Token} (named : name.kind = .identifier)
      (separated : comma.kind = .mark .comma) (others : ParameterList tokens names rest)
    : ParameterList (name :: comma :: tokens) (name :: names) rest

/-- `"(" parameters? ")"`, at most 255 of them. -/
inductive Parameters : List Token → List Token → List Token → Prop
  | none {opening closing : Token} {rest : List Token} (opened : opening.kind = .mark .leftParen)
      (closed : closing.kind = .mark .rightParen)
    : Parameters (opening :: closing :: rest) [] rest
  | some {opening closing : Token} {tokens names rest : List Token}
      (opened : opening.kind = .mark .leftParen)
      (list : ParameterList tokens names (closing :: rest)) (few : names.length ≤ 255)
      (closed : closing.kind = .mark .rightParen)
    : Parameters (opening :: tokens) names rest

/-- `( "<" IDENT )?` -/
inductive Clause : List Token → Option Occurrence → List Token → Prop
  | none {rest : List Token} : Clause rest none rest
  | some {less name : Token} {rest : List Token} (sign : less.kind = .mark .less)
      (named : name.kind = .identifier)
    : Clause (less :: name :: rest) (some ⟨0, name⟩) rest

/-- The nonterminals of the grammar whose trees may hold expressions. -/
inductive Nonterminal where
  /-- `declaration*` -/
  | declarations
  | declaration
  /-- `( "static"? function )*` -/
  | members
  | function
  | varDecl
  | block
  /-- A statement that ends in an `if` without `else`, or one that does not. An `else` after the
  first kind belongs to that `if`, so the branch before an `else` is of the second. -/
  | statement (unmatched : Bool)
  | exprStmt
  /-- `varDecl | exprStmt | ";"` -/
  | forInitializer
  /-- `expression?` -/
  | optional
  /-- An expression or assignment. -/
  | expression
  | ternary
  /-- Operands of a tier and the operators between them. -/
  | chain (tier : Tier)
  | operand (tier : Tier)
  | unary
  | call
  | primary
  | arguments

/-- The trees of a nonterminal. -/
abbrev Nonterminal.Tree : Nonterminal → Type
  | .declarations | .block => List Stmt
  | .declaration | .varDecl | .statement _ | .exprStmt => Stmt
  | .members => List FunctionDecl × List FunctionDecl
  | .function => FunctionDecl
  | .forInitializer => Option Stmt
  | .optional => Option Expr
  | .expression | .ternary | .chain _ | .operand _ | .unary | .call | .primary => Expr
  | .arguments => List Expr

/-- The `if` that an `else` belongs to: any one that it can, or the nearest that has no other. -/
inductive Attachment where
  | any
  | nearest

/-- The tokens up to `rest` are derived from the nonterminal, and this is their tree. -/
inductive Derives (attachment : Attachment) :
    (symbol : Nonterminal) → List Token → symbol.Tree → List Token → Prop
  | noDeclaration {rest : List Token} : Derives attachment .declarations rest [] rest
  | moreDeclarations {tokens middle rest : List Token} {stmt : Stmt} {stmts : List Stmt}
      (first : Derives attachment .declaration tokens stmt middle)
      (others : Derives attachment .declarations middle stmts rest)
    : Derives attachment .declarations tokens (stmt :: stmts) rest
  -- declaration → classDecl | funDecl | varDecl | statement
  | class {word name opening closing : Token} {tokens middle rest : List Token}
      {superclass : Option Occurrence} {methods statics : List FunctionDecl}
      (keyword : word.kind = .keyword .class) (named : name.kind = .identifier)
      (clause : Clause tokens superclass (opening :: middle))
      (opened : opening.kind = .mark .leftBrace)
      (members : Derives attachment .members middle (methods, statics) (closing :: rest))
      (closed : closing.kind = .mark .rightBrace)
    : Derives attachment .declaration (word :: name :: tokens)
        (.class ⟨name, superclass, methods, statics⟩) rest
  | named {word : Token} {tokens rest : List Token} {function : FunctionDecl}
      (keyword : word.kind = .keyword .fun)
      (declared : Derives attachment .function tokens function rest)
    : Derives attachment .declaration (word :: tokens) (.function function) rest
  | var {tokens rest : List Token} {stmt : Stmt}
      (declared : Derives attachment .varDecl tokens stmt rest)
    : Derives attachment .declaration tokens stmt rest
  | statement {unmatched : Bool} {tokens rest : List Token} {stmt : Stmt}
      (stated : Derives attachment (.statement unmatched) tokens stmt rest)
    : Derives attachment .declaration tokens stmt rest
  | noMember {rest : List Token} : Derives attachment .members rest ([], []) rest
  | staticMember {word : Token} {tokens middle rest : List Token} {function : FunctionDecl}
      {methods statics : List FunctionDecl} (keyword : word.kind = .keyword .static)
      (first : Derives attachment .function tokens function middle)
      (others : Derives attachment .members middle (methods, statics) rest)
    : Derives attachment .members (word :: tokens) (methods, function :: statics) rest
  | member {tokens middle rest : List Token} {function : FunctionDecl}
      {methods statics : List FunctionDecl}
      (first : Derives attachment .function tokens function middle)
      (others : Derives attachment .members middle (methods, statics) rest)
    : Derives attachment .members tokens (function :: methods, statics) rest
  -- function → IDENT "(" parameters? ")" block
  | function {name : Token} {tokens middle rest parameters : List Token} {stmts : List Stmt}
      (named : name.kind = .identifier) (listed : Parameters tokens parameters middle)
      (body : Derives attachment .block middle stmts rest)
    : Derives attachment .function (name :: tokens) ⟨some name, name, parameters, stmts⟩ rest
  -- varDecl → "var" IDENT ( "=" expression )? ";"
  | uninitialized {word name semicolon : Token} {rest : List Token}
      (keyword : word.kind = .keyword .var) (named : name.kind = .identifier)
      (ended : semicolon.kind = .mark .semicolon)
    : Derives attachment .varDecl (word :: name :: semicolon :: rest) (.var name none) rest
  | initialized {word name equal semicolon : Token} {tokens rest : List Token} {value : Expr}
      (keyword : word.kind = .keyword .var) (named : name.kind = .identifier)
      (sign : equal.kind = .mark .equal)
      (initializer : Derives attachment .expression tokens value (semicolon :: rest))
      (ended : semicolon.kind = .mark .semicolon)
    : Derives attachment .varDecl (word :: name :: equal :: tokens) (.var name (some value)) rest
  -- block → "{" declaration* "}"
  | block {opening closing : Token} {tokens rest : List Token} {stmts : List Stmt}
      (opened : opening.kind = .mark .leftBrace)
      (body : Derives attachment .declarations tokens stmts (closing :: rest))
      (closed : closing.kind = .mark .rightBrace)
    : Derives attachment .block (opening :: tokens) stmts rest
  -- statement → exprStmt | forStmt | ifStmt | printStmt | returnStmt | whileStmt | breakStmt
  --           | block
  | expressionStatement {tokens rest : List Token} {stmt : Stmt}
      (stated : Derives attachment .exprStmt tokens stmt rest)
    : Derives attachment (.statement false) tokens stmt rest
  | for {unmatched : Bool} {word opening semicolon closing : Token}
      {tokens afterInitializer afterCondition afterIncrement rest : List Token}
      {initializer : Option Stmt} {condition increment : Option Expr} {stmt : Stmt}
      (keyword : word.kind = .keyword .for) (opened : opening.kind = .mark .leftParen)
      (start : Derives attachment .forInitializer tokens initializer afterInitializer)
      (test : Derives attachment .optional afterInitializer condition (semicolon :: afterCondition))
      (ended : semicolon.kind = .mark .semicolon)
      (step : Derives attachment .optional afterCondition increment (closing :: afterIncrement))
      (closed : closing.kind = .mark .rightParen)
      (body : Derives attachment (.statement unmatched) afterIncrement stmt rest)
    : Derives attachment (.statement unmatched) (word :: opening :: tokens)
        (whileForm initializer condition increment stmt) rest
  | if {unmatched : Bool} {word opening closing : Token} {tokens middle rest : List Token}
      {condition : Expr} {positive : Stmt} (keyword : word.kind = .keyword .if)
      (opened : opening.kind = .mark .leftParen)
      (test : Derives attachment .expression tokens condition (closing :: middle))
      (closed : closing.kind = .mark .rightParen)
      (taken : Derives attachment (.statement unmatched) middle positive rest)
    : Derives attachment (.statement true) (word :: opening :: tokens)
        (.if condition positive none) rest
  | ifElse {ends unmatched : Bool} {word opening closing otherwise : Token}
      {tokens middle next rest : List Token} {condition : Expr} {positive negative : Stmt}
      (keyword : word.kind = .keyword .if) (opened : opening.kind = .mark .leftParen)
      (test : Derives attachment .expression tokens condition (closing :: middle))
      (closed : closing.kind = .mark .rightParen)
      (taken : Derives attachment (.statement ends) middle positive (otherwise :: next))
      (nearest : attachment = .nearest → ends = false)
      (keywordElse : otherwise.kind = .keyword .else)
      (left : Derives attachment (.statement unmatched) next negative rest)
    : Derives attachment (.statement unmatched) (word :: opening :: tokens)
        (.if condition positive (some negative)) rest
  | print {word semicolon : Token} {tokens rest : List Token} {expr : Expr}
      (keyword : word.kind = .keyword .print)
      (value : Derives attachment .expression tokens expr (semicolon :: rest))
      (ended : semicolon.kind = .mark .semicolon)
    : Derives attachment (.statement false) (word :: tokens) (.print word expr) rest
  | return {word semicolon : Token} {tokens rest : List Token} {returned : Option Expr}
      (keyword : word.kind = .keyword .return)
      (value : Derives attachment .optional tokens returned (semicolon :: rest))
      (ended : semicolon.kind = .mark .semicolon)
    : Derives attachment (.statement false) (word :: tokens) (.return word returned) rest
  | while {unmatched : Bool} {word opening closing : Token} {tokens middle rest : List Token}
      {condition : Expr} {stmt : Stmt} (keyword : word.kind = .keyword .while)
      (opened : opening.kind = .mark .leftParen)
      (test : Derives attachment .expression tokens condition (closing :: middle))
      (closed : closing.kind = .mark .rightParen)
      (body : Derives attachment (.statement unmatched) middle stmt rest)
    : Derives attachment (.statement unmatched) (word :: opening :: tokens)
        (.while condition stmt) rest
  | break {word semicolon : Token} {rest : List Token} (keyword : word.kind = .keyword .break)
      (ended : semicolon.kind = .mark .semicolon)
    : Derives attachment (.statement false) (word :: semicolon :: rest) (.break word) rest
  | blockStatement {tokens rest : List Token} {stmts : List Stmt}
      (body : Derives attachment .block tokens stmts rest)
    : Derives attachment (.statement false) tokens (.block stmts) rest
  | exprStmt {semicolon : Token} {tokens rest : List Token} {expr : Expr}
      (value : Derives attachment .expression tokens expr (semicolon :: rest))
      (ended : semicolon.kind = .mark .semicolon)
    : Derives attachment .exprStmt tokens (.expression expr) rest
  | noInitializer {semicolon : Token} {rest : List Token}
      (ended : semicolon.kind = .mark .semicolon)
    : Derives attachment .forInitializer (semicolon :: rest) none rest
  | initializerVar {tokens rest : List Token} {stmt : Stmt}
      (declared : Derives attachment .varDecl tokens stmt rest)
    : Derives attachment .forInitializer tokens (some stmt) rest
  | initializerExpr {tokens rest : List Token} {stmt : Stmt}
      (stated : Derives attachment .exprStmt tokens stmt rest)
    : Derives attachment .forInitializer tokens (some stmt) rest
  | absent {rest : List Token} : Derives attachment .optional rest none rest
  | present {tokens rest : List Token} {expr : Expr}
      (value : Derives attachment .expression tokens expr rest)
    : Derives attachment .optional tokens (some expr) rest
  -- expression → ( call "." )? IDENT "=" expression | ternary
  | assign {name equal : Token} {tokens rest : List Token} {expr : Expr}
      (named : name.kind = .identifier) (sign : equal.kind = .mark .equal)
      (value : Derives attachment .expression tokens expr rest)
    : Derives attachment .expression (name :: equal :: tokens) (.assign ⟨0, name⟩ expr) rest
  | set {dot name equal : Token} {tokens next rest : List Token} {target expr : Expr}
      (object : Derives attachment .call tokens target (dot :: name :: equal :: next))
      (dotted : dot.kind = .mark .dot) (named : name.kind = .identifier)
      (sign : equal.kind = .mark .equal) (value : Derives attachment .expression next expr rest)
    : Derives attachment .expression tokens (.set target name expr) rest
  | expression {tokens rest : List Token} {expr : Expr}
      (value : Derives attachment .ternary tokens expr rest)
    : Derives attachment .expression tokens expr rest
  -- ternary → logic_or ( "?" expression ":" ternary )?
  | ternary {tokens rest : List Token} {expr : Expr}
      (value : Derives attachment (.chain .or) tokens expr rest)
    : Derives attachment .ternary tokens expr rest
  | conditional {question colon : Token} {tokens middle next rest : List Token}
      {condition positive negative : Expr}
      (test : Derives attachment (.chain .or) tokens condition (question :: middle))
      (asked : question.kind = .mark .question)
      (taken : Derives attachment .expression middle positive (colon :: next))
      (separated : colon.kind = .mark .colon)
      (left : Derives attachment .ternary next negative rest)
    : Derives attachment .ternary tokens (.conditional condition positive negative) rest
  -- operand ( operator operand )*, the operators of a tier grouping to the left
  | chain {tier : Tier} {tokens rest : List Token} {expr : Expr}
      (value : Derives attachment (.operand tier) tokens expr rest)
    : Derives attachment (.chain tier) tokens expr rest
  | logical {tier : Tier} {operator : Token} {tokens middle rest : List Token} {left right : Expr}
      (before : Derives attachment (.chain tier) tokens left (operator :: middle))
      (sign : LogicalOperator tier operator.kind)
      (operand : Derives attachment (.operand tier) middle right rest)
    : Derives attachment (.chain tier) tokens (.logical operator left right) rest
  | binary {tier : Tier} {operator : Token} {tokens middle rest : List Token} {left right : Expr}
      (before : Derives attachment (.chain tier) tokens left (operator :: middle))
      (sign : BinaryOperator tier operator.kind)
      (operand : Derives attachment (.operand tier) middle right rest)
    : Derives attachment (.chain tier) tokens (.binary operator left right) rest
  | operand {tier tighter : Tier} {tokens rest : List Token} {expr : Expr}
      (binds : Tighter tier tighter) (value : Derives attachment (.chain tighter) tokens expr rest)
    : Derives attachment (.operand tier) tokens expr rest
  | factor {tokens rest : List Token} {expr : Expr}
      (value : Derives attachment .unary tokens expr rest)
    : Derives attachment (.operand .factor) tokens expr rest
  -- unary → ( "!" | "-" ) unary | call
  | unary {operator : Token} {tokens rest : List Token} {expr : Expr}
      (sign : UnaryOperator operator.kind) (operand : Derives attachment .unary tokens expr rest)
    : Derives attachment .unary (operator :: tokens) (.unary operator expr) rest
  | unaryCall {tokens rest : List Token} {expr : Expr}
      (value : Derives attachment .call tokens expr rest)
    : Derives attachment .unary tokens expr rest
  -- call → primary ( "(" arguments? ")" | "." IDENT )*
  | primary {tokens rest : List Token} {expr : Expr}
      (value : Derives attachment .primary tokens expr rest)
    : Derives attachment .call tokens expr rest
  | callNone {opening closing : Token} {tokens rest : List Token} {expr : Expr}
      (callee : Derives attachment .call tokens expr (opening :: closing :: rest))
      (opened : opening.kind = .mark .leftParen) (closed : closing.kind = .mark .rightParen)
    : Derives attachment .call tokens (.call expr closing []) rest
  | call {opening closing : Token} {tokens middle rest : List Token} {expr : Expr}
      {exprs : List Expr} (callee : Derives attachment .call tokens expr (opening :: middle))
      (opened : opening.kind = .mark .leftParen)
      (given : Derives attachment .arguments middle exprs (closing :: rest))
      (few : exprs.length ≤ 255)
      (closed : closing.kind = .mark .rightParen)
    : Derives attachment .call tokens (.call expr closing exprs) rest
  | get {dot name : Token} {tokens rest : List Token} {expr : Expr}
      (object : Derives attachment .call tokens expr (dot :: name :: rest))
      (dotted : dot.kind = .mark .dot) (named : name.kind = .identifier)
    : Derives attachment .call tokens (.get expr name) rest
  -- arguments → expression ( "," expression )*
  | argument {tokens rest : List Token} {expr : Expr}
      (value : Derives attachment .expression tokens expr rest)
    : Derives attachment .arguments tokens [expr] rest
  | moreArguments {comma : Token} {tokens middle rest : List Token} {expr : Expr}
      {exprs : List Expr} (first : Derives attachment .expression tokens expr (comma :: middle))
      (separated : comma.kind = .mark .comma)
      (others : Derives attachment .arguments middle exprs rest)
    : Derives attachment .arguments tokens (expr :: exprs) rest
  | literal {token : Token} {rest : List Token} {value : Literal}
      (constant : IsLiteral token.kind value)
    : Derives attachment .primary (token :: rest) (.literal value) rest
  | this {word : Token} {rest : List Token} (keyword : word.kind = .keyword .this)
    : Derives attachment .primary (word :: rest) (.this ⟨0, word⟩) rest
  | name {name : Token} {rest : List Token} (named : name.kind = .identifier)
    : Derives attachment .primary (name :: rest) (.variable ⟨0, name⟩) rest
  | grouping {opening closing : Token} {tokens rest : List Token} {expr : Expr}
      (opened : opening.kind = .mark .leftParen)
      (inner : Derives attachment .expression tokens expr (closing :: rest))
      (closed : closing.kind = .mark .rightParen)
    : Derives attachment .primary (opening :: tokens) (.grouping expr) rest
  | super {word dot method : Token} {rest : List Token} (keyword : word.kind = .keyword .super)
      (dotted : dot.kind = .mark .dot) (named : method.kind = .identifier)
    : Derives attachment .primary (word :: dot :: method :: rest) (.super ⟨0, word⟩ method) rest
  | lambda {word : Token} {tokens middle rest parameters : List Token} {stmts : List Stmt}
      (keyword : word.kind = .keyword .fun) (listed : Parameters tokens parameters middle)
      (body : Derives attachment .block middle stmts rest)
    : Derives attachment .primary (word :: tokens) (.lambda ⟨none, word, parameters, stmts⟩) rest

-----------------------------------------------------------------------------------------
-- The tokens that a derivation takes
-----------------------------------------------------------------------------------------

theorem ParameterList.length_lt {tokens names rest : List Token}
    (h : ParameterList tokens names rest)
    : rest.length < tokens.length := by
  induction h with
  | one => exact Nat.lt_succ_self _
  | more _ _ _ ih => exact Nat.lt_succ_of_lt (Nat.lt_succ_of_lt ih)

theorem Parameters.length_lt {tokens names rest : List Token} (h : Parameters tokens names rest)
    : rest.length < tokens.length := by
  cases h with
  | none => exact Nat.lt_succ_of_lt (Nat.lt_succ_self _)
  | some _ list => exact Nat.lt_succ_of_lt (Nat.lt_of_succ_lt list.length_lt)

theorem Clause.length_le {tokens rest : List Token} {superclass : Option Occurrence}
    (h : Clause tokens superclass rest)
    : rest.length ≤ tokens.length := by
  cases h with
  | none => exact Nat.le.refl
  | some => exact Nat.le_add_right _ 2

/-- The least number of tokens that are derived from the nonterminal. -/
def Nonterminal.least : Nonterminal → Nat
  | .declarations | .members | .optional => 0
  | _ => 1

/-- A derivation takes at least so many tokens. By induction on the derivation. -/
theorem Derives.least_le {attachment : Attachment} {symbol : Nonterminal}
    {tokens rest : List Token} {tree : symbol.Tree}
    (h : Derives attachment symbol tokens tree rest)
    : symbol.least + rest.length ≤ tokens.length := by
  induction h with
  | «class» _ _ clause =>
      have := clause.length_le
      simp only [Nonterminal.least, List.length_cons] at *
      omega
  | function _ listed | lambda _ listed =>
      have := listed.length_lt
      simp only [Nonterminal.least, List.length_cons] at *
      omega
  | _ =>
      simp only [Nonterminal.least, List.length_cons] at *
      omega

theorem ParameterList.suffix {tokens names rest : List Token} (h : ParameterList tokens names rest)
    : rest <:+ tokens := by
  induction h with
  | one => exact List.suffix_cons _ _
  | more _ _ _ ih => exact ih.trans ((List.suffix_cons _ _).trans (List.suffix_cons _ _))

theorem Parameters.suffix {tokens names rest : List Token} (h : Parameters tokens names rest)
    : rest <:+ tokens := by
  cases h with
  | none => exact (List.suffix_cons _ _).trans (List.suffix_cons _ _)
  | some _ list =>
      exact ((List.suffix_cons _ _).trans list.suffix).trans (List.suffix_cons _ _)

theorem Clause.suffix {tokens rest : List Token} {superclass : Option Occurrence}
    (h : Clause tokens superclass rest)
    : rest <:+ tokens := by
  cases h with
  | none => exact List.suffix_rfl
  | some => exact (List.suffix_cons _ _).trans (List.suffix_cons _ _)

/-- A derivation takes tokens from the front. By induction on the derivation. -/
theorem Derives.suffix {attachment : Attachment} {symbol : Nonterminal}
    {tokens rest : List Token} {tree : symbol.Tree}
    (h : Derives attachment symbol tokens tree rest)
    : rest <:+ tokens := by
  induction h with
  | «class» _ _ clause =>
      have before := clause.suffix
      grind [List.IsSuffix.trans, List.suffix_cons]
  | function _ listed | lambda _ listed =>
      have before := listed.suffix
      grind [List.IsSuffix.trans, List.suffix_cons]
  | _ => grind [List.IsSuffix.trans, List.suffix_cons]

/-- The last token up to the rest is one that ends a statement. -/
def Ended (tokens rest : List Token) : Prop :=
  ∃ last, (last.kind = .mark .semicolon ∨ last.kind = .mark .rightBrace) ∧ last :: rest <:+ tokens

theorem Ended.after {tokens middle rest : List Token} (h : Ended middle rest)
    (before : middle <:+ tokens)
    : Ended tokens rest := by
  obtain ⟨last, is, suffix⟩ := h
  exact ⟨last, is, suffix.trans before⟩

/-- How the nonterminal ends. Nothing is said of those that are no statements. -/
def Nonterminal.Ends : Nonterminal → List Token → List Token → Prop
  | .declaration | .function | .varDecl | .block | .statement _ | .exprStmt => Ended
  | _ => fun _ _ => True

/-- Statements end in these ways. By induction on the derivation. -/
theorem Derives.ends {attachment : Attachment} {symbol : Nonterminal}
    {tokens rest : List Token} {tree : symbol.Tree}
    (h : Derives attachment symbol tokens tree rest)
    : symbol.Ends tokens rest := by
  induction h with
  | «class» _ _ clause _ members closed =>
      refine ⟨_, .inr closed, ?_⟩
      have before := clause.suffix
      have inside := members.suffix
      grind [List.IsSuffix.trans, List.suffix_cons]
  | uninitialized _ _ ended =>
      exact ⟨_, .inl ended, (List.suffix_cons _ _).trans (List.suffix_cons _ _)⟩
  | initialized _ _ _ initializer ended =>
      refine ⟨_, .inl ended, ?_⟩
      have inside := initializer.suffix
      grind [List.IsSuffix.trans, List.suffix_cons]
  | block _ body closed => exact ⟨_, .inr closed, body.suffix.trans (List.suffix_cons _ _)⟩
  | print _ value ended | «return» _ value ended =>
      exact ⟨_, .inl ended, value.suffix.trans (List.suffix_cons _ _)⟩
  | «break» _ ended => exact ⟨_, .inl ended, List.suffix_cons _ _⟩
  | exprStmt value ended => exact ⟨_, .inl ended, value.suffix⟩
  | var _ ih | statement _ ih | expressionStatement _ ih | blockStatement _ ih => exact ih
  | named _ _ ih => exact Ended.after ih (List.suffix_cons _ _)
  | function _ listed _ ih => exact Ended.after ih (listed.suffix.trans (List.suffix_cons _ _))
  | «for» _ _ start test _ step _ _ _ _ _ ih =>
      refine Ended.after ih ?_
      have first := start.suffix
      have second := test.suffix
      have third := step.suffix
      grind [List.IsSuffix.trans, List.suffix_cons]
  | «if» _ _ test _ _ _ ih | «while» _ _ test _ _ _ ih =>
      refine Ended.after ih ?_
      have inside := test.suffix
      grind [List.IsSuffix.trans, List.suffix_cons]
  | ifElse _ _ test _ taken _ _ _ _ _ ih =>
      refine Ended.after ih ?_
      have inside := test.suffix
      have branch := taken.suffix
      grind [List.IsSuffix.trans, List.suffix_cons]
  | _ => trivial

/-- The first tokens of primary expressions. -/
inductive PrimaryWord : TokenKind → Prop
  | constant {kind : TokenKind} {value : Literal} (h : IsLiteral kind value) : PrimaryWord kind
  | this : PrimaryWord (.keyword .this)
  | identifier : PrimaryWord .identifier
  | leftParen : PrimaryWord (.mark .leftParen)
  | super : PrimaryWord (.keyword .super)
  | fun : PrimaryWord (.keyword .fun)

/-- The first tokens of expressions. -/
inductive ExpressionWord : TokenKind → Prop
  | operator {kind : TokenKind} (h : UnaryOperator kind) : ExpressionWord kind
  | primary {kind : TokenKind} (h : PrimaryWord kind) : ExpressionWord kind

/-- The first tokens of statements. -/
inductive StatementWord : TokenKind → Prop
  | expression {kind : TokenKind} (h : ExpressionWord kind) : StatementWord kind
  | for : StatementWord (.keyword .for)
  | if : StatementWord (.keyword .if)
  | print : StatementWord (.keyword .print)
  | return : StatementWord (.keyword .return)
  | while : StatementWord (.keyword .while)
  | break : StatementWord (.keyword .break)
  | leftBrace : StatementWord (.mark .leftBrace)

/-- The first tokens of declarations. -/
inductive DeclarationWord : TokenKind → Prop
  | statement {kind : TokenKind} (h : StatementWord kind) : DeclarationWord kind
  | class : DeclarationWord (.keyword .class)
  | fun : DeclarationWord (.keyword .fun)
  | var : DeclarationWord (.keyword .var)

/-- The first token is of one of the kinds. -/
def StartsWith (kinds : TokenKind → Prop) (tokens : List Token) : Prop :=
  ∃ token rest, tokens = token :: rest ∧ kinds token.kind

/-- The first token is of one of the kinds. If it is `fun`, it starts a lambda: a parenthesis comes
after it.
-/
def Opens (kinds : TokenKind → Prop) (tokens : List Token) : Prop :=
  ∃ token rest, tokens = token :: rest ∧ kinds token.kind
    ∧ (token.kind = .keyword .fun → StartsWith (· = .mark .leftParen) rest)

/-- A first token that is not `fun`. -/
theorem Opens.plain {kinds : TokenKind → Prop} {kind : TokenKind} {token : Token}
    {rest : List Token} (is : token.kind = kind) (h : kinds kind) (plain : kind ≠ .keyword .fun)
    : Opens kinds (token :: rest) :=
  ⟨token, rest, rfl, is ▸ h, fun same => absurd (is.symm.trans same) plain⟩

theorem Opens.mono {kinds more : TokenKind → Prop} {tokens : List Token} (h : Opens kinds tokens)
    (weaken : ∀ kind, kinds kind → more kind)
    : Opens more tokens := by
  obtain ⟨token, rest, rfl, is, lambda⟩ := h
  exact ⟨token, rest, rfl, weaken _ is, lambda⟩

theorem Opens.startsWith {kinds : TokenKind → Prop} {tokens : List Token} (h : Opens kinds tokens)
    : StartsWith kinds tokens := by
  obtain ⟨token, rest, rfl, is, _⟩ := h
  exact ⟨token, rest, rfl, is⟩

/-- What the nonterminal can start with. Nothing is said of those that can take no token. -/
def Nonterminal.Starts : Nonterminal → List Token → Prop
  | .primary | .call => Opens PrimaryWord
  | .unary | .operand _ | .chain _ | .ternary | .expression | .arguments | .exprStmt =>
    Opens ExpressionWord
  | .statement _ => Opens StatementWord
  | .declaration => StartsWith DeclarationWord
  | .varDecl => StartsWith (· = .keyword .var)
  | .block => StartsWith (· = .mark .leftBrace)
  | .function => StartsWith (· = .identifier)
  | .declarations | .members | .optional | .forInitializer => fun _ => True

/-- Derivations start in these ways. By induction on the derivation. -/
theorem Derives.starts {attachment : Attachment} {symbol : Nonterminal}
    {tokens rest : List Token} {tree : symbol.Tree}
    (h : Derives attachment symbol tokens tree rest)
    : symbol.Starts tokens := by
  induction h with
  | noDeclaration | moreDeclarations | noMember | staticMember | member => trivial
  | noInitializer | initializerVar | initializerExpr | absent | present => trivial
  | «class» keyword => exact ⟨_, _, rfl, keyword ▸ .class⟩
  | named keyword => exact ⟨_, _, rfl, keyword ▸ .fun⟩
  | var _ ih =>
      obtain ⟨word, more, rfl, keyword⟩ := ih
      exact ⟨word, more, rfl, keyword ▸ .var⟩
  | statement _ ih => exact (ih.mono fun _ => .statement).startsWith
  | function named => exact ⟨_, _, rfl, named⟩
  | uninitialized keyword | initialized keyword => exact ⟨_, _, rfl, keyword⟩
  | block opened => exact ⟨_, _, rfl, opened⟩
  | expressionStatement _ ih => exact ih.mono fun _ => .expression
  | «for» keyword => exact .plain keyword .for nofun
  | «if» keyword | ifElse keyword => exact .plain keyword .if nofun
  | print keyword => exact .plain keyword .print nofun
  | «return» keyword => exact .plain keyword .return nofun
  | «while» keyword => exact .plain keyword .while nofun
  | «break» keyword => exact .plain keyword .break nofun
  | blockStatement _ ih =>
      obtain ⟨opening, more, rfl, opened⟩ := ih
      exact .plain opened .leftBrace nofun
  | assign named => exact .plain named (.primary .identifier) nofun
  | set _ _ _ _ _ ih | unaryCall _ ih => exact ih.mono fun _ => .primary
  | exprStmt _ _ ih | expression _ ih | ternary _ ih | chain _ ih | operand _ _ ih => exact ih
  | conditional _ _ _ _ _ ih | logical _ _ _ ih | binary _ _ _ ih | factor _ ih => exact ih
  | argument _ ih | moreArguments _ _ _ ih | primary _ ih | callNone _ _ _ ih => exact ih
  | call _ _ _ _ _ ih | get _ _ _ ih => exact ih
  | unary sign =>
      refine ⟨_, _, rfl, .operator sign, fun same => ?_⟩
      rw [same] at sign
      cases sign
  | literal constant =>
      refine ⟨_, _, rfl, .constant constant, fun same => ?_⟩
      rw [same] at constant
      cases constant
  | this keyword => exact .plain keyword .this nofun
  | super keyword => exact .plain keyword .super nofun
  | name named => exact .plain named .identifier nofun
  | grouping opened => exact .plain opened .leftParen nofun
  | lambda keyword listed =>
      refine ⟨_, _, rfl, keyword ▸ .fun, fun _ => ?_⟩
      cases listed with
      | none opened | some opened => exact ⟨_, _, rfl, opened⟩

-----------------------------------------------------------------------------------------
-- Targets of assignments
-----------------------------------------------------------------------------------------

/-- An expression that is a variable or a property is derived as what can be assigned to. -/
def Assignable (attachment : Attachment) (tokens : List Token) (expr : Expr)
    (rest : List Token) : Prop :=
  match expr with
  | .variable place =>
    place.id = 0 ∧ place.token.kind = .identifier ∧ tokens = place.token :: rest
  | .get object name =>
    ∃ dot : Token,
      Derives attachment .call tokens object (dot :: name :: rest) ∧ dot.kind = .mark .dot
        ∧ name.kind = .identifier
  | _ => True

/-- The claim of `Assignable` for the expressions below assignments. -/
def Nonterminal.Assigns (attachment : Attachment) :
    (symbol : Nonterminal) → List Token → symbol.Tree → List Token → Prop
  | .ternary, tokens, expr, rest => Assignable attachment tokens expr rest
  | .chain _, tokens, expr, rest => Assignable attachment tokens expr rest
  | .operand _, tokens, expr, rest => Assignable attachment tokens expr rest
  | .unary, tokens, expr, rest => Assignable attachment tokens expr rest
  | .call, tokens, expr, rest => Assignable attachment tokens expr rest
  | .primary, tokens, expr, rest => Assignable attachment tokens expr rest
  | _, _, _, _ => True

/-- What an `=` may follow is told from the tree of its left side. By induction on the derivation;
only names and calls have the trees in question.
-/
theorem Derives.assigns {attachment : Attachment} {symbol : Nonterminal}
    {tokens rest : List Token} {tree : symbol.Tree}
    (h : Derives attachment symbol tokens tree rest)
    : symbol.Assigns attachment tokens tree rest := by
  induction h with
  | ternary _ ih | chain _ ih | operand _ _ ih | factor _ ih | unaryCall _ ih | primary _ ih =>
      exact ih
  | get object dotted named => exact ⟨_, object, dotted, named⟩
  | name named => exact ⟨rfl, named, rfl⟩
  | _ => trivial

end Grammar

end Lox
