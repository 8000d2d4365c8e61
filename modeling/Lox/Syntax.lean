import Lox.Token

/-!
Syntax trees of Lox. Operators, names and keywords stay in the tree as tokens, since faults are
located at them. An occurrence of a variable, of `this` or of `super` has a number of its own,
under which the scope analysis records where its binding is found.
-/

namespace Lox

/-- A place in a program where a binding is looked up. -/
structure Occurrence where
  /-- No other occurrence has this number. -/
  id : Nat
  /-- The name, or the keyword `this` or `super`. -/
  token : Token

/-- The name that is looked up. -/
def Occurrence.name (occurrence : Occurrence) : String := occurrence.token.lexeme

/-- What an occurrence is used for. -/
inductive Use where
  /-- A variable is read. -/
  | variable
  /-- A variable is assigned. -/
  | assign
  | this
  | super
  deriving DecidableEq, Repr

/-- Constants in a program. -/
inductive Literal where
  | nil
  | bool (value : Bool)
  | number (value : Float)
  | string (content : String)

mutual

/-- Expressions. -/
inductive Expr where
  | literal (value : Literal)
  | grouping (inner : Expr)
  | unary (operator : Token) (operand : Expr)
  | binary (operator : Token) (left right : Expr)
  /-- `and` and `or`. -/
  | logical (operator : Token) (left right : Expr)
  | conditional (condition positive negative : Expr)
  | variable (occurrence : Occurrence)
  | assign (target : Occurrence) (value : Expr)
  /-- A call, located at its closing parenthesis. -/
  | call (callee : Expr) (closing : Token) (arguments : List Expr)
  | get (object : Expr) (property : Token)
  | set (object : Expr) (property : Token) (value : Expr)
  | this (occurrence : Occurrence)
  | super (occurrence : Occurrence) (method : Token)
  | lambda (function : FunctionDecl)

/-- Named functions, methods and lambdas. -/
structure FunctionDecl where
  /-- Absent for a lambda. -/
  name : Option Token
  /-- The name, or the keyword that starts a lambda. -/
  keyword : Token
  parameters : List Token
  body : List Stmt

/-- Statements. -/
inductive Stmt where
  | expression (value : Expr)
  | print (keyword : Token) (value : Expr)
  | var (name : Token) (initializer : Option Expr)
  | block (body : List Stmt)
  | if (condition : Expr) (positive : Stmt) (negative : Option Stmt)
  | while (condition : Expr) (body : Stmt)
  | break (keyword : Token)
  | function (declaration : FunctionDecl)
  | return (keyword : Token) (value : Option Expr)
  | class (declaration : ClassDecl)

/-- Classes. The instance methods and the static methods are kept in the order they are
written in. -/
structure ClassDecl where
  name : Token
  superclass : Option Occurrence
  methods : List FunctionDecl
  statics : List FunctionDecl

end

/-- A program is its declarations in order. -/
abbrev Program := List Stmt

/-- The name of a function in messages. -/
def FunctionDecl.displayName (declaration : FunctionDecl) : String :=
  match declaration.name with
  | some token => token.lexeme
  | none => "anonymous"

/-- The number of arguments a function takes. -/
def FunctionDecl.arity (declaration : FunctionDecl) : Nat := declaration.parameters.length

/-- The name of the method that initializes an instance. -/
def initializerName : String := "init"

/-- An instance method of this name runs when an instance is made. -/
def FunctionDecl.initializes (declaration : FunctionDecl) : Bool :=
  declaration.displayName = initializerName

end Lox
