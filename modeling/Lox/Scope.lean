import Lox.Diagnostic
import Lox.Syntax
import Lox.Table

/-!
Scope analysis: one walk over a program that tells for each occurrence how many scopes further
out its binding is found, and collects what the rules of scoping forbid. The whole program is a
scope. A name that no scope binds gets no distance, and is looked up among the globals.
-/

namespace Lox

/-- What the rules of scoping forbid. -/
inductive ScopeCause where
  | alreadyDeclared
  | readInInitializer
  | returnOutside
  | returnFromInitializer
  | breakOutside
  | thisOutside
  | superOutside
  | superWithoutSuperclass
  | inheritsItself
  | unused (name : String)
  deriving DecidableEq, Repr

/-- The wording of the cause. -/
def ScopeCause.message : ScopeCause → String
  | .alreadyDeclared => "Already a variable with this name in this scope."
  | .readInInitializer => "Can't read local variable in its own initializer."
  | .returnOutside => "Can't return from top-level code."
  | .returnFromInitializer => "Can't return a value from an initializer."
  | .breakOutside => "Can't use 'break' outside of a loop."
  | .thisOutside => "Can't use 'this' outside of a class."
  | .superOutside => "Can't use 'super' outside of a class."
  | .superWithoutSuperclass => "Can't use 'super' in a class with no superclass."
  | .inheritsItself => "A class can't inherit from itself."
  | .unused name => s!"Variable '{name}' declared but never used."

/-- A violation of the rules at a token. -/
structure ScopeError where
  token : Token
  cause : ScopeCause

/-- The error as a diagnostic. -/
def ScopeError.diagnostic (error : ScopeError) : Diagnostic :=
  .atToken .scoping error.token error.cause.message

/-- How many scopes out the bindings of occurrences are found, the latest finding first. -/
structure Distances where
  entries : List (Nat × Nat)
  deriving DecidableEq, Repr

namespace Distances

/-- No findings. -/
def empty : Distances := ⟨[]⟩

/-- The distance of the binding of an occurrence. -/
def find? (distances : Distances) (id : Nat) : Option Nat := Table.lookup? id distances.entries

/-- Records a finding. -/
def record (distances : Distances) (id distance : Nat) : Distances :=
  ⟨(id, distance) :: distances.entries⟩

/-- The findings of two walks. -/
def merge (earlier later : Distances) : Distances := ⟨later.entries ++ earlier.entries⟩

/-- The number of findings. -/
def size (distances : Distances) : Nat := distances.entries.length

end Distances

/-- How far the declaration of a name has come. -/
inductive Binding where
  /-- Its initializer is not over. -/
  | declared
  | defined
  deriving DecidableEq, Repr

/-- The names that one scope binds so far. -/
abbrev Scope := Table String Binding

/-- The kind of the innermost function body. -/
inductive BodyKind where
  | program
  | function
  | method
  | initializer
  | staticMethod
  deriving DecidableEq, Repr

/-- The kind of the innermost class body. -/
inductive ClassKind where
  | none
  | base
  | derived
  deriving DecidableEq, Repr

/-- The function, class and loops around a place. -/
structure Setting where
  body : BodyKind
  classBody : ClassKind
  /-- The loops of the innermost function body. -/
  loops : Nat
  deriving DecidableEq, Repr

/-- The setting of top-level code. -/
def Setting.top : Setting := ⟨.program, .none, 0⟩

/-- A scope analysis under way. -/
structure Analysis where
  /-- The scopes around the place reached, the innermost first. -/
  scopes : List Scope
  setting : Setting
  distances : Distances
  errors : List ScopeError
  /-- The first `var` declaration of each name, in order. -/
  declared : List Token
  /-- The names read so far. -/
  read : List String

namespace Analysis

/-- The analysis before its walk, in the scope of the whole program. -/
def start : Analysis := ⟨[Table.empty], .top, .empty, [], [], []⟩

/-- Adds an error. -/
def fail (analysis : Analysis) (token : Token) (cause : ScopeCause) : Analysis :=
  { analysis with errors := analysis.errors ++ [⟨token, cause⟩] }

/-- Adds an error if there is cause for it. -/
def failIf (analysis : Analysis) (condition : Bool) (token : Token) (cause : ScopeCause) :
    Analysis :=
  if condition then analysis.fail token cause else analysis

/-- Enters a new scope. -/
def openScope (analysis : Analysis) : Analysis :=
  { analysis with scopes := Table.empty :: analysis.scopes }

/-- Leaves the innermost scope. -/
def closeScope (analysis : Analysis) : Analysis :=
  { analysis with scopes := analysis.scopes.tail }

/-- Binds a name in the innermost scope. -/
def bind (analysis : Analysis) (name : String) (binding : Binding) : Analysis :=
  match analysis.scopes with
  | [] => analysis
  | scope :: outer => { analysis with scopes := scope.set name binding :: outer }

/-- What the innermost scope has for a name. -/
def innermost? (analysis : Analysis) (name : String) : Option Binding :=
  analysis.scopes.head?.bind (·.get? name)

/-- Begins the declaration of a name, which must be new in the innermost scope. -/
def declare (analysis : Analysis) (name : Token) : Analysis :=
  if (analysis.innermost? name.lexeme).isSome then analysis.fail name .alreadyDeclared
  else analysis.bind name.lexeme .declared

/-- Completes the declaration of a name. -/
def define (analysis : Analysis) (name : Token) : Analysis := analysis.bind name.lexeme .defined

/-- Declares a name that is complete at once. -/
def introduce (analysis : Analysis) (name : Token) : Analysis :=
  (analysis.declare name).define name

/-- Finds the innermost scope with the name of an occurrence and records its distance. -/
def locate (analysis : Analysis) (occurrence : Occurrence) : Analysis :=
  match analysis.scopes.findIdx? (·.has occurrence.name) with
  | none => analysis
  | some distance =>
    { analysis with distances := analysis.distances.record occurrence.id distance }

/-- Reads a variable. -/
def readVariable (analysis : Analysis) (occurrence : Occurrence) : Analysis :=
  let checked :=
    analysis.failIf (analysis.innermost? occurrence.name = some .declared) occurrence.token
      .readInInitializer
  { checked with read := occurrence.name :: checked.read }.locate occurrence

/-- Remembers a `var` declaration unless one of that name came before. -/
def trackVariable (analysis : Analysis) (name : Token) : Analysis :=
  if analysis.declared.any (·.lexeme = name.lexeme) then analysis
  else { analysis with declared := analysis.declared ++ [name] }

/-- Continues in another kind of class body. -/
def inClass (analysis : Analysis) (kind : ClassKind) : Analysis :=
  { analysis with setting := { analysis.setting with classBody := kind } }

/-- Continues in a function body within some loops of its own. -/
def inBody (analysis : Analysis) (kind : BodyKind) (loops : Nat) : Analysis :=
  { analysis with setting := { analysis.setting with body := kind, loops := loops } }

/-- Continues in a function body of the same kind within other loops. -/
def inLoops (analysis : Analysis) (loops : Nat) : Analysis :=
  analysis.inBody analysis.setting.body loops

/-- Reads `this`. -/
def readThis (analysis : Analysis) (occurrence : Occurrence) : Analysis :=
  match analysis.setting.classBody with
  | .none => analysis.fail occurrence.token .thisOutside
  | .base | .derived => analysis.locate occurrence

/-- Reads `super`. -/
def readSuper (analysis : Analysis) (occurrence : Occurrence) : Analysis :=
  match analysis.setting.classBody with
  | .none => analysis.fail occurrence.token .superOutside
  | .base => analysis.fail occurrence.token .superWithoutSuperclass
  | .derived => analysis.locate occurrence

/-- Enters the scope of a superclass clause, which binds `super`. A class that names itself
does not look the name up. -/
def openSuperclass (analysis : Analysis) (name : Token) (superclass : Occurrence) : Analysis :=
  let resolved :=
    if superclass.name = name.lexeme then analysis.fail superclass.token .inheritsItself
    else analysis.readVariable superclass
  (resolved.inClass .derived).openScope.bind "super" .defined

/-- Enters a scope that binds `this`. -/
def openReceiver (analysis : Analysis) : Analysis := analysis.openScope.bind "this" .defined

/-- The kind of the body of an instance method. -/
def methodKind (declaration : FunctionDecl) : BodyKind :=
  if declaration.initializes then .initializer else .method

mutual

/-- Walks an expression. The value of an assignment comes before its target. -/
def expr : Expr → Analysis → Analysis
  | .literal _, analysis => analysis
  | .grouping inner, analysis => expr inner analysis
  | .unary _ operand, analysis => expr operand analysis
  | .binary _ left right, analysis => expr right (expr left analysis)
  | .logical _ left right, analysis => expr right (expr left analysis)
  | .conditional condition positive negative, analysis =>
    expr negative (expr positive (expr condition analysis))
  | .variable occurrence, analysis => analysis.readVariable occurrence
  | .assign target value, analysis => (expr value analysis).locate target
  | .call callee _ arguments, analysis => exprs arguments (expr callee analysis)
  | .get object _, analysis => expr object analysis
  | .set object _ value, analysis => expr object (expr value analysis)
  | .this occurrence, analysis => analysis.readThis occurrence
  | .super occurrence _, analysis => analysis.readSuper occurrence
  | .lambda declaration, analysis => function .function declaration analysis

/-- Walks some expressions in order. -/
def exprs : List Expr → Analysis → Analysis
  | [], analysis => analysis
  | first :: rest, analysis => exprs rest (expr first analysis)

/-- Walks the body of a function in a scope that it shares with the parameters. Loops around
the function do not reach into it. -/
def function (kind : BodyKind) : FunctionDecl → Analysis → Analysis
  | ⟨_, _, parameters, body⟩, analysis =>
    let inside := parameters.foldl introduce (analysis.inBody kind 0).openScope
    (stmts body inside).closeScope.inBody analysis.setting.body analysis.setting.loops

/-- Walks static methods. -/
def staticMethods : List FunctionDecl → Analysis → Analysis
  | [], analysis => analysis
  | first :: rest, analysis => staticMethods rest (function .staticMethod first analysis)

/-- Walks instance methods. -/
def instanceMethods : List FunctionDecl → Analysis → Analysis
  | [], analysis => analysis
  | first :: rest, analysis => instanceMethods rest (function (methodKind first) first analysis)

/-- Walks a class. The static methods and the instance methods have a scope for their receiver
each, inside that of the superclass. -/
def classDecl : ClassDecl → Analysis → Analysis
  | ⟨name, superclass, methods, statics⟩, analysis =>
    let named := (analysis.inClass .base).declare name
    let inside :=
      match superclass with
      | none => named
      | some occurrence => named.openSuperclass name occurrence
    let afterStatics := (staticMethods statics inside.openReceiver).closeScope
    let afterMethods := (instanceMethods methods afterStatics.openReceiver).closeScope
    let outside := if superclass.isSome then afterMethods.closeScope else afterMethods
    (outside.define name).inClass analysis.setting.classBody

/-- Walks a statement. -/
def stmt : Stmt → Analysis → Analysis
  | .expression value, analysis => expr value analysis
  | .print _ value, analysis => expr value analysis
  | .var name none, analysis => (analysis.introduce name).trackVariable name
  | .var name (some initializer), analysis =>
    ((expr initializer (analysis.declare name)).define name).trackVariable name
  | .block body, analysis => (stmts body analysis.openScope).closeScope
  | .if condition positive none, analysis => stmt positive (expr condition analysis)
  | .if condition positive (some negative), analysis =>
    stmt negative (stmt positive (expr condition analysis))
  | .while condition body, analysis =>
    let inside := analysis.inLoops (analysis.setting.loops + 1)
    let after := stmt body (expr condition inside)
    after.inLoops (after.setting.loops - 1)
  | .break keyword, analysis =>
    analysis.failIf (analysis.setting.loops = 0) keyword .breakOutside
  | .function declaration, analysis =>
    let named :=
      match declaration.name with
      | some name => analysis.introduce name
      | none => analysis
    function .function declaration named
  | .return keyword none, analysis =>
    analysis.failIf (analysis.setting.body = .program) keyword .returnOutside
  | .return keyword (some value), analysis =>
    let placed := analysis.failIf (analysis.setting.body = .program) keyword .returnOutside
    expr value
      (placed.failIf (placed.setting.body = .initializer) keyword .returnFromInitializer)
  | .class declaration, analysis => classDecl declaration analysis

/-- Walks some statements in order. -/
def stmts : List Stmt → Analysis → Analysis
  | [], analysis => analysis
  | first :: rest, analysis => stmts rest (stmt first analysis)

end

/-- Adds an error for each declared variable that no part of the program reads. -/
def checkUnused (analysis : Analysis) : Analysis :=
  let unused := analysis.declared.filter fun name => !analysis.read.contains name.lexeme
  { analysis with
    errors := analysis.errors ++ unused.map fun name => ⟨name, .unused name.lexeme⟩ }

/-- The distances found, or all errors in order. -/
def result (analysis : Analysis) : Except (List ScopeError) Distances :=
  if analysis.errors.isEmpty then .ok analysis.distances else .error analysis.errors

end Analysis

/-- Resolves the occurrences of a program. Unused variables count as errors on demand. -/
def Program.resolve (program : Program) (reportUnused : Bool) :
    Except (List ScopeError) Distances :=
  let walked := Analysis.stmts program .start
  (if reportUnused then walked.checkUnused else walked).result

/-- Resolves the occurrences of an expression by itself. -/
def Expr.resolve (expr : Expr) : Except (List ScopeError) Distances :=
  (Analysis.expr expr .start).result

end Lox
