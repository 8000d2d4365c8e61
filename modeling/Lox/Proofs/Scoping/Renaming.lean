import Lox.Proofs.Scanning.Steps
import Lox.Proofs.Syntax.Grammar

/-! Scope analysis of a program under other names. Variables, functions, classes and parameters
are renamed; properties and methods keep their names, and so do `this` and `super`. The analysis
compares names and looks at them in no other way, so that names which are kept apart have the same
distances, and the errors differ by the names that they mention.
-/

namespace Lox

-----------------------------------------------------------------------------------------
-- Trees under other names
-----------------------------------------------------------------------------------------

section

variable (change : String → String)

/-- The token under another name. -/
def Token.rename (token : Token) : Token := { token with lexeme := change token.lexeme }

/-- The occurrence under another name. -/
def Occurrence.rename (occurrence : Occurrence) : Occurrence :=
  ⟨occurrence.id, occurrence.token.rename change⟩

/-- The name that a function statement declares is changed. -/
def FunctionDecl.renameSelf (declaration : FunctionDecl) : FunctionDecl :=
  { declaration with
    name := declaration.name.map (Token.rename change)
    keyword := declaration.keyword.rename change }

mutual

/-- The expression under other names. A property keeps its name. -/
def Expr.rename : Expr → Expr
  | .literal value => .literal value
  | .grouping inner => .grouping inner.rename
  | .unary operator operand => .unary operator operand.rename
  | .binary operator left right => .binary operator left.rename right.rename
  | .logical operator left right => .logical operator left.rename right.rename
  | .conditional condition positive negative =>
    .conditional condition.rename positive.rename negative.rename
  | .variable occurrence => .variable (occurrence.rename change)
  | .assign target value => .assign (target.rename change) value.rename
  | .call callee closing arguments => .call callee.rename closing (Exprs.rename arguments)
  | .get object property => .get object.rename property
  | .set object property value => .set object.rename property value.rename
  | .this occurrence => .this occurrence
  | .super occurrence method => .super occurrence method
  | .lambda function => .lambda function.rename

def Exprs.rename : List Expr → List Expr
  | [] => []
  | expr :: rest => expr.rename :: Exprs.rename rest

/-- The parameters and the body of a function under other names. A method keeps its own name. -/
def FunctionDecl.rename : FunctionDecl → FunctionDecl
  | ⟨name, keyword, parameters, body⟩ =>
    ⟨name, keyword, parameters.map (Token.rename change), Stmts.rename body⟩

def Functions.rename : List FunctionDecl → List FunctionDecl
  | [] => []
  | function :: rest => function.rename :: Functions.rename rest

def ClassDecl.rename : ClassDecl → ClassDecl
  | ⟨name, superclass, methods, statics⟩ =>
    ⟨name.rename change, superclass.map (Occurrence.rename change), Functions.rename methods,
      Functions.rename statics⟩

/-- The statement under other names. -/
def Stmt.rename : Stmt → Stmt
  | .expression value => .expression value.rename
  | .print keyword value => .print keyword value.rename
  | .var name none => .var (name.rename change) none
  | .var name (some initializer) => .var (name.rename change) (some initializer.rename)
  | .block body => .block (Stmts.rename body)
  | .if condition positive none => .if condition.rename positive.rename none
  | .if condition positive (some negative) =>
    .if condition.rename positive.rename (some negative.rename)
  | .while condition body => .while condition.rename body.rename
  | .break keyword => .break keyword
  | .function declaration => .function (declaration.rename.renameSelf change)
  | .return keyword none => .return keyword none
  | .return keyword (some value) => .return keyword (some value.rename)
  | .class declaration => .class declaration.rename

/-- The program under other names. -/
def Stmts.rename : List Stmt → List Stmt
  | [] => []
  | stmt :: rest => stmt.rename :: Stmts.rename rest

end

/-- The cause under other names. -/
def ScopeCause.rename : ScopeCause → ScopeCause
  | .unused name => .unused (change name)
  | cause => cause

/-- Errors of this cause are located at a name. All others are located at a keyword. -/
def ScopeCause.isAtName : ScopeCause → Bool
  | .alreadyDeclared | .readInInitializer | .inheritsItself | .unused _ => true
  | .returnOutside | .returnFromInitializer | .breakOutside | .thisOutside | .superOutside
  | .superWithoutSuperclass => false

/-- The error under other names: at the same line, of the same kind and of the same cause. -/
def ScopeError.rename (error : ScopeError) : ScopeError where
  token := if error.cause.isAtName then error.token.rename change else error.token
  cause := error.cause.rename change

end

/-- The name that is declared or looked up at a place, if it is not a keyword. -/
def Place.identifier? (place : Place) : Option String :=
  match place.act with
  | .use .variable occurrence | .use .assign occurrence => some occurrence.name
  | .declare name => some name.lexeme
  | _ => none

/-- The names of a program, of which some may come more than once. -/
def Program.names (program : Program) : List String := program.places.filterMap Place.identifier?

-----------------------------------------------------------------------------------------
-- Pairs of names
-----------------------------------------------------------------------------------------

/-- Names of two programs are paired one to one, and `this` and `super` with themselves. -/
structure OneToOne (pairs : String → String → Prop) : Prop where
  matched : ∀ {a b c d}, pairs a b → pairs c d → (a = c ↔ b = d)
  this : pairs "this" "this"
  super : pairs "super" "super"

/-- What is named at a place is paired with its name after a change. -/
def Act.Paired (pairs : String → String → Prop) (change : String → String) : Act → Prop
  | .use .variable occurrence | .use .assign occurrence =>
    pairs occurrence.name (change occurrence.name)
  | .use .this occurrence | .use .super occurrence => pairs occurrence.name occurrence.name
  | .declare name => pairs name.lexeme (change name.lexeme)
  | .function _ | .branch _ | .inheritItself _ | .return _ _ | .break _ => True

/-- Two scopes agree on paired names. -/
def Scope.Agrees (pairs : String → String → Prop) (scope other : Scope) : Prop :=
  ∀ {a b}, pairs a b → other.get? b = scope.get? a

theorem Scope.Agrees.has {pairs : String → String → Prop} {scope other : Scope}
    (h : scope.Agrees pairs other) {a b : String} (pair : pairs a b)
    : other.has b = scope.has a :=
  congrArg Option.isSome (h pair)

/-- Scopes still agree when paired names are bound. -/
theorem Scope.Agrees.set {pairs : String → String → Prop} (pairing : OneToOne pairs)
    {scope other : Scope} (h : scope.Agrees pairs other) {a b : String} (pair : pairs a b)
    (binding : Binding)
    : Scope.Agrees pairs (scope.set a binding) (other.set b binding) := by
  intro c d next
  rw [Table.get?_set, Table.get?_set, h next]
  simp only [pairing.matched next pair]

-----------------------------------------------------------------------------------------
-- Analyses that mirror each other
-----------------------------------------------------------------------------------------

namespace Analysis

/-- The other analysis has come as far under other names. -/
structure Mirrors (pairs : String → String → Prop) (change : String → String)
    (analysis other : Analysis) : Prop where
  scopes : List.Forall₂ (Scope.Agrees pairs) analysis.scopes other.scopes
  setting : other.setting = analysis.setting
  distances : other.distances = analysis.distances
  errors : other.errors = analysis.errors.map (ScopeError.rename change)
  declared : other.declared = analysis.declared.map (Token.rename change)
  read : other.read = analysis.read.map change
  named : ∀ token ∈ analysis.declared, pairs token.lexeme (change token.lexeme)
  seen : ∀ name ∈ analysis.read, pairs name (change name)

variable {pairs : String → String → Prop} {change : String → String}
  {analysis other : Analysis}

theorem mirrors_start : start.Mirrors pairs change start where
  scopes := .cons (fun _ => rfl) .nil
  setting := rfl
  distances := rfl
  errors := rfl
  declared := rfl
  read := rfl
  named := List.forall_mem_nil _
  seen := List.forall_mem_nil _

namespace Mirrors

/-- Paired names are equally far in the innermost scopes. -/
theorem innermost?_eq (h : analysis.Mirrors pairs change other) {a b : String} (pair : pairs a b)
    : other.innermost? b = analysis.innermost? a := by
  obtain ⟨scopes, _, _, _, _, _⟩ := analysis
  obtain ⟨others, _, _, _, _, _⟩ := other
  have agree := h.scopes
  cases agree with
  | nil => rfl
  | cons head tail => exact head pair

/-- Paired names are found equally far out, by induction over the scopes. -/
theorem findIdx?_eq (h : analysis.Mirrors pairs change other) {a b : String} (pair : pairs a b)
    : other.scopes.findIdx? (·.has b) = analysis.scopes.findIdx? (·.has a) := by
  have agree := h.scopes
  generalize analysis.scopes = scopes at agree ⊢
  generalize other.scopes = others at agree ⊢
  induction agree with
  | nil => rfl
  | cons head tail ih => simp only [List.findIdx?_cons, head.has pair, ih]

/-- An error is added on both sides. -/
theorem fail (h : analysis.Mirrors pairs change other) {token renamed : Token} {cause : ScopeCause}
    (same : ScopeError.rename change ⟨token, cause⟩ = ⟨renamed, cause⟩)
    : (analysis.fail token cause).Mirrors pairs change (other.fail renamed cause) where
  scopes := h.scopes
  setting := h.setting
  distances := h.distances
  errors := by
    change other.errors ++ _ = (analysis.errors ++ _).map _
    rw [List.map_append, h.errors, List.map_singleton, same]
  declared := h.declared
  read := h.read
  named := h.named
  seen := h.seen

theorem failIf (h : analysis.Mirrors pairs change other) (token renamed : Token)
    (cause : ScopeCause) (condition : Bool)
    (same : ScopeError.rename change ⟨token, cause⟩ = ⟨renamed, cause⟩)
    : (analysis.failIf condition token cause).Mirrors pairs change
        (other.failIf condition renamed cause) := by
  cases condition with
  | false => exact h
  | true => exact h.fail same

theorem openScope (h : analysis.Mirrors pairs change other)
    : analysis.openScope.Mirrors pairs change other.openScope :=
  { h with scopes := .cons (fun _ => rfl) h.scopes }

theorem closeScope (h : analysis.Mirrors pairs change other)
    : analysis.closeScope.Mirrors pairs change other.closeScope :=
  { h with
    scopes := by
      obtain ⟨scopes, _, _, _, _, _⟩ := analysis
      obtain ⟨others, _, _, _, _, _⟩ := other
      have agree := h.scopes
      cases agree with
      | nil => exact .nil
      | cons head tail => exact tail }

theorem bind (pairing : OneToOne pairs) (h : analysis.Mirrors pairs change other) {a b : String}
    (pair : pairs a b) (binding : Binding)
    : (analysis.bind a binding).Mirrors pairs change (other.bind b binding) := by
  obtain ⟨scopes, _, _, _, _, _⟩ := analysis
  obtain ⟨others, _, _, _, _, _⟩ := other
  have agree := h.scopes
  cases agree with
  | nil => exact h
  | cons head tail => exact { h with scopes := .cons (head.set pairing pair binding) tail }

theorem declare (pairing : OneToOne pairs) (h : analysis.Mirrors pairs change other) {name : Token}
    (pair : pairs name.lexeme (change name.lexeme))
    : (analysis.declare name).Mirrors pairs change (other.declare (name.rename change)) := by
  have status : other.innermost? (name.rename change).lexeme = analysis.innermost? name.lexeme :=
    h.innermost?_eq pair
  unfold Analysis.declare
  rw [status]
  split
  · exact h.fail rfl
  · exact h.bind pairing pair .declared

theorem define (pairing : OneToOne pairs) (h : analysis.Mirrors pairs change other) {name : Token}
    (pair : pairs name.lexeme (change name.lexeme))
    : (analysis.define name).Mirrors pairs change (other.define (name.rename change)) :=
  h.bind pairing pair .defined

theorem introduce (pairing : OneToOne pairs) (h : analysis.Mirrors pairs change other)
    {name : Token} (pair : pairs name.lexeme (change name.lexeme))
    : (analysis.introduce name).Mirrors pairs change (other.introduce (name.rename change)) :=
  (h.declare pairing pair).define pairing pair

/-- Parameters are introduced one after the other, by induction over them. -/
theorem introduceAll (pairing : OneToOne pairs) {names : List Token} {around : Surroundings}
    (h : analysis.Mirrors pairs change other)
    (paired : ∀ place ∈ Places.ofParameters names around, place.act.Paired pairs change)
    : (names.foldl Analysis.introduce analysis).Mirrors pairs change
        ((names.map (Token.rename change)).foldl Analysis.introduce other) := by
  induction names generalizing analysis other around with
  | nil => exact h
  | cons name rest ih =>
      obtain ⟨first, later⟩ := List.forall_mem_cons.1 paired
      exact ih (h.introduce pairing first) later

theorem locate (h : analysis.Mirrors pairs change other) {occurrence renamed : Occurrence}
    (pair : pairs occurrence.name renamed.name) (same : renamed.id = occurrence.id)
    : (analysis.locate occurrence).Mirrors pairs change (other.locate renamed) := by
  unfold Analysis.locate
  rw [h.findIdx?_eq pair]
  split
  · exact h
  · next distance found =>
      have distances
          : other.distances.record renamed.id distance
            = analysis.distances.record occurrence.id distance := by
        rw [h.distances, same]
      exact { h with distances := distances }

theorem readVariable (h : analysis.Mirrors pairs change other) {occurrence : Occurrence}
    (pair : pairs occurrence.name (change occurrence.name))
    : (analysis.readVariable occurrence).Mirrors pairs change
        (other.readVariable (occurrence.rename change)) := by
  have status
      : other.innermost? (occurrence.rename change).name = analysis.innermost? occurrence.name :=
    h.innermost?_eq pair
  unfold Analysis.readVariable
  rw [status]
  have checked := h.failIf occurrence.token (occurrence.rename change).token .readInInitializer
    (analysis.innermost? occurrence.name = some .declared) rfl
  refine locate ?_ pair rfl
  exact { checked with
    read := congrArg (change occurrence.name :: ·) checked.read
    seen := List.forall_mem_cons.2 ⟨pair, checked.seen⟩ }

theorem trackVariable (pairing : OneToOne pairs) (h : analysis.Mirrors pairs change other)
    {name : Token} (pair : pairs name.lexeme (change name.lexeme))
    : (analysis.trackVariable name).Mirrors pairs change
        (other.trackVariable (name.rename change)) := by
  have known
      : other.declared.any (·.lexeme = (name.rename change).lexeme)
        = analysis.declared.any (·.lexeme = name.lexeme) := by
    rw [h.declared, List.any_map]
    rw [Bool.eq_iff_iff, List.any_eq_true, List.any_eq_true]
    refine exists_congr fun token => and_congr_right fun member => ?_
    rw [decide_eq_true_iff, Function.comp, decide_eq_true_iff]
    exact (pairing.matched (h.named token member) pair).symm
  unfold Analysis.trackVariable
  rw [known]
  split
  · exact h
  · have declared
        : other.declared ++ [name.rename change]
          = (analysis.declared ++ [name]).map (Token.rename change) := by
      rw [h.declared, List.map_append, List.map_singleton]
    exact { h with
      declared := declared
      named := List.forall_mem_append.2 ⟨h.named, List.forall_mem_singleton.2 pair⟩ }

theorem inClass (h : analysis.Mirrors pairs change other) (kind : ClassKind)
    : (analysis.inClass kind).Mirrors pairs change (other.inClass kind) :=
  { h with setting := by simp only [Analysis.inClass, h.setting] }

theorem inBody (h : analysis.Mirrors pairs change other) (kind : BodyKind) (loops : Nat)
    : (analysis.inBody kind loops).Mirrors pairs change (other.inBody kind loops) :=
  { h with setting := by simp only [Analysis.inBody, h.setting] }

theorem inLoops (h : analysis.Mirrors pairs change other) (loops : Nat)
    : (analysis.inLoops loops).Mirrors pairs change (other.inLoops loops) := by
  unfold Analysis.inLoops
  rw [h.setting]
  exact h.inBody _ loops

theorem readThis (h : analysis.Mirrors pairs change other) {occurrence : Occurrence}
    (pair : pairs occurrence.name occurrence.name)
    : (analysis.readThis occurrence).Mirrors pairs change (other.readThis occurrence) := by
  unfold Analysis.readThis
  rw [h.setting]
  cases analysis.setting.classBody with
  | none => exact h.fail rfl
  | base | derived => exact h.locate pair rfl

theorem readSuper (h : analysis.Mirrors pairs change other) {occurrence : Occurrence}
    (pair : pairs occurrence.name occurrence.name)
    : (analysis.readSuper occurrence).Mirrors pairs change (other.readSuper occurrence) := by
  unfold Analysis.readSuper
  rw [h.setting]
  cases analysis.setting.classBody with
  | none | base => exact h.fail rfl
  | derived => exact h.locate pair rfl

/-- A class names itself as its superclass on both sides or on none. -/
theorem openSuperclass (pairing : OneToOne pairs) (h : analysis.Mirrors pairs change other)
    {name : Token} (pair : pairs name.lexeme (change name.lexeme)) {occurrence : Occurrence}
    {around : Surroundings}
    (paired
      : ∀ place ∈ Places.ofClause name (some occurrence) around, place.act.Paired pairs change)
    : (analysis.openSuperclass name occurrence).Mirrors pairs change
        (other.openSuperclass (name.rename change) (occurrence.rename change)) := by
  have opened {resolved renamed : Analysis} (h : resolved.Mirrors pairs change renamed) :=
    (h.inClass .derived).openScope.bind pairing pairing.super .defined
  unfold Analysis.openSuperclass
  unfold Places.ofClause at paired
  by_cases same : occurrence.name = name.lexeme
  · have renamed : (occurrence.rename change).name = (name.rename change).lexeme :=
      congrArg change same
    simp only [same, renamed, if_true]
    exact opened (h.fail rfl)
  · simp only [same, if_false] at paired
    have read := List.forall_mem_singleton.1 paired
    have renamed : (occurrence.rename change).name ≠ (name.rename change).lexeme :=
      fun equal => same ((pairing.matched read pair).2 equal)
    simp only [same, renamed, if_false]
    exact opened (h.readVariable read)

theorem openReceiver (pairing : OneToOne pairs) (h : analysis.Mirrors pairs change other)
    : analysis.openReceiver.Mirrors pairs change other.openReceiver :=
  h.openScope.bind pairing pairing.this .defined

end Mirrors

-----------------------------------------------------------------------------------------
-- The walk
-----------------------------------------------------------------------------------------

mutual

/-- The walk over an expression under other names mirrors the walk over the expression, by induction
over the tree.
-/
theorem mirrors_expr (pairing : OneToOne pairs) (tree : Expr) {analysis other : Analysis}
    {around : Surroundings} (h : analysis.Mirrors pairs change other)
    (paired : ∀ place ∈ Places.ofExpr tree around, place.act.Paired pairs change)
    : (expr tree analysis).Mirrors pairs change (expr (tree.rename change) other) := by
  cases tree with
  | literal value => exact h
  | grouping inner => exact mirrors_expr pairing inner h paired
  | unary operator operand => exact mirrors_expr pairing operand h paired
  | binary operator left right | logical operator left right =>
      obtain ⟨first, second⟩ := List.forall_mem_append.1 paired
      exact mirrors_expr pairing right (mirrors_expr pairing left h first) second
  | conditional condition positive negative =>
      obtain ⟨first, rest⟩ := List.forall_mem_append.1 paired
      obtain ⟨second, third⟩ := List.forall_mem_append.1 rest
      have tested := mirrors_expr pairing condition h first
      exact mirrors_expr pairing negative (mirrors_expr pairing positive tested second) third
  | «variable» occurrence =>
      have pair := List.forall_mem_singleton.1 paired
      exact h.readVariable pair
  | assign target value =>
      obtain ⟨first, second⟩ := List.forall_mem_append.1 paired
      have pair := List.forall_mem_singleton.1 second
      exact (mirrors_expr pairing value h first).locate pair rfl
  | call callee closing arguments =>
      obtain ⟨first, second⟩ := List.forall_mem_append.1 paired
      exact mirrors_exprs pairing arguments (mirrors_expr pairing callee h first) second
  | get object property => exact mirrors_expr pairing object h paired
  | set object property value =>
      obtain ⟨first, second⟩ := List.forall_mem_append.1 paired
      exact mirrors_expr pairing object (mirrors_expr pairing value h first) second
  | this occurrence =>
      have pair := List.forall_mem_singleton.1 paired
      exact h.readThis pair
  | super occurrence method =>
      have pair := List.forall_mem_singleton.1 paired
      exact h.readSuper pair
  | lambda declaration => exact mirrors_function pairing .function declaration h paired

theorem mirrors_exprs (pairing : OneToOne pairs) (trees : List Expr) {analysis other : Analysis}
    {around : Surroundings} (h : analysis.Mirrors pairs change other)
    (paired : ∀ place ∈ Places.ofExprs trees around, place.act.Paired pairs change)
    : (exprs trees analysis).Mirrors pairs change (exprs (Exprs.rename change trees) other) := by
  cases trees with
  | nil => exact h
  | cons first rest =>
      obtain ⟨head, tail⟩ := List.forall_mem_append.1 paired
      exact mirrors_exprs pairing rest (mirrors_expr pairing first h head) tail

theorem mirrors_function (pairing : OneToOne pairs) (kind : BodyKind) (declaration : FunctionDecl)
    {analysis other : Analysis} {around : Surroundings} (h : analysis.Mirrors pairs change other)
    (paired : ∀ place ∈ Places.ofFunction kind declaration around, place.act.Paired pairs change)
    : (function kind declaration analysis).Mirrors pairs change
        (function kind (declaration.rename change) other) := by
  cases declaration with
  | mk name keyword parameters body =>
      obtain ⟨first, second⟩ := List.forall_mem_append.1 paired
      have inside := (h.inBody kind 0).openScope.introduceAll pairing first
      have walked := mirrors_stmts pairing body inside second
      simp only [FunctionDecl.rename, function]
      rw [h.setting]
      exact walked.closeScope.inBody _ _

theorem mirrors_statics (pairing : OneToOne pairs) (methods : List FunctionDecl)
    {analysis other : Analysis} {around : Surroundings} (h : analysis.Mirrors pairs change other)
    (paired : ∀ place ∈ Places.ofStatics methods around, place.act.Paired pairs change)
    : (staticMethods methods analysis).Mirrors pairs change
        (staticMethods (Functions.rename change methods) other) := by
  cases methods with
  | nil => exact h
  | cons first rest =>
      obtain ⟨head, tail⟩ := List.forall_mem_append.1 paired
      exact mirrors_statics pairing rest (mirrors_function pairing .staticMethod first h head) tail

/-- Methods keep their names, so that the same one is the initializer. -/
theorem mirrors_methods (pairing : OneToOne pairs) (methods : List FunctionDecl)
    {analysis other : Analysis} {around : Surroundings} (h : analysis.Mirrors pairs change other)
    (paired : ∀ place ∈ Places.ofMethods methods around, place.act.Paired pairs change)
    : (instanceMethods methods analysis).Mirrors pairs change
        (instanceMethods (Functions.rename change methods) other) := by
  cases methods with
  | nil => exact h
  | cons first rest =>
      have kind : methodKind (first.rename change) = methodKind first := by
        cases first
        rfl
      obtain ⟨head, tail⟩ := List.forall_mem_append.1 paired
      simp only [Functions.rename, instanceMethods, kind]
      exact mirrors_methods pairing rest
        (mirrors_function pairing (methodKind first) first h head) tail

theorem mirrors_class (pairing : OneToOne pairs) (definition : ClassDecl)
    {analysis other : Analysis} {around : Surroundings} (h : analysis.Mirrors pairs change other)
    (paired : ∀ place ∈ Places.ofClass definition around, place.act.Paired pairs change)
    : (classDecl definition analysis).Mirrors pairs change
        (classDecl (definition.rename change) other) := by
  cases definition with
  | mk name superclass methods statics =>
      obtain ⟨pair, rest⟩ := List.forall_mem_cons.1 paired
      obtain ⟨clause, members⟩ := List.forall_mem_append.1 rest
      obtain ⟨first, second⟩ := List.forall_mem_append.1 members
      have named := (h.inClass .base).declare pairing pair
      have walked {inside renamed : Analysis} (h : inside.Mirrors pairs change renamed) :=
        let afterStatics :=
          (mirrors_statics pairing statics (h.openReceiver pairing) first).closeScope
        (mirrors_methods pairing methods (afterStatics.openReceiver pairing) second).closeScope
      cases superclass with
      | none =>
          simp only [ClassDecl.rename, classDecl]
          rw [h.setting]
          exact ((walked named).define pairing pair).inClass _
      | some occurrence =>
          simp only [ClassDecl.rename, classDecl]
          rw [h.setting]
          exact ((walked (named.openSuperclass pairing pair clause)).closeScope.define
            pairing pair).inClass _

theorem mirrors_stmt (pairing : OneToOne pairs) (tree : Stmt) {analysis other : Analysis}
    {around : Surroundings} (h : analysis.Mirrors pairs change other)
    (paired : ∀ place ∈ Places.ofStmt tree around, place.act.Paired pairs change)
    : (stmt tree analysis).Mirrors pairs change (stmt (tree.rename change) other) := by
  cases tree with
  | expression value | print keyword value => exact mirrors_expr pairing value h paired
  | var name initializer =>
      cases initializer with
      | none =>
          have pair := List.forall_mem_singleton.1 paired
          exact (h.introduce pairing pair).trackVariable pairing pair
      | some value =>
          obtain ⟨pair, inside⟩ := List.forall_mem_cons.1 paired
          have walked := mirrors_expr pairing value (h.declare pairing pair) inside
          exact (walked.define pairing pair).trackVariable pairing pair
  | block body => exact (mirrors_stmts pairing body h.openScope paired).closeScope
  | «if» condition positive negative =>
      cases negative with
      | none =>
          obtain ⟨first, rest⟩ := List.forall_mem_append.1 paired
          obtain ⟨_, second⟩ := List.forall_mem_cons.1 rest
          exact mirrors_stmt pairing positive (mirrors_expr pairing condition h first) second
      | some negative =>
          obtain ⟨first, rest⟩ := List.forall_mem_append.1 paired
          obtain ⟨_, branches⟩ := List.forall_mem_cons.1 rest
          obtain ⟨second, last⟩ := List.forall_mem_append.1 branches
          obtain ⟨_, third⟩ := List.forall_mem_cons.1 last
          have tested := mirrors_expr pairing condition h first
          exact mirrors_stmt pairing negative (mirrors_stmt pairing positive tested second) third
  | «while» condition body =>
      obtain ⟨first, rest⟩ := List.forall_mem_append.1 paired
      obtain ⟨_, second⟩ := List.forall_mem_cons.1 rest
      simp only [Stmt.rename, stmt]
      rw [h.setting]
      have inside := h.inLoops (analysis.setting.loops + 1)
      have walked := mirrors_stmt pairing body (mirrors_expr pairing condition inside first) second
      rw [walked.setting]
      exact walked.inLoops _
  | «break» keyword =>
      simp only [Stmt.rename, stmt]
      rw [h.setting]
      exact h.failIf _ _ _ _ rfl
  | function declaration =>
      cases declaration with
      | mk name keyword parameters body =>
          obtain ⟨_, rest⟩ := List.forall_mem_cons.1 paired
          obtain ⟨own, inside⟩ := List.forall_mem_append.1 rest
          cases name with
          | none => exact mirrors_function pairing .function ⟨none, keyword, _, body⟩ h inside
          | some name =>
              have pair := List.forall_mem_singleton.1 own
              exact mirrors_function pairing .function ⟨some name, keyword, parameters, body⟩
                (h.introduce pairing pair) inside
  | «return» keyword value =>
      have placed := h.failIf keyword keyword .returnOutside
        (analysis.setting.body = .program) rfl
      cases value with
      | none =>
          simp only [Stmt.rename, stmt]
          rw [h.setting]
          exact placed
      | some value =>
          obtain ⟨_, inside⟩ := List.forall_mem_cons.1 paired
          simp only [Stmt.rename, stmt]
          rw [h.setting, placed.setting]
          exact mirrors_expr pairing value (placed.failIf _ _ _ _ rfl) inside
  | «class» declaration => exact mirrors_class pairing declaration h paired

theorem mirrors_stmts (pairing : OneToOne pairs) (trees : List Stmt) {analysis other : Analysis}
    {around : Surroundings} (h : analysis.Mirrors pairs change other)
    (paired : ∀ place ∈ Places.ofStmts trees around, place.act.Paired pairs change)
    : (stmts trees analysis).Mirrors pairs change (stmts (Stmts.rename change trees) other) := by
  cases trees with
  | nil => exact h
  | cons first rest =>
      obtain ⟨head, tail⟩ := List.forall_mem_append.1 paired
      exact mirrors_stmts pairing rest (mirrors_stmt pairing first h head) tail

end

/-- The same variables are unused. -/
theorem Mirrors.checkUnused (pairing : OneToOne pairs) (h : analysis.Mirrors pairs change other)
    : analysis.checkUnused.Mirrors pairs change other.checkUnused := by
  have unread
      : other.declared.filter (fun name => !other.read.contains name.lexeme)
        = (analysis.declared.filter fun name => !analysis.read.contains name.lexeme).map
            (Token.rename change) := by
    rw [h.declared, h.read, List.filter_map]
    refine congrArg _ (List.filter_congr ?_)
    intro token member
    have same : change token.lexeme ∈ analysis.read.map change ↔ token.lexeme ∈ analysis.read := by
      constructor
      · intro mapped
        obtain ⟨name, read, equal⟩ := List.mem_map.1 mapped
        rwa [(pairing.matched (h.named token member) (h.seen name read)).2 equal.symm]
      · exact List.mem_map_of_mem
    simp only [Function.comp, Token.rename, List.contains_eq_mem, same]
  have errors
      : other.checkUnused.errors = analysis.checkUnused.errors.map (ScopeError.rename change) := by
    unfold Analysis.checkUnused
    dsimp only
    rw [unread, h.errors, List.map_append, List.map_map, List.map_map]
    rfl
  exact { h with errors := errors }

/-- The results of analyses that mirror each other. -/
theorem Mirrors.result (h : analysis.Mirrors pairs change other)
    : other.result
      = analysis.result.mapError fun errors => errors.map (ScopeError.rename change) := by
  unfold Analysis.result
  rw [h.errors, h.distances, List.isEmpty_map]
  split <;> rfl

end Analysis

-----------------------------------------------------------------------------------------
-- Resolution
-----------------------------------------------------------------------------------------

namespace Program

/-- The names of a program are paired with what they are changed to. -/
def Pairs (program : Program) (change : String → String) (a b : String) : Prop :=
  (a ∈ program.names ∧ b = change a) ∨ (Reserved a ∧ b = a)

variable {program : Program} {change : String → String}

/-- Where no name is `this` or `super`, names that are kept apart are paired one to one. -/
theorem pairing_of_apart (plain : ∀ name ∈ program.names, ¬ Reserved name)
    (apart : ∀ a ∈ program.names, ∀ b ∈ program.names, change a = change b → a = b)
    (free : ∀ name ∈ program.names, ¬ Reserved (change name))
    : OneToOne (program.Pairs change) where
  matched := by
    intro a b c d first second
    rcases first with ⟨named, rfl⟩ | ⟨reserved, rfl⟩
    · rcases second with ⟨other, rfl⟩ | ⟨keyword, rfl⟩
      · exact ⟨congrArg change, apart a named c other⟩
      · exact ⟨fun equal => absurd (equal ▸ keyword) (plain a named),
          fun equal => absurd (equal ▸ keyword) (free a named)⟩
    · rcases second with ⟨other, rfl⟩ | ⟨keyword, rfl⟩
      · exact ⟨fun equal => absurd (equal ▸ reserved) (plain c other),
          fun equal => absurd (equal ▸ reserved) (free c other)⟩
      · exact Iff.rfl
  this := .inr ⟨.inl rfl, rfl⟩
  super := .inr ⟨.inr rfl, rfl⟩

/-- What a proper place names is paired. -/
theorem paired_of_proper {place : Place} (member : place ∈ program.places)
    (proper : place.act.Proper)
    : place.act.Paired (program.Pairs change) change := by
  obtain ⟨around, act⟩ := place
  have named {name : String} (given : Place.identifier? ⟨around, act⟩ = some name)
      : program.Pairs change name (change name) :=
    .inl ⟨List.mem_filterMap.2 ⟨_, member, given⟩, rfl⟩
  cases act with
  | use kind occurrence =>
      cases kind with
      | «variable» | assign => exact named rfl
      | this => exact .inr ⟨.inl proper, rfl⟩
      | super => exact .inr ⟨.inr proper, rfl⟩
  | declare name => exact named rfl
  | function _ | branch _ | inheritItself _ | «return» _ _ | «break» _ => exact trivial

/-- No proper place has the name `this` or `super`. -/
theorem plain_of_proper (proper : ∀ place ∈ program.places, place.act.Proper)
    : ∀ name ∈ program.names, ¬ Reserved name := by
  intro name member
  obtain ⟨⟨around, act⟩, there, given⟩ := List.mem_filterMap.1 member
  have fits := proper _ there
  cases act with
  | use kind occurrence =>
      cases kind with
      | «variable» | assign =>
          cases given
          exact fits
      | this | super => cases given
  | declare other =>
      cases given
      exact fits
  | function _ | branch _ | inheritItself _ | «return» _ _ | «break» _ => cases given

/-- A program that was read from a source has the same distances under names that are kept apart and
from `this` and `super`. If it has errors, it has the same ones in the same order, with the names
that they mention changed.
-/
theorem resolve_rename {source : String} {first next : Nat}
    (parsed
      : Program.parse (Scan.ofText source).tokens (Scan.ofText source).stop first
        = (.ok program, next))
    (apart : ∀ a ∈ program.names, ∀ b ∈ program.names, change a = change b → a = b)
    (free : ∀ name ∈ program.names, ¬ Reserved (change name)) (reportUnused : Bool)
    : Program.resolve (Stmts.rename change program) reportUnused
      = (program.resolve reportUnused).mapError fun errors =>
          errors.map (ScopeError.rename change) := by
  have numbered := (Program.parse_numbered source first).2 program next parsed
  have proper : ∀ place ∈ program.places, place.act.Proper := numbered.proper .top
  have pairing := pairing_of_apart (plain_of_proper proper) apart free
  have paired
      : ∀ place ∈ Places.ofStmts program .top, place.act.Paired (program.Pairs change) change :=
    fun place member => paired_of_proper member (proper place member)
  have walked := Analysis.mirrors_stmts pairing program Analysis.mirrors_start paired
  unfold resolve
  cases reportUnused with
  | false => exact walked.result
  | true => exact (walked.checkUnused pairing).result

/-- Where two names are exchanged, a variable that is declared again and one that is never read are
reported under each other's names.
-/
theorem resolve_rename_exchanged
    : ∃ program next,
        Program.parse (Scan.ofText "var a;var a;var b=a;").tokens
            (Scan.ofText "var a;var a;var b=a;").stop 0
          = (.ok program, next)
        ∧ Program.resolve (Stmts.rename (fun name => if name = "a" then "b" else "a") program) true
          = .error
              [⟨⟨.identifier, "b", 1⟩, .alreadyDeclared⟩,
                ⟨⟨.identifier, "a", 1⟩, .unused "a"⟩] := by
  have scan
      : Scan.ofText "var a;var a;var b=a;"
        = ⟨[.token ⟨.keyword .var, "var", 1⟩, .token ⟨.identifier, "a", 1⟩,
            .token ⟨.mark .semicolon, ";", 1⟩, .token ⟨.keyword .var, "var", 1⟩,
            .token ⟨.identifier, "a", 1⟩, .token ⟨.mark .semicolon, ";", 1⟩,
            .token ⟨.keyword .var, "var", 1⟩, .token ⟨.identifier, "b", 1⟩,
            .token ⟨.mark .equal, "=", 1⟩, .token ⟨.identifier, "a", 1⟩,
            .token ⟨.mark .semicolon, ";", 1⟩],
          Token.endOfInput 1⟩ := by
    rw [Scan.ofText_eq]
    rfl
  let a : Token := ⟨.identifier, "a", 1⟩
  let b : Token := ⟨.identifier, "b", 1⟩
  let program : Program := [.var a none, .var a none, .var b (some (.variable ⟨0, a⟩))]
  have parsed
      : Program.parse (Scan.ofText "var a;var a;var b=a;").tokens
            (Scan.ofText "var a;var a;var b=a;").stop 0
          = (.ok program, 1) := by
    rw [scan]
    rfl
  have names : program.names = ["a", "a", "b", "a"] := rfl
  have rejected : program.resolve true = .error [⟨a, .alreadyDeclared⟩, ⟨b, .unused "b"⟩] := by
    cbv
  let exchanged (name : String) : String := if name = "a" then "b" else "a"
  have apart
      : ∀ a ∈ program.names, ∀ b ∈ program.names, exchanged a = exchanged b → a = b := by
    rw [names]
    decide
  have free : ∀ name ∈ program.names, ¬ Reserved (exchanged name) := by
    rw [names]
    decide
  have renamed := resolve_rename parsed apart free true
  rw [rejected] at renamed
  exact ⟨program, 1, parsed, renamed⟩

end Program
end Lox
