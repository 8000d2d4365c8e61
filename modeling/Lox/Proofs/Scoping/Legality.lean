import Mathlib.Data.List.Nodup
import Lox.Proofs.Scoping.Walk

/-! The legal programs, as a property of their trees. What a construct may say depends on the
function, class, loops and initializer around it, which are handed down from the root; the scope
analysis accepts exactly the programs that are legal in this sense.
-/

namespace Lox

-----------------------------------------------------------------------------------------
-- Legal trees
-----------------------------------------------------------------------------------------

/-- What a construct is inside of. -/
structure Context where
  /-- The nearest function body, or the program. -/
  body : BodyKind
  /-- The nearest class, by whether it has a superclass clause. -/
  classBody : ClassKind
  /-- A loop is around, inside the nearest function body. -/
  inLoop : Bool
  /-- The variable whose initializer is around, with no function body in between. -/
  initializing : Option String

namespace Context

/-- Top-level code is inside of nothing. -/
def top : Context := ⟨.program, .none, false, none⟩

/-- A function body is inside of the class around it, and of nothing else that is around. -/
def ofBody (kind : BodyKind) (classBody : ClassKind) : Context := ⟨kind, classBody, false, none⟩

/-- The body of a loop. -/
def looping (context : Context) : Context := { context with inLoop := true }

/-- The initializer of a variable. -/
def initializer (context : Context) (name : String) : Context :=
  { context with initializing := some name }

end Context

/-- No name is declared twice. -/
def Distinct (names : List (String × Binder)) : Prop := (names.map Prod.fst).Nodup

/-- The kind of a class body. -/
def ClassDecl.kind (definition : ClassDecl) : ClassKind :=
  match definition.superclass with
  | none => .base
  | some _ => .derived

mutual

/-- An expression is legal: no initializer reads the variable that it initializes, `this` is in
a class, and `super` in one with a superclass.
-/
def Expr.Legal : Expr → Context → Prop
  | .literal _, _ => True
  | .grouping inner, context => inner.Legal context
  | .unary _ operand, context => operand.Legal context
  | .binary _ left right, context => left.Legal context ∧ right.Legal context
  | .logical _ left right, context => left.Legal context ∧ right.Legal context
  | .conditional condition positive negative, context =>
    condition.Legal context ∧ positive.Legal context ∧ negative.Legal context
  | .variable occurrence, context => context.initializing ≠ some occurrence.name
  | .assign _ value, context => value.Legal context
  | .call callee _ arguments, context => callee.Legal context ∧ Exprs.Legal arguments context
  | .get object _, context => object.Legal context
  | .set object _ value, context => object.Legal context ∧ value.Legal context
  | .this _, context => context.classBody ≠ .none
  | .super _ _, context => context.classBody = .derived
  | .lambda declaration, context => declaration.Legal .function context.classBody

/-- All of some expressions are legal. -/
def Exprs.Legal : List Expr → Context → Prop
  | [], _ => True
  | first :: rest, context => first.Legal context ∧ Exprs.Legal rest context

/-- A function is legal: its parameters and its body declare no name twice between them, and
the body is legal. A loop or an initializer around the function does not reach into it.
-/
def FunctionDecl.Legal : FunctionDecl → BodyKind → ClassKind → Prop
  | ⟨name, keyword, parameters, body⟩, kind, classBody =>
    let declaration : FunctionDecl := ⟨name, keyword, parameters, body⟩
    Distinct (declaration.parameterNames ++ body.flatMap Stmt.declares)
    ∧ Stmts.Legal body (.ofBody kind classBody)

/-- All static methods are legal. -/
def Statics.Legal : List FunctionDecl → ClassKind → Prop
  | [], _ => True
  | first :: rest, classBody =>
    first.Legal .staticMethod classBody ∧ Statics.Legal rest classBody

/-- All instance methods are legal, where one named `init` is an initializer. -/
def Methods.Legal : List FunctionDecl → ClassKind → Prop
  | [], _ => True
  | first :: rest, classBody =>
    first.Legal (Analysis.methodKind first) classBody ∧ Methods.Legal rest classBody

/-- A class is legal: it does not inherit from itself, and its methods are legal in it. -/
def ClassDecl.Legal : ClassDecl → Prop
  | ⟨name, superclass, methods, statics⟩ =>
    let definition : ClassDecl := ⟨name, superclass, methods, statics⟩
    (∀ occurrence, superclass = some occurrence → occurrence.name ≠ name.lexeme)
    ∧ Statics.Legal statics definition.kind
    ∧ Methods.Legal methods definition.kind

/-- A statement is legal: no block declares a name twice, `break` is in a loop, `return` is in a
function, and an initializer returns no value.
-/
def Stmt.Legal : Stmt → Context → Prop
  | .expression value, context => value.Legal context
  | .print _ value, context => value.Legal context
  | .var _ none, _ => True
  | .var name (some value), context => value.Legal (context.initializer name.lexeme)
  | .block body, context => Distinct (body.flatMap Stmt.declares) ∧ Stmts.Legal body context
  | .if condition positive none, context => condition.Legal context ∧ positive.Legal context
  | .if condition positive (some negative), context =>
    condition.Legal context ∧ positive.Legal context ∧ negative.Legal context
  | .while condition body, context =>
    condition.Legal context.looping ∧ body.Legal context.looping
  | .break _, context => context.inLoop = true
  | .function declaration, context => declaration.Legal .function context.classBody
  | .return _ none, context => context.body ≠ .program
  | .return _ (some value), context =>
    context.body ≠ .program ∧ context.body ≠ .initializer ∧ value.Legal context
  | .class definition, _ => definition.Legal

/-- All of some statements are legal. -/
def Stmts.Legal : List Stmt → Context → Prop
  | [], _ => True
  | first :: rest, context => first.Legal context ∧ Stmts.Legal rest context

end

/-- A program is legal: it declares no name twice at its top level, and all its statements are
legal there.
-/
def Program.Legal (program : Program) : Prop :=
  Distinct (program.flatMap Stmt.declares) ∧ Stmts.Legal program .top

/-- The body of a legal function is legal inside of it. -/
theorem FunctionDecl.Legal.body {declaration : FunctionDecl} {kind : BodyKind}
    {classBody : ClassKind} (h : declaration.Legal kind classBody)
    : Stmts.Legal declaration.body (.ofBody kind classBody) := by
  obtain ⟨name, keyword, parameters, body⟩ := declaration
  exact h.2

/-- Each of some legal statements is legal, by induction over them. -/
theorem Stmts.Legal.of_mem {stmts : List Stmt} {context : Context}
    (h : Stmts.Legal stmts context)
    : ∀ stmt ∈ stmts, stmt.Legal context := by
  induction stmts with
  | nil => exact List.forall_mem_nil _
  | cons first rest ih => exact List.forall_mem_cons.2 ⟨h.1, ih h.2⟩

/-- Each static method of a legal class is legal in it. -/
theorem ClassDecl.Legal.statics {definition : ClassDecl} (h : definition.Legal)
    : ∀ declaration ∈ definition.statics, declaration.Legal .staticMethod definition.kind := by
  have each (declarations : List FunctionDecl) (h : Statics.Legal declarations definition.kind)
      : ∀ declaration ∈ declarations, declaration.Legal .staticMethod definition.kind := by
    induction declarations with
    | nil => exact List.forall_mem_nil _
    | cons first rest ih => exact List.forall_mem_cons.2 ⟨h.1, ih h.2⟩
  obtain ⟨name, superclass, methods, statics⟩ := definition
  exact each statics h.2.1

/-- Each instance method of a legal class is legal in it. -/
theorem ClassDecl.Legal.methods {definition : ClassDecl} (h : definition.Legal)
    : ∀ declaration ∈ definition.methods,
        declaration.Legal (Analysis.methodKind declaration) definition.kind := by
  have each (declarations : List FunctionDecl) (h : Methods.Legal declarations definition.kind)
      : ∀ declaration ∈ declarations,
          declaration.Legal (Analysis.methodKind declaration) definition.kind := by
    induction declarations with
    | nil => exact List.forall_mem_nil _
    | cons first rest ih => exact List.forall_mem_cons.2 ⟨h.1, ih h.2⟩
  obtain ⟨name, superclass, methods, statics⟩ := definition
  exact each methods h.2.2

-----------------------------------------------------------------------------------------
-- Names that a scope can take
-----------------------------------------------------------------------------------------

namespace Surroundings

/-- The innermost scope can take some names: they differ from each other and from those that
it has.
-/
def Admits (around : Surroundings) (names : List (String × Binder)) : Prop :=
  Distinct names ∧ ∀ entry ∈ names, around.innermost? entry.1 = none

/-- A declaration is the only thing that the innermost scope newly has. -/
theorem innermost?_declare_eq_none {around : Surroundings} (inside : around.frames ≠ [])
    (name other : String) (binder : Binder)
    : (around.declare name binder).innermost? other = none
      ↔ name ≠ other ∧ around.innermost? other = none := by
  by_cases same : other = name
  · obtain ⟨_ | ⟨frame, outer⟩, setting⟩ := around
    · exact absurd rfl inside
    · have has : (Frame.mk frame.region ((name, binder) :: frame.names)).has name = true := by simp
      have known :=
        Frame.isSome_status? (Frame.mk frame.region ((name, binder) :: frame.names)) name
      rw [has] at known
      subst same
      refine iff_of_false (fun unknown => ?_) fun h => h.1 rfl
      change Frame.status? _ _ = none at unknown
      rw [unknown] at known
      cases known
  · rw [innermost?_declare_ne around binder same]
    exact ⟨fun h => ⟨Ne.symm same, h⟩, And.right⟩

theorem declare_frames_ne {around : Surroundings} (inside : around.frames ≠ []) (name : String)
    (binder : Binder)
    : (around.declare name binder).frames ≠ [] := by
  obtain ⟨_ | ⟨frame, outer⟩, setting⟩ := around
  · exact absurd rfl inside
  · exact List.cons_ne_nil _ _

theorem admits_nil (around : Surroundings) : around.Admits [] :=
  ⟨List.nodup_nil, List.forall_mem_nil _⟩

/-- The first name comes before the others. -/
theorem admits_cons {around : Surroundings} (inside : around.frames ≠ []) (name : String)
    (binder : Binder) (names : List (String × Binder))
    : around.Admits ((name, binder) :: names)
      ↔ around.innermost? name = none ∧ (around.declare name binder).Admits names := by
  simp only [Admits, Distinct, List.map_cons, List.nodup_cons, List.mem_map, List.forall_mem_cons,
    innermost?_declare_eq_none inside]
  constructor
  · rintro ⟨⟨fresh, distinct⟩, new, others⟩
    exact ⟨new, distinct,
      fun entry member => ⟨fun same => fresh ⟨entry, member, same.symm⟩, others entry member⟩⟩
  · rintro ⟨new, distinct, others⟩
    refine ⟨⟨?_, distinct⟩, new, fun entry member => (others entry member).2⟩
    rintro ⟨entry, member, same⟩
    exact (others entry member).1 same.symm

theorem admits_singleton {around : Surroundings} (inside : around.frames ≠ []) (name : String)
    (binder : Binder)
    : around.Admits [(name, binder)] ↔ around.innermost? name = none := by
  rw [admits_cons inside, and_iff_left (admits_nil _)]

/-- Names come before others, by induction over them. -/
theorem admits_append {around : Surroundings} (inside : around.frames ≠ [])
    (first second : List (String × Binder))
    : around.Admits (first ++ second)
      ↔ around.Admits first ∧ (around.declareAll first).Admits second := by
  induction first generalizing around with
  | nil => exact (and_iff_right (admits_nil around)).symm
  | cons entry rest ih =>
      rw [List.cons_append, admits_cons inside, admits_cons inside,
        ih (declare_frames_ne inside _ _), declareAll_cons, and_assoc]

/-- A new scope can take any names that differ from each other. -/
theorem admits_enter (around : Surroundings) (region : Region) (names : List (String × Binder))
    : (around.enter region []).Admits names ↔ Distinct names :=
  and_iff_left fun _ _ => rfl

end Surroundings

-----------------------------------------------------------------------------------------
-- Surroundings of a context
-----------------------------------------------------------------------------------------

/-- Surroundings are those of a construct in a context. -/
structure Surroundings.Of (around : Surroundings) (context : Context) : Prop where
  inside : around.frames ≠ []
  body : around.setting.body = context.body
  classBody : around.setting.classBody = context.classBody
  loops : around.setting.loops = 0 ↔ context.inLoop = false
  initializing
    : ∀ name, around.innermost? name = some .declared ↔ context.initializing = some name

namespace Surroundings.Of

variable {around : Surroundings} {context : Context}

/-- A new scope in surroundings of some kind has no initializer around it. -/
theorem enter (h : around.Of context) (region : Region)
    : (around.enter region []).Of { context with initializing := none } where
  inside := List.cons_ne_nil _ _
  body := h.body
  classBody := h.classBody
  loops := h.loops
  initializing _ := iff_of_false nofun nofun

theorem atFunction {classBody : ClassKind} (same : around.setting.classBody = classBody)
    (kind : BodyKind) (declaration : FunctionDecl)
    : (around.atFunction kind declaration).Of (.ofBody kind classBody) where
  inside := List.cons_ne_nil _ _
  body := rfl
  classBody := same
  loops := iff_of_true rfl rfl
  initializing _ := iff_of_false nofun nofun

theorem looping (h : around.Of context)
    : (around.inBody around.setting.body (around.setting.loops + 1)).Of context.looping where
  inside := h.inside
  body := h.body
  classBody := h.classBody
  loops := iff_of_false (Nat.succ_ne_zero _) nofun
  initializing := h.initializing

/-- A finished declaration settles its name. -/
theorem declare (h : around.Of context) (settled : context.initializing = none) (name : String)
    {binder : Binder} (finished : binder ≠ .unfinished)
    : (around.declare name binder).Of context where
  inside := declare_frames_ne h.inside _ _
  body := by rw [declare_setting, h.body]
  classBody := by rw [declare_setting, h.classBody]
  loops := by rw [declare_setting, h.loops]
  initializing other := by
    by_cases same : other = name
    · subst same
      refine iff_of_false ?_ (by rw [settled]; exact nofun)
      obtain ⟨_ | ⟨frame, outer⟩, setting⟩ := around
      · exact absurd rfl h.inside
      · simp [Surroundings.declare, innermost?, Frame.status?, finished]
    · rw [innermost?_declare_ne around binder same, h.initializing]

theorem declareAll {names : List (String × Binder)} (h : around.Of context)
    (settled : context.initializing = none)
    (finished : ∀ entry ∈ names, entry.2 ≠ .unfinished)
    : (around.declareAll names).Of context := by
  induction names generalizing around with
  | nil => exact h
  | cons entry rest ih =>
      rw [List.forall_mem_cons] at finished
      exact ih (h.declare settled entry.1 finished.1) finished.2

/-- Statements leave the context as it was. -/
theorem declares (h : around.Of context) (settled : context.initializing = none) (stmt : Stmt)
    : (around.declareAll stmt.declares).Of context :=
  h.declareAll settled stmt.finished_declares

/-- The declaration of a new name is under way in its initializer. -/
theorem initializer (h : around.Of context) (settled : context.initializing = none)
    {name : String} (new : around.innermost? name = none)
    : (around.declare name .unfinished).Of (context.initializer name) where
  inside := declare_frames_ne h.inside _ _
  body := by rw [declare_setting, h.body]; rfl
  classBody := by rw [declare_setting, h.classBody]; rfl
  loops := by rw [declare_setting, h.loops]; rfl
  initializing other := by
    by_cases same : other = name
    · subst same
      refine iff_of_true ?_ rfl
      obtain ⟨_ | ⟨frame, outer⟩, setting⟩ := around
      · exact absurd rfl h.inside
      · change frame.status? other = none at new
        have undeclared : frame.has other = false := by
          rw [← Frame.isSome_status?, new]
          rfl
        have unsettled : frame.settles other = false :=
          Bool.eq_false_iff.2 fun settles => by
            rw [Frame.has_of_settles settles] at undeclared
            cases undeclared
        simp [Surroundings.declare, innermost?, Frame.status?, unsettled]
    · rw [innermost?_declare_ne around .unfinished same, h.initializing, settled]
      exact iff_of_false (Option.some_ne_none _ ·.symm) fun h => same (Option.some.inj h).symm

/-- The methods of a class are in a class body of its kind. -/
theorem atMethods_classBody (around : Surroundings) (definition : ClassDecl) (isStatic : Bool)
    : (around.atMethods definition isStatic).setting.classBody = definition.kind := by
  unfold atMethods atClass ClassDecl.kind
  cases definition.superclass <;> rfl

end Surroundings.Of

-----------------------------------------------------------------------------------------
-- Lawful places of legal constructs
-----------------------------------------------------------------------------------------

namespace Places

/-- All of some places are lawful. -/
def Lawful (places : List Place) : Prop := ∀ place ∈ places, place.errors = []

theorem lawful_nil : Lawful [] := List.forall_mem_nil _

theorem lawful_cons {place : Place} {places : List Place}
    : Lawful (place :: places) ↔ place.errors = [] ∧ Lawful places := List.forall_mem_cons

/-- A place without rules is lawful. -/
theorem lawful_free {place : Place} {places : List Place} (free : place.errors = [])
    : Lawful (place :: places) ↔ Lawful places :=
  lawful_cons.trans (and_iff_right free)

theorem lawful_singleton {place : Place} : Lawful [place] ↔ place.errors = [] :=
  List.forall_mem_singleton

theorem lawful_append {first second : List Place}
    : Lawful (first ++ second) ↔ Lawful first ∧ Lawful second := List.forall_mem_append

variable {around : Surroundings} {context : Context}

theorem declare_errors (around : Surroundings) (name : Token)
    : (Place.mk around (.declare name)).errors = [] ↔ around.innermost? name.lexeme = none := by
  rw [Place.errors]
  cases around.innermost? name.lexeme <;> simp

theorem variable_errors (h : around.Of context) (occurrence : Occurrence)
    : (Place.mk around (.use .variable occurrence)).errors = []
      ↔ context.initializing ≠ some occurrence.name := by
  rw [Place.errors, ne_eq, ← h.initializing]
  split <;> simp_all

theorem this_errors (h : around.Of context) (occurrence : Occurrence)
    : (Place.mk around (.use .this occurrence)).errors = [] ↔ context.classBody ≠ .none := by
  rw [Place.errors, h.classBody]
  cases context.classBody <;> simp

theorem super_errors (h : around.Of context) (occurrence : Occurrence)
    : (Place.mk around (.use .super occurrence)).errors = [] ↔ context.classBody = .derived := by
  rw [Place.errors, h.classBody]
  cases context.classBody <;> simp

theorem break_errors (h : around.Of context) (keyword : Token)
    : (Place.mk around (.break keyword)).errors = [] ↔ context.inLoop = true := by
  have loops := h.loops
  rw [Place.errors]
  split <;> simp_all

theorem return_errors (h : around.Of context) (keyword : Token) (givesValue : Bool)
    : (Place.mk around (.return keyword givesValue)).errors = []
      ↔ context.body ≠ .program ∧ (givesValue = true → context.body ≠ .initializer) := by
  rw [Place.errors, h.body]
  cases givesValue <;> cases context.body <;> simp

/-- Parameters are declared one after the other, by induction over them. -/
theorem lawful_ofParameters (inside : around.frames ≠ []) (parameters : List Token)
    : Lawful (ofParameters parameters around)
      ↔ around.Admits (parameters.map fun parameter => (parameter.lexeme, Binder.parameter)) := by
  induction parameters generalizing around with
  | nil => exact iff_of_true lawful_nil around.admits_nil
  | cons name rest ih =>
      rw [ofParameters, lawful_cons, declare_errors, ih (Surroundings.declare_frames_ne inside _ _),
        List.map_cons, Surroundings.admits_cons inside]

/-- A superclass clause, outside of any initializer, names another class. -/
theorem lawful_ofClause (h : around.Of context) (settled : context.initializing = none)
    (name : Token) (superclass : Option Occurrence)
    : Lawful (ofClause name superclass around)
      ↔ ∀ occurrence, superclass = some occurrence → occurrence.name ≠ name.lexeme := by
  cases superclass with
  | none => exact iff_of_true lawful_nil fun _ given => by cases given
  | some occurrence =>
      simp only [ofClause, Option.some.injEq, forall_eq']
      split
      · next same =>
          exact iff_of_false (List.cons_ne_nil _ _ <| lawful_singleton.1 ·) fun h => h same
      · next different =>
          rw [lawful_singleton, variable_errors h, settled]
          exact iff_of_true (by simp) different

mutual

/-- The places of an expression are lawful if it is legal. By induction over the tree. -/
theorem lawful_ofExpr (expr : Expr) {around : Surroundings} {context : Context}
    (h : around.Of context)
    : Lawful (ofExpr expr around) ↔ expr.Legal context := by
  cases expr with
  | literal value => exact iff_of_true lawful_nil trivial
  | grouping inner => exact lawful_ofExpr inner h
  | unary operator operand => exact lawful_ofExpr operand h
  | binary operator left right =>
      rw [ofExpr, lawful_append, lawful_ofExpr left h, lawful_ofExpr right h, Expr.Legal]
  | logical operator left right =>
      rw [ofExpr, lawful_append, lawful_ofExpr left h, lawful_ofExpr right h, Expr.Legal]
  | conditional condition positive negative =>
      rw [ofExpr, lawful_append, lawful_append, lawful_ofExpr condition h,
        lawful_ofExpr positive h, lawful_ofExpr negative h, Expr.Legal]
  | «variable» occurrence => rw [ofExpr, lawful_singleton, variable_errors h, Expr.Legal]
  | assign target value =>
      rw [ofExpr, lawful_append, lawful_free rfl, lawful_ofExpr value h, Expr.Legal]
      exact and_iff_left lawful_nil
  | call callee closing arguments =>
      rw [ofExpr, lawful_append, lawful_ofExpr callee h, lawful_ofExprs arguments h, Expr.Legal]
  | get object property => exact lawful_ofExpr object h
  | set object property value =>
      rw [ofExpr, lawful_append, lawful_ofExpr value h, lawful_ofExpr object h, Expr.Legal,
        and_comm]
  | this occurrence => rw [ofExpr, lawful_singleton, this_errors h, Expr.Legal]
  | super occurrence method => rw [ofExpr, lawful_singleton, super_errors h, Expr.Legal]
  | lambda declaration => exact lawful_ofFunction .function declaration h.classBody

theorem lawful_ofExprs (exprs : List Expr) {around : Surroundings} {context : Context}
    (h : around.Of context)
    : Lawful (ofExprs exprs around) ↔ Exprs.Legal exprs context := by
  cases exprs with
  | nil => exact iff_of_true lawful_nil trivial
  | cons first rest =>
      rw [ofExprs, lawful_append, lawful_ofExpr first h, lawful_ofExprs rest h, Exprs.Legal]

theorem lawful_ofFunction (kind : BodyKind) (declaration : FunctionDecl) {around : Surroundings}
    {classBody : ClassKind} (h : around.setting.classBody = classBody)
    : Lawful (ofFunction kind declaration around) ↔ declaration.Legal kind classBody := by
  obtain ⟨name, keyword, parameters, body⟩ := declaration
  have inside := Surroundings.Of.atFunction h kind ⟨name, keyword, parameters, body⟩
  have finished
      : ∀ entry ∈ FunctionDecl.parameterNames ⟨name, keyword, parameters, body⟩,
          entry.2 ≠ .unfinished := by
    intro entry member
    obtain ⟨parameter, _, rfl⟩ := List.mem_map.1 member
    exact nofun
  rw [ofFunction, lawful_append, lawful_ofParameters inside.inside,
    lawful_ofStmts body (inside.declareAll rfl finished) rfl, and_left_comm, FunctionDecl.Legal,
    and_comm]
  refine and_congr_left' ?_
  exact (Surroundings.admits_append inside.inside _ _).symm.trans (Surroundings.admits_enter ..)

theorem lawful_ofStatics (declarations : List FunctionDecl) {around : Surroundings}
    {classBody : ClassKind} (h : around.setting.classBody = classBody)
    : Lawful (ofStatics declarations around) ↔ Statics.Legal declarations classBody := by
  cases declarations with
  | nil => exact iff_of_true lawful_nil trivial
  | cons first rest =>
      rw [ofStatics, lawful_append, lawful_ofFunction _ first h, lawful_ofStatics rest h,
        Statics.Legal]

theorem lawful_ofMethods (declarations : List FunctionDecl) {around : Surroundings}
    {classBody : ClassKind} (h : around.setting.classBody = classBody)
    : Lawful (ofMethods declarations around) ↔ Methods.Legal declarations classBody := by
  cases declarations with
  | nil => exact iff_of_true lawful_nil trivial
  | cons first rest =>
      rw [ofMethods, lawful_append, lawful_ofFunction _ first h, lawful_ofMethods rest h,
        Methods.Legal]

/-- A statement also declares its names in the scope around it, which must admit them. -/
theorem lawful_ofStmt (stmt : Stmt) {around : Surroundings} {context : Context}
    (h : around.Of context) (settled : context.initializing = none)
    : Lawful (ofStmt stmt around) ↔ stmt.Legal context ∧ around.Admits stmt.declares := by
  have nothing := iff_of_true around.admits_nil trivial
  cases stmt with
  | expression value =>
      rw [ofStmt, lawful_ofExpr value h, Stmt.declares, nothing, and_true, Stmt.Legal]
  | print keyword value =>
      rw [ofStmt, lawful_ofExpr value h, Stmt.declares, nothing, and_true, Stmt.Legal]
  | var name initializer =>
      rw [Stmt.declares, Surroundings.admits_singleton h.inside]
      cases initializer with
      | none => rw [ofStmt, lawful_singleton, declare_errors, Stmt.Legal, true_and]
      | some value =>
          rw [ofStmt, lawful_cons, declare_errors, Stmt.Legal]
          refine Iff.trans (and_congr_right ?_) and_comm
          intro new
          exact lawful_ofExpr value (h.initializer settled new)
  | block body =>
      have entered := h.enter (.block body)
      rw [ofStmt, lawful_ofStmts body entered rfl, Surroundings.admits_enter, Stmt.declares,
        nothing, and_true, Stmt.Legal, and_comm]
      obtain ⟨kind, classBody, inLoop, _⟩ := context
      cases settled
      rfl
  | «if» condition positive negative =>
      cases negative with
      | none =>
          rw [ofStmt, lawful_append, lawful_free rfl, lawful_ofExpr condition h,
            lawful_ofStmt positive h settled, Stmt.Legal, Stmt.declares, and_assoc]
      | some negative =>
          rw [ofStmt, lawful_append, lawful_append, lawful_free rfl, lawful_free rfl,
            lawful_ofExpr condition h, lawful_ofStmt positive h settled,
            lawful_ofStmt negative (h.declares settled positive) settled, Stmt.Legal,
            Stmt.declares, Surroundings.admits_append h.inside, and_and_and_comm, and_assoc,
            and_assoc, and_assoc]
  | «while» condition body =>
      rw [ofStmt, lawful_append, lawful_free rfl, lawful_ofExpr condition h.looping,
        lawful_ofStmt body h.looping settled, Stmt.Legal, Stmt.declares, and_assoc]
      rfl
  | «break» keyword =>
      rw [ofStmt, lawful_singleton, break_errors h, Stmt.declares, nothing, and_true, Stmt.Legal]
  | function declaration =>
      rw [ofStmt, lawful_free rfl, lawful_append, Stmt.Legal, Stmt.declares, and_comm]
      cases declaration.name with
      | none =>
          exact and_congr (lawful_ofFunction .function declaration h.classBody)
            (iff_of_true lawful_nil around.admits_nil)
      | some name =>
          have finished : Binder.function ≠ .unfinished := nofun
          have named := h.declare settled name.lexeme finished
          refine and_congr (lawful_ofFunction .function declaration named.classBody) ?_
          exact lawful_singleton.trans
            ((declare_errors around name).trans (Surroundings.admits_singleton h.inside ..).symm)
  | «return» keyword value =>
      rw [Stmt.declares, nothing, and_true]
      cases value with
      | none =>
          rw [ofStmt, lawful_singleton, return_errors h, Stmt.Legal]
          exact and_iff_left nofun
      | some value =>
          rw [ofStmt, lawful_cons, return_errors h, lawful_ofExpr value h, Stmt.Legal, and_assoc,
            forall_prop_of_true rfl]
  | «class» definition =>
      obtain ⟨name, superclass, methods, statics⟩ := definition
      rw [ofStmt, ofClass, lawful_cons, lawful_append, lawful_append, declare_errors,
        lawful_ofClause h settled,
        lawful_ofStatics statics (Surroundings.Of.atMethods_classBody ..),
        lawful_ofMethods methods (Surroundings.Of.atMethods_classBody ..), Stmt.declares,
        Surroundings.admits_singleton h.inside, Stmt.Legal, ClassDecl.Legal, and_comm]

theorem lawful_ofStmts (stmts : List Stmt) {around : Surroundings} {context : Context}
    (h : around.Of context) (settled : context.initializing = none)
    : Lawful (ofStmts stmts around)
      ↔ Stmts.Legal stmts context ∧ around.Admits (stmts.flatMap Stmt.declares) := by
  cases stmts with
  | nil => exact iff_of_true lawful_nil ⟨trivial, around.admits_nil⟩
  | cons first rest =>
      rw [ofStmts, lawful_append, lawful_ofStmt first h settled,
        lawful_ofStmts rest (h.declares settled first) settled, Stmts.Legal, List.flatMap_cons,
        Surroundings.admits_append h.inside, and_and_and_comm]

end

end Places

-----------------------------------------------------------------------------------------
-- Acceptance
-----------------------------------------------------------------------------------------

/-- Top-level code is in the context of nothing. -/
theorem Surroundings.of_top : top.Of .top where
  inside := List.cons_ne_nil _ _
  body := rfl
  classBody := rfl
  loops := iff_of_true rfl rfl
  initializing _ := iff_of_false nofun nofun

/-- The places of a program are lawful if it is legal. -/
theorem Program.lawful_places (program : Program)
    : Places.Lawful program.places ↔ program.Legal := by
  rw [places, Places.lawful_ofStmts program Surroundings.of_top rfl, Legal, and_comm]
  exact and_congr_left' (Surroundings.admits_enter ⟨[], .top⟩ .program _)

/-- The places of an expression are lawful if it is legal by itself. -/
theorem Expr.lawful_places (expr : Expr) : Places.Lawful expr.places ↔ expr.Legal .top :=
  Places.lawful_ofExpr expr Surroundings.of_top

/-- The scope analysis accepts exactly the legal programs. -/
theorem Program.resolve_accepts_iff_legal (program : Program)
    : (∃ distances, program.resolve false = .ok distances) ↔ program.Legal := by
  rw [← program.lawful_places]
  constructor
  · rintro ⟨distances, accepted⟩
    exact (Program.resolve_eq_ok.1 accepted).1
  · intro lawful
    exact ⟨_, Program.resolve_eq_ok.2 ⟨lawful, rfl⟩⟩

end Lox
