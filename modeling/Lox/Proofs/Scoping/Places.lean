import Lox.Scope

/-! The places of a program at which scoping matters, each with the scopes around it.
A listing of places says what the text of a program declares before each of its occurrences;
it is a function of the text alone, with no state that a walk would carry along.
-/

namespace Lox

-----------------------------------------------------------------------------------------
-- Scopes and the names they bind
-----------------------------------------------------------------------------------------

/-- A construct of a program that opens a scope. -/
inductive Region where
  | program
  | block (body : List Stmt)
  /-- The parameters and the body of a function. -/
  | function (declaration : FunctionDecl)
  /-- The scope of `this` around the instance methods of a class, or around its static ones. -/
  | receiver (definition : ClassDecl) (isStatic : Bool)
  /-- The scope of `super` around both. -/
  | superclass (definition : ClassDecl)

/-- How a name came to be bound. -/
inductive Binder where
  | parameter
  | function
  | «class»
  | variable
  /-- By a `var` whose own initializer surrounds the place. -/
  | unfinished
  | receiver
  | superclass
  deriving DecidableEq, Repr

/-- A scope around a place, with the names whose declaration begins before the place, the
latest first.
-/
structure Frame where
  region : Region
  names : List (String × Binder)

namespace Frame

/-- The scope declares the name before the place. -/
def has (frame : Frame) (name : String) : Bool := frame.names.any (·.1 = name)

/-- Some declaration of the name is over before the place. -/
def settles (frame : Frame) (name : String) : Bool :=
  frame.names.any fun entry => entry.1 = name && entry.2 ≠ .unfinished

/-- How far the declaration of a name has come. -/
def status? (frame : Frame) (name : String) : Option Binding :=
  if frame.settles name then some .defined
  else if frame.has name then some .declared
  else none

@[simp]
theorem has_cons (region : Region) (entry : String × Binder) (names : List (String × Binder))
    (name : String)
    : (Frame.mk region (entry :: names)).has name
      = (decide (entry.1 = name) || (Frame.mk region names).has name) :=
  List.any_cons

@[simp]
theorem settles_cons (region : Region) (entry : String × Binder)
    (names : List (String × Binder)) (name : String)
    : (Frame.mk region (entry :: names)).settles name
      = ((decide (entry.1 = name) && decide (entry.2 ≠ .unfinished))
        || (Frame.mk region names).settles name) :=
  List.any_cons

/-- A settled name is a declared one, by the entry that settles it. -/
theorem has_of_settles {frame : Frame} {name : String} (h : frame.settles name = true)
    : frame.has name = true := by
  simp only [settles, has, List.any_eq_true, Bool.and_eq_true] at h ⊢
  obtain ⟨entry, member, same, _⟩ := h
  exact ⟨entry, member, same⟩

/-- A name has a status exactly when it is declared. -/
theorem isSome_status? (frame : Frame) (name : String)
    : (frame.status? name).isSome = frame.has name := by
  unfold status?
  split
  · next h => simp [has_of_settles h]
  · split <;> simp_all

end Frame

/-- The scopes around a place, the innermost first, and the function, class and loops. -/
structure Surroundings where
  frames : List Frame
  setting : Setting

namespace Surroundings

/-- The surroundings of top-level code. -/
def top : Surroundings := ⟨[⟨.program, []⟩], .top⟩

/-- A name is declared in the innermost scope. -/
def declare (around : Surroundings) (name : String) (binder : Binder) : Surroundings :=
  match around.frames with
  | [] => around
  | frame :: outer =>
    { around with frames := { frame with names := (name, binder) :: frame.names } :: outer }

/-- Names are declared one after the other. -/
def declareAll (around : Surroundings) (names : List (String × Binder)) : Surroundings :=
  names.foldl (fun around entry => around.declare entry.1 entry.2) around

@[simp]
theorem declare_setting (around : Surroundings) (name : String) (binder : Binder)
    : (around.declare name binder).setting = around.setting := by
  unfold declare
  split <;> rfl

@[simp]
theorem declareAll_nil (around : Surroundings)
    : around.declareAll [] = around := rfl

@[simp]
theorem declareAll_cons (around : Surroundings) (entry : String × Binder)
    (names : List (String × Binder))
    : around.declareAll (entry :: names)
      = (around.declare entry.1 entry.2).declareAll names := rfl

@[simp]
theorem declareAll_append (around : Surroundings) (first second : List (String × Binder))
    : around.declareAll (first ++ second) = (around.declareAll first).declareAll second :=
  List.foldl_append

@[simp]
theorem declareAll_setting (around : Surroundings) (names : List (String × Binder))
    : (around.declareAll names).setting = around.setting := by
  induction names generalizing around with
  | nil => rfl
  | cons entry rest ih => simp [ih]

/-- A further scope inside. -/
def enter (around : Surroundings) (region : Region) (names : List (String × Binder)) :
    Surroundings :=
  { around with frames := ⟨region, names⟩ :: around.frames }

/-- The same scopes in another setting. -/
def within (around : Surroundings) (setting : Setting) : Surroundings := { around with setting }

/-- The surroundings of a function body. -/
def inBody (around : Surroundings) (kind : BodyKind) (loops : Nat) : Surroundings :=
  around.within { around.setting with body := kind, loops }

/-- The surroundings of a class body. -/
def inClass (around : Surroundings) (kind : ClassKind) : Surroundings :=
  around.within { around.setting with classBody := kind }

theorem declare_within (around : Surroundings) (name : String) (binder : Binder)
    (setting : Setting)
    : (around.within setting).declare name binder
      = (around.declare name binder).within setting := by
  unfold declare within
  split <;> simp_all

theorem declareAll_within (around : Surroundings) (names : List (String × Binder))
    (setting : Setting)
    : (around.within setting).declareAll names = (around.declareAll names).within setting := by
  induction names generalizing around with
  | nil => rfl
  | cons entry rest ih => simp only [declareAll_cons, declare_within, ih]

theorem declareAll_inBody (around : Surroundings) (names : List (String × Binder))
    (kind : BodyKind) (loops : Nat)
    : (around.inBody kind loops).declareAll names
      = (around.declareAll names).inBody kind loops := by
  simp only [inBody, declareAll_within, declareAll_setting]

/-- The setting around a loop is back after it. -/
theorem inBody_inBody (around : Surroundings) (kind : BodyKind) (loops : Nat)
    : (around.inBody kind loops).inBody around.setting.body around.setting.loops = around := rfl

theorem declare_inClass (around : Surroundings) (name : String) (binder : Binder)
    (kind : ClassKind)
    : (around.inClass kind).declare name binder = (around.declare name binder).inClass kind := by
  simp only [inClass, declare_within, declare_setting]

/-- Names that are declared in a new scope come before those that it began with, by induction
over them.
-/
theorem frames_declareAll_enter (around : Surroundings) (region : Region)
    (names more : List (String × Binder))
    : ((around.enter region names).declareAll more).frames
      = ⟨region, more.reverse ++ names⟩ :: around.frames := by
  induction more generalizing names with
  | nil => rfl
  | cons entry rest ih =>
      rw [List.reverse_cons, List.append_assoc]
      exact ih (entry :: names)

/-- How many scopes out a name is declared before the place. -/
def distance? (around : Surroundings) (name : String) : Option Nat :=
  around.frames.findIdx? (·.has name)

/-- What the innermost scope has for a name. -/
def innermost? (around : Surroundings) (name : String) : Option Binding :=
  around.frames.head?.bind (·.status? name)

/-- The scope that a distance leads to has the name. -/
theorem has_of_distance? {around : Surroundings} {name : String} {distance : Nat} {frame : Frame}
    (found : around.distance? name = some distance) (there : around.frames[distance]? = some frame)
    : frame.has name = true := by
  obtain ⟨inside, has, _⟩ := List.findIdx?_eq_some_iff_getElem.1 found
  rw [List.getElem?_eq_getElem inside] at there
  cases there
  exact has

@[simp]
theorem distance?_within (around : Surroundings) (setting : Setting) (name : String)
    : (around.within setting).distance? name = around.distance? name := rfl

@[simp]
theorem innermost?_within (around : Surroundings) (setting : Setting) (name : String)
    : (around.within setting).innermost? name = around.innermost? name := rfl

/-- Declaring a name does not change where another one is found. -/
theorem distance?_declare_ne (around : Surroundings) (binder : Binder) {name other : String}
    (different : other ≠ name)
    : (around.declare name binder).distance? other = around.distance? other := by
  obtain ⟨frames, setting⟩ := around
  cases frames with
  | nil => rfl
  | cons frame outer => simp [declare, distance?, List.findIdx?_cons, different.symm]

theorem innermost?_declare_ne (around : Surroundings) (binder : Binder) {name other : String}
    (different : other ≠ name)
    : (around.declare name binder).innermost? other = around.innermost? other := by
  obtain ⟨frames, setting⟩ := around
  cases frames with
  | nil => rfl
  | cons frame outer => simp [declare, innermost?, Frame.status?, different.symm]

end Surroundings

-----------------------------------------------------------------------------------------
-- What stands at a place
-----------------------------------------------------------------------------------------

/-- What a program does at a place that concerns its scopes. -/
inductive Act where
  | use (kind : Use) (occurrence : Occurrence)
  /-- The declaration of a name begins. -/
  | declare (name : Token)
  /-- A function statement declares its name. -/
  | function (declaration : FunctionDecl)
  /-- A statement runs under a condition. -/
  | branch (body : Stmt)
  /-- A class names itself as its superclass. -/
  | inheritItself (occurrence : Occurrence)
  | return (keyword : Token) (givesValue : Bool)
  | break (keyword : Token)

/-- A place in a program. -/
structure Place where
  around : Surroundings
  act : Act

namespace Place

/-- What the rules of scoping forbid at a place. -/
def errors : Place → List ScopeError
  | ⟨around, .use .variable occurrence⟩ =>
    if around.innermost? occurrence.name = some .declared then
      [⟨occurrence.token, .readInInitializer⟩]
    else []
  | ⟨_, .use .assign _⟩ => []
  | ⟨around, .use .this occurrence⟩ =>
    match around.setting.classBody with
    | .none => [⟨occurrence.token, .thisOutside⟩]
    | .base | .derived => []
  | ⟨around, .use .super occurrence⟩ =>
    match around.setting.classBody with
    | .none => [⟨occurrence.token, .superOutside⟩]
    | .base => [⟨occurrence.token, .superWithoutSuperclass⟩]
    | .derived => []
  | ⟨around, .declare name⟩ =>
    if (around.innermost? name.lexeme).isSome then [⟨name, .alreadyDeclared⟩] else []
  | ⟨_, .function _⟩ => []
  | ⟨_, .branch _⟩ => []
  | ⟨_, .inheritItself occurrence⟩ => [⟨occurrence.token, .inheritsItself⟩]
  | ⟨around, .return keyword givesValue⟩ =>
    (if around.setting.body = .program then [⟨keyword, .returnOutside⟩] else [])
    ++ if givesValue && around.setting.body = .initializer then
        [⟨keyword, .returnFromInitializer⟩]
      else []
  | ⟨around, .break keyword⟩ =>
    if around.setting.loops = 0 then [⟨keyword, .breakOutside⟩] else []

/-- How many scopes out the binding of an occurrence is. Only a lawful `this` or `super` is
looked for.
-/
def distance? (place : Place) : Option Nat :=
  match place.act with
  | .use kind occurrence =>
    if kind = .this ∨ kind = .super then
      if place.errors.isEmpty then place.around.distance? occurrence.name else none
    else place.around.distance? occurrence.name
  | _ => none

/-- Lawful occurrences are all looked for. -/
theorem distance?_eq {around : Surroundings} {kind : Use} {occurrence : Occurrence}
    (lawful : errors ⟨around, .use kind occurrence⟩ = [])
    : distance? ⟨around, .use kind occurrence⟩ = around.distance? occurrence.name := by
  simp [distance?, lawful]

/-- The number of the occurrence at a place. -/
def id? (place : Place) : Option Nat :=
  match place.act with
  | .use _ occurrence => some occurrence.id
  | _ => none

end Place

-----------------------------------------------------------------------------------------
-- The listing
-----------------------------------------------------------------------------------------

/-- The names that a statement declares in the scope around it, in order. -/
def Stmt.declares : Stmt → List (String × Binder)
  | .var name _ => [(name.lexeme, .variable)]
  | .function declaration =>
    declaration.name.toList.map fun name => (name.lexeme, Binder.function)
  | .class ⟨name, _, _, _⟩ => [(name.lexeme, .class)]
  | .if _ positive none => positive.declares
  | .if _ positive (some negative) => positive.declares ++ negative.declares
  | .while _ body => body.declares
  | .expression _ | .print _ _ | .block _ | .break _ | .return _ _ => []

/-- What a statement leaves declared is no unfinished binding. -/
theorem Stmt.finished_declares (stmt : Stmt) : ∀ entry ∈ stmt.declares, entry.2 ≠ .unfinished := by
  cases stmt with
  | var name initializer => exact List.forall_mem_singleton.2 nofun
  | function declaration =>
      intro entry member
      obtain ⟨name, _, rfl⟩ := List.mem_map.1 member
      exact nofun
  | «class» definition =>
      obtain ⟨name, _, _, _⟩ := definition
      exact List.forall_mem_singleton.2 nofun
  | «if» condition positive negative =>
      cases negative with
      | none => exact finished_declares positive
      | some negative =>
          rw [declares, List.forall_mem_append]
          exact ⟨finished_declares positive, finished_declares negative⟩
  | «while» condition body => exact finished_declares body
  | expression _ | print _ _ | block _ | «break» _ | «return» _ _ => exact List.forall_mem_nil _

/-- The parameters of a function as the names that they declare. -/
def FunctionDecl.parameterNames (declaration : FunctionDecl) : List (String × Binder) :=
  declaration.parameters.map fun parameter => (parameter.lexeme, Binder.parameter)

namespace Surroundings

/-- The scope of the parameters and the body of a function, before its parameters. -/
def atFunction (around : Surroundings) (kind : BodyKind) (declaration : FunctionDecl) :
    Surroundings :=
  (around.inBody kind 0).enter (.function declaration) []

/-- The surroundings of the scopes for the receiver of a class. -/
def atClass (around : Surroundings) (definition : ClassDecl) : Surroundings :=
  let named := around.declare definition.name.lexeme .class
  match definition.superclass with
  | none => named.inClass .base
  | some _ =>
    (named.inClass .derived).enter (.superclass definition) [("super", .superclass)]

/-- The surroundings of the methods of a class. -/
def atMethods (around : Surroundings) (definition : ClassDecl) (isStatic : Bool) :
    Surroundings :=
  (around.atClass definition).enter (.receiver definition isStatic) [("this", .receiver)]

end Surroundings

namespace Places

/-- The places of the declarations of parameters. -/
def ofParameters : List Token → Surroundings → List Place
  | [], _ => []
  | name :: rest, around =>
    ⟨around, .declare name⟩ :: ofParameters rest (around.declare name.lexeme .parameter)

/-- The place of a superclass clause. -/
def ofClause (name : Token) (superclass : Option Occurrence) (around : Surroundings) :
    List Place :=
  match superclass with
  | none => []
  | some occurrence =>
    if occurrence.name = name.lexeme then [⟨around, .inheritItself occurrence⟩]
    else [⟨around, .use .variable occurrence⟩]

mutual

/-- The places of an expression. The value of an assignment comes before its target. -/
def ofExpr : Expr → Surroundings → List Place
  | .literal _, _ => []
  | .grouping inner, around => ofExpr inner around
  | .unary _ operand, around => ofExpr operand around
  | .binary _ left right, around => ofExpr left around ++ ofExpr right around
  | .logical _ left right, around => ofExpr left around ++ ofExpr right around
  | .conditional condition positive negative, around =>
    ofExpr condition around ++ (ofExpr positive around ++ ofExpr negative around)
  | .variable occurrence, around => [⟨around, .use .variable occurrence⟩]
  | .assign target value, around => ofExpr value around ++ [⟨around, .use .assign target⟩]
  | .call callee _ arguments, around => ofExpr callee around ++ ofExprs arguments around
  | .get object _, around => ofExpr object around
  | .set object _ value, around => ofExpr value around ++ ofExpr object around
  | .this occurrence, around => [⟨around, .use .this occurrence⟩]
  | .super occurrence _, around => [⟨around, .use .super occurrence⟩]
  | .lambda declaration, around => ofFunction .function declaration around

/-- The places of some expressions. -/
def ofExprs : List Expr → Surroundings → List Place
  | [], _ => []
  | first :: rest, around => ofExpr first around ++ ofExprs rest around

/-- The places of a function. -/
def ofFunction (kind : BodyKind) : FunctionDecl → Surroundings → List Place
  | ⟨name, keyword, parameters, body⟩, around =>
    let declaration : FunctionDecl := ⟨name, keyword, parameters, body⟩
    let inside := around.atFunction kind declaration
    ofParameters parameters inside
    ++ ofStmts body (inside.declareAll declaration.parameterNames)

/-- The places of static methods. -/
def ofStatics : List FunctionDecl → Surroundings → List Place
  | [], _ => []
  | first :: rest, around => ofFunction .staticMethod first around ++ ofStatics rest around

/-- The places of instance methods. -/
def ofMethods : List FunctionDecl → Surroundings → List Place
  | [], _ => []
  | first :: rest, around =>
    ofFunction (Analysis.methodKind first) first around ++ ofMethods rest around

/-- The places of a class. -/
def ofClass : ClassDecl → Surroundings → List Place
  | ⟨name, superclass, methods, statics⟩, around =>
    let definition : ClassDecl := ⟨name, superclass, methods, statics⟩
    ⟨around, .declare name⟩
    :: (ofClause name superclass around
      ++ (ofStatics statics (around.atMethods definition true)
        ++ ofMethods methods (around.atMethods definition false)))

/-- The places of a statement. -/
def ofStmt : Stmt → Surroundings → List Place
  | .expression value, around => ofExpr value around
  | .print _ value, around => ofExpr value around
  | .var name none, around => [⟨around, .declare name⟩]
  | .var name (some initializer), around =>
    ⟨around, .declare name⟩ :: ofExpr initializer (around.declare name.lexeme .unfinished)
  | .block body, around => ofStmts body (around.enter (.block body) [])
  | .if condition positive none, around =>
    ofExpr condition around ++ (⟨around, .branch positive⟩ :: ofStmt positive around)
  | .if condition positive (some negative), around =>
    let after := around.declareAll positive.declares
    ofExpr condition around
    ++ (⟨around, .branch positive⟩ :: ofStmt positive around
      ++ (⟨after, .branch negative⟩ :: ofStmt negative after))
  | .while condition body, around =>
    let inside := around.inBody around.setting.body (around.setting.loops + 1)
    ofExpr condition inside ++ (⟨inside, .branch body⟩ :: ofStmt body inside)
  | .break keyword, around => [⟨around, .break keyword⟩]
  | .function declaration, around =>
    ⟨around, .function declaration⟩
    :: ((declaration.name.toList.map fun name => ⟨around, .declare name⟩)
      ++ ofFunction .function declaration
          (around.declareAll (declaration.name.toList.map fun name => (name.lexeme, .function))))
  | .return keyword none, around => [⟨around, .return keyword false⟩]
  | .return keyword (some value), around =>
    ⟨around, .return keyword true⟩ :: ofExpr value around
  | .class declaration, around => ofClass declaration around

/-- The places of some statements, each of which sees the declarations of those before it. -/
def ofStmts : List Stmt → Surroundings → List Place
  | [], _ => []
  | first :: rest, around =>
    ofStmt first around ++ ofStmts rest (around.declareAll first.declares)

end

/-- Statements see the declarations of all statements before them. -/
theorem ofStmts_append (first second : List Stmt) (around : Surroundings)
    : ofStmts (first ++ second) around
      = ofStmts first around
        ++ ofStmts second (around.declareAll (first.flatMap Stmt.declares)) := by
  induction first generalizing around with
  | nil => rfl
  | cons stmt rest ih =>
      rw [List.cons_append, ofStmts, ofStmts, ih, List.append_assoc, List.flatMap_cons,
        Surroundings.declareAll_append]

theorem ofFunction_eq (kind : BodyKind) (declaration : FunctionDecl) (around : Surroundings)
    : ofFunction kind declaration around
      = ofParameters declaration.parameters (around.atFunction kind declaration)
        ++ ofStmts declaration.body
            ((around.atFunction kind declaration).declareAll declaration.parameterNames) := by
  obtain ⟨name, keyword, parameters, body⟩ := declaration
  rw [ofFunction]

theorem ofClass_eq (definition : ClassDecl) (around : Surroundings)
    : ofClass definition around
      = ⟨around, .declare definition.name⟩
        :: (ofClause definition.name definition.superclass around
          ++ (ofStatics definition.statics (around.atMethods definition true)
            ++ ofMethods definition.methods (around.atMethods definition false))) := by
  obtain ⟨name, superclass, methods, statics⟩ := definition
  rw [ofClass]

/-- The places of a method are among those of all methods. -/
theorem mem_ofMethods {declaration : FunctionDecl} {declarations : List FunctionDecl}
    (member : declaration ∈ declarations) {around : Surroundings} {place : Place}
    (inside : place ∈ ofFunction (Analysis.methodKind declaration) declaration around)
    : place ∈ ofMethods declarations around := by
  induction declarations with
  | nil => cases member
  | cons first rest ih =>
      rw [ofMethods, List.mem_append]
      rcases List.mem_cons.1 member with rfl | later
      · exact .inl inside
      · exact .inr (ih later)

theorem mem_ofStatics {declaration : FunctionDecl} {declarations : List FunctionDecl}
    (member : declaration ∈ declarations) {around : Surroundings} {place : Place}
    (inside : place ∈ ofFunction .staticMethod declaration around)
    : place ∈ ofStatics declarations around := by
  induction declarations with
  | nil => cases member
  | cons first rest ih =>
      rw [ofStatics, List.mem_append]
      rcases List.mem_cons.1 member with rfl | later
      · exact .inl inside
      · exact .inr (ih later)

end Places

/-- The places of a program. -/
def Program.places (program : Program) : List Place := Places.ofStmts program .top

/-- The places of an expression by itself. -/
def Expr.places (expr : Expr) : List Place := Places.ofExpr expr .top

end Lox
