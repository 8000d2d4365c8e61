import Lox.Proofs.Scoping.Places

/-! The shape of the scopes around the places of a program. What every construct hands down from
its surroundings to the scopes inside it holds around each place; so the scopes end with that of
the program, and the scope of `super` stands directly around one of `this`.
-/

namespace Lox

-----------------------------------------------------------------------------------------
-- What a reader of tokens grants
-----------------------------------------------------------------------------------------

/-- A name that stands for no variable. -/
def Reserved (name : String) : Prop := name = "this" ∨ name = "super"

instance (name : String) : Decidable (Reserved name) := by
  unfold Reserved
  infer_instance

/-- What holds of an act in a program that was read from tokens. -/
def Act.Proper : Act → Prop
  | .use .variable occurrence => ¬ Reserved occurrence.name
  | .use .assign occurrence => ¬ Reserved occurrence.name
  | .use .this occurrence => occurrence.name = "this"
  | .use .super occurrence => occurrence.name = "super"
  | .declare name => ¬ Reserved name.lexeme
  | .function declaration => ∃ name, declaration.name = some name
  | .branch body => body.declares = []
  | .inheritItself _ | .return _ _ | .break _ => True

/-- A statement declares names of variables only, each at a place of its own. By recursion over
the statements that a condition guards.
-/
theorem Stmt.free_declares (stmt : Stmt) {around : Surroundings}
    (proper : ∀ place ∈ Places.ofStmt stmt around, place.act.Proper)
    : ∀ entry ∈ stmt.declares, ¬ Reserved entry.1 := by
  cases stmt with
  | var name initializer =>
      refine List.forall_mem_singleton.2 ?_
      cases initializer with
      | none => exact proper _ (List.mem_singleton.2 rfl)
      | some initializer => exact proper _ (List.mem_cons_self ..)
  | function declaration =>
      intro entry member
      obtain ⟨name, given, rfl⟩ := List.mem_map.1 member
      refine proper ⟨around, .declare name⟩ (List.mem_cons_of_mem _ (List.mem_append_left _ ?_))
      exact List.mem_map.2 ⟨name, given, rfl⟩
  | «class» definition =>
      obtain ⟨name, superclass, methods, statics⟩ := definition
      exact List.forall_mem_singleton.2 (proper _ (List.mem_cons_self ..))
  | «if» condition positive negative =>
      cases negative with
      | none =>
          rw [Places.ofStmt, List.forall_mem_append, List.forall_mem_cons] at proper
          exact free_declares positive proper.2.2
      | some negative =>
          simp only [Places.ofStmt, List.forall_mem_append, List.forall_mem_cons] at proper
          rw [declares, List.forall_mem_append]
          exact ⟨free_declares positive proper.2.1.2, free_declares negative proper.2.2.2⟩
  | «while» condition body =>
      rw [Places.ofStmt, List.forall_mem_append, List.forall_mem_cons] at proper
      exact free_declares body proper.2.2
  | expression _ | print _ _ | block _ | «break» _ | «return» _ _ => exact List.forall_mem_nil _

/-- Statements declare names of variables only, by induction over them. -/
theorem Stmt.free_flatMap_declares (stmts : List Stmt) {around : Surroundings}
    (proper : ∀ place ∈ Places.ofStmts stmts around, place.act.Proper)
    : ∀ entry ∈ stmts.flatMap Stmt.declares, ¬ Reserved entry.1 := by
  induction stmts generalizing around with
  | nil => exact List.forall_mem_nil _
  | cons first rest ih =>
      rw [Places.ofStmts, List.forall_mem_append] at proper
      rw [List.flatMap_cons, List.forall_mem_append]
      exact ⟨first.free_declares proper.1, ih proper.2⟩

/-- Parameters are variables, by induction over them. -/
theorem Places.free_ofParameters {parameters : List Token} {around : Surroundings}
    (proper : ∀ place ∈ Places.ofParameters parameters around, place.act.Proper)
    : ∀ parameter ∈ parameters, ¬ Reserved parameter.lexeme := by
  induction parameters generalizing around with
  | nil => exact List.forall_mem_nil _
  | cons first rest ih =>
      rw [Places.ofParameters, List.forall_mem_cons] at proper
      exact List.forall_mem_cons.2 ⟨proper.1, ih proper.2⟩

-----------------------------------------------------------------------------------------
-- What is handed down
-----------------------------------------------------------------------------------------

/-- A property of surroundings passes from each construct to the scopes inside it, where the
places of a program are lawful.
-/
structure Surroundings.HandedDown (holds : Surroundings → Prop) (lawful : Place → Prop) : Prop
    where
  declare
    : ∀ {around : Surroundings} {name : Token} (binder : Binder),
        holds around → lawful ⟨around, .declare name⟩ → holds (around.declare name.lexeme binder)
  inBody
    : ∀ {around : Surroundings} (kind : BodyKind) (loops : Nat),
        holds around → holds (around.inBody kind loops)
  block
    : ∀ {around : Surroundings} (body : List Stmt),
        holds around → holds (around.enter (.block body) [])
  function
    : ∀ {around : Surroundings} (kind : BodyKind) (declaration : FunctionDecl),
        holds around → holds (around.atFunction kind declaration)
  method
    : ∀ {around : Surroundings} {definition : ClassDecl} (isStatic : Bool) (kind : BodyKind)
        (declaration : FunctionDecl),
        holds (around.declare definition.name.lexeme .class)
        → holds ((around.atMethods definition isStatic).atFunction kind declaration)

namespace Surroundings.HandedDown

variable {holds : Surroundings → Prop} {lawful : Place → Prop}

theorem ofParameters (h : HandedDown holds lawful) (parameters : List Token)
    {around : Surroundings} (here : holds around)
    (places : ∀ place ∈ Places.ofParameters parameters around, lawful place)
    : (∀ place ∈ Places.ofParameters parameters around, holds place.around)
      ∧ holds (around.declareAll
          (parameters.map fun parameter => (parameter.lexeme, Binder.parameter))) := by
  induction parameters generalizing around with
  | nil => exact ⟨List.forall_mem_nil _, here⟩
  | cons name rest ih =>
      rw [Places.ofParameters, List.forall_mem_cons] at places
      obtain ⟨inside, after⟩ := ih (h.declare .parameter here places.1) places.2
      exact ⟨List.forall_mem_cons.2 ⟨here, inside⟩, after⟩

mutual

/-- By induction over the listing, with the surroundings that a statement leaves behind. -/
theorem ofExpr (h : HandedDown holds lawful) (expr : Expr)
    {around : Surroundings} (here : holds around)
    (places : ∀ place ∈ Places.ofExpr expr around, lawful place)
    : ∀ place ∈ Places.ofExpr expr around, holds place.around := by
  cases expr with
  | literal value => exact List.forall_mem_nil _
  | grouping inner => exact h.ofExpr inner here places
  | unary operator operand => exact h.ofExpr operand here places
  | binary operator left right =>
      rw [Places.ofExpr, List.forall_mem_append] at places ⊢
      exact ⟨h.ofExpr left here places.1, h.ofExpr right here places.2⟩
  | logical operator left right =>
      rw [Places.ofExpr, List.forall_mem_append] at places ⊢
      exact ⟨h.ofExpr left here places.1, h.ofExpr right here places.2⟩
  | conditional condition positive negative =>
      rw [Places.ofExpr, List.forall_mem_append, List.forall_mem_append] at places ⊢
      exact ⟨h.ofExpr condition here places.1, h.ofExpr positive here places.2.1,
        h.ofExpr negative here places.2.2⟩
  | «variable» occurrence => exact List.forall_mem_singleton.2 here
  | assign target value =>
      rw [Places.ofExpr, List.forall_mem_append] at places ⊢
      exact ⟨h.ofExpr value here places.1, List.forall_mem_singleton.2 here⟩
  | call callee closing arguments =>
      rw [Places.ofExpr, List.forall_mem_append] at places ⊢
      exact ⟨h.ofExpr callee here places.1, h.ofExprs arguments here places.2⟩
  | get object property => exact h.ofExpr object here places
  | set object property value =>
      rw [Places.ofExpr, List.forall_mem_append] at places ⊢
      exact ⟨h.ofExpr value here places.1, h.ofExpr object here places.2⟩
  | this occurrence => exact List.forall_mem_singleton.2 here
  | super occurrence method => exact List.forall_mem_singleton.2 here
  | lambda declaration =>
      exact h.ofFunction .function declaration (h.function .function declaration here) places

theorem ofExprs (h : HandedDown holds lawful) (exprs : List Expr)
    {around : Surroundings} (here : holds around)
    (places : ∀ place ∈ Places.ofExprs exprs around, lawful place)
    : ∀ place ∈ Places.ofExprs exprs around, holds place.around := by
  cases exprs with
  | nil => exact List.forall_mem_nil _
  | cons first rest =>
      rw [Places.ofExprs, List.forall_mem_append] at places ⊢
      exact ⟨h.ofExpr first here places.1, h.ofExprs rest here places.2⟩

theorem ofFunction (h : HandedDown holds lawful) (kind : BodyKind) (declaration : FunctionDecl)
    {around : Surroundings} (inside : holds (around.atFunction kind declaration))
    (places : ∀ place ∈ Places.ofFunction kind declaration around, lawful place)
    : ∀ place ∈ Places.ofFunction kind declaration around, holds place.around := by
  obtain ⟨name, keyword, parameters, body⟩ := declaration
  rw [Places.ofFunction, List.forall_mem_append] at places ⊢
  obtain ⟨bound, after⟩ := h.ofParameters parameters inside places.1
  exact ⟨bound, (h.ofStmts body after places.2).1⟩

theorem ofStatics (h : HandedDown holds lawful) (declarations : List FunctionDecl)
    {around : Surroundings}
    (inside : ∀ kind declaration, holds (around.atFunction kind declaration))
    (places : ∀ place ∈ Places.ofStatics declarations around, lawful place)
    : ∀ place ∈ Places.ofStatics declarations around, holds place.around := by
  cases declarations with
  | nil => exact List.forall_mem_nil _
  | cons first rest =>
      rw [Places.ofStatics, List.forall_mem_append] at places ⊢
      exact ⟨h.ofFunction _ first (inside _ first) places.1, h.ofStatics rest inside places.2⟩

theorem ofMethods (h : HandedDown holds lawful) (declarations : List FunctionDecl)
    {around : Surroundings}
    (inside : ∀ kind declaration, holds (around.atFunction kind declaration))
    (places : ∀ place ∈ Places.ofMethods declarations around, lawful place)
    : ∀ place ∈ Places.ofMethods declarations around, holds place.around := by
  cases declarations with
  | nil => exact List.forall_mem_nil _
  | cons first rest =>
      rw [Places.ofMethods, List.forall_mem_append] at places ⊢
      exact ⟨h.ofFunction _ first (inside _ first) places.1, h.ofMethods rest inside places.2⟩

theorem ofClass (h : HandedDown holds lawful) (definition : ClassDecl)
    {around : Surroundings} (here : holds around)
    (places : ∀ place ∈ Places.ofClass definition around, lawful place)
    : (∀ place ∈ Places.ofClass definition around, holds place.around)
      ∧ holds (around.declare definition.name.lexeme .class) := by
  obtain ⟨name, superclass, methods, statics⟩ := definition
  rw [Places.ofClass, List.forall_mem_cons, List.forall_mem_append, List.forall_mem_append]
    at places
  obtain ⟨declared, clause, staticPlaces, methodPlaces⟩ := places
  have named := h.declare .class here declared
  refine ⟨?_, named⟩
  rw [Places.ofClass, List.forall_mem_cons, List.forall_mem_append, List.forall_mem_append]
  refine ⟨here, ?_, h.ofStatics statics (fun _ _ => h.method true _ _ named) staticPlaces,
    h.ofMethods methods (fun _ _ => h.method false _ _ named) methodPlaces⟩
  unfold Places.ofClause
  split
  · exact List.forall_mem_nil _
  · split <;> exact List.forall_mem_singleton.2 here

theorem ofStmt (h : HandedDown holds lawful) (stmt : Stmt)
    {around : Surroundings} (here : holds around)
    (places : ∀ place ∈ Places.ofStmt stmt around, lawful place)
    : (∀ place ∈ Places.ofStmt stmt around, holds place.around)
      ∧ holds (around.declareAll stmt.declares) := by
  cases stmt with
  | expression value => exact ⟨h.ofExpr value here places, here⟩
  | print keyword value => exact ⟨h.ofExpr value here places, here⟩
  | var name initializer =>
      cases initializer with
      | none =>
          have declared := places _ (List.mem_singleton.2 rfl)
          exact ⟨List.forall_mem_singleton.2 here, h.declare .variable here declared⟩
      | some initializer =>
          rw [Places.ofStmt, List.forall_mem_cons] at places
          refine ⟨?_, h.declare .variable here places.1⟩
          rw [Places.ofStmt, List.forall_mem_cons]
          exact ⟨here, h.ofExpr initializer (h.declare .unfinished here places.1) places.2⟩
  | block body => exact ⟨(h.ofStmts body (h.block body here) places).1, here⟩
  | «if» condition positive negative =>
      cases negative with
      | none =>
          rw [Places.ofStmt, List.forall_mem_append, List.forall_mem_cons] at places
          obtain ⟨first, _, second⟩ := places
          obtain ⟨inside, after⟩ := h.ofStmt positive here second
          refine ⟨?_, after⟩
          rw [Places.ofStmt, List.forall_mem_append, List.forall_mem_cons]
          exact ⟨h.ofExpr condition here first, here, inside⟩
      | some negative =>
          simp only [Places.ofStmt, List.forall_mem_append, List.forall_mem_cons] at places
          obtain ⟨first, ⟨_, second⟩, _, third⟩ := places
          obtain ⟨inside, after⟩ := h.ofStmt positive here second
          obtain ⟨insideElse, afterElse⟩ := h.ofStmt negative after third
          rw [Stmt.declares, declareAll_append]
          refine ⟨?_, afterElse⟩
          simp only [Places.ofStmt, List.forall_mem_append, List.forall_mem_cons]
          exact ⟨h.ofExpr condition here first, ⟨here, inside⟩, after, insideElse⟩
  | «while» condition body =>
      rw [Places.ofStmt, List.forall_mem_append, List.forall_mem_cons] at places
      obtain ⟨first, _, second⟩ := places
      have looped := h.inBody around.setting.body (around.setting.loops + 1) here
      obtain ⟨inside, after⟩ := h.ofStmt body looped second
      constructor
      · rw [Places.ofStmt, List.forall_mem_append, List.forall_mem_cons]
        exact ⟨h.ofExpr condition looped first, looped, inside⟩
      · rw [declareAll_inBody] at after
        have back := h.inBody (around.declareAll body.declares).setting.body
          (around.declareAll body.declares).setting.loops after
        rwa [inBody_inBody] at back
  | «break» keyword => exact ⟨List.forall_mem_singleton.2 here, here⟩
  | function declaration =>
      rw [Places.ofStmt, List.forall_mem_cons, List.forall_mem_append] at places
      obtain ⟨_, named, inside⟩ := places
      have declared
          : holds (around.declareAll
              (declaration.name.toList.map fun name => (name.lexeme, Binder.function))) := by
        cases name : declaration.name with
        | none => exact here
        | some name =>
            rw [name] at named
            exact h.declare .function here (named _ (List.mem_singleton.2 rfl))
      refine ⟨?_, declared⟩
      rw [Places.ofStmt, List.forall_mem_cons, List.forall_mem_append]
      refine ⟨here, ?_, h.ofFunction .function declaration (h.function _ _ declared) inside⟩
      intro place member
      obtain ⟨name, _, rfl⟩ := List.mem_map.1 member
      exact here
  | «return» keyword value =>
      cases value with
      | none => exact ⟨List.forall_mem_singleton.2 here, here⟩
      | some value =>
          rw [Places.ofStmt, List.forall_mem_cons] at places
          refine ⟨?_, here⟩
          rw [Places.ofStmt, List.forall_mem_cons]
          exact ⟨here, h.ofExpr value here places.2⟩
  | «class» definition =>
      obtain ⟨name, superclass, methods, statics⟩ := definition
      exact h.ofClass ⟨name, superclass, methods, statics⟩ here places

theorem ofStmts (h : HandedDown holds lawful) (stmts : List Stmt)
    {around : Surroundings} (here : holds around)
    (places : ∀ place ∈ Places.ofStmts stmts around, lawful place)
    : (∀ place ∈ Places.ofStmts stmts around, holds place.around)
      ∧ holds (around.declareAll (stmts.flatMap Stmt.declares)) := by
  cases stmts with
  | nil => exact ⟨List.forall_mem_nil _, here⟩
  | cons first rest =>
      rw [Places.ofStmts, List.forall_mem_append] at places
      obtain ⟨inside, after⟩ := h.ofStmt first here places.1
      obtain ⟨insideRest, afterRest⟩ := h.ofStmts rest after places.2
      rw [Places.ofStmts, List.forall_mem_append, List.flatMap_cons, declareAll_append]
      exact ⟨⟨inside, insideRest⟩, afterRest⟩

end

end Surroundings.HandedDown

-----------------------------------------------------------------------------------------
-- The layers of scopes
-----------------------------------------------------------------------------------------

/-- The class whose methods have their receiver in a scope, and whether these are static. -/
def Region.receiver? : Region → Option (ClassDecl × Bool)
  | .receiver definition isStatic => some (definition, isStatic)
  | .program | .block _ | .function _ | .superclass _ => none

/-- The class of the innermost method around a place, and whether the method is static. -/
def Surroundings.method? (around : Surroundings) : Option (ClassDecl × Bool) :=
  around.frames.findSome? (·.region.receiver?)

/-- A scope binds no reserved name. -/
def Frame.Plain (frame : Frame) : Prop := ∀ entry ∈ frame.names, ¬ Reserved entry.1

/-- The scope of a receiver. -/
def Frame.ofReceiver (definition : ClassDecl) (isStatic : Bool) : Frame :=
  ⟨.receiver definition isStatic, [("this", .receiver)]⟩

/-- The scope of a superclass. -/
def Frame.ofSuperclass (definition : ClassDecl) : Frame :=
  ⟨.superclass definition, [("super", .superclass)]⟩

@[simp]
theorem Frame.ofReceiver_has (definition : ClassDecl) (isStatic : Bool) (name : String)
    : (Frame.ofReceiver definition isStatic).has name = decide ("this" = name) := by
  simp [ofReceiver, has]

@[simp]
theorem Frame.ofSuperclass_has (definition : ClassDecl) (name : String)
    : (Frame.ofSuperclass definition).has name = decide ("super" = name) := by
  simp [ofSuperclass, has]

/-- Scopes as they stand around a place in a class body of some kind. The scope of a superclass
is around that of a receiver, and the latter around the scope of a method.
-/
inductive Layered : List Frame → ClassKind → Prop
  | program {names} (plain : Frame.Plain ⟨.program, names⟩)
    : Layered [⟨.program, names⟩] .none
  | block {body names outer kind} (plain : Frame.Plain ⟨.block body, names⟩)
    (around : Layered outer kind)
    : Layered (⟨.block body, names⟩ :: outer) kind
  | function {declaration names outer kind} (plain : Frame.Plain ⟨.function declaration, names⟩)
    (around : Layered outer kind)
    : Layered (⟨.function declaration, names⟩ :: outer) kind
  | method {declaration names outer kind} {definition : ClassDecl} {isStatic : Bool}
    (plain : Frame.Plain ⟨.function declaration, names⟩) (around : Layered outer kind)
    : Layered (⟨.function declaration, names⟩ :: .ofReceiver definition isStatic :: outer) .base
  | derived {declaration names outer kind} {definition : ClassDecl} {isStatic : Bool}
    (plain : Frame.Plain ⟨.function declaration, names⟩) (around : Layered outer kind)
    : Layered
        (⟨.function declaration, names⟩ :: .ofReceiver definition isStatic
          :: .ofSuperclass definition :: outer)
        .derived

namespace Layered

/-- The layers around a place. -/
abbrev Around (around : Surroundings) : Prop := Layered around.frames around.setting.classBody

/-- A plain scope that gets a further name of a variable is plain. -/
theorem plain_declare {frame : Frame} {name : String} {binder : Binder} (plain : frame.Plain)
    (free : ¬ Reserved name)
    : Frame.Plain { frame with names := (name, binder) :: frame.names } :=
  List.forall_mem_cons.2 ⟨free, plain⟩

/-- A declaration changes the innermost layer only. -/
theorem declare {around : Surroundings} {name : String} (binder : Binder)
    (h : Around around) (free : ¬ Reserved name)
    : Around (around.declare name binder) := by
  obtain ⟨frames, setting⟩ := around
  rw [Around, Surroundings.declare_setting]
  simp only [Around] at h
  generalize setting.classBody = kind at h ⊢
  cases h with
  | program plain => exact .program (plain_declare plain free)
  | block plain outer => exact .block (plain_declare plain free) outer
  | function plain outer => exact .function (plain_declare plain free) outer
  | method plain outer => exact .method (plain_declare plain free) outer
  | derived plain outer => exact .derived (plain_declare plain free) outer

/-- Every construct keeps the layers in order. -/
theorem handedDown : Surroundings.HandedDown Around fun place => place.act.Proper where
  declare binder h free := h.declare binder free
  inBody _ _ h := h
  block _ h := .block (List.forall_mem_nil _) h
  function _ _ h := .function (List.forall_mem_nil _) h
  method {around definition} isStatic kind declaration h := by
    unfold Surroundings.atMethods Surroundings.atClass
    cases definition.superclass with
    | none => exact .method (List.forall_mem_nil _) h
    | some _ => exact .derived (List.forall_mem_nil _) h

/-- The layers around every place of a program with proper places. -/
theorem of_program {program : Program} (proper : ∀ place ∈ program.places, place.act.Proper)
    : ∀ place ∈ program.places, Around place.around :=
  (handedDown.ofStmts program (.program (List.forall_mem_nil _)) proper).1

theorem of_expr {expr : Expr} (proper : ∀ place ∈ expr.places, place.act.Proper)
    : ∀ place ∈ expr.places, Around place.around :=
  handedDown.ofExpr expr (.program (List.forall_mem_nil _)) proper

-----------------------------------------------------------------------------------------
-- What the layers tell
-----------------------------------------------------------------------------------------

variable {frames : List Frame} {kind : ClassKind}

/-- The outermost scope is that of the program, and no other is. -/
theorem outermost (h : Layered frames kind)
    : ∃ inner names,
        frames = inner ++ [⟨.program, names⟩] ∧ ∀ frame ∈ inner, frame.region ≠ .program := by
  induction h with
  | @program names _ => exact ⟨[], names, rfl, List.forall_mem_nil _⟩
  | block _ _ ih =>
      obtain ⟨inner, names, rfl, others⟩ := ih
      exact ⟨_ :: inner, names, rfl, List.forall_mem_cons.2 ⟨nofun, others⟩⟩
  | function _ _ ih =>
      obtain ⟨inner, names, rfl, others⟩ := ih
      exact ⟨_ :: inner, names, rfl, List.forall_mem_cons.2 ⟨nofun, others⟩⟩
  | method _ _ ih =>
      obtain ⟨inner, names, rfl, others⟩ := ih
      exact ⟨_ :: _ :: inner, names, rfl, by simpa [Frame.ofReceiver] using others⟩
  | derived _ _ ih =>
      obtain ⟨inner, names, rfl, others⟩ := ih
      exact ⟨_ :: _ :: _ :: inner, names, rfl,
        by simpa [Frame.ofReceiver, Frame.ofSuperclass] using others⟩

/-- Plain scopes do not bind `this` or `super`. -/
theorem has_plain {frame : Frame} {name : String} (plain : frame.Plain) (reserved : Reserved name)
    : frame.has name = false := by
  refine Bool.eq_false_iff.2 fun has => ?_
  obtain ⟨entry, member, same⟩ := List.any_eq_true.1 has
  exact plain entry member (of_decide_eq_true same ▸ reserved)

/-- Where `super` is bound, the scope inside is that of the receiver. It is also the innermost
scope that binds `this`.
-/
theorem super_receiver (h : Layered frames .derived)
    : ∃ distance definition isStatic,
        frames.findIdx? (·.has "super") = some (distance + 1)
        ∧ frames[distance + 1]? = some (.ofSuperclass definition)
        ∧ frames[distance]? = some (.ofReceiver definition isStatic)
        ∧ frames.findIdx? (·.has "this") = some distance := by
  generalize same : ClassKind.derived = kind at h
  induction h with
  | program => cases same
  | method => cases same
  | block plain _ ih =>
      obtain ⟨distance, definition, isStatic, found, outer, inner, this⟩ := ih same
      refine ⟨distance + 1, definition, isStatic, ?_, outer, inner, ?_⟩
      · simp [List.findIdx?_cons, has_plain plain (.inr rfl), found]
      · simp [List.findIdx?_cons, has_plain plain (.inl rfl), this]
  | function plain _ ih =>
      obtain ⟨distance, definition, isStatic, found, outer, inner, this⟩ := ih same
      refine ⟨distance + 1, definition, isStatic, ?_, outer, inner, ?_⟩
      · simp [List.findIdx?_cons, has_plain plain (.inr rfl), found]
      · simp [List.findIdx?_cons, has_plain plain (.inl rfl), this]
  | @derived _ _ _ _ definition isStatic plain _ _ =>
      refine ⟨1, definition, isStatic, ?_, rfl, rfl, ?_⟩
      · simp [List.findIdx?_cons, has_plain plain (.inr rfl)]
      · simp [List.findIdx?_cons, has_plain plain (.inl rfl)]

/-- The scope of the receiver of the innermost method around a place is the innermost one that
binds `this`. By induction over the layers.
-/
theorem receiver (h : Layered frames kind) {setting : Setting} {definition : ClassDecl}
    {isStatic : Bool}
    (found : Surroundings.method? ⟨frames, setting⟩ = some (definition, isStatic))
    : ∃ distance,
        frames.findIdx? (·.has "this") = some distance
        ∧ frames[distance]? = some (.ofReceiver definition isStatic) := by
  simp only [Surroundings.method?] at found
  induction h with
  | program => simp [Region.receiver?] at found
  | block plain _ ih =>
      obtain ⟨distance, this, there⟩ := ih (by simpa [Region.receiver?] using found)
      refine ⟨distance + 1, ?_, there⟩
      simp [List.findIdx?_cons, has_plain plain (.inl rfl), this]
  | function plain _ ih =>
      obtain ⟨distance, this, there⟩ := ih (by simpa [Region.receiver?] using found)
      refine ⟨distance + 1, ?_, there⟩
      simp [List.findIdx?_cons, has_plain plain (.inl rfl), this]
  | method plain _ _ =>
      cases found
      exact ⟨1, by simp [List.findIdx?_cons, has_plain plain (.inl rfl)], rfl⟩
  | derived plain _ _ =>
      cases found
      exact ⟨1, by simp [List.findIdx?_cons, has_plain plain (.inl rfl)], rfl⟩

/-- A place in a class body is in a method. -/
theorem exists_method (h : Layered frames kind) (inside : kind ≠ .none) (setting : Setting)
    : ∃ definition isStatic,
        Surroundings.method? ⟨frames, setting⟩ = some (definition, isStatic) := by
  simp only [Surroundings.method?]
  induction h with
  | program => exact absurd rfl inside
  | block _ _ ih => simpa [Region.receiver?] using ih inside
  | function _ _ ih => simpa [Region.receiver?] using ih inside
  | @method _ _ _ _ definition isStatic _ _ _ => exact ⟨definition, isStatic, rfl⟩
  | @derived _ _ _ _ definition isStatic _ _ _ => exact ⟨definition, isStatic, rfl⟩

/-- A scope that binds a reserved name has bound it from the start. -/
theorem settles_reserved (h : Layered frames kind) {frame : Frame} (member : frame ∈ frames)
    {name : String} (reserved : Reserved name) (has : frame.has name = true)
    : frame.settles name = true := by
  have absurd {frame : Frame} (plain : frame.Plain) : frame.has name = true → False := by
    simp [has_plain plain reserved]
  induction h with
  | program plain =>
      cases List.mem_singleton.1 member
      exact (absurd plain has).elim
  | block plain _ ih =>
      rcases List.mem_cons.1 member with rfl | member
      · exact (absurd plain has).elim
      · exact ih member
  | function plain _ ih =>
      rcases List.mem_cons.1 member with rfl | member
      · exact (absurd plain has).elim
      · exact ih member
  | method plain _ ih =>
      simp only [List.mem_cons] at member
      rcases member with rfl | rfl | member
      · exact (absurd plain has).elim
      · simpa [Frame.ofReceiver, Frame.has, Frame.settles] using has
      · exact ih member
  | derived plain _ ih =>
      simp only [List.mem_cons] at member
      rcases member with rfl | rfl | rfl | member
      · exact (absurd plain has).elim
      · simpa [Frame.ofReceiver, Frame.has, Frame.settles] using has
      · simpa [Frame.ofSuperclass, Frame.has, Frame.settles] using has
      · exact ih member

end Layered

end Lox
