import Lox.Proofs.Scanning.Steps
import Lox.Proofs.Session.Receivers

/-! Methods across the requests of a session. Every class that a session has was made by a
declaration, as was each of its ancestors, and a method is that of the nearest of these whose
declaration has one of the name. A `super` begins with the class that the clause of the declaration
around it named at that time.
-/

namespace Lox

-----------------------------------------------------------------------------------------
-- Classes of a machine
-----------------------------------------------------------------------------------------

/-- A class is on a machine: as the value of a name or a field, or as the class of an instance. -/
inductive Machine.Holds (machine : Machine) : Class → Prop
  | bound {address : Nat} {name : String} {made : Class}
    (found : (machine.store.table address).get? name = some (some (.class made)))
    : Holds machine made
  | field {address : Nat} {object : Instance} {name : String} {made : Class}
    (there : machine.instances[address]? = some object)
    (had : object.fields.get? name = some (.class made))
    : Holds machine made
  | instance {address : Nat} {object : Instance}
    (there : machine.instances[address]? = some object)
    : Holds machine object.definition

/-- The last method of a name that a declaration has, among the static ones or the others. -/
def ClassDecl.method? (definition : ClassDecl) (isStatic : Bool) (name : String)
    : Option FunctionDecl :=
  (if isStatic then definition.statics else definition.methods).reverse.find?
    (·.displayName = name)

/-- A class has the methods of its declaration, the last one of each name. -/
structure Class.Provides (made : Class) (definition : ClassDecl) (closing : Environment) :
    Prop where
  methods
    : ∀ name,
        made.methods.get? name
        = (definition.method? false name).map fun method => ⟨method, closing, method.initializes⟩
  statics
    : ∀ name,
        made.statics.get? name
        = (definition.method? true name).map fun method => ⟨method, closing, false⟩

theorem Class.MadeFrom.provides {made : Class} {definition : ClassDecl} {closing : Environment}
    (h : made.MadeFrom definition closing)
    : made.Provides definition closing where
  methods name := by
    rw [h.methods, Step.get?_methodTable]
    rfl
  statics name := by
    rw [h.statics, Step.get?_methodTable]
    rfl

/-- The classes on a machine that is as a world has it fit into the world. -/
theorem World.Describes.fitsClass {history : History} {world : World} {machine : Machine}
    {made : Class} (describes : world.Describes history machine) (holds : machine.Holds made)
    : world.FitsClass made := by
  cases holds with
  | bound found =>
      rw [describes.store] at found
      obtain ⟨_, ⟨⟩, fits⟩ := describes.fits.values _ _ _ found
      exact fits
  | field there had => exact (describes.fits.objects _ _ there).2 _ _ had
  | «instance» there => exact (describes.fits.objects _ _ there).1

/-- A class that fits has been declared, and so have its ancestors. -/
theorem World.FitsClass.exists_provides {history : History} {world : World} {machine : Machine}
    {made ancestor : Class} (fits : world.FitsClass made)
    (describes : world.Describes history machine) (member : ancestor ∈ made.chain)
    : ∃ definition closing,
        history.Declared definition ancestor closing ∧ ancestor.Provides definition closing := by
  obtain ⟨definition, closing, declared⟩ := fits.declared ancestor (Class.mem_chain.1 member)
  obtain ⟨moment, came, declares⟩ := describes.declared _ _ _ declared
  exact ⟨definition, closing, ⟨moment, came, declares⟩, declares.made.provides⟩

-----------------------------------------------------------------------------------------
-- Methods that are bound
-----------------------------------------------------------------------------------------

/-- A function is a method that is bound to a receiver, in a table inside those around the method.
-/
structure Function.Binds (function : Function) (machine : Machine) (method : Closure)
    (receiver : Value) : Prop where
  declaration : function.closure.declaration = method.declaration
  initializes : function.closure.initializes = method.initializes
  outer : function.closure.environment.outer = method.environment.chain
  this : machine.store.getHere function.closure.environment.table "this" = .ok receiver

/-- A method that was found is bound to the receiver. -/
theorem Plan.run_foundMethod {access : Access} {perform : (task : Task) → Step task.Result}
    {machine : Machine} (method : Closure) (receiver : Value) (name : Token)
    : ∃ function after,
        (Plan.foundMethod (some method) receiver name).run access perform machine
          = .ok (.function function) after
        ∧ function.Binds after method receiver := by
  refine ⟨_, _, rfl, rfl, rfl, rfl, Store.getHere_of_get? ?_⟩
  rw [Store.table_add]
  exact (if_pos rfl).symm ▸ Table.get?_set ..

namespace Session

variable {config : Config} {sink : Sink} {clock : Nat → Float} {requests : List Request}
  {request : Request} {opened : Session} {task : Task} {moment : Moment}

/-- The classes on a machine of an evaluation, before a moment or after it, and all their ancestors
have been declared.
-/
theorem exists_provides
    (begins : ((start config sink clock).takeAll requests).Begins request opened task)
    (reaches : (opened.moment task).Reaches moment) {made ancestor : Class}
    (holds : moment.machine.Holds made ∨ moment.ending.machine.Holds made)
    (member : ancestor ∈ made.chain)
    : ∃ definition closing,
        ((start config sink clock).course requests request).history.Declared definition ancestor
          closing
        ∧ ancestor.Provides definition closing := by
  obtain ⟨ghost, required⟩ := required_of_reaches begins reaches
  rcases holds with holds | holds
  · exact (required.describes.fitsClass holds).exists_provides required.describes member
  · have closed := (start config sink clock).closed_course requests request
    obtain ⟨world, left⟩ := required.exists_left closed
    exact (left.describes.fitsClass holds).exists_provides left.describes member

/-- In any evaluation of a session, a method of a class is that of the first class on the chain of
superclasses whose declaration has one of the name, and there the last one. Static methods are
looked for among the static ones only, the others among the others. A `super` looks its method up
in the class that the clause gave when the class around it was declared, and binds it to the
current `this`.
-/
theorem methods_resolve_along_chains
    (begins : ((start config sink clock).takeAll requests).Begins request opened task)
    : (∀ moment made,
        (opened.moment task).Reaches moment
        → moment.machine.Holds made ∨ moment.ending.machine.Holds made
        → (∀ name, made.findMethod? name = made.chain.findSome? (·.methods.get? name))
          ∧ (∀ name, made.findStatic? name = made.chain.findSome? (·.statics.get? name))
          ∧ (∀ ancestor, ancestor ∈ made.chain ↔ made.Descends ancestor)
          ∧ ∀ ancestor ∈ made.chain,
              ∃ definition closing,
                ((start config sink clock).course requests request).history.Declared definition
                  ancestor closing
                ∧ ancestor.Provides definition closing)
      ∧ ∀ distances budget occurrence method machine,
          (opened.moment task).Reaches
              ⟨distances, budget + 1, .evaluate (.super occurrence method), machine⟩
          → ∃ around definition isStatic owner superclass receiver declaring closing clause found,
              ((start config sink clock).course requests request).listed
                ⟨around, .use .super occurrence⟩
              ∧ around.method? = some (definition, isStatic)
              ∧ machine.Receiving ((start config sink clock).course requests request).history
                  definition isStatic owner receiver
              ∧ ((start config sink clock).course requests request).history declaring
              ∧ declaring.Declares definition owner closing
              ∧ definition.superclass = some clause
              ∧ Moment.ending { declaring with task := .evaluate (.variable clause) }
                = .ok (.class superclass) declaring.machine
              ∧ found
                = (if isStatic then superclass.findStatic? method.lexeme
                  else superclass.findMethod? method.lexeme)
              ∧ (∀ closure,
                  found = some closure
                  → ∃ function after,
                      Moment.ending
                          ⟨distances, budget + 1, .evaluate (.super occurrence method), machine⟩
                        = .ok (.function function) after
                      ∧ function.Binds after closure receiver)
              ∧ (found = none
                → Moment.ending
                    ⟨distances, budget + 1, .evaluate (.super occurrence method), machine⟩
                  = .error (.fault ⟨method, .undefinedProperty method.lexeme⟩) machine) := by
  constructor
  · intro moment made reaches holds
    exact ⟨made.findMethod?_eq, made.findStatic?_eq, fun _ => Class.mem_chain,
      fun ancestor => exists_provides begins reaches holds⟩
  · intro distances budget occurrence method machine reaches
    obtain ⟨ghost, required⟩ := required_of_reaches begins reaches
    obtain ⟨definition, isStatic, owner, superclass, receiver, inside, receiving, inherits,
      ⟨closing, declaring, came, declares⟩, ended⟩ := required.ending_super
    have here := required.listed _ (required.admits.2 _ (List.mem_singleton.2 rfl))
    have derived : definition.superclass.isSome = true := by
      rw [← declares.made.inherits, inherits]
      rfl
    obtain ⟨clause, named⟩ := Option.isSome_iff_exists.1 derived
    obtain ⟨other, same, given⟩ := declares.clause clause named
    cases inherits.symm.trans same
    refine ⟨ghost.around, definition, isStatic, owner, superclass, receiver, declaring, closing,
      clause, _, here, inside, receiving, came, declares, named, given, rfl, ?_, ?_⟩
    · intro closure found
      rw [found] at ended
      rw [ended]
      exact Plan.run_foundMethod closure receiver method
    · intro missing
      rw [missing] at ended
      exact ended

/-- A session that runs the initializer of a derived class, in which a `super` is evaluated. -/
theorem exists_super_in_initializer
    : ∃ opened task distances budget occurrence method machine made,
        ((start ⟨false, 255, 20⟩ .unlimited fun _ => 0).takeAll []).Begins
          (.run "class A{m(){}}class B<A{init(){super.m;}}B();") opened task
        ∧ (opened.moment task).Reaches
            ⟨distances, budget + 1, .evaluate (.super occurrence method), machine⟩
        ∧ machine.Holds made
        ∧ made.superclass.isSome = true
        ∧ ∃ value after,
            Moment.ending ⟨distances, budget + 1, .evaluate (.super occurrence method), machine⟩
            = .ok value after := by
  let closing : Token := ⟨.mark .rightParen, ")", 1⟩
  let clause : Occurrence := ⟨0, .identifier, "A", 1⟩
  let super : Occurrence := ⟨1, .keyword .super, "super", 1⟩
  let method : Token := ⟨.identifier, "m", 1⟩
  have scan
      : Scan.ofText "class A{m(){}}class B<A{init(){super.m;}}B();"
        = ⟨[.token ⟨.keyword .class, "class", 1⟩, .token clause.token,
            .token ⟨.mark .leftBrace, "\x7b", 1⟩, .token method,
            .token ⟨.mark .leftParen, "(", 1⟩, .token closing,
            .token ⟨.mark .leftBrace, "\x7b", 1⟩, .token ⟨.mark .rightBrace, "\x7d", 1⟩,
            .token ⟨.mark .rightBrace, "\x7d", 1⟩, .token ⟨.keyword .class, "class", 1⟩,
            .token ⟨.identifier, "B", 1⟩, .token ⟨.mark .less, "<", 1⟩, .token clause.token,
            .token ⟨.mark .leftBrace, "\x7b", 1⟩, .token ⟨.identifier, "init", 1⟩,
            .token ⟨.mark .leftParen, "(", 1⟩, .token closing,
            .token ⟨.mark .leftBrace, "\x7b", 1⟩, .token super.token,
            .token ⟨.mark .dot, ".", 1⟩, .token method, .token ⟨.mark .semicolon, ";", 1⟩,
            .token ⟨.mark .rightBrace, "\x7d", 1⟩, .token ⟨.mark .rightBrace, "\x7d", 1⟩,
            .token ⟨.identifier, "B", 1⟩, .token ⟨.mark .leftParen, "(", 1⟩, .token closing,
            .token ⟨.mark .semicolon, ";", 1⟩],
          Token.endOfInput 1⟩ := by
    rw [Scan.ofText_eq]
    rfl
  let own : FunctionDecl := ⟨some method, method, [], []⟩
  let init : FunctionDecl :=
    ⟨some ⟨.identifier, "init", 1⟩, ⟨.identifier, "init", 1⟩, [],
      [.expression (.super super method)]⟩
  let base : Stmt := .class ⟨clause.token, none, [own], []⟩
  let derived : Stmt := .class ⟨⟨.identifier, "B", 1⟩, some clause, [init], []⟩
  let name : Expr := .variable ⟨2, .identifier, "B", 1⟩
  let call : Expr := .call name closing []
  let numbered : Session := ⟨⟨false, 255, 20⟩, .start 255 .unlimited fun _ => 0, .empty, 3⟩
  let opened := numbered.learn (((Distances.empty.record 0 0).record 1 2).record 2 0)
  have read
      : Program.parse (Scan.ofText "class A{m(){}}class B<A{init(){super.m;}}B();").tokens
            (Scan.ofText "class A{m(){}}class B<A{init(){super.m;}}B();").stop 0
          = (.ok [base, derived, .expression call], 3) := by
    rw [scan]
    cbv
  have begins : Begins (start ⟨false, 255, 20⟩ .unlimited fun _ => 0)
      (.run "class A{m(){}}class B<A{init(){super.m;}}B();") opened
      (.executeAll [base, derived, .expression call]) :=
    .run (by rw [scan]; rfl) (parseProgram_eq read) rfl
  -- the machines in order: around the declarations, and up to the body
  let first : Machine := .start 255 .unlimited fun _ => 0
  let ancestor : Class :=
    ⟨0, "A", none, Step.methodTable .globals FunctionDecl.initializes [own],
      Step.methodTable .globals (fun _ => false) []⟩
  let second : Machine :=
    { first with
      store := (first.store.define .globals "A" .nil).setSlot 0 "A" (some (.class ancestor))
      nextIdentity := 1 }
  let definition : Class :=
    ⟨1, "B", some ancestor, Step.methodTable ⟨1, [0]⟩ FunctionDecl.initializes [init],
      Step.methodTable ⟨1, [0]⟩ (fun _ => false) []⟩
  let inherited : Bindings Value := Table.empty.set "super" (some (.class ancestor))
  let third : Machine :=
    { second with
      store :=
        ((second.store.define .globals "B" .nil).add inherited).setSlot 0 "B"
          (some (.class definition))
      nextIdentity := 2 }
  let deeper : Machine := { third with callDepth := 1 }
  let made : Machine := { deeper with instances := #[⟨definition, .empty⟩] }
  let receiver : Bindings Value := Table.empty.set "this" (some (.instance 0))
  let ready : Machine := { made with store := made.store.add receiver }
  let inside : Machine :=
    { ready with environment := ⟨3, [2, 1, 0]⟩, store := ready.store.add (.ofList []) }
  have declared
      : Moment.ending ⟨opened.distances, 19, .execute base, first⟩ = .ok .normal second := rfl
  have inherits
      : Moment.ending ⟨opened.distances, 18, .execute derived, second⟩ = .ok .normal third := rfl
  have callee
      : Moment.ending ⟨opened.distances, 15, .evaluate name, third⟩
        = .ok (.class definition) third := rfl
  have given : Moment.ending ⟨opened.distances, 15, .evaluateAll [], third⟩ = .ok [] third := rfl
  have found : definition.initializer? = some ⟨init, ⟨1, [0]⟩, true⟩ := rfl
  have calls
      : (opened.moment (.executeAll [base, derived, .expression call])).Reaches
          ⟨opened.distances, 15, .call (.class definition) closing [], third⟩ :=
    .head (Moment.leads_rest declared) (.head (Moment.leads_rest inherits)
      (.head Moment.leads_first (.head Moment.leads_expression
        (.single (Moment.leads_call callee given)))))
  have runs
      : Moment.Reaches ⟨opened.distances, 15, .call (.class definition) closing [], third⟩
          ⟨opened.distances, 12, .executeAll init.body, inside⟩ :=
    .head (Moment.leads_construct rfl (Nat.zero_lt_succ 254))
      (.head (Moment.leads_initializer found) (.single Moment.leads_body))
  have reaches
      : (opened.moment (.executeAll [base, derived, .expression call])).Reaches
          ⟨opened.distances, 10, .evaluate (.super super method), inside⟩ :=
    ((calls.trans runs).tail Moment.leads_first).tail Moment.leads_expression
  have object : inside.instances[0]? = some ⟨definition, .empty⟩ := rfl
  have ended
      : Moment.ending ⟨opened.distances, 10, .evaluate (.super super method), inside⟩
        = .ok (.function ⟨2, ⟨own, ⟨4, [0]⟩, false⟩⟩)
          { inside with store := inside.store.add receiver, nextIdentity := 3 } :=
    rfl
  exact ⟨opened, _, _, 9, super, method, inside, definition, begins, reaches, .instance object, rfl,
    _, _, ended⟩

/-- The `super` in an initializer begins with the class that the clause of its class gave, and finds
the method there.
-/
theorem methods_resolve_in_initializer
    : ∃ (machine : Machine) (made owner superclass : Class) (definition : ClassDecl)
          (isStatic : Bool) (closing : Environment) (declaring : Moment) (clause : Occurrence)
          (method : Token) (closure : Closure) (function : Function) (receiver : Value)
          (after : Machine),
        machine.Holds made
        ∧ made.superclass.isSome = true
        ∧ (∀ name, made.findMethod? name = made.chain.findSome? (·.methods.get? name))
        ∧ (∃ declaration environment, made.Provides declaration environment)
        ∧ declaring.Declares definition owner closing
        ∧ definition.superclass = some clause
        ∧ Moment.ending { declaring with task := .evaluate (.variable clause) }
          = .ok (.class superclass) declaring.machine
        ∧ some closure
          = (if isStatic then superclass.findStatic? method.lexeme
            else superclass.findMethod? method.lexeme)
        ∧ function.Binds after closure receiver := by
  obtain ⟨opened, task, distances, budget, occurrence, method, machine, made, begins, reaches,
    holds, derived, value, left, ended⟩ := exists_super_in_initializer
  obtain ⟨classes, supers⟩ := methods_resolve_along_chains begins
  obtain ⟨along, _, _, provided⟩ := classes _ made reaches (.inl holds)
  obtain ⟨declaration, environment, _, provides⟩ := provided made (Class.mem_chain.2 .refl)
  obtain ⟨_, definition, isStatic, owner, superclass, receiver, declaring, closing, clause, found,
    _, _, _, _, declares, named, given, same, bound, missing⟩ := supers _ _ _ _ _ reaches
  cases found with
  | none => cases ended.symm.trans (missing rfl)
  | some closure =>
      obtain ⟨function, after, _, binds⟩ := bound closure rfl
      exact ⟨machine, made, owner, superclass, definition, isStatic, closing, declaring, clause,
        method, closure, function, receiver, after, holds, derived, along,
        ⟨declaration, environment, provides⟩, declares, named, given, same, binds⟩

end Session
end Lox
