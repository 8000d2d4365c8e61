import Lox.Proofs.Evaluation.Receivers
import Lox.Proofs.Session.Chasing
import Lox.Proofs.Session.Control
import Lox.Proofs.Session.Distances

/-! Receivers of methods across the requests of a session. Wherever code of a method runs, also in
functions inside it and long after the method was bound, the current `this` is an instance of the
class that has declared the method, or in a static method the class itself, or one of a descendant.
So `super` looks a method up among the right ones.
-/

namespace Lox

/-- The places of the code that a task runs by itself, in some surroundings. -/
def Task.code? : Task → Option (Surroundings → List Place)
  | .evaluate expr => some (Places.ofExpr expr)
  | .evaluateAll exprs => some (Places.ofExprs exprs)
  | .execute stmt => some (Places.ofStmt stmt)
  | .executeAll stmts => some (Places.ofStmts stmts)
  | .loop condition body =>
    some fun around => Places.ofExpr condition around ++ Places.ofStmt body around
  | .call _ _ _ | .invoke _ _ | .construct _ _ => none

/-- The current `this` is a receiver of the methods of a class. Its table was made for a method that
the class has got from its declaration.
-/
structure Machine.Receiving (machine : Machine) (history : History) (definition : ClassDecl)
    (isStatic : Bool) (owner : Class) (receiver : Value) : Prop where
  this : machine.store.get machine.environment "this" = .ok receiver
  bound
    : ∃ distance target closing,
        machine.environment.ancestor? distance = some target
        ∧ machine.store.find machine.environment "this" = .ok target.table
        ∧ history.Made target.table ⟨.receiver definition isStatic, closing.chain⟩
        ∧ owner.MadeFrom definition closing
  receives : receiver.Receives machine.instances owner isStatic

section

variable {history : History} {world : World} {machine : Machine} {around : Surroundings}
  {definition : ClassDecl} {isStatic : Bool}

/-- A table for a receiver in which `this` is found makes it the current one. -/
theorem World.Describes.receiving (describes : world.Describes history machine)
    {target closing : Environment} {owner : Class} {receiver : Value} {distance : Nat}
    (hosts : world.Hosts machine.instances target definition isStatic closing owner receiver)
    (walked : machine.environment.ancestor? distance = some target)
    (found : machine.store.find machine.environment "this" = .ok target.table)
    : machine.Receiving history definition isStatic owner receiver where
  this := by
    simp only [Store.get, found]
    exact Store.getHere_of_get? (describes.store ▸ hosts.bound)
  bound :=
    ⟨distance, target, closing, walked, found, hosts.inside ▸ describes.made _ _ hosts.opened,
      hosts.owns.made⟩
  receives := hosts.receives

/-- Where code of a method runs, there is a receiver for the class of the method. -/
theorem World.Describes.exists_receiving (describes : world.Describes history machine)
    (stands : world.Stands machine.environment.chain around.frames)
    (inside : around.method? = some (definition, isStatic))
    : ∃ owner receiver, machine.Receiving history definition isStatic owner receiver := by
  obtain ⟨distance, target, walked, found, opened⟩ :=
    describes.fits.find_receiver stands inside
  obtain ⟨closing, owner, receiver, hosts⟩ := describes.fits.hosts opened
  exact ⟨owner, receiver, describes.receiving hosts walked (describes.store ▸ found)⟩

/-- Code that is about to run is known, where the current chain stands for the scopes around. -/
theorem Ghost.Admits.code {ghost : Ghost} {environment : Environment} {task : Task}
    {code : Surroundings → List Place} (admits : ghost.Admits environment task)
    (runs : task.code? = some code)
    : ghost.world.Stands environment.chain ghost.around.frames
      ∧ ∀ place ∈ code ghost.around, ghost.world.known place := by
  cases task with
  | evaluate expr =>
      cases runs
      exact admits
  | evaluateAll exprs =>
      cases runs
      exact admits
  | execute stmt =>
      cases runs
      exact ⟨admits.1, admits.2.1⟩
  | executeAll stmts =>
      cases runs
      exact ⟨admits.1, admits.2.1⟩
  | loop condition body =>
      cases runs
      exact ⟨admits.1, List.forall_mem_append.2 ⟨admits.2.1, admits.2.2.1⟩⟩
  | call | invoke | construct => cases runs

end

-----------------------------------------------------------------------------------------
-- Looking up in a superclass
-----------------------------------------------------------------------------------------

section

variable {access : Access} {perform : (task : Task) → Step task.Result} {machine : Machine}
  {occurrence : Occurrence} {address : Nat}

/-- With a superclass and a receiver, a `super` looks its method up in the superclass, among the
static methods if the receiver is that of a static method.
-/
theorem Plan.run_superMethod {method : Token} {outer : Nat} {superclass : Class} {receiver : Value}
    {instances : Array Instance} {owner : Class} {isStatic : Bool}
    (home : access.home .super occurrence machine = .ok outer)
    (inherited : machine.store.getHere outer occurrence.name = .ok (.class superclass))
    (receiverHome : access.receiverHome occurrence machine = .ok address)
    (bound : machine.store.getHere address "this" = .ok receiver)
    (receives : receiver.Receives instances owner isStatic)
    : (Plan.superMethod occurrence method).run access perform machine
      = (Plan.foundMethod
          (if isStatic then superclass.findStatic? method.lexeme
          else superclass.findMethod? method.lexeme)
          receiver method).run access perform machine := by
  refine (Plan.run_read home inherited _).trans ?_
  refine (Plan.run_act ..).trans ?_
  simp only [Action.perform, Step.lookup, receiverHome, Ending.andThen]
  refine (Plan.run_step ..).trans ?_
  have read
      : Step.getHere address (Step.receiverToken occurrence.token.line) machine
        = .ok receiver machine :=
    Step.getHere_of_ok bound
  refine (congrArg (Ending.andThen · _) read).trans ?_
  cases receives <;> rfl

end

-----------------------------------------------------------------------------------------
-- What `this` and `super` give
-----------------------------------------------------------------------------------------

namespace Moment.Required

variable {course : Course} {ghost : Ghost} {distances : Distances} {budget : Nat}
  {occurrence : Occurrence} {machine : Machine}

/-- A `this` stands in a method and gives the receiver. -/
theorem ending_this
    (required
      : Moment.Required course ghost ⟨distances, budget + 1, .evaluate (.this occurrence), machine⟩)
    : ∃ definition isStatic owner receiver,
        ghost.around.method? = some (definition, isStatic)
        ∧ machine.Receiving course.history definition isStatic owner receiver
        ∧ Moment.ending ⟨distances, budget + 1, .evaluate (.this occurrence), machine⟩
          = .ok receiver machine := by
  obtain ⟨stands, known⟩ := required.admits
  have describes := required.describes
  have settled := required.settled _ (known _ (List.mem_singleton.2 rfl))
  have name : occurrence.name = "this" := settled.proper
  have reserved : Reserved occurrence.name := .inl name
  obtain ⟨definition, isStatic, inside⟩ := settled.exists_method reserved
  obtain ⟨owner, receiver, receiving⟩ := describes.exists_receiving stands inside
  refine ⟨definition, isStatic, owner, receiver, inside, receiving, ?_⟩
  have home := settled.home_eq_find describes stands (settled.layered.clear reserved)
  have this := receiving.this
  obtain ⟨_, target, _, _, found, _⟩ := receiving.bound
  simp only [Store.get, found] at this
  dsimp only at home
  rw [name, found] at home
  exact Plan.run_read home (name ▸ this) .done

/-- A `super` stands in a method of a derived class. It looks its method up in the superclass of
the class that has declared the method around it, among the static ones if that one is static.
The class has come of its declaration.
-/
theorem ending_super {method : Token}
    (required
      : Moment.Required course ghost
          ⟨distances, budget + 1, .evaluate (.super occurrence method), machine⟩)
    : ∃ definition isStatic owner superclass receiver,
        ghost.around.method? = some (definition, isStatic)
        ∧ machine.Receiving course.history definition isStatic owner receiver
        ∧ owner.superclass = some superclass
        ∧ (∃ closing, course.history.Declared definition owner closing)
        ∧ Moment.ending ⟨distances, budget + 1, .evaluate (.super occurrence method), machine⟩
          = (Plan.foundMethod
              (if isStatic then superclass.findStatic? method.lexeme
              else superclass.findMethod? method.lexeme)
              receiver method).run
              (.byDistance distances) (Task.perform (.byDistance distances) budget) machine := by
  obtain ⟨stands, known⟩ := required.admits
  have describes := required.describes
  have settled := required.settled _ (known _ (List.mem_singleton.2 rfl))
  have name : occurrence.name = "super" := settled.proper
  obtain ⟨definition, isStatic, inside⟩ := settled.exists_method (.inr name)
  obtain ⟨distance, target, outer, owner, superclass, receiver, nearest, away, walked, walkedOut,
    hosts, inherits, inherited⟩ :=
    describes.fits.superclass settled.derived stands inside
  have found := stands.find_eq describes.fits settled.layered
    (settled.layered.clear (.inl rfl : Reserved "this"))
  simp only [nearest, Environment.tableAt, walked] at found
  have receiving := describes.receiving hosts walked (describes.store ▸ found)
  have this := receiving.this
  have receiverHome := settled.receiverHome_eq_find describes stands
  have home : (Access.byDistance distances).home .super occurrence machine = .ok outer.table := by
    have distances := settled.find?_eq
    dsimp only at distances
    rw [name, away] at distances
    simp only [Access.byDistance, distances, Environment.tableAt, walkedOut]
  rw [← describes.store] at found inherited
  simp only [Store.get, found] at this
  dsimp only at receiverHome
  rw [found] at receiverHome
  exact ⟨definition, isStatic, owner, superclass, receiver, inside, receiving, inherits,
    ⟨_, describes.declared _ _ _ hosts.owns.declared⟩,
    Plan.run_superMethod home (name ▸ Store.getHere_of_get? inherited) receiverHome this
      receiving.receives⟩

end Moment.Required

namespace Session

variable {config : Config} {sink : Sink} {clock : Nat → Float} {requests : List Request}
  {request : Request} {opened : Session} {task : Task}

/-- In any evaluation of a session, code of a method that a class declaration has made runs with a
`this` that is a receiver of the methods of this class, and other code without any. So does code
of the functions in the method. Every `this` gives such a receiver; every `super` looks its method
up in the superclass of the class, among the static methods just if the method around it is
static.
-/
theorem receivers_fit_methods
    (begins : ((start config sink clock).takeAll requests).Begins request opened task)
    : (∀ moment code,
        (opened.moment task).Reaches moment
        → moment.task.code? = some code
        → ∃ around,
            (∀ place ∈ code around,
              ((start config sink clock).course requests request).listed place)
            ∧ ((start config sink clock).course requests request).history.Mirrors
                moment.machine.environment around.frames
            ∧ (around.method? = none
              → moment.machine.store.find moment.machine.environment "this" = .error .undefined)
            ∧ ∀ definition isStatic,
                around.method? = some (definition, isStatic)
                → ∃ owner receiver,
                    moment.machine.Receiving
                      ((start config sink clock).course requests request).history definition
                      isStatic owner receiver)
      ∧ (∀ distances budget occurrence machine,
          (opened.moment task).Reaches
              ⟨distances, budget + 1, .evaluate (.this occurrence), machine⟩
          → ∃ around definition isStatic owner receiver,
              ((start config sink clock).course requests request).listed
                ⟨around, .use .this occurrence⟩
              ∧ around.method? = some (definition, isStatic)
              ∧ machine.Receiving ((start config sink clock).course requests request).history
                  definition isStatic owner receiver
              ∧ Moment.ending ⟨distances, budget + 1, .evaluate (.this occurrence), machine⟩
                = .ok receiver machine)
      ∧ ∀ distances budget occurrence method machine,
          (opened.moment task).Reaches
              ⟨distances, budget + 1, .evaluate (.super occurrence method), machine⟩
          → ∃ around definition isStatic owner superclass receiver,
              ((start config sink clock).course requests request).listed
                ⟨around, .use .super occurrence⟩
              ∧ around.method? = some (definition, isStatic)
              ∧ machine.Receiving ((start config sink clock).course requests request).history
                  definition isStatic owner receiver
              ∧ owner.superclass = some superclass
              ∧ Moment.ending
                  ⟨distances, budget + 1, .evaluate (.super occurrence method), machine⟩
                = (Plan.foundMethod
                    (if isStatic then superclass.findStatic? method.lexeme
                    else superclass.findMethod? method.lexeme)
                    receiver method).run
                    (.byDistance distances) (Task.perform (.byDistance distances) budget)
                    machine := by
  refine ⟨?_, ?_, ?_⟩
  · intro moment code reaches runs
    obtain ⟨ghost, required⟩ := required_of_reaches begins reaches
    obtain ⟨stands, known⟩ := required.admits.code runs
    have describes := required.describes
    refine ⟨ghost.around, fun place member => required.listed place (known place member),
      describes.mirrors stands, ?_, fun definition isStatic inside =>
      describes.exists_receiving stands inside⟩
    intro outside
    rw [describes.store]
    exact describes.fits.find_this_outside stands outside
  · intro distances budget occurrence machine reaches
    obtain ⟨ghost, required⟩ := required_of_reaches begins reaches
    obtain ⟨definition, isStatic, owner, receiver, inside, receiving, ended⟩ :=
      required.ending_this
    have here := required.listed _ (required.admits.2 _ (List.mem_singleton.2 rfl))
    exact ⟨ghost.around, definition, isStatic, owner, receiver, here, inside, receiving, ended⟩
  · intro distances budget occurrence method machine reaches
    obtain ⟨ghost, required⟩ := required_of_reaches begins reaches
    obtain ⟨definition, isStatic, owner, superclass, receiver, inside, receiving, inherits, _,
      ended⟩ := required.ending_super
    have here := required.listed _ (required.admits.2 _ (List.mem_singleton.2 rfl))
    exact ⟨ghost.around, definition, isStatic, owner, superclass, receiver, here, inside, receiving,
      inherits, ended⟩

/-- The `this` in an initializer gives a receiver for a method of its class. -/
theorem receivers_fit_initializer
    : ∃ distances budget occurrence machine definition isStatic owner receiver,
        machine.Receiving
          ((start ⟨false, 255, 20⟩ .unlimited fun _ => 0).course []
            (.run "class A{init(){this;return;}}A();")).history
          definition isStatic owner receiver
        ∧ Moment.ending ⟨distances, budget + 1, .evaluate (.this occurrence), machine⟩
          = .ok receiver machine := by
  obtain ⟨opened, task, distances, budget, closure, machine, less, inside, fewer, occurrence, later,
    begins, reaches, leads, _, _, further⟩ := exists_this_in_initializer
  have reaches : (opened.moment task).Reaches
      ⟨distances, fewer + 1, .evaluate (.this occurrence), later⟩ :=
    (reaches.tail leads).trans further
  obtain ⟨around, definition, isStatic, owner, receiver, _, _, receiving, ended⟩ :=
    (receivers_fit_methods begins).2.1 _ _ _ _ reaches
  exact ⟨distances, fewer, occurrence, later, definition, isStatic, owner, receiver, receiving,
    ended⟩

end Session
end Lox
