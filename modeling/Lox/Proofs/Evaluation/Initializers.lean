import Lox.Proofs.Evaluation.Rooted

/-! The contract of initializers: machines stay rooted, and nothing changes what `this` is bound to.
So whatever the body of an initializer does, a call of it gives the instance that it is bound to, and
a call of a class gives one that was not there before.
-/

namespace Lox

-----------------------------------------------------------------------------------------
-- The contract
-----------------------------------------------------------------------------------------

/-- What a task is about is rooted. -/
def Task.Rooted (machine : Machine) : Task → Prop
  | .call callee _ arguments =>
    callee.Rooted machine ∧ ∀ value ∈ arguments, value.Rooted machine
  | .invoke closure arguments =>
    closure.Rooted machine ∧ ∀ value ∈ arguments, value.Rooted machine
  | .construct definition arguments =>
    definition.Rooted ∧ ∀ value ∈ arguments, value.Rooted machine
  | .evaluate _ | .evaluateAll _ | .execute _ | .executeAll _ | .loop _ _ => True

/-- A returned value is rooted. -/
def Flow.Rooted (machine : Machine) : Flow → Prop
  | .normal | .break => True
  | .return value => value.Rooted machine

/-- The value is an instance of the class at the next address on a machine, and is there later. -/
def Class.Makes (definition : Class) (machine : Machine) (value : Value) (later : Machine) : Prop :=
  value = .instance machine.instances.size
  ∧ ∃ object,
      later.instances[machine.instances.size]? = some object ∧ object.definition = definition

/-- A call of the closure on the machine gives its receiver, if it is that of an initializer. -/
def Closure.Gives (closure : Closure) (machine : Machine) (value : Value) : Prop :=
  closure.initializes = true → machine.Hosts closure.environment.table value

/-- What a task gives on a machine. A class makes an instance, an initializer gives back its own. -/
def Task.Gives (machine : Machine) : (task : Task) → task.Result → Machine → Prop
  | .evaluate _, value, later => value.Rooted later
  | .evaluateAll _, values, later => ∀ value ∈ values, value.Rooted later
  | .call callee _ _, value, later =>
    value.Rooted later
    ∧ (∀ function, callee = .function function → function.closure.Gives machine value)
    ∧ ∀ definition, callee = .class definition → definition.Makes machine value later
  | .invoke closure _, value, later => value.Rooted later ∧ closure.Gives machine value
  | .construct definition _, value, later => definition.Makes machine value later
  | .execute _, flow, later => flow.Rooted later
  | .executeAll _, flow, later => flow.Rooted later
  | .loop _ _, flow, later => flow.Rooted later

/-- A machine in the run of a moment, or at the end of it. -/
structure Moment.Since (course : Course) (moment : Moment) (machine : Machine) : Prop where
  retains : moment.machine.Retains machine
  rooted : machine.Rooted course.history

/-- A number of arguments is told to be wrong though it is right. -/
def FaultCause.OfRightCount : FaultCause → Prop
  | .argumentCount expected given => given = expected
  | _ => False

/-- The contract of initializers. -/
def initializerContract (course : Course) : Contract Ghost where
  before ghost moment :=
    moment.Required course ghost
    ∧ moment.machine.Rooted course.history
    ∧ moment.task.Rooted moment.machine
  after _ moment value machine :=
    moment.Since course machine ∧ moment.task.Gives moment.machine value machine
  abort _ moment interruption machine :=
    moment.Since course machine ∧ interruption.Avoids FaultCause.OfRightCount
  allows _ _ _ _ := True

-----------------------------------------------------------------------------------------
-- Parts of plans
-----------------------------------------------------------------------------------------

/-- A plan keeps the contract of initializers. -/
abbrev Roots {α : Type} (course : Course) (ghost : Ghost) (moment : Moment) (budget : Nat)
    (plan : Plan α) (machine : Machine) (goal : α → Machine → Prop) : Prop :=
  (initializerContract course).Keeps ghost moment budget plan machine goal

theorem Flow.Rooted.mono {flow : Flow} {machine later : Machine} (h : flow.Rooted machine)
    (retains : machine.Retains later)
    : flow.Rooted later := by
  cases flow with
  | normal | «break» => trivial
  | «return» value => exact Value.Rooted.mono h retains

theorem Class.Makes.mono {definition : Class} {machine later further : Machine} {value : Value}
    (h : definition.Makes machine value later) (retains : later.Retains further)
    : definition.Makes machine value further := by
  obtain ⟨same, object, there, made⟩ := h
  obtain ⟨kept, found, still⟩ := retains.instances _ object there
  exact ⟨same, kept, found, still.trans made⟩

/-- The next address is that of the instances only. -/
theorem Class.Makes.of_eq {definition : Class} {machine other later : Machine} {value : Value}
    (h : definition.Makes machine value later) (instances : other.instances = machine.instances)
    : definition.Makes other value later := by
  rw [Class.Makes, instances]
  exact h

/-- What has been made is there. -/
theorem Class.Makes.lives {definition : Class} {machine later : Machine} {value : Value}
    (h : definition.Makes machine value later)
    : value.Lives later.instances := by
  obtain ⟨same, object, there, _⟩ := h
  exact ⟨_, object, same, there⟩

theorem Class.Makes.rooted {definition : Class} {machine later : Machine} {value : Value}
    (h : definition.Makes machine value later)
    : value.Rooted later := by
  have lives := h.lives
  obtain ⟨same, _⟩ := h
  subst same
  exact lives

/-- What a task has given is still so in a later machine. -/
theorem Task.Gives.mono {task : Task} {machine later further : Machine} {value : task.Result}
    (h : task.Gives machine value later) (retains : later.Retains further)
    : task.Gives machine value further := by
  cases task with
  | evaluate expr => exact Value.Rooted.mono h retains
  | evaluateAll exprs => exact fun value member => (h value member).mono retains
  | call callee closing arguments =>
      exact ⟨h.1.mono retains, h.2.1, fun definition same => (h.2.2 definition same).mono retains⟩
  | invoke closure arguments => exact ⟨h.1.mono retains, h.2⟩
  | construct definition arguments => exact Class.Makes.mono h retains
  | execute stmt => exact Flow.Rooted.mono h retains
  | executeAll stmts => exact Flow.Rooted.mono h retains
  | loop condition body => exact Flow.Rooted.mono h retains

namespace Roots

variable {α β : Type} {course : Course} {ghost : Ghost} {moment : Moment} {budget : Nat}
  {machine : Machine} {goal : α → Machine → Prop}

/-- The goal of coming to a rooted value. -/
abbrev GivesRooted (course : Course) (moment : Moment) (value : Value) (machine : Machine) : Prop :=
  moment.Since course machine ∧ value.Rooted machine

/-- A fault interrupts the plan. -/
theorem fault {token : Token} {cause : FaultCause} {next : β → Plan α}
    (h : moment.Since course machine) (other : ¬ cause.OfRightCount)
    : Roots course ghost moment budget (.step (Step.fault token cause) next) machine goal :=
  ⟨h, other⟩

/-- A quiet step leaves the tables and the instances as they are. -/
theorem quiet {step : Step β} {next : β → Plan α} {good : β → Prop}
    (h : moment.Since course machine) (quiet : step.Quiet machine good)
    (avoids : step.Avoids FaultCause.OfRightCount machine)
    (rest
      : ∀ value after,
          moment.Since course after
          → after.Alike machine
          → good value
          → Roots course ghost moment budget (next value) after goal)
    : Roots course ghost moment budget (.step step next) machine goal := by
  unfold Step.Quiet at quiet
  have since (after : Machine) (alike : after.Alike machine) : moment.Since course after :=
    ⟨h.retains.trans (.alike alike), h.rooted.of_eq alike.store alike.instances⟩
  unfold Roots Contract.Keeps Contract.Comes
  split
  · next value after ran =>
      rw [ran] at quiet
      exact rest value after (since after quiet.1) quiet.1 quiet.2
  · next interruption after ran =>
      rw [ran] at quiet
      exact ⟨since after quiet.1, avoids interruption after ran⟩

/-- A plan may look at the machine. -/
theorem look {next : Machine → Plan α}
    (rest : Roots course ghost moment budget (next machine) machine goal)
    : Roots course ghost moment budget (.step MonadState.get next) machine goal := rest

/-- A lookup leaves the machine as it is, wherever it finds something. -/
theorem comes_lookup {token : Token} {find : Machine → Except LookupError β}
    {goal : β → Machine → Prop} (h : moment.Since course machine)
    (rest : ∀ value, find machine = .ok value → goal value machine)
    : (initializerContract course).Comes ghost moment (Step.lookup token find machine) goal := by
  unfold Step.lookup
  cases found : find machine with
  | ok value => exact rest value found
  | error error =>
      refine ⟨h, ?_⟩
      cases error with
      | beyondChain => trivial
      | undefined | uninitialized | unresolved => exact id

theorem locate {use : Use} {occurrence : Occurrence} {next : Nat → Plan α}
    (h : moment.Since course machine)
    (rest : ∀ address, Roots course ghost moment budget (next address) machine goal)
    : Roots course ghost moment budget (.act (.locate use occurrence) next) machine goal :=
  fun _ => ⟨trivial, comes_lookup h fun address _ => rest address⟩

theorem locateReceiver {occurrence : Occurrence} {next : Nat → Plan α}
    (h : moment.Since course machine)
    (rest : ∀ address, Roots course ghost moment budget (next address) machine goal)
    : Roots course ghost moment budget (.act (.locateReceiver occurrence) next) machine goal :=
  fun _ => ⟨trivial, comes_lookup h fun address _ => rest address⟩

/-- What is read is there. -/
theorem getHere {address : Nat} {token : Token} {next : Value → Plan α}
    (h : moment.Since course machine)
    (rest
      : ∀ value,
          (machine.store.table address).get? token.lexeme = some (some value)
          → Roots course ghost moment budget (next value) machine goal)
    : Roots course ghost moment budget (.step (Step.getHere address token) next) machine
        goal :=
  comes_lookup h fun value found => rest value (Store.getHere_eq_ok.1 found)

/-- A table is made with rooted values, and with a receiver if it binds `this`. -/
theorem enter {layer : Layer} {outer : Environment} {bindings : Bindings Value}
    {next : Environment → Plan α} (h : moment.Since course machine)
    (values : ∀ name value, bindings.get? name = some (some value) → value.Rooted machine)
    (receivers
      : moment.Does (.enter layer outer bindings) machine
        → ∀ slot,
            bindings.get? "this" = some slot
            → ∃ receiver,
                slot = some receiver
                ∧ course.history.Binds machine.store.tables.size receiver
                ∧ receiver.IsReceiver machine)
    (rest
      : ∀ environment after,
          moment.Since course after
          → machine.Retains after
          → (after.store.table environment.table).get? "this" = bindings.get? "this"
          → Roots course ghost moment budget (next environment) after goal)
    : Roots course ghost moment budget (.act (.enter layer outer bindings) next) machine goal := by
  intro does
  have retains := Machine.Retains.add machine bindings
  refine ⟨trivial, rest _ _ ⟨h.retains.trans retains, h.rooted.add values (receivers does)⟩
    retains ?_⟩
  rw [Store.table_add]
  exact congrArg (Table.get? · "this") (if_pos rfl)

/-- A task about what is rooted is handed on. -/
theorem hand {manner : Manner} {task : Task} {next : task.Result → Plan α}
    (run : Underway course ghost moment budget) (h : moment.Since course machine)
    (rooted : task.Rooted machine)
    (rest
      : ∀ value after,
          moment.Since course after
          → machine.Retains after
          → task.Gives (manner.before machine) value after
          → Roots course ghost moment budget (next value) after goal)
    : Roots course ghost moment budget (.hand manner task next) machine goal := by
  intro leads
  obtain ⟨other, required⟩ := ((scopeContract_sound run.closed).run run.required).2 _ leads
  have about : task.Rooted (manner.before machine) := by
    cases manner <;> exact rooted
  have since {left : Machine}
      (inner
        : Moment.Since course ⟨moment.distances, budget, task, manner.before machine⟩ left)
      : moment.Since course (manner.after machine left)
        ∧ machine.Retains (manner.after machine left) := by
    have retains := ((Machine.Retains.before machine manner).trans inner.retains).trans
      (.after machine left manner)
    exact ⟨⟨h.retains.trans retains, inner.rooted.after manner⟩, retains⟩
  refine ⟨other, ⟨required, h.rooted.before manner, about⟩, ?_, ?_⟩
  · rintro value left _ ⟨inner, gives⟩
    exact rest value _ (since inner).1 (since inner).2 (gives.mono (.after machine left manner))
  · rintro interruption left _ ⟨inner, avoids⟩
    exact ⟨(since inner).1, avoids⟩

/-- A name other than `this` gets a rooted value. -/
theorem setSlot {address : Nat} {name : String} {value : Value} {next : Unit → Plan α}
    (h : moment.Since course machine) (free : ¬ Reserved name) (rooted : value.Rooted machine)
    (rest
      : ∀ after,
          moment.Since course after
          → machine.Retains after
          → Roots course ghost moment budget (next ()) after goal)
    : Roots course ghost moment budget (.step (Step.setSlot address name value) next) machine
        goal := by
  have other : name ≠ "this" := fun same => free (.inl same)
  have retains := Machine.Retains.setSlot machine address (some value) other
  exact rest _ ⟨h.retains.trans retains, h.rooted.setSlot address other rooted⟩ retains

/-- A name is bound in the current environment. -/
theorem define {name : String} {value : Value} {next : Unit → Plan α}
    (h : moment.Since course machine) (free : ¬ Reserved name) (rooted : value.Rooted machine)
    (rest
      : ∀ after,
          moment.Since course after
          → machine.Retains after
          → Roots course ghost moment budget (next ()) after goal)
    : Roots course ghost moment budget (.step (Step.define name value) next) machine goal :=
  have assigns
      : Roots course ghost moment budget
          (.step (Step.setSlot machine.environment.table name value) next) machine goal :=
    setSlot h free rooted rest
  assigns

/-- A name in the current chain gets another value. -/
theorem overwrite {token : Token} {value : Value} {next : Unit → Plan α}
    (h : moment.Since course machine) (free : ¬ Reserved token.lexeme)
    (rooted : value.Rooted machine)
    (rest
      : ∀ after,
          moment.Since course after
          → machine.Retains after
          → Roots course ghost moment budget (next ()) after goal)
    : Roots course ghost moment budget (.step (Step.overwrite token value) next) machine goal := by
  unfold Roots Contract.Keeps
  simp only [Step.overwrite, Step.lookup, Bind.bind, EStateM.bind]
  cases found : machine.store.find machine.environment token.lexeme with
  | error error =>
      cases Store.eq_undefined_of_find found
      exact ⟨h, id⟩
  | ok address =>
      have assigns
          : Roots course ghost moment budget (.step (Step.setSlot address token.lexeme value) next)
              machine goal :=
        setSlot h free rooted rest
      exact assigns

/-- A new instance is at the next address and has no fields. -/
theorem newInstance {definition : Class} {next : Value → Plan α}
    (h : moment.Since course machine) (rooted : definition.Rooted)
    (rest
      : ∀ after,
          moment.Since course after
          → machine.Retains after
          → definition.Makes machine (.instance machine.instances.size) after
          → Roots course ghost moment budget (next (.instance machine.instances.size)) after goal)
    : Roots course ghost moment budget (.step (Step.newInstance definition) next) machine goal := by
  have kept := keepsClasses_push machine.instances ⟨definition, .empty⟩
  have retains
      : machine.Retains
          { machine with instances := machine.instances.push ⟨definition, .empty⟩ } :=
    ⟨fun _ _ => id, kept⟩
  refine rest _ ⟨h.retains.trans retains, h.rooted.objects_of kept ?_⟩ retains
    ⟨rfl, _, Array.getElem?_push_size, rfl⟩
  intro address object found
  rw [Array.getElem?_push] at found
  split at found
  · cases found
    exact ⟨rooted, nofun⟩
  · exact h.rooted.objects address object found

/-- A field gets a rooted value. -/
theorem setField {target : Nat} {name : String} {value : Value} {next : Unit → Plan α}
    (h : moment.Since course machine) (rooted : value.Rooted machine)
    (rest
      : ∀ after,
          moment.Since course after
          → machine.Retains after
          → Roots course ghost moment budget (next ()) after goal)
    : Roots course ghost moment budget (.step (Step.setField target name value) next) machine
        goal := by
  have kept := keepsClasses_modify machine.instances target (·.set name value)
  refine rest _ ⟨h.retains.trans ⟨fun _ _ => id, kept⟩, h.rooted.objects_of kept ?_⟩
    ⟨fun _ _ => id, kept⟩
  intro address object found
  rw [Array.getElem?_modify] at found
  split at found
  · obtain ⟨old, there, rfl⟩ := Option.map_eq_some_iff.1 found
    obtain ⟨same, fields⟩ := h.rooted.objects address old there
    refine ⟨same, fun field given had => ?_⟩
    rw [Table.get?_set] at had
    split at had
    · cases had
      exact rooted
    · exact fields field given had
  · exact h.rooted.objects address object found

-----------------------------------------------------------------------------------------
-- Expressions
-----------------------------------------------------------------------------------------

/-- An expression has a rooted value. -/
theorem evaluate {goal : Value → Machine → Prop} {expr : Expr}
    (run : Underway course ghost moment budget) (h : moment.Since course machine)
    (rest
      : ∀ value after,
          moment.Since course after
          → machine.Retains after
          → value.Rooted after
          → goal value after)
    : Roots course ghost moment budget (Plan.evaluate expr) machine goal :=
  hand run h trivial rest

theorem read {goal : Value → Machine → Prop} {use : Use} {occurrence : Occurrence}
    (h : moment.Since course machine)
    (rest : ∀ value, value.Rooted machine → goal value machine)
    : Roots course ghost moment budget (Plan.read use occurrence) machine goal :=
  .bind (locate h fun _ => getHere h fun value found => rest value (h.rooted.values _ _ _ found))

/-- The table of a bound method is made for its receiver, which is an instance if the method gives
it back.
-/
theorem bindMethod {goal : Closure → Machine → Prop} {method : Closure} {receiver : Value}
    (run : Underway course ghost moment budget) (h : moment.Since course machine)
    (may : receiver.IsReceiver machine)
    (object : method.initializes = true → receiver.Lives machine.instances)
    (rest
      : ∀ bound after,
          moment.Since course after
          → machine.Retains after
          → bound.Rooted after
          → goal bound after)
    : Roots course ghost moment budget (Plan.bindMethod method receiver) machine goal := by
  refine .bind (enter h (fun name value found => ?_) (fun does slot found => ?_)
    fun environment after h retains same => ?_)
  · obtain ⟨rfl, ⟨⟩⟩ := Table.get?_single.1 found
    exact may.rooted
  · obtain ⟨_, rfl⟩ := Table.get?_single.1 found
    exact ⟨receiver, rfl, ⟨moment, _, _, machine, run.required.came, does, rfl⟩, may⟩
  · refine rest { method with environment } after h retains fun initializes => ?_
    have hosts := same.trans (Table.get?_single.2 ⟨rfl, rfl⟩)
    exact ⟨receiver, (object initializes).mono retains.instances, hosts⟩

/-- A method that was found is bound to its receiver. -/
theorem foundMethod {found : Option Closure} {receiver : Value} {name : Token}
    (run : Underway course ghost moment budget) (h : moment.Since course machine)
    (may : receiver.IsReceiver machine)
    (object
      : ∀ method,
          found = some method
          → method.initializes = true
          → receiver.Lives machine.instances)
    : Roots course ghost moment budget (Plan.foundMethod found receiver name) machine
        (GivesRooted course moment) := by
  cases found with
  | none => exact fault h id
  | some method =>
      refine .bind (bindMethod run h may (object method rfl) fun bound after h _ fits => ?_)
      refine quiet h (Step.quiet_functionOf after bound) (.of_ok rfl)
        fun value last h alike made => ?_
      obtain ⟨identity, rfl⟩ := made
      exact ⟨h, fits.mono (.alike alike)⟩

/-- By cases over the object. A static method of a class gives back no receiver. -/
theorem property {object : Value} {name : Token} (run : Underway course ghost moment budget)
    (h : moment.Since course machine) (rooted : object.Rooted machine)
    : Roots course ghost moment budget (Plan.property object name) machine
        (GivesRooted course moment) := by
  cases object with
  | «instance» address =>
      refine look ?_
      rw [Plan.bind]
      split
      · next entry there =>
          have lives : Value.Lives machine.instances (.instance address) :=
            ⟨address, entry, rfl, there⟩
          split
          · next value given => exact ⟨h, (h.rooted.objects address entry there).2 _ value given⟩
          · exact foundMethod run h (.inr lives) fun _ _ _ => lives
      · exact fault h id
  | «class» definition =>
      refine foundMethod run h (.inl ⟨definition, rfl, rooted⟩) fun method found initializes => ?_
      cases (rooted.statics _ _ method .refl found).symm.trans initializes
  | nil | bool _ | number _ | string _ | native _ | function _ => exact fault h id

/-- A method of a superclass is bound to what `this` is bound to. -/
theorem superMethod {occurrence : Occurrence} {method : Token}
    (run : Underway course ghost moment budget) (h : moment.Since course machine)
    : Roots course ghost moment budget (Plan.superMethod occurrence method) machine
        (GivesRooted course moment) := by
  refine .bind (read h fun value rooted => ?_)
  cases value with
  | «class» superclass =>
      refine .bind (locateReceiver h fun address => getHere h fun receiver found => ?_)
      obtain ⟨_, ⟨⟩, _, may⟩ := h.rooted.receivers address _ found
      refine foundMethod run h may fun method found initializes => ?_
      rcases may with ⟨definition, rfl, _⟩ | lives
      · cases (rooted.statics _ _ method .refl found).symm.trans initializes
      · exact lives
  | nil | bool _ | number _ | string _ | native _ | function _ | «instance» _ => exact fault h id

/-- A function that is no method gives back no receiver. -/
theorem functionHere {declaration : FunctionDecl} {next : Value → Plan α}
    (h : moment.Since course machine)
    (rest
      : ∀ value after,
          moment.Since course after
          → value.Rooted after
          → Roots course ghost moment budget (next value) after goal)
    : Roots course ghost moment budget (.step (Step.functionHere declaration) next) machine
        goal := by
  refine quiet h (Step.quiet_functionHere machine declaration) (.of_ok rfl)
    fun value after h _ made => ?_
  obtain ⟨identity, rfl⟩ := made
  exact rest _ after h (Closure.rooted_of_plain rfl)

/-- By cases over the expression. -/
theorem ofExpr (run : Underway course ghost moment budget) (expr : Expr)
    (h : moment.Since course machine)
    (known : ∀ place ∈ Places.ofExpr expr ghost.around, ghost.world.known place)
    : Roots course ghost moment budget (Plan.ofExpr expr) machine
        (GivesRooted course moment) := by
  cases expr with
  | literal value => exact ⟨h, by cases value <;> trivial⟩
  | grouping inner => exact evaluate run h fun _ _ h _ rooted => ⟨h, rooted⟩
  | unary operator operand =>
      refine .bind (evaluate run h fun value after h _ _ => ?_)
      exact quiet h (Step.quiet_unary after operator value) (Step.avoids_unary after id nofun)
        fun _ last h _ plain => ⟨h, plain.rooted last⟩
  | binary operator left right =>
      refine .bind (evaluate run h fun first _ h _ _ => ?_)
      refine .bind (evaluate run h fun second after h _ _ => ?_)
      exact quiet h (Step.quiet_binary after operator first second)
        (Step.avoids_binary after id id nofun) fun _ last h _ plain => ⟨h, plain.rooted last⟩
  | logical operator left right =>
      refine .bind (evaluate run h fun value after h _ rooted => ?_)
      split
      · exact ⟨h, rooted⟩
      · exact evaluate run h fun _ _ h _ rooted => ⟨h, rooted⟩
  | conditional condition positive negative =>
      refine .bind (evaluate run h fun value after h _ _ => ?_)
      split
      · exact evaluate run h fun _ _ h _ rooted => ⟨h, rooted⟩
      · exact evaluate run h fun _ _ h _ rooted => ⟨h, rooted⟩
  | «variable» occurrence => exact read h fun _ rooted => ⟨h, rooted⟩
  | assign target value =>
      rw [Places.ofExpr, List.forall_mem_append, List.forall_mem_singleton] at known
      have free : ¬ Reserved target.name := (run.required.settled _ known.2).proper
      refine .bind (evaluate run h fun value after h _ rooted => ?_)
      refine .bind (.bind (locate h fun address => ?_))
      exact setSlot h free rooted fun _ h retains => ⟨h, rooted.mono retains⟩
  | call callee closing arguments =>
      refine .bind (evaluate run h fun callee after h _ rooted => ?_)
      refine .bind (hand run h trivial fun values last h retains given => ?_)
      exact hand run h ⟨rooted.mono retains, given⟩ fun _ _ h _ gives => ⟨h, gives.1⟩
  | get object name =>
      exact .bind (evaluate run h fun object after h _ rooted => property run h rooted)
  | set object name value =>
      refine .bind (evaluate run h fun object after h _ _ => ?_)
      cases object with
      | «instance» address =>
          refine .bind (evaluate run h fun value last h _ rooted => ?_)
          exact setField h rooted fun _ h retains => ⟨h, rooted.mono retains⟩
      | nil | bool _ | number _ | string _ | native _ | function _ | «class» _ =>
          exact fault h id
  | this occurrence => exact read h fun _ rooted => ⟨h, rooted⟩
  | super occurrence method => exact superMethod run h
  | lambda declaration => exact functionHere h fun _ _ h rooted => ⟨h, rooted⟩

/-- By cases over the expressions. -/
theorem ofExprs (run : Underway course ghost moment budget) (exprs : List Expr)
    (h : moment.Since course machine)
    : Roots course ghost moment budget (Plan.ofExprs exprs) machine fun values after =>
        moment.Since course after ∧ ∀ value ∈ values, value.Rooted after := by
  cases exprs with
  | nil => exact ⟨h, List.forall_mem_nil _⟩
  | cons first rest =>
      refine .bind (evaluate run h fun value after h _ rooted => ?_)
      refine hand run h trivial fun values last h retains given => ?_
      exact ⟨h, List.forall_mem_cons.2 ⟨rooted.mono retains, given⟩⟩

-----------------------------------------------------------------------------------------
-- Calls
-----------------------------------------------------------------------------------------

/-- By cases over what is called. -/
theorem ofCall (run : Underway course ghost moment budget) (callee : Value) (closing : Token)
    (arguments : List Value) (h : moment.Since course machine) (rooted : callee.Rooted machine)
    (given : ∀ value ∈ arguments, value.Rooted machine)
    : Roots course ghost moment budget (Plan.ofCall callee closing arguments) machine
        fun value after =>
          moment.Since course after
          ∧ (Task.call callee closing arguments).Gives machine value after := by
  cases callee with
  | native callee =>
      refine quiet h (Step.quiet_checkCall ..) (Step.avoids_checkCall _ (fun wrong => wrong) id)
        fun _ after h _ _ => ?_
      exact quiet h (Step.quiet_deeper _ (Step.quiet_callNative _ callee arguments))
        (.deeper (Step.avoids_callNative _ callee arguments)) fun _ last h _ plain =>
          ⟨h, plain.rooted last, nofun, nofun⟩
  | function callee =>
      refine quiet h (Step.quiet_checkCall ..) (Step.avoids_checkCall _ (fun wrong => wrong) id)
        fun _ after h alike _ => ?_
      have retains := Machine.Retains.alike alike
      refine hand run h ⟨Closure.Rooted.mono rooted retains,
        fun value member => (given value member).mono retains⟩ fun value last h _ gives => ?_
      refine ⟨h, gives.1, ?_, nofun⟩
      rintro _ ⟨⟩
      exact fun initializes => (gives.2 initializes).of_eq alike.store.symm
  | «class» definition =>
      refine quiet h (Step.quiet_checkCall ..) (Step.avoids_checkCall _ (fun wrong => wrong) id)
        fun _ after h alike _ => ?_
      have retains := Machine.Retains.alike alike
      refine hand run h ⟨rooted, fun value member => (given value member).mono retains⟩
        fun value last h _ makes => ⟨h, makes.rooted, nofun, ?_⟩
      rintro _ ⟨⟩
      exact makes.of_eq alike.instances.symm
  | nil | bool _ | number _ | string _ | «instance» _ => exact fault h id

/-- No parameter is bound as `this`. The body leaves what `this` is bound to. -/
theorem ofInvocation (run : Underway course ghost moment budget) (closure : Closure)
    (arguments : List Value) (h : moment.Since course machine)
    (fits : ghost.world.FitsClosure closure)
    (same : arguments.length = closure.declaration.arity) (rooted : closure.Rooted machine)
    (given : ∀ value ∈ arguments, value.Rooted machine)
    : Roots course ghost moment budget (Plan.ofInvocation closure arguments) machine
        fun value after =>
          moment.Since course after ∧ value.Rooted after ∧ closure.Gives machine value := by
  obtain ⟨around, kind, _, known, _⟩ := fits
  rw [Places.ofFunction_eq, List.forall_mem_append] at known
  have parameters := Places.free_ofParameters fun place member =>
    (run.required.settled place (known.1 place member)).proper
  refine .bind (enter h (fun name value found => ?_) (fun _ slot found => ?_)
    fun environment after h entered _ => ?_)
  · obtain ⟨argument, member, same⟩ := Plan.get?_parameterBindings found
    cases same
    exact given value member
  · have has := Option.isSome_iff_exists.2 ⟨slot, found⟩
    obtain ⟨parameter, member, name⟩ := List.mem_map.1 ((Plan.has_parameterBindings same _).1 has)
    exact absurd (.inl name) (parameters parameter member)
  · refine .bind (hand run h trivial fun flow last h ran returned => ?_)
    split
    · next initializes =>
        obtain ⟨receiver, _, hosts⟩ := rooted initializes
        refine getHere h fun value found => ⟨h, h.rooted.values _ _ _ found, fun _ => ?_⟩
        cases found.symm.trans ((entered.trans ran).this _ _ hosts)
        exact hosts
    · next plain =>
        cases flow with
        | normal => exact ⟨h, trivial, fun initializes => absurd initializes plain⟩
        | «break» => exact ⟨h, trivial, fun initializes => absurd initializes plain⟩
        | «return» value => exact ⟨h, returned, fun initializes => absurd initializes plain⟩

/-- A new instance stays of its class, whatever its initializer does. -/
theorem ofConstruction (run : Underway course ghost moment budget) (definition : Class)
    (arguments : List Value) (h : moment.Since course machine) (rooted : definition.Rooted)
    (given : ∀ value ∈ arguments, value.Rooted machine)
    : Roots course ghost moment budget (Plan.ofConstruction definition arguments) machine
        fun value after => moment.Since course after ∧ definition.Makes machine value after := by
  refine newInstance h rooted fun after h added makes => ?_
  rw [Plan.bind]
  cases definition.initializer? with
  | none => exact ⟨h, makes⟩
  | some initializer =>
      have lives := makes.lives
      refine .bind (bindMethod run h (.inr lives) (fun _ => lives)
        fun bound last h stays fits => ?_)
      exact hand run h
        ⟨fits, fun value member => (given value member).mono (added.trans stays)⟩
        fun _ _ h left _ => ⟨h, (makes.mono stays).mono left⟩

end Roots

-----------------------------------------------------------------------------------------
-- Classes
-----------------------------------------------------------------------------------------

/-- The methods of a declared class give back their receivers just if they have the name of an
initializer, if so do those of the superclass.
-/
theorem Class.rooted_of_declaration {definition : ClassDecl} {environment : Environment}
    {identity : Nat} {superclass : Option Class}
    (inherits : ∀ inherited, superclass = some inherited → inherited.Rooted)
    : Class.Rooted
        ⟨identity, definition.name.lexeme, superclass,
          Step.methodTable environment FunctionDecl.initializes definition.methods,
          Step.methodTable environment (fun _ => false) definition.statics⟩ where
  methods ancestor name method descends found := by
    rcases descends.cases_head with rfl | ⟨inherited, same, further⟩
    · rcases Class.findMethod?_eq_some found with own | ⟨inherited, same, found⟩
      · obtain ⟨declaration, _, same⟩ := List.mem_map.1 (Table.mem_of_get?_ofList own)
        cases same
        exact decide_eq_true_iff
      · exact (inherits inherited same).methods _ name method .refl found
    · exact (inherits inherited same).methods ancestor name method further found
  statics ancestor name method descends found := by
    rcases descends.cases_head with rfl | ⟨inherited, same, further⟩
    · rcases Class.findStatic?_eq_some found with own | ⟨inherited, same, found⟩
      · obtain ⟨declaration, _, same⟩ := List.mem_map.1 (Table.mem_of_get?_ofList own)
        cases same
        rfl
      · exact (inherits inherited same).statics _ name method .refl found
    · exact (inherits inherited same).statics ancestor name method further found

namespace Roots

variable {α β : Type} {course : Course} {ghost : Ghost} {moment : Moment} {budget : Nat}
  {machine : Machine} {goal : α → Machine → Prop}

/-- The superclass of a declaration is rooted. -/
theorem superclassOf {goal : Option Class → Machine → Prop} (superclass : Option Occurrence)
    (h : moment.Since course machine)
    (rest
      : ∀ found,
          (∀ inherited, found = some inherited → inherited.Rooted) → goal found machine)
    : Roots course ghost moment budget (Plan.superclassOf superclass) machine goal := by
  cases superclass with
  | none => exact rest none nofun
  | some occurrence =>
      refine .bind (read h fun value rooted => ?_)
      cases value with
      | «class» inherited =>
          refine rest (some inherited) ?_
          rintro _ ⟨⟩
          exact rooted
      | nil | bool _ | number _ | string _ | native _ | function _ | «instance» _ =>
          exact fault h id

/-- The table of `super` binds no `this`. -/
theorem methodEnvironment {definition : ClassDecl} {superclass : Option Class}
    {goal : Environment → Machine → Prop} (h : moment.Since course machine)
    (inherits : ∀ inherited, superclass = some inherited → inherited.Rooted)
    (rest : ∀ environment after, moment.Since course after → goal environment after)
    : Roots course ghost moment budget (Plan.methodEnvironment definition superclass) machine
        goal := by
  refine look ?_
  rw [Plan.bind]
  cases superclass with
  | none => exact rest _ machine h
  | some inherited =>
      refine enter h (fun name value found => ?_) (fun _ slot found => by cases found)
        fun environment after h _ _ => rest environment after h
      obtain ⟨rfl, ⟨⟩⟩ := Table.get?_single.1 found
      exact inherits inherited rfl

/-- The declaration of a class makes a rooted class. -/
theorem ofClass {goal : Unit → Machine → Prop} (definition : ClassDecl)
    (h : moment.Since course machine) (free : ¬ Reserved definition.name.lexeme)
    (rest : ∀ after, moment.Since course after → goal () after)
    : Roots course ghost moment budget (Plan.ofClass definition) machine goal := by
  refine .bind (superclassOf definition.superclass h fun superclass inherits => ?_)
  have blank : Value.Rooted machine .nil := trivial
  refine define h free blank fun named h _ => ?_
  rw [Plan.bind]
  refine .bind (methodEnvironment h inherits fun environment last h => ?_)
  refine quiet h (Step.quiet_freshIdentity last) (.of_ok rfl) fun identity _ h _ _ => ?_
  rw [Plan.bind]
  exact overwrite h free (Class.rooted_of_declaration inherits) fun after h _ => rest after h

-----------------------------------------------------------------------------------------
-- Statements
-----------------------------------------------------------------------------------------

/-- By cases over the statement. A statement declares no name like `this`. -/
theorem ofStmt (run : Underway course ghost moment budget) (stmt : Stmt)
    (h : moment.Since course machine)
    (known : ∀ place ∈ Places.ofStmt stmt ghost.around, ghost.world.known place)
    : Roots course ghost moment budget (Plan.ofStmt stmt) machine fun flow after =>
        moment.Since course after ∧ flow.Rooted after := by
  have proper (place) (known : ghost.world.known place) := (run.required.settled place known).proper
  cases stmt with
  | expression value => exact .bind (evaluate run h fun _ _ h _ _ => ⟨h, trivial⟩)
  | print keyword value =>
      refine .bind (evaluate run h fun value after h _ _ => ?_)
      refine quiet h (Step.quiet_print after value) (.of_ok rfl) fun error last h _ _ => ?_
      cases error with
      | none => exact ⟨h, trivial⟩
      | some error => exact fault h id
  | var name initializer =>
      cases initializer with
      | none =>
          have free := proper _ (known _ (List.mem_singleton.2 rfl))
          have blank : Value.Rooted machine .nil := trivial
          exact define h free blank fun _ h _ => ⟨h, trivial⟩
      | some initializer =>
          rw [Places.ofStmt, List.forall_mem_cons] at known
          have free := proper _ known.1
          refine .bind (evaluate run h fun value after h _ rooted => ?_)
          exact define h free rooted fun _ h _ => ⟨h, trivial⟩
  | block body =>
      refine look ?_
      rw [Plan.bind]
      refine .bind (enter h (fun _ _ found => by cases found) (fun _ _ found => by cases found)
        fun environment after h _ _ => ?_)
      exact hand run h trivial fun _ _ h _ rooted => ⟨h, rooted⟩
  | «if» condition positive negative =>
      cases negative with
      | none =>
          refine .bind (evaluate run h fun value after h _ _ => ?_)
          split
          · exact hand run h trivial fun _ _ h _ rooted => ⟨h, rooted⟩
          · exact ⟨h, trivial⟩
      | some negative =>
          refine .bind (evaluate run h fun value after h _ _ => ?_)
          split
          · exact hand run h trivial fun _ _ h _ rooted => ⟨h, rooted⟩
          · exact hand run h trivial fun _ _ h _ rooted => ⟨h, rooted⟩
  | «while» condition body => exact hand run h trivial fun _ _ h _ rooted => ⟨h, rooted⟩
  | «break» keyword => exact ⟨h, trivial⟩
  | function declaration =>
      rw [Places.ofStmt, List.forall_mem_cons, List.forall_mem_append] at known
      obtain ⟨name, given⟩ := proper _ known.1
      obtain ⟨_, keyword, parameters, body⟩ := declaration
      cases given
      have free := proper _ (known.2.1 _ (List.mem_singleton.2 rfl))
      refine functionHere h fun value after h rooted => ?_
      exact define h free rooted fun _ h _ => ⟨h, trivial⟩
  | «return» keyword value =>
      cases value with
      | none => exact ⟨h, trivial⟩
      | some value => exact .bind (evaluate run h fun _ _ h _ rooted => ⟨h, rooted⟩)
  | «class» definition =>
      rw [Places.ofStmt, Places.ofClass_eq, List.forall_mem_cons] at known
      exact .bind (ofClass definition h (proper _ known.1) fun _ h => ⟨h, trivial⟩)

/-- By cases over the statements. -/
theorem ofStmts (run : Underway course ghost moment budget) (stmts : List Stmt)
    (h : moment.Since course machine)
    : Roots course ghost moment budget (Plan.ofStmts stmts) machine fun flow after =>
        moment.Since course after ∧ flow.Rooted after := by
  cases stmts with
  | nil => exact ⟨h, trivial⟩
  | cons first rest =>
      refine .bind (hand run h trivial fun flow after h _ rooted => ?_)
      cases flow with
      | normal => exact hand run h trivial fun _ _ h _ rooted => ⟨h, rooted⟩
      | «break» => exact ⟨h, trivial⟩
      | «return» value => exact ⟨h, rooted⟩

/-- A loop gives back what its body does. -/
theorem ofLoop (run : Underway course ghost moment budget) (condition : Expr) (body : Stmt)
    (h : moment.Since course machine)
    : Roots course ghost moment budget (Plan.ofLoop condition body) machine fun flow after =>
        moment.Since course after ∧ flow.Rooted after := by
  refine .bind (evaluate run h fun value after h _ _ => ?_)
  split
  · refine .bind (hand run h trivial fun flow last h _ rooted => ?_)
    cases flow with
    | normal => exact hand run h trivial fun _ _ h _ rooted => ⟨h, rooted⟩
    | «break» => exact ⟨h, trivial⟩
    | «return» value => exact ⟨h, rooted⟩
  · exact ⟨h, trivial⟩

end Roots

-----------------------------------------------------------------------------------------
-- Soundness
-----------------------------------------------------------------------------------------

/-- Every plan keeps the contract of initializers, so it holds in all runs. -/
theorem initializerContract_sound {course : Course} (closed : course.history.Closed)
    : (initializerContract course).Sound where
  keeps := by
    intro ghost moment budget budget_eq ⟨required, start, rooted⟩
    have run : Underway course ghost moment budget := ⟨closed, required, budget_eq⟩
    have h : moment.Since course moment.machine := ⟨.refl _, start⟩
    have admits := required.admits
    obtain ⟨distances, _, task, machine⟩ := moment
    cases task with
    | evaluate expr => exact Roots.ofExpr run expr h admits.2
    | evaluateAll exprs => exact Roots.ofExprs run exprs h
    | call callee closing arguments =>
        exact Roots.ofCall run callee closing arguments h rooted.1 rooted.2
    | invoke closure arguments =>
        exact Roots.ofInvocation run closure arguments h admits.1 admits.2.2 rooted.1 rooted.2
    | construct definition arguments =>
        exact Roots.ofConstruction run definition arguments h rooted.1 rooted.2
    | execute stmt => exact Roots.ofStmt run stmt h admits.2.1
    | executeAll stmts => exact Roots.ofStmts run stmts h
    | loop condition body => exact Roots.ofLoop run condition body h
  exhausted := by
    intro ghost moment _ ⟨_, start, _⟩
    exact ⟨⟨.refl _, start⟩, trivial⟩

/-- However a moment ends, its machine is rooted and retains what `this` was bound to. -/
theorem Moment.since_ending {course : Course} {ghost : Ghost} {moment : Moment}
    (closed : course.history.Closed) (before : (initializerContract course).before ghost moment)
    : moment.Since course moment.ending.machine := by
  rcases ((initializerContract_sound closed).honours before).left with ⟨value, h⟩ | ⟨interruption, h⟩
  · exact h.1
  · exact h.1

end Lox
