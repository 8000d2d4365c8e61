import Lox.Proofs.Evaluation.Initializers
import Lox.Proofs.Session.Depth
import Lox.Proofs.Session.Methods

/-! Construction across the requests of a session. A call of a class gives an instance of it that
was not there before, an initializer that is called in any other way gives the instance that it is
bound to, and the number of the arguments is checked against the initializer that the class finds.
-/

namespace Lox

-----------------------------------------------------------------------------------------
-- Counting arguments
-----------------------------------------------------------------------------------------

/-- A class takes the arguments of the initializer that it finds. -/
theorem Class.arity_eq (definition : Class)
    : definition.arity
      = ((definition.findMethod? initializerName).elim [] (·.declaration.parameters)).length := by
  unfold arity initializer?
  cases definition.findMethod? initializerName <;> rfl

-----------------------------------------------------------------------------------------
-- Rooted machines in a session
-----------------------------------------------------------------------------------------

/-- The classes on a rooted machine are rooted. -/
theorem Machine.Rooted.of_holds {history : History} {machine : Machine} {made : Class}
    (rooted : machine.Rooted history) (holds : machine.Holds made)
    : made.Rooted := by
  cases holds with
  | bound found => exact rooted.values _ _ _ found
  | field there had => exact (rooted.objects _ _ there).2 _ _ had
  | «instance» there => exact (rooted.objects _ _ there).1

/-- The properties of an instance are its fields, and methods of its class for other names. -/
theorem Plan.run_property {access : Access} {perform : (task : Task) → Step task.Result}
    {machine : Machine} {address : Nat} {object : Instance} {name : Token}
    (there : machine.instances[address]? = some object)
    (absent : object.fields.get? name.lexeme = none)
    : (Plan.property (.instance address) name).run access perform machine
      = (Plan.foundMethod (object.definition.findMethod? name.lexeme) (.instance address) name).run
          access perform machine := by
  have looked : (MonadState.get : Step Machine) machine = .ok machine machine := rfl
  refine (Plan.run_step ..).trans ((congrArg (Ending.andThen · _) looked).trans ?_)
  simp only [Ending.andThen, Plan.bind, there, absent]

namespace Session

variable {config : Config} {sink : Sink} {clock : Nat → Float} {requests : List Request}
  {request : Request} {opened : Session} {task : Task} {moment : Moment}

/-- At the start there are native functions only, and no `this`. -/
theorem rooted_start (config : Config) (sink : Sink) (clock : Nat → Float) (history : History)
    : (start config sink clock).machine.Rooted history := by
  have blank
      : Machine.Rooted history
          { Machine.start config.maxDepth sink clock with store := Store.empty } :=
    ⟨nofun, nofun, nofun⟩
  refine blank.add (fun name value found => ?_) fun slot found => ?_
  · obtain ⟨callee, _, same⟩ := List.mem_map.1 (Table.mem_of_get?_ofList found)
    cases same
    trivial
  · cases found

/-- The contract of initializers is met where an evaluation begins on a rooted machine. -/
theorem Begins.rooted
    (begins : ((start config sink clock).takeAll requests).Begins request opened task)
    (rooted
      : ((start config sink clock).takeAll requests).machine.Rooted
          ((start config sink clock).history requests))
    : ∃ ghost,
        (initializerContract ((start config sink clock).course requests request)).before ghost
          (opened.moment task) := by
  obtain ⟨world, stable⟩ := stable_takeAll config sink clock requests
  have opens := begins.opens
  refine ⟨_, stable.begins begins, ?_, ?_⟩
  · have same : (opened.moment task).machine = _ := opens.machine
    rw [same]
    exact rooted.mono fun moment came => history_append came request
  · obtain ⟨program, rfl⟩ | ⟨expr, rfl⟩ := opens.whole <;> trivial

/-- After any requests, the machine of a session is rooted. By induction over them. -/
theorem rooted_takeAll (config : Config) (sink : Sink) (clock : Nat → Float)
    (requests : List Request)
    : ((start config sink clock).takeAll requests).machine.Rooted
        ((start config sink clock).history requests) := by
  induction requests using List.reverseRecOn with
  | nil => exact rooted_start config sink clock _
  | append_singleton requests request ih =>
      rw [takeAll_append_singleton]
      rcases answers_take ((start config sink clock).takeAll requests) request with
        ⟨opened, task, begins, continues, _⟩ | continues
      · obtain ⟨ghost, before⟩ := begins.rooted ih
        have closed := (start config sink clock).closed_course requests request
        have since := Moment.since_ending closed before
        exact since.rooted.of_eq continues.alike.store continues.alike.instances
      · have more := ih.mono fun moment came => history_append came request
        exact more.of_eq continues.alike.store continues.alike.instances

/-- The contract of initializers is met in every moment of every evaluation. -/
theorem rooted_of_reaches
    (begins : ((start config sink clock).takeAll requests).Begins request opened task)
    (reaches : (opened.moment task).Reaches moment)
    : ∃ ghost,
        (initializerContract ((start config sink clock).course requests request)).before ghost
          moment := by
  obtain ⟨ghost, before⟩ := begins.rooted (rooted_takeAll config sink clock requests)
  have closed := (start config sink clock).closed_course requests request
  exact (initializerContract_sound closed).reaches before reaches

-----------------------------------------------------------------------------------------
-- Calls of classes
-----------------------------------------------------------------------------------------

/-- What a task gives in an evaluation. -/
theorem gives_of_reaches
    (begins : ((start config sink clock).takeAll requests).Begins request opened task)
    (reaches : (opened.moment task).Reaches moment) {value : moment.task.Result} {after : Machine}
    (ended : moment.ending = .ok value after)
    : moment.task.Gives moment.machine value after := by
  obtain ⟨ghost, before⟩ := rooted_of_reaches begins reaches
  have closed := (start config sink clock).closed_course requests request
  exact (((initializerContract_sound closed).honours before).of_ok ended).2

/-- However a task ends, what `this` is bound to stays. -/
theorem retains_ending
    (begins : ((start config sink clock).takeAll requests).Begins request opened task)
    (reaches : (opened.moment task).Reaches moment)
    : moment.machine.Retains moment.ending.machine := by
  obtain ⟨ghost, before⟩ := rooted_of_reaches begins reaches
  exact (Moment.since_ending (closed_course _ _ _) before).retains

/-- The classes on a machine of an evaluation, before a moment or after it, are rooted. -/
theorem rooted_of_holds {made : Class}
    (begins : ((start config sink clock).takeAll requests).Begins request opened task)
    (reaches : (opened.moment task).Reaches moment)
    (holds : moment.machine.Holds made ∨ moment.ending.machine.Holds made)
    : made.Rooted := by
  obtain ⟨ghost, before⟩ := rooted_of_reaches begins reaches
  rcases holds with holds | holds
  · exact before.2.1.of_holds holds
  · exact (Moment.since_ending (closed_course _ _ _) before).rooted.of_holds holds

variable {distances : Distances} {budget : Nat} {definition : Class} {closing : Token}
  {arguments : List Value} {machine : Machine} {value : Value} {after : Machine}

/-- A call of a class gives an instance that was not there. -/
theorem exists_new_instance
    (begins : ((start config sink clock).takeAll requests).Begins request opened task)
    (reaches
      : (opened.moment task).Reaches
          ⟨distances, budget, .call (.class definition) closing arguments, machine⟩)
    (ended
      : Moment.ending ⟨distances, budget, .call (.class definition) closing arguments, machine⟩
        = .ok value after)
    : ∃ (address : Nat) (object : Instance),
        value = .instance address
        ∧ machine.instances[address]? = none
        ∧ after.instances[address]? = some object
        ∧ object.definition = definition := by
  obtain ⟨same, object, there, made⟩ := (gives_of_reaches begins reaches ended).2.2 definition rfl
  exact ⟨_, object, same, Array.getElem?_eq_none (Nat.le_refl _), there, made⟩

/-- With a wrong number of arguments, nothing of a call of a class is run. -/
theorem ending_of_wrongCount (wrong : arguments.length ≠ definition.arity)
    : Moment.ending ⟨distances, budget + 1, .call (.class definition) closing arguments, machine⟩
      = .error (.fault ⟨closing, .argumentCount definition.arity arguments.length⟩) machine := by
  refine (Plan.run_step ..).trans ?_
  exact congrArg (Ending.andThen · _) (Plan.checkCall_of_ne wrong)

/-- With the right number of arguments, no fault is about it. -/
theorem not_ending_of_rightCount
    (begins : ((start config sink clock).takeAll requests).Begins request opened task)
    (reaches
      : (opened.moment task).Reaches
          ⟨distances, budget, .call (.class definition) closing arguments, machine⟩)
    (same : arguments.length = definition.arity)
    : Moment.ending ⟨distances, budget, .call (.class definition) closing arguments, machine⟩
      ≠ .error (.fault ⟨closing, .argumentCount definition.arity arguments.length⟩) after := by
  intro ended
  obtain ⟨ghost, before⟩ := rooted_of_reaches begins reaches
  have honours := (initializerContract_sound (closed_course _ _ _)).honours before
  exact (honours.of_error ended).2 same

-----------------------------------------------------------------------------------------
-- Calls of bound initializers
-----------------------------------------------------------------------------------------

variable {callee : Function}

/-- A function that gives back its receiver is bound to an instance, which a call of it gives. -/
theorem exists_receiver
    (begins : ((start config sink clock).takeAll requests).Begins request opened task)
    (reaches
      : (opened.moment task).Reaches
          ⟨distances, budget, .call (.function callee) closing arguments, machine⟩)
    (initializes : callee.closure.initializes = true)
    : ∃ (address : Nat) (object : Instance),
        machine.instances[address]? = some object
        ∧ machine.store.getHere callee.closure.environment.table "this" = .ok (.instance address)
        ∧ ((start config sink clock).course requests request).history.Binds
            callee.closure.environment.table (.instance address)
        ∧ ∀ value after,
            Moment.ending ⟨distances, budget, .call (.function callee) closing arguments, machine⟩
              = .ok value after
            → value = .instance address := by
  obtain ⟨ghost, _, rooted, about, _⟩ := rooted_of_reaches begins reaches
  obtain ⟨_, ⟨address, object, rfl, there⟩, hosts⟩ := about initializes
  obtain ⟨_, ⟨⟩, binds, _⟩ := rooted.receivers _ _ hosts
  refine ⟨address, object, there, Store.getHere_of_get? hosts, binds, fun value after ended => ?_⟩
  have given := (gives_of_reaches begins reaches ended).2.1 callee rfl initializes
  cases given.symm.trans hosts
  rfl

/-- A call that stands for an initializer that is bound to a receiver when the callee has been
evaluated has the receiver as its value, whatever the arguments do.
-/
theorem value_of_call {expr : Expr} {exprs : List Expr} {between : Machine} {receiver : Value}
    (begins : ((start config sink clock).takeAll requests).Begins request opened task)
    (reaches
      : (opened.moment task).Reaches
          ⟨distances, budget + 1, .evaluate (.call expr closing exprs), machine⟩)
    (evaluated
      : Moment.ending ⟨distances, budget, .evaluate expr, machine⟩
        = .ok (.function callee) between)
    (initializes : callee.closure.initializes = true)
    (bound : between.store.getHere callee.closure.environment.table "this" = .ok receiver)
    (ended
      : Moment.ending ⟨distances, budget + 1, .evaluate (.call expr closing exprs), machine⟩
        = .ok value after)
    : value = receiver := by
  let whole : Moment := ⟨distances, budget + 1, .evaluate (.call expr closing exprs), machine⟩
  have calls := (Moment.ending_call ..).symm.trans ended
  rw [evaluated] at calls
  cases given : Moment.ending ⟨distances, budget, .evaluateAll exprs, between⟩ with
  | error interruption left =>
      simp only [Ending.andThen, given] at calls
      cases calls
  | ok arguments later =>
      simp only [Ending.andThen, given] at calls
      have evaluatesAll : whole.Leads ⟨distances, budget, .evaluateAll exprs, between⟩ :=
        Moment.leads_arguments evaluated
      have leads
          : whole.Leads ⟨distances, budget, .call (.function callee) closing arguments, later⟩ :=
        Moment.leads_call evaluated given
      have retains := retains_ending begins (reaches.tail evaluatesAll)
      rw [given] at retains
      obtain ⟨address, _, _, this, _, gives⟩ :=
        exists_receiver begins (reaches.tail leads) initializes
      cases gives value after calls
      have still := retains.this _ _ (Store.getHere_eq_ok.1 bound)
      cases (Store.getHere_eq_ok.1 this).symm.trans still
      rfl

/-- A call of a method that was found and bound to a receiver has the receiver as its value, if the
method gives it back.
-/
theorem value_of_method_call {expr : Expr} {exprs : List Expr} {between : Machine}
    {found : Option Closure} {receiver : Value} {name : Token}
    (begins : ((start config sink clock).takeAll requests).Begins request opened task)
    (reaches
      : (opened.moment task).Reaches
          ⟨distances, budget + 1, .evaluate (.call expr closing exprs), machine⟩)
    (evaluated
      : Moment.ending ⟨distances, budget, .evaluate expr, machine⟩
        = (Plan.foundMethod found receiver name).run (.byDistance distances)
            (Task.perform (.byDistance distances) (budget - 1)) between)
    (initializes : ∀ method, found = some method → method.initializes = true)
    (ended
      : Moment.ending ⟨distances, budget + 1, .evaluate (.call expr closing exprs), machine⟩
        = .ok value after)
    : value = receiver := by
  cases found with
  | none =>
      have calls := (Moment.ending_call ..).symm.trans ended
      rw [evaluated] at calls
      cases calls
  | some method =>
      obtain ⟨function, left, ran, binds⟩ := Plan.run_foundMethod method receiver name
      rw [ran] at evaluated
      have gives := binds.initializes.trans (initializes method rfl)
      exact value_of_call begins reaches evaluated gives binds.this ended

/-- A call of the initializer of an instance has the instance as its value. -/
theorem value_of_get_call {object : Expr} {name : Token} {exprs : List Expr} {address : Nat}
    {entry : Instance} {between : Machine}
    (begins : ((start config sink clock).takeAll requests).Begins request opened task)
    (reaches
      : (opened.moment task).Reaches
          ⟨distances, budget + 2, .evaluate (.call (.get object name) closing exprs), machine⟩)
    (named : name.lexeme = initializerName)
    (evaluated
      : Moment.ending ⟨distances, budget, .evaluate object, machine⟩
        = .ok (.instance address) between)
    (there : between.instances[address]? = some entry)
    (absent : entry.fields.get? name.lexeme = none)
    (ended
      : Moment.ending
          ⟨distances, budget + 2, .evaluate (.call (.get object name) closing exprs), machine⟩
        = .ok value after)
    : value = .instance address := by
  have got
      : Moment.ending ⟨distances, budget + 1, .evaluate (.get object name), machine⟩
        = (Plan.property (.instance address) name).run (.byDistance distances)
            (Task.perform (.byDistance distances) budget) between := by
    refine (Plan.run_hand_plain ..).trans ?_
    exact congrArg (Ending.andThen · _) evaluated
  rw [Plan.run_property there absent] at got
  refine value_of_method_call begins reaches got (fun method found => ?_) ended
  have inner : (opened.moment task).Reaches ⟨distances, budget, .evaluate object, machine⟩ :=
    (reaches.tail Moment.leads_callee).tail Moment.leads_object
  obtain ⟨ghost, before⟩ := rooted_of_reaches begins inner
  have rooted := (Moment.since_ending (closed_course _ _ _) before).rooted
  rw [evaluated] at rooted
  exact ((rooted.objects address entry there).1.methods _ _ method .refl found).2 named

/-- A call of the initializer of the superclass has the current `this` as its value, if it is an
instance.
-/
theorem value_of_super_call {occurrence : Occurrence} {name : Token} {exprs : List Expr}
    {address : Nat}
    (begins : ((start config sink clock).takeAll requests).Begins request opened task)
    (reaches
      : (opened.moment task).Reaches
          ⟨distances, budget + 2, .evaluate (.call (.super occurrence name) closing exprs),
            machine⟩)
    (named : name.lexeme = initializerName)
    (this : machine.store.get machine.environment "this" = .ok (.instance address))
    (ended
      : Moment.ending
          ⟨distances, budget + 2, .evaluate (.call (.super occurrence name) closing exprs), machine⟩
        = .ok value after)
    : value = .instance address := by
  have inner := reaches.tail Moment.leads_callee
  obtain ⟨ghost, required⟩ := required_of_reaches begins inner
  obtain ⟨definition, isStatic, owner, superclass, receiver, _, receiving, inherits, _, got⟩ :=
    required.ending_super
  cases receiving.this.symm.trans this
  refine value_of_method_call begins reaches got (fun method found => ?_) ended
  obtain ⟨ghost, _, rooted, _⟩ := rooted_of_reaches begins inner
  cases receiving.receives with
  | @«instance» _ object there descends =>
      have known := (rooted.objects address object there).1
      exact (known.methods superclass _ method (descends.tail inherits) found).2 named

-----------------------------------------------------------------------------------------
-- Construction
-----------------------------------------------------------------------------------------

/-- A session that constructs an instance and calls its initializer again. -/
theorem exists_initializer_call
    : ∃ opened task distances budget definition closing made name machine between last,
        ((start ⟨false, 255, 20⟩ .unlimited fun _ => 0).takeAll []).Begins
          (.run "class A{init(){return;}}A().init();") opened task
        ∧ (opened.moment task).Reaches
            ⟨distances, budget, .call (.class definition) closing [], machine⟩
        ∧ Moment.ending ⟨distances, budget, .call (.class definition) closing [], machine⟩
          = .ok (.instance 0) between
        ∧ (opened.moment task).Reaches
            ⟨distances, budget + 3, .evaluate (.call (.get made name) closing []), machine⟩
        ∧ name.lexeme = initializerName
        ∧ Moment.ending ⟨distances, budget + 1, .evaluate made, machine⟩
          = .ok (.instance 0) between
        ∧ between.instances[0]? = some ⟨definition, .empty⟩
        ∧ ∃ value,
            Moment.ending
              ⟨distances, budget + 3, .evaluate (.call (.get made name) closing []), machine⟩
            = .ok value last := by
  let closing : Token := ⟨.mark .rightParen, ")", 1⟩
  let init : Token := ⟨.identifier, "init", 1⟩
  let name : Occurrence := ⟨0, .identifier, "A", 1⟩
  have scan
      : Scan.ofText "class A{init(){return;}}A().init();"
        = ⟨[.token ⟨.keyword .class, "class", 1⟩, .token name.token,
            .token ⟨.mark .leftBrace, "\x7b", 1⟩, .token init,
            .token ⟨.mark .leftParen, "(", 1⟩, .token closing,
            .token ⟨.mark .leftBrace, "\x7b", 1⟩, .token ⟨.keyword .return, "return", 1⟩,
            .token ⟨.mark .semicolon, ";", 1⟩, .token ⟨.mark .rightBrace, "\x7d", 1⟩,
            .token ⟨.mark .rightBrace, "\x7d", 1⟩, .token name.token,
            .token ⟨.mark .leftParen, "(", 1⟩, .token closing, .token ⟨.mark .dot, ".", 1⟩,
            .token init, .token ⟨.mark .leftParen, "(", 1⟩, .token closing,
            .token ⟨.mark .semicolon, ";", 1⟩],
          Token.endOfInput 1⟩ := by
    rw [Scan.ofText_eq]
    rfl
  let initializer : FunctionDecl :=
    ⟨some init, init, [], [.return ⟨.keyword .return, "return", 1⟩ none]⟩
  let declaration : Stmt := .class ⟨name.token, none, [initializer], []⟩
  let made : Expr := .call (.variable name) closing []
  let again : Expr := .call (.get made init) closing []
  let numbered : Session := ⟨⟨false, 255, 20⟩, .start 255 .unlimited fun _ => 0, .empty, 1⟩
  let opened := numbered.learn (Distances.empty.record 0 0)
  have read
      : Program.parse (Scan.ofText "class A{init(){return;}}A().init();").tokens
            (Scan.ofText "class A{init(){return;}}A().init();").stop 0
          = (.ok [declaration, .expression again], 1) := by
    rw [scan]
    cbv
  have begins : Begins (start ⟨false, 255, 20⟩ .unlimited fun _ => 0)
      (.run "class A{init(){return;}}A().init();") opened
      (.executeAll [declaration, .expression again]) :=
    .run (by rw [scan]; rfl) (parseProgram_eq read) rfl
  let first : Machine := .start 255 .unlimited fun _ => 0
  let definition : Class :=
    ⟨0, "A", none, Step.methodTable .globals FunctionDecl.initializes [initializer],
      Step.methodTable .globals (fun _ => false) []⟩
  let machine : Machine :=
    { first with
      store := (first.store.define .globals "A" .nil).setSlot 0 "A" (some (.class definition))
      nextIdentity := 1 }
  let receiver : Bindings Value := Table.empty.set "this" (some (.instance 0))
  -- the machines in order: in the first call, after it, with `this` bound again, and at the end
  let deeper : Machine := { machine with callDepth := 1 }
  let empty : Machine := { deeper with instances := #[⟨definition, .empty⟩] }
  let ready : Machine := { empty with store := empty.store.add receiver }
  let left : Machine := { ready with store := ready.store.add (.ofList []) }
  let between : Machine := { left with callDepth := 0 }
  let rebound : Machine :=
    { between with store := between.store.add receiver, nextIdentity := 2 }
  let last : Machine := { rebound with store := rebound.store.add (.ofList []) }
  have declared
      : Moment.ending ⟨opened.distances, 19, .execute declaration, first⟩
        = .ok .normal machine := rfl
  have invoked
      : Moment.ending ⟨opened.distances, 12, .invoke ⟨initializer, ⟨1, [0]⟩, true⟩ [], ready⟩
        = .ok (.instance 0) left := rfl
  have initialized
      : Moment.ending ⟨opened.distances, 13, .construct definition [], deeper⟩
        = .ok (.instance 0) left := by
    have instanced : Step.newInstance definition deeper = .ok (.instance 0) empty := rfl
    refine (Plan.run_step ..).trans ((congrArg (Ending.andThen · _) instanced).trans ?_)
    refine (Plan.run_act ..).trans ?_
    refine (Plan.run_hand_plain ..).trans ?_
    exact congrArg (Ending.andThen · _) invoked
  have constructed
      : Moment.ending ⟨opened.distances, 14, .call (.class definition) closing [], machine⟩
        = .ok (.instance 0) between := by
    have checked : Plan.checkCall closing definition.arity 0 machine = .ok () machine := rfl
    refine (Plan.run_step ..).trans ((congrArg (Ending.andThen · _) checked).trans ?_)
    refine (Plan.run_hand ..).trans ?_
    exact congrArg (fun left => Ending.andThen (Manner.deeper.afterAll machine left) _) initialized
  have callee
      : Moment.ending ⟨opened.distances, 14, .evaluate (.variable name), machine⟩
        = .ok (.class definition) machine := rfl
  have given
      : Moment.ending ⟨opened.distances, 14, .evaluateAll [], machine⟩ = .ok [] machine := rfl
  have evaluated
      : Moment.ending ⟨opened.distances, 15, .evaluate made, machine⟩
        = .ok (.instance 0) between := by
    refine (Moment.ending_call ..).trans ?_
    rw [callee]
    simp only [Ending.andThen]
    rw [given]
    exact constructed
  have got
      : Moment.ending ⟨opened.distances, 16, .evaluate (.get made init), machine⟩
        = .ok (.function ⟨1, ⟨initializer, ⟨3, [0]⟩, true⟩⟩) rebound := by
    refine (Plan.run_hand_plain ..).trans ?_
    exact (congrArg (Ending.andThen · _) evaluated).trans rfl
  have ended
      : Moment.ending ⟨opened.distances, 17, .evaluate again, machine⟩
        = .ok (.instance 0) last := by
    refine (Moment.ending_call ..).trans ?_
    rw [got]
    rfl
  have reaches
      : (opened.moment (.executeAll [declaration, .expression again])).Reaches
          ⟨opened.distances, 17, .evaluate again, machine⟩ :=
    .head (Moment.leads_rest declared)
      (.head Moment.leads_first (.single Moment.leads_expression))
  have evaluates : Moment.Reaches ⟨opened.distances, 17, .evaluate again, machine⟩
      ⟨opened.distances, 15, .evaluate made, machine⟩ :=
    .head Moment.leads_callee (.single Moment.leads_object)
  have calls : Moment.Leads ⟨opened.distances, 15, .evaluate made, machine⟩
      ⟨opened.distances, 14, .call (.class definition) closing [], machine⟩ :=
    Moment.leads_call callee given
  have there : between.instances[0]? = some ⟨definition, .empty⟩ := rfl
  exact ⟨opened, _, _, 14, definition, closing, made, init, machine, between, last, begins,
    (reaches.trans evaluates).tail calls, constructed, reaches, rfl, evaluated, there, _, ended⟩

/-- In any evaluation of a session, a call of a class that comes to a value gives an instance of the
class that was not there before, whatever the initializer does. Any other call of an initializer
gives the instance that it is bound to; so do `x.init(...)`, if `x` has no field of this name, and
`super.init(...)`. What `this` is bound to stays, and the initializers are the methods with the
name, also the inherited ones. A call of a class has an arity fault just if the number of its
arguments is not that of the parameters of the initializer that the class finds, and then nothing
is run.
-/
theorem construction_gives_new_instances
    (begins : ((start config sink clock).takeAll requests).Begins request opened task)
    : (∀ distances budget definition closing arguments machine value after,
        (opened.moment task).Reaches
            ⟨distances, budget, .call (.class definition) closing arguments, machine⟩
        → Moment.ending ⟨distances, budget, .call (.class definition) closing arguments, machine⟩
          = .ok value after
        → ∃ (address : Nat) (object : Instance),
            value = .instance address
            ∧ machine.instances[address]? = none
            ∧ after.instances[address]? = some object
            ∧ object.definition = definition)
      ∧ (∀ distances budget callee closing arguments machine,
          (opened.moment task).Reaches
              ⟨distances, budget, .call (.function callee) closing arguments, machine⟩
          → callee.closure.initializes = true
          → ∃ (address : Nat) (object : Instance),
              machine.instances[address]? = some object
              ∧ machine.store.getHere callee.closure.environment.table "this"
                = .ok (.instance address)
              ∧ ((start config sink clock).course requests request).history.Binds
                  callee.closure.environment.table (.instance address)
              ∧ ∀ value after,
                  Moment.ending
                      ⟨distances, budget, .call (.function callee) closing arguments, machine⟩
                    = .ok value after
                  → value = .instance address)
      ∧ (∀ distances budget object name closing exprs machine address entry between value after,
          (opened.moment task).Reaches
              ⟨distances, budget + 2, .evaluate (.call (.get object name) closing exprs), machine⟩
          → name.lexeme = initializerName
          → Moment.ending ⟨distances, budget, .evaluate object, machine⟩
            = .ok (.instance address) between
          → between.instances[address]? = some entry
          → entry.fields.get? name.lexeme = none
          → Moment.ending
                ⟨distances, budget + 2, .evaluate (.call (.get object name) closing exprs), machine⟩
            = .ok value after
          → value = .instance address)
      ∧ (∀ distances budget occurrence name closing exprs machine address value after,
          (opened.moment task).Reaches
              ⟨distances, budget + 2, .evaluate (.call (.super occurrence name) closing exprs),
                machine⟩
          → name.lexeme = initializerName
          → machine.store.get machine.environment "this" = .ok (.instance address)
          → Moment.ending
                ⟨distances, budget + 2, .evaluate (.call (.super occurrence name) closing exprs),
                  machine⟩
            = .ok value after
          → value = .instance address)
      ∧ (∀ moment,
          (opened.moment task).Reaches moment → moment.machine.Retains moment.ending.machine)
      ∧ (∀ moment made,
          (opened.moment task).Reaches moment
          → moment.machine.Holds made ∨ moment.ending.machine.Holds made
          → (∀ name method,
              made.findMethod? name = some method
              → (method.initializes = true ↔ name = initializerName))
            ∧ ∀ name method, made.findStatic? name = some method → method.initializes = false)
      ∧ ∀ distances budget definition closing arguments machine parameters,
          (opened.moment task).Reaches
              ⟨distances, budget + 1, .call (.class definition) closing arguments, machine⟩
          → parameters
            = (definition.findMethod? initializerName).elim [] (·.declaration.parameters)
          → ((∃ after,
                Moment.ending
                    ⟨distances, budget + 1, .call (.class definition) closing arguments, machine⟩
                  = .error
                      (.fault ⟨closing, .argumentCount parameters.length arguments.length⟩) after)
              ↔ arguments.length ≠ parameters.length)
            ∧ (arguments.length ≠ parameters.length
              → Moment.ending
                    ⟨distances, budget + 1, .call (.class definition) closing arguments, machine⟩
                = .error
                    (.fault ⟨closing, .argumentCount parameters.length arguments.length⟩) machine)
            ∧ (arguments.length = parameters.length
              → machine.callDepth < machine.maxDepth
              → Moment.Leads
                  ⟨distances, budget + 1, .call (.class definition) closing arguments, machine⟩
                  ⟨distances, budget, .construct definition arguments,
                    { machine with callDepth := machine.callDepth + 1 }⟩) := by
  refine ⟨?_, ?_, ?_, ?_, ?_, ?_, ?_⟩
  · intro distances budget definition closing arguments machine value after reaches ended
    exact exists_new_instance begins reaches ended
  · intro distances budget callee closing arguments machine reaches initializes
    exact exists_receiver begins reaches initializes
  · intro distances budget object name closing exprs machine address entry between value after
      reaches named evaluated there absent ended
    exact value_of_get_call begins reaches named evaluated there absent ended
  · intro distances budget occurrence name closing exprs machine address value after reaches named
      this ended
    exact value_of_super_call begins reaches named this ended
  · intro moment reaches
    exact retains_ending begins reaches
  · intro moment made reaches holds
    have rooted := rooted_of_holds begins reaches holds
    exact ⟨fun name method => rooted.methods _ name method .refl,
      fun name method => rooted.statics _ name method .refl⟩
  · rintro distances budget definition closing arguments machine _ reaches rfl
    rw [← definition.arity_eq]
    refine ⟨⟨?_, fun wrong => ⟨machine, ending_of_wrongCount wrong⟩⟩, ending_of_wrongCount,
      Moment.leads_construct⟩
    rintro ⟨after, ended⟩ same
    exact not_ending_of_rightCount begins reaches same ended

/-- A new instance is what the call of its class gives, and again what its initializer gives. -/
theorem construction_gives_new_instances_and_again
    : ∃ (distances : Distances) (budget : Nat) (definition : Class) (closing name : Token)
          (made : Expr) (machine between last : Machine),
        Moment.ending ⟨distances, budget, .call (.class definition) closing [], machine⟩
          = .ok (.instance 0) between
        ∧ machine.instances[0]? = none
        ∧ (∃ object, between.instances[0]? = some object ∧ object.definition = definition)
        ∧ name.lexeme = initializerName
        ∧ Moment.ending
              ⟨distances, budget + 3, .evaluate (.call (.get made name) closing []), machine⟩
          = .ok (.instance 0) last := by
  obtain ⟨opened, task, distances, budget, definition, closing, made, name, machine, between, last,
    begins, reaches, constructed, again, named, evaluated, there, value, ended⟩ :=
    exists_initializer_call
  obtain ⟨classes, _, gets, _⟩ := construction_gives_new_instances begins
  obtain ⟨_, object, ⟨⟩, absent, found, same⟩ := classes _ _ _ _ _ _ _ _ reaches constructed
  cases gets _ _ _ _ _ _ _ _ _ _ _ _ again named evaluated there rfl ended
  exact ⟨distances, budget, definition, closing, name, made, machine, between, last, constructed,
    absent, ⟨object, found, same⟩, named, ended⟩

end Session
end Lox
