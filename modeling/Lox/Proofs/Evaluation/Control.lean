import Lox.Proofs.Evaluation.Soundness
import Lox.Proofs.Scoping.Legality
import Lox.Proofs.Syntax.Operators

/-! The contract of control flow. While a machine holds legal code only, a legal statement ends
in a way that its context permits: with a `break` in a loop only, with a `return` in a function
only, and in an initializer with no value but `nil`. Every function that is made keeps the
legality of its declaration, so it is there whenever the function is called. The same goes for the
operators in the code, which are those of the grammar.
-/

namespace Lox

-----------------------------------------------------------------------------------------
-- Legal code at run time
-----------------------------------------------------------------------------------------

/-- A closure is made from a legal function with the operators of the grammar. One that gives back
its receiver is made from an initializer.
-/
def Closure.Legal (closure : Closure) : Prop :=
  ∃ kind classBody,
    (kind ≠ .program ∧ closure.declaration.Grammatical)
    ∧ closure.declaration.Legal kind classBody
    ∧ (closure.initializes = true → kind = .initializer)

/-- All methods of a class are legal, also those that it inherits. -/
structure Class.Legal (definition : Class) : Prop where
  methods : ∀ name method, definition.findMethod? name = some method → method.Legal
  statics : ∀ name method, definition.findStatic? name = some method → method.Legal

/-- The code of a value is legal. -/
def Value.Legal : Value → Prop
  | .function callee => callee.closure.Legal
  | .class definition => definition.Legal
  | .nil | .bool _ | .number _ | .string _ | .native _ | .instance _ => True

/-- An object has legal methods and legal values in its fields. -/
structure Instance.Legal (object : Instance) : Prop where
  definition : object.definition.Legal
  fields : ∀ name value, object.fields.get? name = some value → value.Legal

/-- A machine holds legal code only. -/
structure Machine.Legal (machine : Machine) : Prop where
  values
    : ∀ (address : Nat) (name : String) (value : Value),
        (machine.store.table address).get? name = some (some value) → value.Legal
  objects
    : ∀ (address : Nat) (object : Instance),
        machine.instances[address]? = some object → object.Legal

/-- What a statement may end with in a context. -/
def Context.Permits (context : Context) : Flow → Prop
  | .normal => True
  | .break => context.inLoop = true
  | .return value =>
    value.Legal ∧ context.body ≠ .program ∧ (context.body = .initializer → value = .nil)

/-- The code that a task is about is legal. -/
def Task.Legal (context : Context) : Task → Prop
  | .evaluate expr => expr.Legal context
  | .evaluateAll exprs => Exprs.Legal exprs context
  | .call callee _ arguments => callee.Legal ∧ ∀ value ∈ arguments, value.Legal
  | .invoke closure arguments => closure.Legal ∧ ∀ value ∈ arguments, value.Legal
  | .construct definition arguments => definition.Legal ∧ ∀ value ∈ arguments, value.Legal
  | .execute stmt => stmt.Legal context
  | .executeAll stmts => Stmts.Legal stmts context
  | .loop condition body => condition.Legal context.looping ∧ body.Legal context.looping

/-- The operators in the code that a task is about are those of the grammar. -/
def Task.Grammatical : Task → Prop
  | .evaluate expr => expr.Grammatical
  | .evaluateAll exprs => Exprs.Grammatical exprs
  | .execute stmt => stmt.Grammatical
  | .executeAll stmts => Stmts.Grammatical stmts
  | .loop condition body => condition.Grammatical ∧ body.Grammatical
  | .call _ _ _ | .invoke _ _ | .construct _ _ => True

/-- What a task may end with in a context. A loop catches every `break`. -/
def Context.Allows (context : Context) : (task : Task) → task.Result → Prop
  | .evaluate _, value => value.Legal
  | .evaluateAll _, values => ∀ value ∈ values, value.Legal
  | .call _ _ _, value => value.Legal
  | .invoke _ _, value => value.Legal
  | .construct _ _, value => value.Legal
  | .execute _, flow => context.Permits flow
  | .executeAll _, flow => context.Permits flow
  | .loop _ _, flow => context.Permits flow ∧ flow ≠ .break

/-- The contract of control flow. -/
def controlContract : Contract Context where
  before context moment :=
    (moment.machine.Legal ∧ moment.task.Grammatical) ∧ moment.task.Legal context
  after context moment value machine := machine.Legal ∧ context.Allows moment.task value
  abort _ _ interruption machine :=
    machine.Legal ∧ interruption.Avoids FaultCause.OfOperator
  allows _ _ _ _ := True

-----------------------------------------------------------------------------------------
-- Machines that change
-----------------------------------------------------------------------------------------

namespace Machine.Legal

variable {machine : Machine}

/-- Legal code stays so whatever is printed, told and counted. -/
theorem alike {after : Machine} (h : machine.Legal) (alike : after.Alike machine)
    : after.Legal where
  values := by
    rw [alike.store]
    exact h.values
  objects := by
    rw [alike.instances]
    exact h.objects

theorem before (h : machine.Legal) (manner : Manner) : (manner.before machine).Legal := by
  cases manner <;> exact ⟨h.values, h.objects⟩

theorem after {left : Machine} (h : left.Legal) (manner : Manner)
    : (manner.after machine left).Legal := by
  cases manner <;> exact ⟨h.values, h.objects⟩

theorem setSlot {value : Value} (h : machine.Legal) (address : Nat) (name : String)
    (legal : value.Legal)
    : Machine.Legal { machine with store := machine.store.setSlot address name (some value) } where
  values other key found := by
    intro there
    rw [Store.get?_setSlot] at there
    split at there
    · cases there
      exact legal
    · exact h.values other key found there
  objects := h.objects

theorem add {bindings : Bindings Value} (h : machine.Legal)
    (legal : ∀ name value, bindings.get? name = some (some value) → value.Legal)
    : Machine.Legal { machine with store := machine.store.add bindings } where
  values address name value := by
    intro there
    rw [Store.table_add] at there
    split at there
    · exact legal name value there
    · exact h.values address name value there
  objects := h.objects

end Machine.Legal

-----------------------------------------------------------------------------------------
-- Parts of plans
-----------------------------------------------------------------------------------------

/-- A plan keeps the contract of control flow. -/
abbrev Controls {α : Type} (context : Context) (moment : Moment) (budget : Nat) (plan : Plan α)
    (machine : Machine) (goal : α → Machine → Prop) : Prop :=
  controlContract.Keeps context moment budget plan machine goal

/-- The goal of coming to a legal value. -/
def GivesLegal (value : Value) (machine : Machine) : Prop := machine.Legal ∧ value.Legal

/-- Values without closures are legal. -/
theorem Step.IsPlain.legal {value : Value} (h : IsPlain value) : value.Legal := by
  cases value <;> trivial

namespace Controls

variable {α β : Type} {context : Context} {moment : Moment} {budget : Nat} {machine : Machine}
  {goal : α → Machine → Prop}

/-- A fault interrupts the plan. -/
theorem fault {token : Token} {cause : FaultCause} {next : β → Plan α} (h : machine.Legal)
    (other : ¬ cause.OfOperator)
    : Controls context moment budget (.step (Step.fault token cause) next) machine goal :=
  ⟨h, other⟩

/-- A quiet step leaves all code as it is. -/
theorem quiet {step : Step β} {next : β → Plan α} {good : β → Prop} (h : machine.Legal)
    (quiet : step.Quiet machine good) (avoids : step.Avoids FaultCause.OfOperator machine)
    (rest
      : ∀ value after,
          after.Legal
          → good value
          → Controls context moment budget (next value) after goal)
    : Controls context moment budget (.step step next) machine goal := by
  unfold Step.Quiet at quiet
  unfold Controls Contract.Keeps Contract.Comes
  split
  · next value after ran =>
      rw [ran] at quiet
      exact rest value after (h.alike quiet.1) quiet.2
  · next interruption after ran =>
      rw [ran] at quiet
      exact ⟨h.alike quiet.1, avoids interruption after ran⟩

/-- A plan may look at the machine. -/
theorem look {next : Machine → Plan α}
    (rest : Controls context moment budget (next machine) machine goal)
    : Controls context moment budget (.step MonadState.get next) machine goal := rest

/-- A lookup leaves the machine as it is, wherever it finds something. -/
theorem comes_lookup {token : Token} {find : Machine → Except LookupError β}
    {goal : β → Machine → Prop} (h : machine.Legal) (rest : ∀ value, goal value machine)
    : controlContract.Comes context moment (Step.lookup token find machine) goal := by
  unfold Step.lookup
  cases find machine with
  | ok value => exact rest value
  | error error => exact ⟨h, error.avoids_ofOperator token⟩

theorem locate {use : Use} {occurrence : Occurrence} {next : Nat → Plan α} (h : machine.Legal)
    (rest : ∀ address, Controls context moment budget (next address) machine goal)
    : Controls context moment budget (.act (.locate use occurrence) next) machine goal :=
  fun _ => ⟨trivial, comes_lookup h rest⟩

theorem locateReceiver {occurrence : Occurrence} {next : Nat → Plan α} (h : machine.Legal)
    (rest : ∀ address, Controls context moment budget (next address) machine goal)
    : Controls context moment budget (.act (.locateReceiver occurrence) next) machine goal :=
  fun _ => ⟨trivial, comes_lookup h rest⟩

/-- A table is made with legal values. -/
theorem enter {layer : Layer} {outer : Environment} {bindings : Bindings Value}
    {next : Environment → Plan α} (h : machine.Legal)
    (legal : ∀ name value, bindings.get? name = some (some value) → value.Legal)
    (rest
      : ∀ environment after,
          after.Legal → Controls context moment budget (next environment) after goal)
    : Controls context moment budget (.act (.enter layer outer bindings) next) machine goal :=
  fun _ => ⟨trivial, rest _ _ (h.add legal)⟩

/-- A legal task is handed on in a context of its own. -/
theorem hand {manner : Manner} {task : Task} {next : task.Result → Plan α} (h : machine.Legal)
    (other : Context) (signs : task.Grammatical) (legal : task.Legal other)
    (rest
      : ∀ value after,
          after.Legal
          → other.Allows task value
          → Controls context moment budget (next value) after goal)
    : Controls context moment budget (.hand manner task next) machine goal := by
  intro _
  refine ⟨other, ⟨⟨h.before manner, signs⟩, legal⟩, ?_, ?_⟩
  · rintro value left _ ⟨left, allowed⟩
    exact rest value _ (left.after manner) allowed
  · rintro interruption left _ ⟨left, avoids⟩
    exact ⟨left.after manner, avoids⟩

/-- What is read is legal, wherever it is found. -/
theorem getHere {address : Nat} {token : Token} {next : Value → Plan α} (h : machine.Legal)
    (rest
      : ∀ value after,
          after.Legal
          → value.Legal
          → Controls context moment budget (next value) after goal)
    : Controls context moment budget (.step (Step.getHere address token) next) machine goal :=
  quiet h (Step.quiet_getHere machine address token)
    (.lookup fun error _ => error.avoids_ofOperator token) fun value after later found =>
      rest value after later (h.values _ _ _ found)

/-- A name gets a legal value in the current environment. -/
theorem define {name : String} {value : Value} {next : Unit → Plan α} (h : machine.Legal)
    (legal : value.Legal)
    (rest : ∀ after, after.Legal → Controls context moment budget (next ()) after goal)
    : Controls context moment budget (.step (Step.define name value) next) machine goal :=
  rest _ (h.setSlot machine.environment.table name legal)

/-- A name in the current chain gets another value. -/
theorem overwrite {token : Token} {value : Value} {next : Unit → Plan α} (h : machine.Legal)
    (legal : value.Legal)
    (rest : ∀ after, after.Legal → Controls context moment budget (next ()) after goal)
    : Controls context moment budget (.step (Step.overwrite token value) next) machine goal := by
  unfold Controls Contract.Keeps
  simp only [Step.overwrite, Step.lookup, Bind.bind, EStateM.bind]
  cases machine.store.find machine.environment token.lexeme with
  | error error => exact ⟨h, error.avoids_ofOperator token⟩
  | ok address => exact rest _ (h.setSlot address token.lexeme legal)

/-- A new instance has no fields. -/
theorem newInstance {definition : Class} {next : Value → Plan α} (h : machine.Legal)
    (legal : definition.Legal)
    (rest
      : ∀ address after,
          after.Legal → Controls context moment budget (next (.instance address)) after goal)
    : Controls context moment budget (.step (Step.newInstance definition) next) machine goal := by
  refine rest _ _ ⟨h.values, ?_⟩
  intro address object found
  rw [Array.getElem?_push] at found
  split at found
  · cases found
    exact ⟨legal, nofun⟩
  · exact h.objects address object found

/-- A field gets a legal value. -/
theorem setField {target : Nat} {name : String} {value : Value} {next : Unit → Plan α}
    (h : machine.Legal) (legal : value.Legal)
    (rest : ∀ after, after.Legal → Controls context moment budget (next ()) after goal)
    : Controls context moment budget (.step (Step.setField target name value) next) machine
        goal := by
  refine rest _ ⟨h.values, ?_⟩
  intro address object found
  rw [Array.getElem?_modify] at found
  split at found
  · obtain ⟨old, there, rfl⟩ := Option.map_eq_some_iff.1 found
    have before := h.objects address old there
    refine ⟨before.definition, fun field given had => ?_⟩
    rw [Table.get?_set] at had
    split at had
    · cases had
      exact legal
    · exact before.fields field given had
  · exact h.objects address object found

-----------------------------------------------------------------------------------------
-- Expressions
-----------------------------------------------------------------------------------------

/-- A legal expression has a legal value. -/
theorem evaluate {goal : Value → Machine → Prop} {other : Context} {expr : Expr}
    (h : machine.Legal) (signs : expr.Grammatical) (legal : expr.Legal other)
    (rest : ∀ value after, after.Legal → value.Legal → goal value after)
    : Controls context moment budget (Plan.evaluate expr) machine goal :=
  hand h other signs legal rest

theorem read {goal : Value → Machine → Prop} {use : Use} {occurrence : Occurrence}
    (h : machine.Legal) (rest : ∀ value after, after.Legal → value.Legal → goal value after)
    : Controls context moment budget (Plan.read use occurrence) machine goal :=
  .bind (locate h fun _ => getHere h rest)

/-- A method keeps its declaration when it is bound to a receiver. -/
theorem bindMethod {goal : Closure → Machine → Prop} {method : Closure} {receiver : Value}
    (h : machine.Legal) (legal : method.Legal) (object : receiver.Legal)
    (rest : ∀ bound after, after.Legal → bound.Legal → goal bound after)
    : Controls context moment budget (Plan.bindMethod method receiver) machine goal := by
  refine .bind (enter h (fun name value found => ?_) fun environment after h => ?_)
  · obtain ⟨rfl, ⟨⟩⟩ := Table.get?_single.1 found
    exact object
  · exact rest { method with environment } after h legal

/-- A method that was found is legal. -/
theorem foundMethod {found : Option Closure} {receiver : Value} {name : Token}
    (h : machine.Legal) (legal : ∀ method, found = some method → method.Legal)
    (object : receiver.Legal)
    : Controls context moment budget (Plan.foundMethod found receiver name) machine
        GivesLegal := by
  cases found with
  | none => exact fault h id
  | some method =>
      refine .bind (bindMethod h (legal method rfl) object fun bound after h fits => ?_)
      refine quiet h (Step.quiet_functionOf after bound) (.of_ok rfl) fun value last h made => ?_
      obtain ⟨identity, rfl⟩ := made
      exact ⟨h, fits⟩

/-- By cases over the object. -/
theorem property {object : Value} {name : Token} (h : machine.Legal) (legal : object.Legal)
    : Controls context moment budget (Plan.property object name) machine GivesLegal := by
  cases object with
  | «instance» address =>
      refine look ?_
      rw [Plan.bind]
      split
      · next entry there =>
          have known := h.objects address entry there
          split
          · next value given => exact ⟨h, known.fields _ value given⟩
          · exact foundMethod h (known.definition.methods _) legal
      · exact fault h id
  | «class» definition => exact foundMethod h (legal.statics _) legal
  | nil | bool _ | number _ | string _ | native _ | function _ => exact fault h id

/-- A method of a superclass is legal, whatever the receiver is. -/
theorem superMethod {occurrence : Occurrence} {method : Token} (h : machine.Legal)
    : Controls context moment budget (Plan.superMethod occurrence method) machine GivesLegal := by
  refine .bind (read h fun value after h legal => ?_)
  cases value with
  | «class» superclass =>
      refine .bind (locateReceiver h fun address => ?_)
      refine .bind (getHere h fun receiver last h object => ?_)
      refine foundMethod h (fun found same => ?_) object
      split at same
      · exact legal.statics _ found same
      · exact legal.methods _ found same
  | nil | bool _ | number _ | string _ | native _ | function _ | «instance» _ => exact fault h id

/-- A function that is made from a legal declaration is legal. -/
theorem functionHere {declaration : FunctionDecl} {classBody : ClassKind}
    {next : Value → Plan α} (h : machine.Legal) (signs : declaration.Grammatical)
    (legal : declaration.Legal .function classBody)
    (rest
      : ∀ value after,
          after.Legal
          → value.Legal
          → Controls context moment budget (next value) after goal)
    : Controls context moment budget (.step (Step.functionHere declaration) next) machine
        goal := by
  refine quiet h (Step.quiet_functionHere machine declaration) (.of_ok rfl)
    fun value after h made => ?_
  obtain ⟨identity, rfl⟩ := made
  exact rest _ after h ⟨.function, classBody, ⟨nofun, signs⟩, legal, nofun⟩

/-- By cases over the expression. -/
theorem ofExpr (expr : Expr) (h : machine.Legal) (signs : expr.Grammatical)
    (legal : expr.Legal context)
    : Controls context moment budget (Plan.ofExpr expr) machine GivesLegal := by
  cases expr with
  | literal value => cases value <;> exact ⟨h, trivial⟩
  | grouping inner => exact evaluate h signs legal fun _ _ h legal => ⟨h, legal⟩
  | unary operator operand =>
      obtain ⟨sign, signs⟩ := signs
      refine .bind (evaluate h signs legal fun value after h _ => ?_)
      exact quiet h (Step.quiet_unary after operator value)
        (Step.avoids_unary after id fun _ => sign) fun _ _ h plain => ⟨h, plain.legal⟩
  | binary operator left right =>
      obtain ⟨sign, signs⟩ := signs
      refine .bind (evaluate h signs.1 legal.1 fun first _ h _ => ?_)
      refine .bind (evaluate h signs.2 legal.2 fun second after h _ => ?_)
      exact quiet h (Step.quiet_binary after operator first second)
        (Step.avoids_binary after id id fun _ => sign) fun _ _ h plain => ⟨h, plain.legal⟩
  | logical operator left right =>
      obtain ⟨_, signs⟩ := signs
      refine .bind (evaluate h signs.1 legal.1 fun value after h known => ?_)
      split
      · exact ⟨h, known⟩
      · exact evaluate h signs.2 legal.2 fun _ _ h legal => ⟨h, legal⟩
  | conditional condition positive negative =>
      refine .bind (evaluate h signs.1 legal.1 fun value after h _ => ?_)
      split
      · exact evaluate h signs.2.1 legal.2.1 fun _ _ h legal => ⟨h, legal⟩
      · exact evaluate h signs.2.2 legal.2.2 fun _ _ h legal => ⟨h, legal⟩
  | «variable» occurrence => exact read h fun _ _ h legal => ⟨h, legal⟩
  | assign target value =>
      refine .bind (evaluate h signs legal fun value after h known => ?_)
      refine .bind (.bind (locate h fun address => ?_))
      exact ⟨h.setSlot address target.name known, known⟩
  | call callee closing arguments =>
      refine .bind (evaluate h signs.1 legal.1 fun callee after h known => ?_)
      refine .bind (hand h context signs.2 legal.2 fun values last h given => ?_)
      exact hand h context trivial ⟨known, given⟩ fun _ _ h legal => ⟨h, legal⟩
  | get object name =>
      exact .bind (evaluate h signs legal fun object after h known => property h known)
  | set object name value =>
      refine .bind (evaluate h signs.1 legal.1 fun object after h _ => ?_)
      cases object with
      | «instance» address =>
          refine .bind (evaluate h signs.2 legal.2 fun value last h known => ?_)
          exact setField h known fun _ h => ⟨h, known⟩
      | nil | bool _ | number _ | string _ | native _ | function _ | «class» _ =>
          exact fault h id
  | this occurrence => exact read h fun _ _ h legal => ⟨h, legal⟩
  | super occurrence method => exact superMethod h
  | lambda declaration => exact functionHere h signs legal fun _ _ h legal => ⟨h, legal⟩

/-- By cases over the expressions. -/
theorem ofExprs (exprs : List Expr) (h : machine.Legal) (signs : Exprs.Grammatical exprs)
    (legal : Exprs.Legal exprs context)
    : Controls context moment budget (Plan.ofExprs exprs) machine fun values after =>
        after.Legal ∧ ∀ value ∈ values, value.Legal := by
  cases exprs with
  | nil => exact ⟨h, List.forall_mem_nil _⟩
  | cons first rest =>
      refine .bind (evaluate h signs.1 legal.1 fun value after h known => ?_)
      refine hand h context signs.2 legal.2 fun values last h given => ?_
      exact ⟨h, List.forall_mem_cons.2 ⟨known, given⟩⟩

-----------------------------------------------------------------------------------------
-- Calls
-----------------------------------------------------------------------------------------

/-- By cases over what is called. -/
theorem ofCall (callee : Value) (closing : Token) (arguments : List Value) (h : machine.Legal)
    (legal : callee.Legal) (given : ∀ value ∈ arguments, value.Legal)
    : Controls context moment budget (Plan.ofCall callee closing arguments) machine
        GivesLegal := by
  cases callee with
  | native callee =>
      refine quiet h (Step.quiet_checkCall ..) (Step.avoids_checkCall _ (fun _ => id) id)
        fun _ after h _ => ?_
      exact quiet h (Step.quiet_deeper _ (Step.quiet_callNative _ callee arguments))
        (.deeper (Step.avoids_callNative _ callee arguments)) fun _ _ h plain => ⟨h, plain.legal⟩
  | function callee =>
      refine quiet h (Step.quiet_checkCall ..) (Step.avoids_checkCall _ (fun _ => id) id)
        fun _ after h _ => ?_
      exact hand h context trivial ⟨legal, given⟩ fun _ _ h legal => ⟨h, legal⟩
  | «class» definition =>
      refine quiet h (Step.quiet_checkCall ..) (Step.avoids_checkCall _ (fun _ => id) id)
        fun _ after h _ => ?_
      exact hand h context trivial ⟨legal, given⟩ fun _ _ h legal => ⟨h, legal⟩
  | nil | bool _ | number _ | string _ | «instance» _ => exact fault h id

/-- A body runs in the context of its declaration, which permits no `break`. -/
theorem ofInvocation (closure : Closure) (arguments : List Value) (h : machine.Legal)
    (legal : closure.Legal) (given : ∀ value ∈ arguments, value.Legal)
    : Controls context moment budget (Plan.ofInvocation closure arguments) machine
        GivesLegal := by
  obtain ⟨kind, classBody, ⟨_, signs⟩, body, _⟩ := legal
  refine .bind (enter h (fun name value found => ?_) fun environment after h => ?_)
  · obtain ⟨argument, member, same⟩ := Plan.get?_parameterBindings found
    cases same
    exact given value member
  · refine .bind ?_
    refine hand h (.ofBody kind classBody) signs.body body.body fun flow last h permitted => ?_
    split
    · exact getHere h fun _ _ h legal => ⟨h, legal⟩
    · cases flow with
      | normal => exact ⟨h, trivial⟩
      | «break» => exact ⟨h, trivial⟩
      | «return» value => exact ⟨h, permitted.1⟩

/-- A new instance is initialized by a method of its class. -/
theorem ofConstruction (definition : Class) (arguments : List Value) (h : machine.Legal)
    (legal : definition.Legal) (given : ∀ value ∈ arguments, value.Legal)
    : Controls context moment budget (Plan.ofConstruction definition arguments) machine
        GivesLegal := by
  refine newInstance h legal fun address after h => ?_
  have object : Value.Legal (.instance address) := trivial
  rw [Plan.bind]
  cases found : definition.initializer? with
  | none => exact ⟨h, object⟩
  | some initializer =>
      have method := legal.methods _ initializer found
      refine .bind (bindMethod h method object fun bound last h fits => ?_)
      exact hand h context trivial ⟨fits, given⟩ fun _ _ h _ => ⟨h, object⟩

end Controls

-----------------------------------------------------------------------------------------
-- Classes
-----------------------------------------------------------------------------------------

/-- A method in a table gives back its receiver if its declaration makes it do so. -/
theorem Step.initializes_of_get?_methodTable {environment : Environment}
    {initializes : FunctionDecl → Bool} {declarations : List FunctionDecl} {name : String}
    {method : Closure}
    (found : (methodTable environment initializes declarations).get? name = some method)
    : method.initializes = initializes method.declaration := by
  obtain ⟨declaration, _, same⟩ := List.mem_map.1 (Table.mem_of_get?_ofList found)
  cases same
  rfl

/-- A class that is made from a legal declaration is legal, if its superclass is. -/
theorem Class.legal_of_declaration {definition : ClassDecl} {environment : Environment}
    {identity : Nat} {superclass : Option Class} (signs : definition.Grammatical)
    (legal : definition.Legal)
    (inherits : ∀ inherited, superclass = some inherited → inherited.Legal)
    : Class.Legal
        ⟨identity, definition.name.lexeme, superclass,
          Step.methodTable environment FunctionDecl.initializes definition.methods,
          Step.methodTable environment (fun _ => false) definition.statics⟩ where
  methods name method found := by
    rcases Class.findMethod?_eq_some found with own | ⟨inherited, same, found⟩
    · have made := Step.initializes_of_get?_methodTable own
      have member := (Step.of_get?_methodTable own).1
      refine ⟨_, _, ⟨?_, signs.methods _ member⟩, legal.methods _ member, fun initializes => ?_⟩
      · unfold Analysis.methodKind
        split <;> exact nofun
      · rw [made] at initializes
        rw [Analysis.methodKind, if_pos initializes]
    · exact (inherits inherited same).methods name method found
  statics name method found := by
    rcases Class.findStatic?_eq_some found with own | ⟨inherited, same, found⟩
    · have made := Step.initializes_of_get?_methodTable own
      have member := (Step.of_get?_methodTable own).1
      refine ⟨.staticMethod, _, ⟨nofun, signs.statics _ member⟩, legal.statics _ member,
        fun initializes => ?_⟩
      rw [made] at initializes
      cases initializes
    · exact (inherits inherited same).statics name method found

namespace Controls

variable {α β : Type} {context : Context} {moment : Moment} {budget : Nat} {machine : Machine}
  {goal : α → Machine → Prop}

/-- The superclass of a declaration is legal. -/
theorem superclassOf {goal : Option Class → Machine → Prop} (superclass : Option Occurrence)
    (h : machine.Legal)
    (rest
      : ∀ found after,
          after.Legal
          → (∀ inherited, found = some inherited → inherited.Legal)
          → goal found after)
    : Controls context moment budget (Plan.superclassOf superclass) machine goal := by
  cases superclass with
  | none => exact rest none machine h nofun
  | some occurrence =>
      refine .bind (read h fun value after h legal => ?_)
      cases value with
      | «class» inherited =>
          refine rest (some inherited) after h ?_
          rintro _ ⟨⟩
          exact legal
      | nil | bool _ | number _ | string _ | native _ | function _ | «instance» _ =>
          exact fault h id

/-- The table of `super` has a legal class. -/
theorem methodEnvironment {definition : ClassDecl} {superclass : Option Class}
    {goal : Environment → Machine → Prop} (h : machine.Legal)
    (legal : ∀ inherited, superclass = some inherited → inherited.Legal)
    (rest : ∀ environment after, after.Legal → goal environment after)
    : Controls context moment budget (Plan.methodEnvironment definition superclass) machine
        goal := by
  refine look ?_
  rw [Plan.bind]
  cases superclass with
  | none => exact rest _ machine h
  | some inherited =>
      refine enter h (fun name value found => ?_) rest
      obtain ⟨rfl, ⟨⟩⟩ := Table.get?_single.1 found
      exact legal inherited rfl

/-- The declaration of a class leaves legal code behind. -/
theorem ofClass {goal : Unit → Machine → Prop} (definition : ClassDecl) (h : machine.Legal)
    (signs : definition.Grammatical) (legal : definition.Legal)
    (rest : ∀ after, after.Legal → goal () after)
    : Controls context moment budget (Plan.ofClass definition) machine goal := by
  refine .bind (superclassOf definition.superclass h fun superclass after h inherits => ?_)
  have blank : Value.Legal .nil := trivial
  refine define h blank fun named h => ?_
  rw [Plan.bind]
  refine .bind (methodEnvironment h inherits fun environment last h => ?_)
  refine quiet h (Step.quiet_freshIdentity last) (.of_ok rfl) fun identity _ h _ => ?_
  rw [Plan.bind]
  exact overwrite h (Class.legal_of_declaration signs legal inherits) rest

-----------------------------------------------------------------------------------------
-- Statements
-----------------------------------------------------------------------------------------

/-- By cases over the statement. -/
theorem ofStmt (stmt : Stmt) (h : machine.Legal) (signs : stmt.Grammatical)
    (legal : stmt.Legal context)
    : Controls context moment budget (Plan.ofStmt stmt) machine fun flow after =>
        after.Legal ∧ context.Permits flow := by
  cases stmt with
  | expression value => exact .bind (evaluate h signs legal fun _ _ h _ => ⟨h, trivial⟩)
  | print keyword value =>
      refine .bind (evaluate h signs legal fun value after h _ => ?_)
      refine quiet h (Step.quiet_print after value) (.of_ok rfl) fun error last h _ => ?_
      cases error with
      | none => exact ⟨h, trivial⟩
      | some error => exact fault h id
  | var name initializer =>
      cases initializer with
      | none =>
          have blank : Value.Legal .nil := trivial
          exact define h blank fun _ h => ⟨h, trivial⟩
      | some initializer =>
          refine .bind (evaluate h signs legal fun value after h known => ?_)
          exact define h known fun _ h => ⟨h, trivial⟩
  | block body =>
      refine look ?_
      rw [Plan.bind]
      refine .bind (enter h (fun _ _ found => by cases found) fun environment after h => ?_)
      exact hand h context signs legal.2 fun _ _ h permitted => ⟨h, permitted⟩
  | «if» condition positive negative =>
      cases negative with
      | none =>
          refine .bind (evaluate h signs.1 legal.1 fun value after h _ => ?_)
          split
          · exact hand h context signs.2 legal.2 fun _ _ h permitted => ⟨h, permitted⟩
          · exact ⟨h, trivial⟩
      | some negative =>
          refine .bind (evaluate h signs.1 legal.1 fun value after h _ => ?_)
          split
          · exact hand h context signs.2.1 legal.2.1 fun _ _ h permitted => ⟨h, permitted⟩
          · exact hand h context signs.2.2 legal.2.2 fun _ _ h permitted => ⟨h, permitted⟩
  | «while» condition body => exact hand h context signs legal fun _ _ h ended => ⟨h, ended.1⟩
  | «break» keyword => exact ⟨h, legal⟩
  | function declaration =>
      refine functionHere h signs legal fun value after h known => ?_
      exact define h known fun _ h => ⟨h, trivial⟩
  | «return» keyword value =>
      cases value with
      | none => exact ⟨h, trivial, legal, fun _ => rfl⟩
      | some value =>
          obtain ⟨inside, notInitializer, legal⟩ := legal
          refine .bind (evaluate h signs legal fun value after h known => ?_)
          exact ⟨h, known, inside, fun initializer => absurd initializer notInitializer⟩
  | «class» definition => exact .bind (ofClass definition h signs legal fun _ h => ⟨h, trivial⟩)

/-- By cases over the statements. The first that does not end normally ends them all. -/
theorem ofStmts (stmts : List Stmt) (h : machine.Legal) (signs : Stmts.Grammatical stmts)
    (legal : Stmts.Legal stmts context)
    : Controls context moment budget (Plan.ofStmts stmts) machine fun flow after =>
        after.Legal ∧ context.Permits flow := by
  cases stmts with
  | nil => exact ⟨h, trivial⟩
  | cons first rest =>
      refine .bind (hand h context signs.1 legal.1 fun flow after h permitted => ?_)
      cases flow with
      | normal => exact hand h context signs.2 legal.2 fun _ _ h permitted => ⟨h, permitted⟩
      | «break» => exact ⟨h, permitted⟩
      | «return» value => exact ⟨h, permitted⟩

/-- A loop ends normally when its body ends with a `break`. -/
theorem ofLoop (condition : Expr) (body : Stmt) (h : machine.Legal)
    (guardSigns : condition.Grammatical) (signs : body.Grammatical)
    (guard : condition.Legal context.looping) (legal : body.Legal context.looping)
    : Controls context moment budget (Plan.ofLoop condition body) machine fun flow after =>
        after.Legal ∧ context.Permits flow ∧ flow ≠ .break := by
  refine .bind (evaluate h guardSigns guard fun value after h _ => ?_)
  split
  · refine .bind (hand h context.looping signs legal fun flow last h permitted => ?_)
    cases flow with
    | normal =>
        exact hand h context ⟨guardSigns, signs⟩ ⟨guard, legal⟩ fun _ _ h ended => ⟨h, ended⟩
    | «break» => exact ⟨h, trivial, nofun⟩
    | «return» value => exact ⟨h, permitted, nofun⟩
  · exact ⟨h, trivial, nofun⟩

end Controls

-----------------------------------------------------------------------------------------
-- Soundness
-----------------------------------------------------------------------------------------

/-- Every plan keeps the contract of control flow, so it holds in all runs. -/
theorem controlContract_sound : controlContract.Sound where
  keeps := by
    intro context moment budget _ ⟨⟨h, signs⟩, legal⟩
    obtain ⟨distances, _, task, machine⟩ := moment
    cases task with
    | evaluate expr => exact Controls.ofExpr expr h signs legal
    | evaluateAll exprs => exact Controls.ofExprs exprs h signs legal
    | call callee closing arguments =>
        exact Controls.ofCall callee closing arguments h legal.1 legal.2
    | invoke closure arguments => exact Controls.ofInvocation closure arguments h legal.1 legal.2
    | construct definition arguments =>
        exact Controls.ofConstruction definition arguments h legal.1 legal.2
    | execute stmt => exact Controls.ofStmt stmt h signs legal
    | executeAll stmts => exact Controls.ofStmts stmts h signs legal
    | loop condition body =>
        exact Controls.ofLoop condition body h signs.1 signs.2 legal.1 legal.2
  exhausted := by
    intro context moment _ before
    exact ⟨before.1.1, trivial⟩

end Lox
