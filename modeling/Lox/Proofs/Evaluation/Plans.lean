import Lox.Evaluation

/-! What plans are made of. The steps that a plan takes by itself are a few primitive ones. Only the
plan of a print statement prints, only that of a construction makes an instance, only that of an
assignment to a field gives one a value, and only the plan of a call hands tasks on one call deeper.
-/

namespace Lox

-----------------------------------------------------------------------------------------
-- Primitive steps
-----------------------------------------------------------------------------------------

/-- What a plan may do by itself besides looking up, binding and counting. -/
inductive Effect where
  | none
  | print
  /-- An instance is made. -/
  | make
  /-- A field of an instance is given a value. -/
  | assign

/-- A step that plans with an effect are made of. -/
inductive Step.Primitive (effect : Effect) : {α : Type} → Step α → Prop
  | fault {α : Type} {token : Token} {cause : FaultCause}
    : Primitive effect (Step.fault token cause : Step α)
  | getHere {address : Nat} {token : Token} : Primitive effect (Step.getHere address token)
  | receiver {method : Closure} : Primitive effect (Step.receiver method)
  | setSlot {address : Nat} {name : String} {value : Value}
    : Primitive effect (Step.setSlot address name value)
  | define {name : String} {value : Value} : Primitive effect (Step.define name value)
  | overwrite {name : Token} {value : Value} : Primitive effect (Step.overwrite name value)
  | setField {address : Nat} {name : String} {value : Value} (may : effect = .assign)
    : Primitive effect (Step.setField address name value)
  | freshIdentity : Primitive effect Step.freshIdentity
  | functionOf {closure : Closure} : Primitive effect (Step.functionOf closure)
  | functionHere {declaration : FunctionDecl} : Primitive effect (Step.functionHere declaration)
  | newInstance {definition : Class} (may : effect = .make)
    : Primitive effect (Step.newInstance definition)
  | unary {operator : Token} {operand : Value} : Primitive effect (Step.unary operator operand)
  | binary {operator : Token} {left right : Value}
    : Primitive effect (Step.binary operator left right)
  | checkCall {closing : Token} {arity given : Nat}
    : Primitive effect (Plan.checkCall closing arity given)
  | callNative {callee : Native} {arguments : List Value}
    : Primitive effect (Step.deeper (Step.callNative callee arguments))
  | print {value : Value} (may : effect = .print) : Primitive effect (Step.print value)

/-- One call deeper. -/
def Manner.isDeeper : Manner → Bool
  | deeper => true
  | plain | within _ => false

namespace Task

/-- A task is the call of a value. -/
def isCall : Task → Bool
  | .call _ _ _ => true
  | .evaluate _ | .evaluateAll _ | .invoke _ _ | .construct _ _ | .execute _ | .executeAll _
  | .loop _ _ => false

/-- The effect of a task. -/
def effect : Task → Effect
  | .execute (.print _ _) => .print
  | .construct _ _ => .make
  | .evaluate (.set _ _ _) => .assign
  | _ => .none

/-- Only print statements print. -/
theorem exists_print {task : Task} (h : task.effect = .print)
    : ∃ keyword value, task = .execute (.print keyword value) := by
  unfold effect at h
  split at h
  · exact ⟨_, _, rfl⟩
  · cases h
  · cases h
  · cases h

end Task

-----------------------------------------------------------------------------------------
-- Plans of primitive steps
-----------------------------------------------------------------------------------------

namespace Plan

variable {α β : Type} {effect : Effect} {isCall : Bool}

/-- A plan is made of primitive steps, besides looks at the environment and the instances. It hands
its tasks on one call deeper if it is the plan of a call, and none if it is not.
-/
inductive Made (effect : Effect) (isCall : Bool) {α : Type} : Plan α → Prop
  | done (value : α) : Made effect isCall (.done value)
  | step {β : Type} {first : Step β} {next : β → Plan α} (primitive : first.Primitive effect)
    (rest : ∀ value, Made effect isCall (next value))
    : Made effect isCall (.step first next)
  | look {next : Machine → Plan α}
    (same
      : ∀ machine other : Machine,
          machine.environment = other.environment
          → machine.instances = other.instances
          → next machine = next other)
    (rest : ∀ machine, Made effect isCall (next machine))
    : Made effect isCall (.step MonadState.get next)
  | act {action : Action} {next : action.Result → Plan α}
    (rest : ∀ value, Made effect isCall (next value))
    : Made effect isCall (.act action next)
  | hand {manner : Manner} {task : Task} {next : task.Result → Plan α}
    (deeper : manner.isDeeper = isCall) (rest : ∀ value, Made effect isCall (next value))
    : Made effect isCall (.hand manner task next)

namespace Made

/-- By induction over the first plan. -/
theorem bind {first : Plan α} {next : α → Plan β} (h : first.Made effect isCall)
    (rest : ∀ value, (next value).Made effect isCall)
    : (first >>= next).Made effect isCall := by
  induction h with
  | done value => exact rest value
  | step primitive _ ih => exact .step primitive ih
  | look same _ ih =>
      refine .look (fun machine other environment instances => ?_) ih
      exact congrArg (Plan.bind · next) (same machine other environment instances)
  | act _ ih => exact .act ih
  | hand deeper _ ih => exact .hand deeper ih

theorem last {last : Step α} (h : last.Primitive effect)
    : (Plan.step last .done).Made effect isCall :=
  .step h .done

theorem get {next : Machine → Plan α}
    (same
      : ∀ machine other : Machine,
          machine.environment = other.environment
          → machine.instances = other.instances
          → next machine = next other)
    (rest : ∀ machine, (next machine).Made effect isCall)
    : (Plan.step MonadState.get .done >>= next).Made effect isCall :=
  .look same rest

theorem doing (action : Action) : (Plan.doing action).Made effect isCall := .act .done

theorem evaluate (expr : Expr) : (Plan.evaluate expr).Made effect false := .hand rfl .done

theorem asking (task : Task) : (Plan.asking task).Made effect false := .hand rfl .done

theorem within (environment : Environment) (task : Task)
    : (Plan.askingIn (.within environment) task).Made effect false :=
  .hand rfl .done

theorem deeper (task : Task) : (Plan.askingIn .deeper task).Made effect true := .hand rfl .done

end Made

-----------------------------------------------------------------------------------------
-- The plans of tasks
-----------------------------------------------------------------------------------------

theorem made_read (use : Use) (occurrence : Occurrence)
    : (read use occurrence).Made effect isCall :=
  .bind (.doing _) fun _ => .last .getHere

theorem made_write (occurrence : Occurrence) (value : Value)
    : (write occurrence value).Made effect isCall :=
  .bind (.doing _) fun _ => .last .setSlot

theorem made_bindMethod (method : Closure) (receiver : Value)
    : (bindMethod method receiver).Made effect isCall :=
  .bind (.doing _) fun _ => .done _

theorem made_foundMethod (found : Option Closure) (receiver : Value) (name : Token)
    : (foundMethod found receiver name).Made effect isCall := by
  cases found with
  | some method => exact .bind (made_bindMethod method receiver) fun _ => .last .functionOf
  | none => exact .last .fault

theorem made_property (object : Value) (name : Token)
    : (property object name).Made effect isCall := by
  cases object with
  | «instance» address =>
      refine .get (fun machine other _ instances => ?_) fun machine => ?_
      · rw [instances]
      · split
        · split
          · exact .done _
          · exact made_foundMethod _ _ _
        · exact .last .fault
  | «class» definition => exact made_foundMethod _ _ _
  | nil | bool _ | number _ | string _ | native _ | function _ => exact .last .fault

theorem made_superMethod (occurrence : Occurrence) (method : Token)
    : (superMethod occurrence method).Made effect isCall := by
  refine .bind (made_read .super occurrence) fun value => ?_
  split
  · exact .bind (.doing _) fun _ => .bind (.last .getHere) fun _ => made_foundMethod _ _ _
  · exact .last .fault

/-- By the forms of expressions. -/
theorem made_ofExpr (expr : Expr) : (ofExpr expr).Made (Task.evaluate expr).effect false := by
  cases expr with
  | literal value => exact .done _
  | grouping inner => exact .evaluate inner
  | unary operator operand => exact .bind (.evaluate operand) fun _ => .last .unary
  | binary operator left right =>
      exact .bind (.evaluate left) fun _ => .bind (.evaluate right) fun _ => .last .binary
  | logical operator left right =>
      refine .bind (.evaluate left) fun value => ?_
      split
      · exact .done _
      · exact .evaluate right
  | conditional condition positive negative =>
      refine .bind (.evaluate condition) fun value => ?_
      split
      · exact .evaluate positive
      · exact .evaluate negative
  | «variable» occurrence => exact made_read .variable occurrence
  | assign target value =>
      exact .bind (.evaluate value) fun value => .bind (made_write target value) fun _ => .done _
  | call callee closing arguments =>
      exact .bind (.evaluate callee) fun _ => .bind (.asking _) fun _ => .asking _
  | get object name => exact .bind (.evaluate object) fun value => made_property value name
  | set object name value =>
      refine .bind (.evaluate object) fun target => ?_
      split
      · exact .bind (.evaluate value) fun _ => .bind (.last (.setField rfl)) fun _ => .done _
      · exact .last .fault
  | this occurrence => exact made_read .this occurrence
  | super occurrence method => exact made_superMethod occurrence method
  | lambda declaration => exact .last .functionHere

theorem made_ofExprs (exprs : List Expr) : (ofExprs exprs).Made effect false := by
  cases exprs with
  | nil => exact .done _
  | cons first rest => exact .bind (.evaluate first) fun _ => .bind (.asking _) fun _ => .done _

/-- Only a call goes deeper, when it has been found to be possible. -/
theorem made_ofCall (callee : Value) (closing : Token) (arguments : List Value)
    : (ofCall callee closing arguments).Made effect true := by
  cases callee with
  | native callee => exact .bind (.last .checkCall) fun _ => .last .callNative
  | function callee => exact .bind (.last .checkCall) fun _ => .deeper _
  | «class» definition => exact .bind (.last .checkCall) fun _ => .deeper _
  | nil | bool _ | number _ | string _ | «instance» _ => exact .last .fault

theorem made_ofInvocation (closure : Closure) (arguments : List Value)
    : (ofInvocation closure arguments).Made effect false := by
  refine .bind (.doing _) fun environment => .bind (.within _ _) fun flow => ?_
  split
  · exact .last .receiver
  · split <;> exact .done _

/-- What follows in a construction when the instance has been made. -/
def initialization (definition : Class) (arguments : List Value) (object : Value) : Plan Value :=
  match definition.initializer? with
  | none => return object
  | some initializer => do
    let bound ← bindMethod initializer object
    let _ ← asking (.invoke bound arguments)
    return object

theorem ofConstruction_eq (definition : Class) (arguments : List Value)
    : ofConstruction definition arguments
      = .step (Step.newInstance definition) (initialization definition arguments) := rfl

/-- An initializer makes its instances in tasks of their own. -/
theorem made_initialization (definition : Class) (arguments : List Value) (object : Value)
    : (initialization definition arguments object).Made effect false := by
  unfold initialization
  split
  · exact .done _
  · exact .bind (made_bindMethod _ object) fun _ => .bind (.asking _) fun _ => .done _

theorem made_ofConstruction (definition : Class) (arguments : List Value)
    : (ofConstruction definition arguments).Made .make false := by
  rw [ofConstruction_eq]
  exact .step (.newInstance rfl) (made_initialization definition arguments)

theorem made_superclassOf (clause : Option Occurrence)
    : (superclassOf clause).Made effect isCall := by
  cases clause with
  | none => exact .done _
  | some occurrence =>
      refine .bind (made_read .variable occurrence) fun value => ?_
      split
      · exact .done _
      · exact .last .fault

theorem made_methodEnvironment (definition : ClassDecl) (superclass : Option Class)
    : (methodEnvironment definition superclass).Made effect isCall := by
  refine .get (fun machine other environment _ => ?_) fun machine => ?_
  · rw [environment]
  · split
    · exact .done _
    · exact .doing _

theorem made_ofClass (definition : ClassDecl) : (ofClass definition).Made effect isCall :=
  .bind (made_superclassOf definition.superclass) fun superclass =>
    .bind (.last .define) fun _ =>
      .bind (made_methodEnvironment definition superclass) fun _ =>
        .bind (.last .freshIdentity) fun _ => .last .overwrite

/-- By the forms of statements. -/
theorem made_ofStmt (stmt : Stmt) : (ofStmt stmt).Made (Task.execute stmt).effect false := by
  cases stmt with
  | expression value => exact .bind (.evaluate value) fun _ => .done _
  | print keyword value =>
      refine .bind (.evaluate value) fun value => .bind (.last (.print rfl)) fun _ => ?_
      split
      · exact .done _
      · exact .last .fault
  | var name initializer =>
      cases initializer with
      | none => exact .bind (.last .define) fun _ => .done _
      | some initializer =>
          exact .bind (.evaluate initializer) fun _ => .bind (.last .define) fun _ => .done _
  | block body =>
      refine .get (fun machine other environment _ => ?_) fun machine => ?_
      · rw [environment]
      · exact .bind (.doing _) fun _ => .within _ _
  | «if» condition positive negative =>
      refine .bind (.evaluate condition) fun value => ?_
      split
      · exact .asking _
      · cases negative with
        | none => exact .done _
        | some negative => exact .asking _
  | «while» condition body => exact .asking _
  | «break» keyword => exact .done _
  | function declaration =>
      exact .bind (.last .functionHere) fun _ => .bind (.last .define) fun _ => .done _
  | «return» keyword value =>
      cases value with
      | none => exact .done _
      | some value => exact .bind (.evaluate value) fun _ => .done _
  | «class» definition => exact .bind (made_ofClass definition) fun _ => .done _

theorem made_ofStmts (stmts : List Stmt) : (ofStmts stmts).Made effect false := by
  cases stmts with
  | nil => exact .done _
  | cons first rest =>
      refine .bind (.asking _) fun flow => ?_
      split
      · exact .asking _
      · exact .done _

theorem made_ofLoop (condition : Expr) (body : Stmt)
    : (ofLoop condition body).Made effect false := by
  refine .bind (.evaluate condition) fun holds => ?_
  split
  · refine .bind (.asking _) fun flow => ?_
    split
    · exact .asking _
    · exact .done _
    · exact .done _
  · exact .done _

end Plan

/-- What the plan of a task is made of. -/
theorem Task.plan_made (task : Task) : task.plan.Made task.effect task.isCall := by
  cases task with
  | evaluate expr => exact Plan.made_ofExpr expr
  | evaluateAll exprs => exact Plan.made_ofExprs exprs
  | call callee closing arguments => exact Plan.made_ofCall callee closing arguments
  | invoke closure arguments => exact Plan.made_ofInvocation closure arguments
  | construct definition arguments => exact Plan.made_ofConstruction definition arguments
  | execute stmt => exact Plan.made_ofStmt stmt
  | executeAll stmts => exact Plan.made_ofStmts stmts
  | loop condition body => exact Plan.made_ofLoop condition body

end Lox
