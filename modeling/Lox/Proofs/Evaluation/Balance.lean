import Lox.Proofs.Evaluation.Moments
import Lox.Proofs.Evaluation.Plans

/-! What evaluation leaves as it was, however it ends. Every step, every task and every run is back
in the environment and at the depth of calls in which it began, it tells of nothing but divisions by
zero, and writing can fail in the same ways as before.
-/

namespace Lox

-----------------------------------------------------------------------------------------
-- Machines that go on
-----------------------------------------------------------------------------------------

/-- A machine is in the same environment as another and at the same depth of calls. -/
structure Machine.Balanced (machine after : Machine) : Prop where
  environment : after.environment = machine.environment
  callDepth : after.callDepth = machine.callDepth
  maxDepth : after.maxDepth = machine.maxDepth

/-- What is told about a division by zero. -/
def Diagnostic.OfDivision (diagnostic : Diagnostic) : Prop :=
  ∃ operator, diagnostic = .atToken .running operator "Division by zero; result is 0."

/-- A machine has told diagnostics since another one. -/
def Machine.Tells (machine : Machine) (diagnostics : List Diagnostic) (after : Machine) : Prop :=
  ∃ reports : List Report,
    after.reports.toList = machine.reports.toList ++ reports
    ∧ reports.map Report.diagnostic = diagnostics

/-- Writing to a sink can fail in the same ways as writing to another one. -/
structure Sink.Akin (sink other : Sink) : Prop where
  capacity : other.capacity = sink.capacity
  flushes : other.flushes = sink.flushes

/-- A machine has gone on to another one without telling of anything but divisions by zero. -/
structure Machine.Proceeds (machine after : Machine) : Prop where
  balanced : machine.Balanced after
  sink : machine.sink.Akin after.sink
  tells
    : ∃ diagnostics,
        machine.Tells diagnostics after ∧ ∀ diagnostic ∈ diagnostics, diagnostic.OfDivision

theorem Sink.Akin.trans {first second third : Sink} (h : first.Akin second)
    (next : second.Akin third)
    : first.Akin third :=
  ⟨next.capacity.trans h.capacity, next.flushes.trans h.flushes⟩

namespace Machine

variable {first second third : Machine}

theorem Balanced.refl (machine : Machine) : machine.Balanced machine := ⟨rfl, rfl, rfl⟩

theorem Balanced.trans (h : first.Balanced second) (next : second.Balanced third)
    : first.Balanced third :=
  ⟨next.environment.trans h.environment, next.callDepth.trans h.callDepth,
    next.maxDepth.trans h.maxDepth⟩

/-- Nothing is told if there are no further reports. -/
theorem Tells.of_eq (same : second.reports = first.reports) : first.Tells [] second :=
  ⟨[], by simp [same], rfl⟩

theorem Tells.trans {told more : List Diagnostic} (h : first.Tells told second)
    (next : second.Tells more third)
    : first.Tells (told ++ more) third := by
  obtain ⟨reports, grown, rfl⟩ := h
  obtain ⟨others, further, rfl⟩ := next
  exact ⟨reports ++ others, by rw [further, grown, List.append_assoc], List.map_append⟩

theorem Proceeds.of_eq (environment : second.environment = first.environment)
    (callDepth : second.callDepth = first.callDepth) (maxDepth : second.maxDepth = first.maxDepth)
    (sink : first.sink.Akin second.sink) (reports : second.reports = first.reports)
    : first.Proceeds second :=
  ⟨⟨environment, callDepth, maxDepth⟩, sink, [], .of_eq reports, List.forall_mem_nil _⟩

theorem Proceeds.refl (machine : Machine) : machine.Proceeds machine :=
  .of_eq rfl rfl rfl ⟨rfl, rfl⟩ rfl

theorem Proceeds.trans (h : first.Proceeds second) (next : second.Proceeds third)
    : first.Proceeds third := by
  obtain ⟨balanced, sink, told, tells, divisions⟩ := h
  obtain ⟨further, sinkFurther, more, tellsMore, others⟩ := next
  exact ⟨balanced.trans further, sink.trans sinkFurther, told ++ more, tells.trans tellsMore,
    List.forall_mem_append.2 ⟨divisions, others⟩⟩

end Machine

-----------------------------------------------------------------------------------------
-- Steps that go on
-----------------------------------------------------------------------------------------

namespace Step

variable {α β : Type}

/-- A step goes on from each machine, whatever its ending. -/
def Proceeds (step : Step α) : Prop :=
  ∀ machine : Machine, machine.Proceeds (Ending.machine (step machine))

namespace Proceeds

theorem pure (value : α) : Proceeds (Pure.pure value) := Machine.Proceeds.refl

theorem get : Proceeds MonadState.get := Machine.Proceeds.refl

theorem fault (token : Token) (cause : FaultCause) : Proceeds (Step.fault token cause : Step α) :=
  Machine.Proceeds.refl

/-- Nothing comes after a fault. -/
theorem faultBind (token : Token) (cause : FaultCause) (next : α → Step β)
    : Proceeds (Step.fault token cause >>= next) :=
  Machine.Proceeds.refl

theorem bind {step : Step α} {next : α → Step β} (h : step.Proceeds)
    (rest : ∀ value, (next value).Proceeds)
    : Proceeds (step >>= next) := by
  intro machine
  have first := h machine
  simp only [Bind.bind, EStateM.bind]
  cases ran : step machine with
  | error interruption after =>
      rw [ran] at first
      exact first
  | ok value after =>
      rw [ran] at first
      exact first.trans (rest value after)

theorem lookup (token : Token) (find : Machine → Except LookupError α)
    : Proceeds (Step.lookup token find) := by
  intro machine
  unfold Step.lookup
  cases find machine <;> exact .refl machine

/-- Around a step in other surroundings, it goes on if the step does inside them. -/
theorem around {step : Step α} (h : step.Proceeds) (manner : Manner)
    : Proceeds (manner.around step) := by
  intro machine
  have inside := h (manner.before machine)
  rw [manner.around_eq]
  cases ran : step (manner.before machine) with
  | ok value left | error interruption left =>
      rw [ran] at inside
      obtain ⟨⟨environment, callDepth, maxDepth⟩, sink, tells⟩ := inside
      cases manner with
      | plain => exact ⟨⟨environment, callDepth, maxDepth⟩, sink, tells⟩
      | within other => exact ⟨⟨rfl, callDepth, maxDepth⟩, sink, tells⟩
      | deeper => exact ⟨⟨environment, congrArg Nat.pred callDepth, maxDepth⟩, sink, tells⟩

end Proceeds

/-- A division by zero is told of. -/
theorem proceeds_divide (operator : Token) (a b : Float) : Proceeds (divide operator a b) := by
  have tells : Proceeds (report (.atToken .running operator "Division by zero; result is 0.")) := by
    intro machine
    refine ⟨⟨rfl, rfl, rfl⟩, ⟨rfl, rfl⟩, [_], ⟨[_], Array.toList_push, rfl⟩, ?_⟩
    exact List.forall_mem_singleton.2 ⟨operator, rfl⟩
  unfold divide
  split
  · exact .bind tells fun _ => .pure _
  · exact .pure _

theorem proceeds_unary (operator : Token) (operand : Value)
    : Proceeds (unary operator operand) := by
  unfold unary
  split
  all_goals first | exact .pure _ | exact .fault _ _

theorem proceeds_arithmetic (operator : Token) (a b : Float)
    : Proceeds (arithmetic operator a b) := by
  unfold arithmetic
  split
  case h_4 => exact proceeds_divide operator a b
  all_goals first | exact .pure _ | exact .fault _ _

theorem proceeds_binary (operator : Token) (left right : Value)
    : Proceeds (binary operator left right) := by
  unfold binary
  split
  case h_4 => exact proceeds_arithmetic operator _ _
  all_goals first | exact .pure _ | exact .fault _ _

theorem proceeds_print (value : Value) : Proceeds (print value) :=
  .bind Machine.Proceeds.refl fun _ _ => .of_eq rfl rfl rfl ⟨rfl, rfl⟩ rfl

theorem proceeds_callNative (callee : Native) (arguments : List Value)
    : Proceeds (callNative callee arguments) := by
  cases callee with
  | clock => exact fun _ => .of_eq rfl rfl rfl ⟨rfl, rfl⟩ rfl
  | str =>
      cases arguments with
      | nil => exact .pure _
      | cons first rest => exact .bind Machine.Proceeds.refl fun _ => .pure _

theorem proceeds_checkCall (closing : Token) (arity given : Nat)
    : Proceeds (Plan.checkCall closing arity given) := by
  unfold Plan.checkCall
  split
  · exact .faultBind _ _ _
  · refine .bind .get fun machine => ?_
    split
    · exact .fault _ _
    · exact .pure _

theorem proceeds_functionOf (closure : Closure) : Proceeds (functionOf closure) :=
  .bind (fun _ => .of_eq rfl rfl rfl ⟨rfl, rfl⟩ rfl) fun _ => .pure _

theorem proceeds_functionHere (declaration : FunctionDecl) : Proceeds (functionHere declaration) :=
  .bind .get fun _ => proceeds_functionOf _

theorem proceeds_setSlot (address : Nat) (name : String) (value : Value)
    : Proceeds (setSlot address name value) :=
  fun _ => .of_eq rfl rfl rfl ⟨rfl, rfl⟩ rfl

theorem proceeds_define (name : String) (value : Value) : Proceeds (define name value) :=
  fun _ => .of_eq rfl rfl rfl ⟨rfl, rfl⟩ rfl

theorem proceeds_overwrite (name : Token) (value : Value) : Proceeds (overwrite name value) :=
  .bind (.lookup _ _) fun _ => proceeds_setSlot _ _ _

/-- Every step that plans are made of goes on. -/
theorem Primitive.proceeds {effect : Effect} {step : Step α} (h : step.Primitive effect)
    : step.Proceeds := by
  cases h with
  | fault => exact .fault _ _
  | getHere | receiver => exact .lookup _ _
  | setSlot => exact proceeds_setSlot _ _ _
  | define => exact proceeds_define _ _
  | overwrite => exact proceeds_overwrite _ _
  | setField | freshIdentity | newInstance => exact fun _ => .of_eq rfl rfl rfl ⟨rfl, rfl⟩ rfl
  | functionOf => exact proceeds_functionOf _
  | functionHere => exact proceeds_functionHere _
  | unary => exact proceeds_unary _ _
  | binary => exact proceeds_binary _ _ _
  | checkCall => exact proceeds_checkCall _ _ _
  | callNative => exact (proceeds_callNative _ _).around .deeper
  | print => exact proceeds_print _

end Step

-----------------------------------------------------------------------------------------
-- Runs that go on
-----------------------------------------------------------------------------------------

theorem Action.proceeds (access : Access) (action : Action) : (action.perform access).Proceeds := by
  cases action with
  | locate use occurrence => exact .lookup _ _
  | locateReceiver occurrence => exact .lookup _ _
  | enter layer outer bindings => exact fun _ => .of_eq rfl rfl rfl ⟨rfl, rfl⟩ rfl

/-- The run of a plan goes on if the tasks in it do, by induction over the plan. -/
theorem Plan.Made.run_proceeds {α : Type} {plan : Plan α} {effect : Effect} {isCall : Bool}
    (h : plan.Made effect isCall) (access : Access) {perform : (task : Task) → Step task.Result}
    (tasks : ∀ task, (perform task).Proceeds)
    : (plan.run access perform).Proceeds := by
  induction h with
  | done value => exact .pure value
  | step primitive _ ih => exact .bind primitive.proceeds ih
  | look _ _ ih => exact .bind .get ih
  | act _ ih => exact .bind (Action.proceeds access _) ih
  | hand _ _ ih => exact .bind ((tasks _).around _) ih

/-- Every task goes on, whatever its budget and its ending. By induction over the budget. -/
theorem Task.perform_proceeds (access : Access) (budget : Nat) (task : Task)
    : (task.perform access budget).Proceeds := by
  induction budget generalizing task with
  | zero => exact Machine.Proceeds.refl
  | succ budget ih => exact task.plan_made.run_proceeds access ih

theorem Moment.ending_proceeds (moment : Moment) : moment.machine.Proceeds moment.ending.machine :=
  moment.task.perform_proceeds (.byDistance moment.distances) moment.budget moment.machine

-----------------------------------------------------------------------------------------
-- Within a run
-----------------------------------------------------------------------------------------

namespace Plan

variable {α : Type}

/-- The run of a plan on a machine comes to the rest of the plan on another machine. -/
inductive Arrives (distances : Distances) (budget : Nat)
    : Plan α → Machine → Plan α → Machine → Prop
  | here {plan : Plan α} {machine} : Arrives distances budget plan machine plan machine
  | step {β : Type} {first : Step β} {next : β → Plan α} {machine value after rest state}
    (done : first machine = .ok value after)
    (later : Arrives distances budget (next value) after rest state)
    : Arrives distances budget (.step first next) machine rest state
  | act {action : Action} {next : action.Result → Plan α} {machine value after rest state}
    (done : action.perform (.byDistance distances) machine = .ok value after)
    (later : Arrives distances budget (next value) after rest state)
    : Arrives distances budget (.act action next) machine rest state
  | hand {manner : Manner} {task : Task} {next : task.Result → Plan α}
    {machine value left rest state}
    (done : Moment.ending ⟨distances, budget, task, manner.before machine⟩ = .ok value left)
    (later : Arrives distances budget (next value) (manner.after machine left) rest state)
    : Arrives distances budget (.hand manner task next) machine rest state

variable {distances : Distances} {budget : Nat} {plan rest : Plan α} {machine state : Machine}

/-- Whatever a plan does by itself goes on, and what follows is made in the same way. -/
theorem Made.first_proceeds {β : Type} {effect : Effect} {isCall : Bool} {first : Step β} {next : β → Plan α}
    (h : (Plan.step first next).Made effect isCall)
    : first.Proceeds ∧ ∀ value, (next value).Made effect isCall := by
  cases h with
  | step primitive rest => exact ⟨primitive.proceeds, rest⟩
  | look _ rest => exact ⟨.get, rest⟩

/-- A run that arrives somewhere has gone on until then. By induction over its parts. -/
theorem Arrives.proceeds {effect : Effect} {isCall : Bool}
    (h : plan.Arrives distances budget machine rest state) (made : plan.Made effect isCall)
    : rest.Made effect isCall ∧ machine.Proceeds state := by
  induction h with
  | here => exact ⟨made, .refl _⟩
  | @step _ first _ machine _ _ _ _ done _ ih =>
      obtain ⟨goesOn, later⟩ := made.first_proceeds
      have first := goesOn machine
      rw [done] at first
      exact (ih (later _)).imp_right first.trans
  | @act action _ machine _ _ _ _ done _ ih =>
      cases made with
      | act later =>
          have first := action.proceeds (.byDistance distances) machine
          rw [done] at first
          exact (ih (later _)).imp_right first.trans
  | @hand manner task _ machine value left _ _ done _ ih =>
      cases made with
      | hand _ later =>
          have first := (task.perform_proceeds (.byDistance distances) budget).around manner machine
          have ended : Task.perform (.byDistance distances) budget task (manner.before machine)
              = .ok value left := done
          rw [manner.around_eq, ended] at first
          exact (ih (later _)).imp_right first.trans

/-- A task that a run hands on is the next part of the plan somewhere. By induction over the parts
before it.
-/
theorem Passes.arrives {next : Moment} (h : plan.Passes distances budget machine (.handing next))
    : ∃ manner task more state,
        plan.Arrives distances budget machine (.hand manner task more) state
        ∧ next = ⟨distances, budget, task, manner.before state⟩ := by
  generalize asked : Event.handing next = event at h
  induction h with
  | acting => cases asked
  | handing =>
      cases asked
      exact ⟨_, _, _, _, .here, rfl⟩
  | step done _ ih =>
      obtain ⟨manner, task, more, state, arrives, same⟩ := ih asked
      exact ⟨manner, task, more, state, .step done arrives, same⟩
  | act done _ ih =>
      obtain ⟨manner, task, more, state, arrives, same⟩ := ih asked
      exact ⟨manner, task, more, state, .act done arrives, same⟩
  | hand done _ ih =>
      obtain ⟨manner, task, more, state, arrives, same⟩ := ih asked
      exact ⟨manner, task, more, state, .hand done arrives, same⟩

end Plan

/-- A machine that the run of the plan for a moment is on, between two of its parts. -/
def Moment.Visits (moment : Moment) (state : Machine) : Prop :=
  ∃ budget rest,
    moment.budget = budget + 1
    ∧ moment.task.plan.Arrives moment.distances budget moment.machine rest state

/-- A moment goes on as long as its plan runs. -/
theorem Moment.Visits.proceeds {moment : Moment} {state : Machine} (h : moment.Visits state)
    : moment.machine.Proceeds state := by
  obtain ⟨budget, rest, _, arrives⟩ := h
  exact (arrives.proceeds moment.task.plan_made).2

/-- A moment leads to another from a machine that it visits, and deeper just if it is a call. -/
theorem Moment.Leads.exists_visit {moment next : Moment} (h : moment.Leads next)
    : ∃ (manner : Manner) (state : Machine),
        moment.Visits state
        ∧ next.machine = manner.before state
        ∧ manner.isDeeper = moment.task.isCall := by
  obtain ⟨budget, same, passes⟩ := h
  obtain ⟨manner, task, more, state, arrives, rfl⟩ := passes.arrives
  cases (arrives.proceeds moment.task.plan_made).1 with
  | hand deeper _ => exact ⟨manner, state, ⟨budget, _, same, arrives⟩, rfl, deeper⟩

end Lox
