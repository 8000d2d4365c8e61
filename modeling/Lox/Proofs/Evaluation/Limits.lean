import Lox.Proofs.Evaluation.Moments
import Lox.Proofs.Evaluation.Plans

/-! The limit of the depth of calls. It is compared with the depth where a call begins and has no
other part in an evaluation. So a higher limit changes nothing in a run that the lower one does not
stop, and a run that it does stop is the first part of the run with the higher one.
-/

namespace Lox

universe u

-----------------------------------------------------------------------------------------
-- Machines with another limit
-----------------------------------------------------------------------------------------

/-- The machine with another limit. -/
def Machine.limited (limit : Nat) (machine : Machine) : Machine :=
  { machine with maxDepth := limit }

/-- The ending with another limit. -/
def Ending.limited {α : Type} (limit : Nat) : Ending α → Ending α
  | .ok value after => .ok value (after.limited limit)
  | .error interruption after => .error interruption (after.limited limit)

/-- A machine has written and told what another one has, and maybe more after that. -/
structure Machine.Extends (machine after : Machine) : Prop where
  written : ∃ bytes, after.sink.written = machine.sink.written ++ bytes
  told : machine.reports.toList <+: after.reports.toList

namespace Machine

variable {first second third : Machine}

theorem Extends.of_eq (sink : second.sink = first.sink) (reports : second.reports = first.reports)
    : first.Extends second :=
  ⟨⟨ByteArray.empty, by rw [sink, ByteArray.append_empty]⟩, by simp [reports]⟩

theorem Extends.refl (machine : Machine) : machine.Extends machine := .of_eq rfl rfl

theorem Extends.trans (h : first.Extends second) (next : second.Extends third)
    : first.Extends third := by
  rcases h.written with ⟨bytes, written⟩
  rcases next.written with ⟨more, further⟩
  refine ⟨⟨bytes ++ more, ?_⟩, h.told.trans next.told⟩
  rw [further, written, ByteArray.append_assoc]

theorem extends_limited (machine : Machine) (limit : Nat)
    : machine.Extends (machine.limited limit) :=
  .of_eq rfl rfl

theorem limited_maxDepth (machine : Machine) : machine.limited machine.maxDepth = machine := rfl

end Machine

-----------------------------------------------------------------------------------------
-- Steps that do not look at the limit
-----------------------------------------------------------------------------------------

namespace Step

variable {α β : Type}

/-- A step and those after it are a run in two parts. -/
theorem bind_eq (step : Step α) (next : α → Step β) (machine : Machine)
    : (step >>= next) machine = Ending.andThen (step machine) next := by
  simp only [Bind.bind, EStateM.bind]
  cases step machine <;> rfl

/-- What has been written and told is kept if the steps that follow keep it. -/
theorem extends_andThen (ending : Ending α) {next : α → Step β}
    (rest : ∀ value (machine : Machine), machine.Extends (Ending.machine (next value machine)))
    : ending.machine.Extends (ending.andThen next).machine := by
  cases ending with
  | ok value after => exact rest value after
  | error interruption after => exact .refl after

/-- What a step has written and told is kept, and the limit has no part in it. -/
structure Overlooks (step : Step α) : Prop where
  keeps : ∀ machine : Machine, machine.Extends (Ending.machine (step machine))
  limited
    : ∀ (machine : Machine) limit,
        step (machine.limited limit) = Ending.limited limit (step machine)

namespace Overlooks

/-- A step without output and reports. -/
theorem of_eq {step : Step α}
    (sink : ∀ machine, (Ending.machine (step machine)).sink = machine.sink)
    (reports : ∀ machine, (Ending.machine (step machine)).reports = machine.reports)
    (limited
      : ∀ (machine : Machine) limit,
          step (machine.limited limit) = Ending.limited limit (step machine))
    : step.Overlooks :=
  ⟨fun machine => .of_eq (sink machine) (reports machine), limited⟩

theorem pure (value : α) : Overlooks (Pure.pure value) :=
  .of_eq (fun _ => rfl) (fun _ => rfl) fun _ _ => rfl

theorem fault (token : Token) (cause : FaultCause) : Overlooks (Step.fault token cause : Step α) :=
  .of_eq (fun _ => rfl) (fun _ => rfl) fun _ _ => rfl

theorem bind {step : Step α} {next : α → Step β} (h : step.Overlooks)
    (rest : ∀ value, (next value).Overlooks)
    : Overlooks (step >>= next) := by
  constructor
  · intro machine
    rw [bind_eq]
    exact (h.keeps machine).trans (extends_andThen _ fun value => (rest value).keeps)
  · intro machine limit
    rw [bind_eq, bind_eq, h.limited]
    cases step machine with
    | error interruption after => rfl
    | ok value after => exact (rest value).limited after limit

theorem lookup (token : Token) {find : Machine → Except LookupError α}
    (same : ∀ (machine : Machine) limit, find (machine.limited limit) = find machine)
    : Overlooks (Step.lookup token find) := by
  constructor
  · intro machine
    unfold Step.lookup
    cases find machine <;> exact .refl machine
  · intro machine limit
    unfold Step.lookup
    rw [same]
    cases find machine <;> rfl

end Overlooks

theorem overlooks_divide (operator : Token) (a b : Float) : Overlooks (divide operator a b) := by
  have tells
      : Overlooks (report (.atToken .running operator "Division by zero; result is 0.")) := by
    refine ⟨fun machine => ?_, fun _ _ => rfl⟩
    refine ⟨(Machine.Extends.refl machine).written, ?_⟩
    exact Array.toList_push ▸ List.prefix_append _ _
  unfold divide
  split
  · exact .bind tells fun _ => .pure _
  · exact .pure _

theorem overlooks_unary (operator : Token) (operand : Value)
    : Overlooks (unary operator operand) := by
  unfold unary
  split
  all_goals first | exact .pure _ | exact .fault _ _

theorem overlooks_arithmetic (operator : Token) (a b : Float)
    : Overlooks (arithmetic operator a b) := by
  unfold arithmetic
  split
  case h_4 => exact overlooks_divide operator a b
  all_goals first | exact .pure _ | exact .fault _ _

theorem overlooks_binary (operator : Token) (left right : Value)
    : Overlooks (binary operator left right) := by
  unfold binary
  split
  case h_4 => exact overlooks_arithmetic operator _ _
  all_goals first | exact .pure _ | exact .fault _ _

theorem overlooks_textOf (value : Value) : Overlooks (textOf value) :=
  .of_eq (fun _ => rfl) (fun _ => rfl) fun _ _ => rfl

/-- What is printed stands after all that has been written. -/
theorem overlooks_print (value : Value) : Overlooks (print value) := by
  refine .bind (overlooks_textOf value) fun text => ?_
  refine ⟨fun machine => ?_, fun _ _ => rfl⟩
  exact ⟨⟨_, rfl⟩, List.prefix_rfl⟩

theorem overlooks_callNative (callee : Native) (arguments : List Value)
    : Overlooks (callNative callee arguments) := by
  cases callee with
  | clock => exact .of_eq (fun _ => rfl) (fun _ => rfl) fun _ _ => rfl
  | str =>
      cases arguments with
      | nil => exact .pure _
      | cons first rest => exact .bind (overlooks_textOf first) fun _ => .pure _

theorem overlooks_functionOf (closure : Closure) : Overlooks (functionOf closure) :=
  .of_eq (fun _ => rfl) (fun _ => rfl) fun _ _ => rfl

theorem overlooks_functionHere (declaration : FunctionDecl)
    : Overlooks (functionHere declaration) :=
  .of_eq (fun _ => rfl) (fun _ => rfl) fun _ _ => rfl

theorem overlooks_setSlot (address : Nat) (name : String) (value : Value)
    : Overlooks (setSlot address name value) :=
  .of_eq (fun _ => rfl) (fun _ => rfl) fun _ _ => rfl

theorem overlooks_define (name : String) (value : Value) : Overlooks (define name value) :=
  .of_eq (fun _ => rfl) (fun _ => rfl) fun _ _ => rfl

theorem overlooks_overwrite (name : Token) (value : Value) : Overlooks (overwrite name value) :=
  .bind (.lookup name fun _ _ => rfl) fun _ => overlooks_setSlot _ _ _

end Step

-----------------------------------------------------------------------------------------
-- Endings with a higher limit
-----------------------------------------------------------------------------------------

/-- An ending and the one with a higher limit. They are the same, unless the lower limit stopped the
run where the other went on; values count as the same if what follows from them is.
-/
inductive Ending.Raised {α : Type} {γ : Type u} (limit : Nat) (next : α → γ) :
    Ending α → Ending α → Prop
  | ok {value other after} (same : next other = next value) (le : after.maxDepth ≤ limit)
    : Raised limit next (.ok value after) (.ok other (after.limited limit))
  | interrupted {interruption after}
    : Raised limit next (.error interruption after) (.error interruption (after.limited limit))
  | stopped {token after ending} (keeps : after.Extends (Ending.machine ending))
    : Raised limit next (.error (.fault ⟨token, .stackOverflow⟩) after) ending

namespace Step

variable {α β : Type} {γ : Type u}

/-- A step bears a higher limit: it keeps what it has written and told, and it ends alike unless the
lower limit stops it.
-/
structure Bears (step : Step α) (next : α → γ) : Prop where
  keeps : ∀ machine : Machine, machine.Extends (Ending.machine (step machine))
  raised
    : ∀ (machine : Machine) limit,
        machine.maxDepth ≤ limit
        → Ending.Raised limit next (step machine) (step (machine.limited limit))

theorem Overlooks.bears {step : Step α} (h : step.Overlooks) (next : α → γ)
    : step.Bears next := by
  refine ⟨h.keeps, ?_⟩
  intro machine limit le
  have kept := h.limited machine machine.maxDepth
  rw [Machine.limited_maxDepth] at kept
  rw [h.limited]
  cases ran : step machine with
  | error interruption after => exact .interrupted
  | ok value after =>
      rw [ran] at kept
      have same : after = after.limited machine.maxDepth := (EStateM.Result.ok.inj kept).2
      exact .ok rfl (same ▸ le)

theorem bears_pure (value : α) (next : α → γ) : Bears (Pure.pure value) next :=
  (Overlooks.pure value).bears next

/-- The machine itself may be read if what follows does not look at the limit. -/
theorem bears_get {next : Machine → γ}
    (same : ∀ machine limit, next (machine.limited limit) = next machine)
    : Bears MonadState.get next :=
  ⟨.refl, fun machine limit le => .ok (same machine limit) le⟩

/-- What a call is checked for, in order. -/
theorem checkCall_eq (closing : Token) (arity given : Nat) (machine : Machine)
    : Plan.checkCall closing arity given machine
      = if given ≠ arity then .error (.fault ⟨closing, .argumentCount arity given⟩) machine
        else if machine.maxDepth ≤ machine.callDepth then
          .error (.fault ⟨closing, .stackOverflow⟩) machine
        else .ok () machine := by
  unfold Plan.checkCall
  by_cases wrong : given ≠ arity
  · rw [if_pos wrong, if_pos wrong]
    rfl
  · rw [if_neg wrong, if_neg wrong]
    change (if machine.maxDepth ≤ machine.callDepth then fault closing .stackOverflow
      else Pure.pure () : Step Unit) machine = _
    split <;> rfl

/-- A call that begins with the lower limit begins with the higher one as well. -/
theorem bears_checkCall (closing : Token) (arity given : Nat) (next : Unit → γ)
    : Bears (Plan.checkCall closing arity given) next := by
  have keeps (machine : Machine)
      : machine.Extends (Ending.machine (Plan.checkCall closing arity given machine)) := by
    rw [checkCall_eq]
    split
    · exact .refl machine
    · split <;> exact .refl machine
  refine ⟨keeps, ?_⟩
  intro machine limit le
  by_cases wrong : given ≠ arity
  · rw [checkCall_eq, checkCall_eq, if_pos wrong, if_pos wrong]
    exact .interrupted
  · by_cases stopped : machine.maxDepth ≤ machine.callDepth
    · have low := checkCall_eq closing arity given machine
      rw [if_neg wrong, if_pos stopped] at low
      rw [low]
      exact .stopped ((machine.extends_limited limit).trans (keeps _))
    · have goesOn : ¬ limit ≤ machine.callDepth :=
        Nat.not_le.mpr (Nat.lt_of_lt_of_le (Nat.not_le.mp stopped) le)
      rw [checkCall_eq, checkCall_eq, if_neg wrong, if_neg wrong, if_neg stopped]
      exact (if_neg goesOn).symm ▸ .ok rfl le

theorem Bears.bind {step : Step α} {next : α → γ} {rest : γ → Step β} (h : step.Bears next)
    (later : ∀ value, (rest (next value)).Bears (id : β → β))
    : Bears (step >>= fun value => rest (next value)) (id : β → β) := by
  constructor
  · intro machine
    rw [bind_eq]
    exact (h.keeps machine).trans (extends_andThen _ fun value => (later value).keeps)
  · intro machine limit le
    have raised := h.raised machine limit le
    rw [bind_eq, bind_eq]
    generalize step machine = first at raised ⊢
    generalize step (machine.limited limit) = second at raised ⊢
    cases raised with
    | ok same le =>
        simp only [Ending.andThen, same]
        exact (later _).raised _ limit le
    | interrupted => exact .interrupted
    | stopped keeps =>
        exact .stopped (keeps.trans (extends_andThen _ fun value => (later value).keeps))

/-- What follows may look at all that a step gives. -/
theorem Bears.andThen {step : Step α} {rest : α → Step β} (h : step.Bears (id : α → α))
    (later : ∀ value, (rest value).Bears (id : β → β))
    : Bears (step >>= rest) (id : β → β) :=
  h.bind later

/-- In other surroundings, a step bears what it bears inside them. -/
theorem Bears.around {step : Step α} (h : step.Bears (id : α → α)) (manner : Manner)
    : (manner.around step).Bears (id : α → α) := by
  constructor
  · intro machine
    have inside := h.keeps (manner.before machine)
    rw [manner.around_eq]
    generalize step (manner.before machine) = ending at inside ⊢
    cases manner <;> cases ending <;> exact ⟨inside.written, inside.told⟩
  · intro machine limit le
    have beneath : (manner.before machine).maxDepth ≤ limit := by cases manner <;> exact le
    have entered
        : manner.before (machine.limited limit) = (manner.before machine).limited limit := by
      cases manner <;> rfl
    have raised := h.raised (manner.before machine) limit beneath
    rw [manner.around_eq, manner.around_eq, entered]
    generalize step (manner.before machine) = first at raised ⊢
    generalize step ((manner.before machine).limited limit) = second at raised ⊢
    cases raised with
    | ok same le => cases manner <;> exact .ok same le
    | interrupted => cases manner <;> exact .interrupted
    | stopped keeps =>
        cases manner <;> cases second <;> exact .stopped ⟨keeps.written, keeps.told⟩

/-- Every step that plans are made of bears a higher limit. Only the check of a call looks at it. -/
theorem Primitive.bears {effect : Effect} {step : Step α} (h : step.Primitive effect)
    : step.Bears (id : α → α) := by
  cases h with
  | checkCall => exact bears_checkCall _ _ _ id
  | callNative => exact ((overlooks_callNative _ _).bears id).around .deeper
  | fault => exact (Overlooks.fault _ _).bears id
  | getHere | receiver => exact (Overlooks.lookup _ fun _ _ => rfl).bears id
  | setSlot => exact (overlooks_setSlot _ _ _).bears id
  | define => exact (overlooks_define _ _).bears id
  | overwrite => exact (overlooks_overwrite _ _).bears id
  | setField | freshIdentity | newInstance =>
      exact (Overlooks.of_eq (fun _ => rfl) (fun _ => rfl) fun _ _ => rfl).bears id
  | functionOf => exact (overlooks_functionOf _).bears id
  | functionHere => exact (overlooks_functionHere _).bears id
  | unary => exact (overlooks_unary _ _).bears id
  | binary => exact (overlooks_binary _ _ _).bears id
  | print => exact (overlooks_print _).bears id

end Step

-----------------------------------------------------------------------------------------
-- Runs with a higher limit
-----------------------------------------------------------------------------------------

theorem Action.overlooks (distances : Distances) (action : Action)
    : (action.perform (.byDistance distances)).Overlooks := by
  cases action with
  | locate use occurrence => exact .lookup _ fun _ _ => rfl
  | locateReceiver occurrence => exact .lookup _ fun _ _ => rfl
  | enter layer outer bindings => exact .of_eq (fun _ => rfl) (fun _ => rfl) fun _ _ => rfl

/-- The run of a plan bears a higher limit if the tasks in it do, by induction over the plan. -/
theorem Plan.Made.run_bears {α : Type} {plan : Plan α} {effect : Effect} {isCall : Bool}
    (h : plan.Made effect isCall) (distances : Distances)
    {perform : (task : Task) → Step task.Result}
    (tasks : ∀ task, (perform task).Bears (id : task.Result → task.Result))
    : (plan.run (.byDistance distances) perform).Bears (id : α → α) := by
  induction h with
  | done value => exact Step.bears_pure value id
  | step primitive _ ih => exact primitive.bears.andThen ih
  | @look next same _ ih =>
      have looks : Step.Bears MonadState.get next :=
        Step.bears_get fun machine limit => same _ _ rfl rfl
      exact looks.bind ih
  | @act action _ _ ih => exact ((action.overlooks distances).bears id).andThen ih
  | @hand manner task _ _ _ ih => exact ((tasks task).around manner).andThen ih

/-- Every task bears a higher limit, whatever its budget. By induction over the budget. -/
theorem Task.perform_bears (distances : Distances) (budget : Nat) (task : Task)
    : (task.perform (.byDistance distances) budget).Bears (id : task.Result → task.Result) := by
  induction budget generalizing task with
  | zero => exact ⟨.refl, fun _ _ _ => .interrupted⟩
  | succ budget ih => exact task.plan_made.run_bears distances ih

end Lox
