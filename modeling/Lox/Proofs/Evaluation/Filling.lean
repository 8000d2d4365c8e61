import Lox.Proofs.Evaluation.Leads
import Lox.Proofs.Evaluation.Limits
import Lox.Proofs.Evaluation.Printing

/-! Output that goes to a sink of limited capacity. A run is the same as long as what it writes
fits. The first line that does not fit any more is cut off where the sink is full, and ends the run
with a fault at the print statement; all that the statement is part of is left as after any fault.
-/

namespace Lox

-----------------------------------------------------------------------------------------
-- Full sinks
-----------------------------------------------------------------------------------------

namespace Sink

/-- The sink if it takes only so many bytes, and no more of those that have been written. -/
def filled (capacity : Nat) (sink : Sink) : Sink :=
  { sink with written := sink.written.extract 0 capacity, capacity := some capacity }

variable {sink : Sink} {capacity : Nat}

/-- Nothing is lost of what fits. -/
theorem written_filled (room : sink.size ≤ capacity)
    : (sink.filled capacity).written = sink.written := by
  have all : sink.written.data.size ≤ capacity := room
  ext1
  simpa [filled] using Or.inr all

theorem size_filled (room : sink.size ≤ capacity) : (sink.filled capacity).size = sink.size :=
  congrArg ByteArray.size (written_filled room)

/-- Some bytes fit if there is room for all that is written with them. -/
theorem fits_filled (room : sink.size ≤ capacity) (bytes : ByteArray)
    : (sink.filled capacity).fits bytes = decide ((sink.written ++ bytes).size ≤ capacity) := by
  have same := size_filled room
  rw [ByteArray.size_append]
  change decide ((sink.filled capacity).size + bytes.size ≤ capacity) = _
  rw [same]
  rfl

/-- The part of some bytes that is written stands where the bytes would stand. -/
theorem part_filled (room : sink.size ≤ capacity) (bytes : ByteArray)
    : (sink.filled capacity).written ++ (sink.filled capacity).part bytes
      = (sink.written ++ bytes).extract 0 capacity := by
  have same := size_filled room
  rw [ByteArray.extract_append, Nat.zero_sub]
  change sink.written.extract 0 capacity
      ++ bytes.extract 0 (capacity - (sink.filled capacity).size) = _
  rw [same]
  rfl

/-- A line is cut off where the sink is full, which is an error. -/
theorem writeLine_filled (reliable : sink.Reliable) (room : sink.size ≤ capacity) (text : String)
    : (sink.filled capacity).writeLine text
      = (if (sink.writeLine text).2.size ≤ capacity then none else some .closed,
          (sink.writeLine text).2.filled capacity) := by
  let bytes := (text ++ "\n").toUTF8
  have passes : (sink.filled capacity).flushes = true := (reliable_iff.1 reliable).2
  have error
      : ((sink.filled capacity).writeLine text).1
        = if (sink.written ++ bytes).size ≤ capacity then none else some .closed := by
    unfold writeLine
    dsimp only
    rw [fits_filled room, passes]
    by_cases le : (sink.written ++ bytes).size ≤ capacity
    · rw [if_pos le, decide_eq_true le]
      rfl
    · rw [if_neg le, decide_eq_false le]
      rfl
  have written
      : ((sink.filled capacity).writeLine text).2
        = { sink with written := sink.written ++ bytes }.filled capacity := by
    unfold writeLine
    dsimp only
    rw [part_filled room]
    rfl
  rw [reliable.writeLine_eq]
  exact Prod.ext error written

end Sink

-----------------------------------------------------------------------------------------
-- Machines with a full sink
-----------------------------------------------------------------------------------------

namespace Machine

/-- The machine if its sink takes only so many bytes. -/
def filled (capacity : Nat) (machine : Machine) : Machine :=
  { machine with sink := machine.sink.filled capacity }

/-- The machine back in the environment and at the depth of calls of another one. -/
def backAt (home machine : Machine) : Machine :=
  { machine with environment := home.environment, callDepth := home.callDepth }

/-- Writing to the sink does not fail, and all that has been written fits into a capacity. -/
structure HasRoom (capacity : Nat) (machine : Machine) : Prop where
  reliable : machine.sink.Reliable
  le : machine.sink.size ≤ capacity

variable {machine home : Machine} {capacity : Nat}

/-- In other surroundings there is as much room. -/
theorem HasRoom.before (h : machine.HasRoom capacity) (manner : Manner)
    : (manner.before machine).HasRoom capacity := by
  cases manner <;> exact ⟨h.reliable, h.le⟩

theorem HasRoom.after {left : Machine} (h : left.HasRoom capacity) (manner : Manner)
    (machine : Machine)
    : (manner.after machine left).HasRoom capacity := by
  cases manner <;> exact ⟨h.reliable, h.le⟩

theorem before_filled (manner : Manner) (machine : Machine)
    : manner.before (machine.filled capacity) = (manner.before machine).filled capacity := by
  cases manner <;> rfl

theorem after_filled (manner : Manner) (machine left : Machine)
    : manner.after (machine.filled capacity) (left.filled capacity)
      = (manner.after machine left).filled capacity := by
  cases manner <;> rfl

/-- A machine that has written more has not written less. -/
theorem Extends.size_le {after : Machine} (h : machine.Extends after)
    : machine.sink.size ≤ after.sink.size := by
  obtain ⟨more, written⟩ := h.written
  unfold Sink.size
  rw [written, ByteArray.size_append]
  exact Nat.le_add_right ..

/-- To be back at one machine is to be back at any that has gone on from it. -/
theorem Balanced.backAt_eq (h : home.Balanced machine) (other : Machine)
    : machine.backAt other = home.backAt other := by
  unfold backAt
  rw [h.environment, h.callDepth]

/-- A value is printed as far as there is room. -/
theorem print_filled (h : machine.HasRoom capacity) (value : Value)
    : Step.print value (machine.filled capacity)
      = .ok (if (machine.printing value).sink.size ≤ capacity then none else some .closed)
          ((machine.printing value).filled capacity) := by
  have written := Sink.writeLine_filled h.reliable h.le (value.text machine.instances)
  rw [h.reliable.writeLine_eq] at written
  change Step.writeLine (value.text machine.instances) (machine.filled capacity) = _
  unfold Step.writeLine
  have here : (machine.filled capacity).sink = machine.sink.filled capacity := rfl
  rw [here, written]
  rfl

end Machine

/-- The ending if the sink takes only so many bytes. -/
def Ending.filled {α : Type} (capacity : Nat) : Ending α → Ending α
  | .ok value after => .ok value (after.filled capacity)
  | .error interruption after => .error interruption (after.filled capacity)

-----------------------------------------------------------------------------------------
-- Steps that write nothing
-----------------------------------------------------------------------------------------

namespace Step

variable {α β : Type}

/-- A step writes nothing, and the room that there is for output has no part in it. -/
structure Silent (step : Step α) : Prop where
  sink : ∀ machine, (Ending.machine (step machine)).sink = machine.sink
  filled
    : ∀ (machine : Machine) capacity,
        machine.sink.size ≤ capacity
        → step (machine.filled capacity) = Ending.filled capacity (step machine)

namespace Silent

theorem pure (value : α) : Silent (Pure.pure value) := ⟨fun _ => rfl, fun _ _ _ => rfl⟩

theorem fault (token : Token) (cause : FaultCause) : Silent (Step.fault token cause : Step α) :=
  ⟨fun _ => rfl, fun _ _ _ => rfl⟩

theorem bind {step : Step α} {next : α → Step β} (h : step.Silent)
    (rest : ∀ value, (next value).Silent)
    : Silent (step >>= next) := by
  constructor
  · intro machine
    have same := h.sink machine
    rw [bind_eq]
    cases ran : step machine with
    | error interruption after =>
        rw [ran] at same
        exact same
    | ok value after =>
        rw [ran] at same
        exact ((rest value).sink after).trans same
  · intro machine capacity room
    have same := h.sink machine
    rw [bind_eq, bind_eq, h.filled machine capacity room]
    cases ran : step machine with
    | error interruption after => rfl
    | ok value after =>
        rw [ran] at same
        have still : after.sink.size ≤ capacity := by
          have unchanged : after.sink = machine.sink := same
          rwa [unchanged]
        exact (rest value).filled after capacity still

theorem lookup (token : Token) {find : Machine → Except LookupError α}
    (same : ∀ (machine : Machine) capacity, find (machine.filled capacity) = find machine)
    : Silent (Step.lookup token find) := by
  constructor
  · intro machine
    unfold Step.lookup
    cases find machine <;> rfl
  · intro machine capacity room
    unfold Step.lookup
    rw [same]
    cases find machine <;> rfl

/-- One call deeper, a step writes nothing either. -/
theorem deeper {step : Step α} (h : step.Silent) : Silent (Step.deeper step) := by
  constructor
  · intro machine
    have same := h.sink { machine with callDepth := machine.callDepth + 1 }
    unfold Step.deeper
    cases ran : step { machine with callDepth := machine.callDepth + 1 } <;>
      (rw [ran] at same; exact same)
  · intro machine capacity room
    have same := h.filled { machine with callDepth := machine.callDepth + 1 } capacity room
    have inside
        : { machine.filled capacity with callDepth := (machine.filled capacity).callDepth + 1 }
          = { machine with callDepth := machine.callDepth + 1 }.filled capacity :=
      rfl
    unfold Step.deeper
    rw [inside, same]
    cases step { machine with callDepth := machine.callDepth + 1 } <;> rfl

end Silent

theorem silent_divide (operator : Token) (a b : Float) : Silent (divide operator a b) := by
  have tells
      : Silent (report (.atToken .running operator "Division by zero; result is 0.")) := by
    -- A report holds how much has been written, which is the same as long as all fits.
    refine ⟨fun _ => rfl, fun machine capacity room => ?_⟩
    have same : (machine.filled capacity).sink.size = machine.sink.size := Sink.size_filled room
    unfold report
    rw [same]
    rfl
  unfold divide
  split
  · exact .bind tells fun _ => .pure _
  · exact .pure _

theorem silent_unary (operator : Token) (operand : Value) : Silent (unary operator operand) := by
  unfold unary
  split
  all_goals first | exact .pure _ | exact .fault _ _

theorem silent_arithmetic (operator : Token) (a b : Float) : Silent (arithmetic operator a b) := by
  unfold arithmetic
  split
  case h_4 => exact silent_divide operator a b
  all_goals first | exact .pure _ | exact .fault _ _

theorem silent_binary (operator : Token) (left right : Value)
    : Silent (binary operator left right) := by
  unfold binary
  split
  case h_4 => exact silent_arithmetic operator _ _
  all_goals first | exact .pure _ | exact .fault _ _

theorem silent_checkCall (closing : Token) (arity given : Nat)
    : Silent (Plan.checkCall closing arity given) := by
  constructor
  · intro machine
    rw [checkCall_eq]
    split
    · rfl
    · split <;> rfl
  · intro machine capacity room
    have limit : (machine.filled capacity).maxDepth = machine.maxDepth := rfl
    have depth : (machine.filled capacity).callDepth = machine.callDepth := rfl
    rw [checkCall_eq, checkCall_eq, limit, depth]
    split
    · rfl
    · split <;> rfl

theorem silent_callNative (callee : Native) (arguments : List Value)
    : Silent (callNative callee arguments) := by
  cases callee with
  | clock => exact ⟨fun _ => rfl, fun _ _ _ => rfl⟩
  | str =>
      cases arguments with
      | nil => exact .pure _
      | cons first rest =>
          have text : Silent (textOf first) := ⟨fun _ => rfl, fun _ _ _ => rfl⟩
          exact .bind text fun _ => .pure _

/-- Of the steps that plans are made of, only printing writes. -/
theorem Primitive.silent {effect : Effect} {step : Step α} (h : step.Primitive effect)
    (silent : effect ≠ .print)
    : step.Silent := by
  cases h with
  | fault => exact .fault _ _
  | getHere | receiver => exact .lookup _ fun _ _ => rfl
  | setSlot | define | setField | freshIdentity | functionOf | functionHere | newInstance =>
      exact ⟨fun _ => rfl, fun _ _ _ => rfl⟩
  | overwrite => exact .bind (.lookup _ fun _ _ => rfl) fun _ => ⟨fun _ => rfl, fun _ _ _ => rfl⟩
  | unary => exact silent_unary _ _
  | binary => exact silent_binary _ _ _
  | checkCall => exact silent_checkCall _ _ _
  | callNative => exact (silent_callNative _ _).deeper
  | print may => exact absurd may silent

end Step

theorem Action.silent (distances : Distances) (action : Action)
    : (action.perform (.byDistance distances)).Silent := by
  cases action with
  | locate use occurrence => exact .lookup _ fun _ _ => rfl
  | locateReceiver occurrence => exact .lookup _ fun _ _ => rfl
  | enter layer outer bindings => exact ⟨fun _ => rfl, fun _ _ _ => rfl⟩

-----------------------------------------------------------------------------------------
-- Endings with a full sink
-----------------------------------------------------------------------------------------

/-- A moment is that of a print statement whose line does not fit any more. The machine is the one
that has all of the line.
-/
inductive Moment.Overruns (capacity : Nat) : Moment → Token → Machine → Prop
  | print {distances : Distances} {budget : Nat} {keyword : Token} {expr : Expr}
    {machine before : Machine} {value : Value}
    (evaluated : Moment.ending ⟨distances, budget, .evaluate expr, machine⟩ = .ok value before)
    (room : before.sink.size ≤ capacity)
    (spills : capacity < (before.printing value).sink.size)
    : Overruns capacity ⟨distances, budget + 1, .execute (.print keyword expr), machine⟩ keyword
        (before.printing value)

/-- A line that does not fit has been too long. -/
theorem Moment.Overruns.lt {capacity : Nat} {stop : Moment} {keyword : Token} {spilled : Machine}
    (h : stop.Overruns capacity keyword spilled)
    : capacity < spilled.sink.size := by
  cases h with
  | print _ _ spills => exact spills

/-- How a run ends without a limit, and how if the sink takes only so many bytes. If all of the
output fits, the endings are the same. If not, the run is cut at a print statement that it comes to
without the limit: it ends with a fault there, on the machine that has as much of the line as fits,
back where the run began.
-/
inductive Ending.Fills {α : Type} (capacity : Nat) (home : Machine) (reached : Moment → Prop) :
    Ending α → Ending α → Prop
  | fits {ending : Ending α} (room : ending.machine.sink.size ≤ capacity)
    : Fills capacity home reached ending (ending.filled capacity)
  | cut {ending : Ending α} {stop : Moment} {keyword : Token} {spilled : Machine}
    (reaches : reached stop) (overruns : stop.Overruns capacity keyword spilled)
    (keeps : spilled.Extends ending.machine)
    : Fills capacity home reached ending
        (.error (.fault ⟨keyword, .output .closed⟩) (home.backAt (spilled.filled capacity)))

namespace Ending.Fills

variable {α β : Type} {capacity : Nat} {home machine : Machine} {reached other : Moment → Prop}
  {first second : Ending α}

theorem mono (h : first.Fills capacity home reached second)
    (more : ∀ stop, reached stop → other stop)
    : first.Fills capacity home other second := by
  cases h with
  | fits room => exact .fits room
  | cut reaches overruns keeps => exact .cut (more _ reaches) overruns keeps

/-- A run may have begun before. -/
theorem before (h : first.Fills capacity machine reached second) (balanced : home.Balanced machine)
    : first.Fills capacity home reached second := by
  cases h with
  | fits room => exact .fits room
  | cut reaches overruns keeps =>
      rw [balanced.backAt_eq]
      exact .cut reaches overruns keeps

/-- Outside of other surroundings, a run is back where it entered them. -/
theorem around {manner : Manner}
    (h : first.Fills capacity (manner.before machine) reached second)
    : (manner.afterAll machine first).Fills capacity machine reached
        (manner.afterAll (machine.filled capacity) second) := by
  cases h with
  | fits room =>
      have same
          : manner.afterAll (machine.filled capacity) (first.filled capacity)
            = (manner.afterAll machine first).filled capacity := by
        cases first <;> cases manner <;> rfl
      rw [same]
      apply fits
      cases first <;> cases manner <;> exact room
  | @cut _ keyword spilled reaches overruns keeps =>
      have same
          : manner.after (machine.filled capacity)
              ((manner.before machine).backAt (spilled.filled capacity))
            = machine.backAt (spilled.filled capacity) := by
        cases manner <;> rfl
      have outside : spilled.Extends (manner.afterAll machine first).machine := by
        cases first <;> cases manner <;> exact ⟨keeps.written, keeps.told⟩
      have cut
          : Fills capacity machine reached (manner.afterAll machine first)
              (.error (.fault ⟨keyword, .output .closed⟩)
                (machine.backAt (spilled.filled capacity))) :=
        .cut reaches overruns outside
      rw [← same] at cut
      exact cut

/-- A run goes on if all has fit so far, and is cut if it has been cut before. -/
theorem andThen {next : α → Step β} (h : first.Fills capacity home reached second)
    (keeps : ∀ value (machine : Machine), machine.Extends (Ending.machine (next value machine)))
    (later
      : ∀ value after,
          first = .ok value after
          → after.sink.size ≤ capacity
          → Fills capacity home reached (next value after) (next value (after.filled capacity)))
    : (first.andThen next).Fills capacity home reached (second.andThen next) := by
  cases h with
  | fits room =>
      cases first with
      | ok value after => exact later value after rfl room
      | error interruption after => exact .fits room
  | cut reaches overruns written =>
      exact .cut reaches overruns (written.trans (Step.extends_andThen first keeps))

end Ending.Fills

-----------------------------------------------------------------------------------------
-- Runs into a full sink
-----------------------------------------------------------------------------------------

section Runs

variable {distances : Distances} {budget capacity : Nat} {machine : Machine}

/-- What has been written and told is kept when a plan runs. -/
theorem Plan.Made.run_extends {α : Type} {plan : Plan α} {effect : Effect} {isCall : Bool}
    (h : plan.Made effect isCall) (machine : Machine)
    : machine.Extends
        (Ending.machine
          (plan.run (.byDistance distances) (Task.perform (.byDistance distances) budget)
            machine)) :=
  (h.run_bears distances (Task.perform_bears distances budget)).keeps machine

/-- A moment comes up in one of the tasks that the run of a plan hands on. -/
def Plan.Reaches {α : Type} (distances : Distances) (budget : Nat) (plan : Plan α)
    (machine : Machine) (stop : Moment) : Prop :=
  ∃ inner, plan.Passes distances budget machine (.handing inner) ∧ inner.Reaches stop

/-- What a task has come to in other surroundings. -/
theorem Manner.exists_left {α : Type} {manner : Manner} {ending : Ending α} {value : α}
    {after : Machine} (h : manner.afterAll machine ending = .ok value after)
    : ∃ left, ending = .ok value left ∧ manner.after machine left = after := by
  cases ending with
  | error interruption left => cases h
  | ok result left =>
      cases h
      exact ⟨left, rfl, rfl⟩

/-- There is as much room after a step that writes nothing. -/
theorem Step.Silent.hasRoom {α : Type} {step : Step α} (silent : step.Silent)
    (room : machine.HasRoom capacity)
    : (Ending.machine (step machine)).HasRoom capacity := by
  constructor
  · rw [silent.sink machine]
    exact room.reliable
  · rw [silent.sink machine]
    exact room.le

/-- A step that writes nothing is the same in both runs, which go on after it. -/
theorem Step.Silent.fills {α β : Type} {step : Step β} (silent : step.Silent)
    (goesOn : step.Proceeds) {next : β → Step α} {reached : Moment → Prop}
    (room : machine.HasRoom capacity)
    (keeps : ∀ value (machine : Machine), machine.Extends (Ending.machine (next value machine)))
    (later
      : ∀ value after,
          step machine = .ok value after
          → after.HasRoom capacity
          → Ending.Fills capacity after reached (next value after)
              (next value (after.filled capacity)))
    : Ending.Fills capacity machine reached (Ending.andThen (step machine) next)
        (Ending.andThen (step (machine.filled capacity)) next) := by
  have still := silent.hasRoom room
  have proceeds := goesOn machine
  rw [silent.filled machine capacity room.le]
  apply (Ending.Fills.fits still.le).andThen keeps
  intro value after ran _
  rw [ran] at still proceeds
  exact (later value after ran still).before proceeds.balanced

/-- A plan without prints fills the sink as the tasks do that it hands on. By induction over the
plan.
-/
theorem Plan.Made.run_fills {α : Type} {plan : Plan α} {effect : Effect} {isCall : Bool}
    (h : plan.Made effect isCall) (silent : effect ≠ .print)
    (tasks
      : ∀ task (machine : Machine),
          machine.HasRoom capacity
          → Ending.Fills capacity machine (Moment.Reaches ⟨distances, budget, task, machine⟩)
              (Task.perform (.byDistance distances) budget task machine)
              (Task.perform (.byDistance distances) budget task (machine.filled capacity)))
    (room : machine.HasRoom capacity)
    : Ending.Fills capacity machine (plan.Reaches distances budget machine)
        (plan.run (.byDistance distances) (Task.perform (.byDistance distances) budget) machine)
        (plan.run (.byDistance distances) (Task.perform (.byDistance distances) budget)
          (machine.filled capacity)) := by
  induction h generalizing machine with
  | done value => exact .fits room.le
  | step primitive rest ih =>
      rw [Plan.run_step, Plan.run_step]
      apply (primitive.silent silent).fills primitive.proceeds room
      · exact fun value => (rest value).run_extends
      · intro value after ran room
        apply (ih value room).mono
        exact fun stop => Exists.imp fun inner => And.imp_left (.step ran)
  | @look next same rest ih =>
      -- The step gives the whole machine, but what follows does not depend on its sink.
      have seen : next (machine.filled capacity) = next machine := same _ _ rfl rfl
      rw [Plan.run_step, Plan.run_step]
      change Ending.Fills capacity machine _ ((next machine).run _ _ machine)
        ((next (machine.filled capacity)).run _ _ (machine.filled capacity))
      rw [seen]
      apply (ih machine room).mono
      exact fun stop => Exists.imp fun inner => And.imp_left (.step rfl)
  | @act action next rest ih =>
      rw [Plan.run_act, Plan.run_act]
      apply (action.silent distances).fills (action.proceeds _) room
      · exact fun value => (rest value).run_extends
      · intro value after ran room
        apply (ih value room).mono
        exact fun stop => Exists.imp fun inner => And.imp_left (.act ran)
  | @hand manner task next deeper rest ih =>
      have proceeds := (task.perform_proceeds (.byDistance distances) budget).around manner machine
      have inside := tasks task (manner.before machine) (room.before manner)
      rw [Plan.run_hand, Plan.run_hand, Machine.before_filled]
      apply (inside.around.mono fun stop reaches => ⟨_, .handing, reaches⟩).andThen
      · exact fun value => (rest value).run_extends
      · intro value after ran le
        rw [manner.around_eq, ran] at proceeds
        obtain ⟨left, ended, rfl⟩ := Manner.exists_left ran
        have again := ih value ⟨room.reliable.akin proceeds.sink, le⟩
        apply (again.before proceeds.balanced).mono
        exact fun stop => Exists.imp fun inner => And.imp_left (.hand ended)

/-- A print statement is cut where its line does not fit any more, if its expression has not been
cut before.
-/
theorem Task.fills_print {keyword : Token} {expr : Expr} (room : machine.HasRoom capacity)
    (evaluates
      : Ending.Fills capacity machine
          (Moment.Reaches ⟨distances, budget, .evaluate expr, machine⟩)
          (Task.perform (.byDistance distances) budget (.evaluate expr) machine)
          (Task.perform (.byDistance distances) budget (.evaluate expr)
            (machine.filled capacity)))
    : Ending.Fills capacity machine
        (Moment.Reaches ⟨distances, budget + 1, .execute (.print keyword expr), machine⟩)
        (Task.perform (.byDistance distances) (budget + 1) (.execute (.print keyword expr)) machine)
        (Task.perform (.byDistance distances) (budget + 1) (.execute (.print keyword expr))
          (machine.filled capacity)) := by
  have proceeds := Task.perform_proceeds (.byDistance distances) budget (.evaluate expr) machine
  rw [perform_print_eq, perform_print_eq]
  apply (evaluates.mono fun stop reaches => .head Moment.leads_print reaches).andThen
  · intro value before
    have kept := (Step.overlooks_print value).keeps before
    cases ran : Step.print value before with
    | error interruption after =>
        rw [ran] at kept
        exact kept
    | ok error after =>
        rw [ran] at kept
        cases error <;> exact kept
  · intro value before ran le
    rw [ran] at proceeds
    have here : before.HasRoom capacity := ⟨room.reliable.akin proceeds.sink, le⟩
    rw [Step.print_eq here.reliable, Machine.print_filled here]
    by_cases fits : (before.printing value).sink.size ≤ capacity
    · rw [if_pos fits]
      exact .fits fits
    · rw [if_neg fits]
      -- The cut is at this very moment. Its expression has left the machine balanced, so that the
      -- fault arises where the statement began.
      have overruns
          : Moment.Overruns capacity
              ⟨distances, budget + 1, .execute (.print keyword expr), machine⟩ keyword
              (before.printing value) :=
        .print ran le (Nat.not_le.1 fits)
      have back
          : machine.backAt ((before.printing value).filled capacity)
            = (before.printing value).filled capacity :=
        proceeds.balanced.backAt_eq _ ▸ rfl
      have cut
          : Ending.Fills capacity machine
              (Moment.Reaches ⟨distances, budget + 1, .execute (.print keyword expr), machine⟩)
              (.ok Flow.normal (before.printing value))
              (.error (.fault ⟨keyword, .output .closed⟩)
                (machine.backAt ((before.printing value).filled capacity))) :=
        .cut .refl overruns (.refl _)
      rw [back] at cut
      exact cut

/-- Every task fills the sink, whatever its budget. By induction over the budget: a print statement
is what overruns the sink, if its expression has not done so before, and no other task prints.
-/
theorem Task.perform_fills (distances : Distances) (budget : Nat) (task : Task)
    (room : machine.HasRoom capacity)
    : Ending.Fills capacity machine (Moment.Reaches ⟨distances, budget, task, machine⟩)
        (Task.perform (.byDistance distances) budget task machine)
        (Task.perform (.byDistance distances) budget task (machine.filled capacity)) := by
  induction budget generalizing task machine with
  | zero => exact .fits room.le
  | succ budget ih =>
      by_cases prints : task.effect = .print
      · obtain ⟨keyword, expr, rfl⟩ := exists_print prints
        exact fills_print room (ih (.evaluate expr) room)
      · have fills := task.plan_made.run_fills prints (fun task machine => ih task) room
        apply fills.mono
        rintro stop ⟨inner, passes, reaches⟩
        exact .head ⟨budget, rfl, passes⟩ reaches

end Runs

-----------------------------------------------------------------------------------------
-- Moments of a run into a full sink
-----------------------------------------------------------------------------------------

/-- The moment if the sink takes only so many bytes. -/
def Moment.filled (capacity : Nat) (moment : Moment) : Moment :=
  { moment with machine := moment.machine.filled capacity }

section Moments

variable {distances : Distances} {budget capacity : Nat} {machine : Machine}

/-- What a run into a full sink has come to is what fits of the other run. -/
theorem Ending.Fills.exists_of_ok {α : Type} {home after : Machine} {reached : Moment → Prop}
    {ending : Ending α} {value : α}
    (h : Ending.Fills capacity home reached ending (.ok value after))
    : ∃ before,
        ending = .ok value before
        ∧ before.sink.size ≤ capacity
        ∧ after = before.filled capacity := by
  generalize same : EStateM.Result.ok value after = full at h
  cases h with
  | cut => cases same
  | fits room =>
      cases ending with
      | error interruption before => cases same
      | ok result before =>
          cases same
          exact ⟨before, rfl, room, rfl⟩

/-- A step that writes nothing comes to what it comes to in the other run. -/
theorem Step.Silent.exists_of_ok {α : Type} {step : Step α} (silent : step.Silent)
    (room : machine.HasRoom capacity) {value : α} {after : Machine}
    (ran : step (machine.filled capacity) = .ok value after)
    : ∃ before,
        step machine = .ok value before
        ∧ before.HasRoom capacity
        ∧ after = before.filled capacity := by
  have still := silent.hasRoom room
  rw [silent.filled machine capacity room.le] at ran
  cases first : step machine with
  | error interruption before =>
      rw [first] at ran
      cases ran
  | ok result before =>
      rw [first] at ran still
      cases ran
      exact ⟨before, rfl, still, rfl⟩

/-- A plan without prints hands on, into a full sink, only what it hands on in the other run while
all fits. By induction over the plan.
-/
theorem Plan.Made.exists_passes {α : Type} {plan : Plan α} {effect : Effect} {isCall : Bool}
    (h : plan.Made effect isCall) (silent : effect ≠ .print) (room : machine.HasRoom capacity)
    {inner : Moment}
    (passes : plan.Passes distances budget (machine.filled capacity) (.handing inner))
    : ∃ earlier,
        plan.Passes distances budget machine (.handing earlier)
        ∧ earlier.machine.HasRoom capacity
        ∧ inner = earlier.filled capacity := by
  induction h generalizing machine with
  | done value => cases passes
  | step primitive rest ih =>
      cases passes with
      | step done later =>
          obtain ⟨before, ran, still, rfl⟩ := (primitive.silent silent).exists_of_ok room done
          obtain ⟨earlier, passes, rest⟩ := ih _ still later
          exact ⟨earlier, .step ran passes, rest⟩
  | @look next same rest ih =>
      cases passes with
      | step done later =>
          cases done
          have seen : next (machine.filled capacity) = next machine := same _ _ rfl rfl
          rw [seen] at later
          obtain ⟨earlier, passes, rest⟩ := ih machine room later
          exact ⟨earlier, .step rfl passes, rest⟩
  | @act action next rest ih =>
      cases passes with
      | act done later =>
          obtain ⟨before, ran, still, rfl⟩ :=
            (action.silent distances).exists_of_ok room done
          obtain ⟨earlier, passes, rest⟩ := ih _ still later
          exact ⟨earlier, .act ran passes, rest⟩
  | @hand manner task next deeper rest ih =>
      cases passes with
      | handing =>
          rw [Machine.before_filled]
          exact ⟨_, .handing, room.before manner, rfl⟩
      | @hand _ _ _ _ value left _ done later =>
          have proceeds :=
            task.perform_proceeds (.byDistance distances) budget (manner.before machine)
          have fills := task.perform_fills distances budget (room.before manner)
          have ended
              : Task.perform (.byDistance distances) budget task
                  ((manner.before machine).filled capacity)
                = .ok value left := by
            rw [← Machine.before_filled]
            exact done
          rw [ended] at fills
          obtain ⟨before, ran, le, rfl⟩ := fills.exists_of_ok
          rw [ran] at proceeds
          have still : before.HasRoom capacity :=
            ⟨(room.before manner).reliable.akin proceeds.sink, le⟩
          rw [Machine.after_filled] at later
          obtain ⟨earlier, passes, rest⟩ := ih value (still.after manner machine) later
          exact ⟨earlier, .hand ran passes, rest⟩

/-- A print statement hands nothing on but its expression. -/
theorem Moment.Leads.of_print {keyword : Token} {expr : Expr} {inner : Moment}
    (h : Moment.Leads ⟨distances, budget, .execute (.print keyword expr), machine⟩ inner)
    : ∃ less, budget = less + 1 ∧ inner = ⟨distances, less, .evaluate expr, machine⟩ := by
  obtain ⟨less, enough, passes⟩ := h
  refine ⟨less, enough, ?_⟩
  cases passes with
  | handing => rfl
  | hand _ later =>
      cases later with
      | @step _ _ _ _ error _ _ _ last =>
          cases error with
          | none => cases last
          | some error =>
              cases last with
              | step faulted _ => cases faulted

/-- A moment leads on, into a full sink, only to what it leads to in the other run while all fits.
-/
theorem Moment.exists_leads {moment inner : Moment} (room : moment.machine.HasRoom capacity)
    (leads : (moment.filled capacity).Leads inner)
    : ∃ earlier,
        moment.Leads earlier
        ∧ earlier.machine.HasRoom capacity
        ∧ inner = earlier.filled capacity := by
  obtain ⟨distances, budget, task, machine⟩ := moment
  by_cases prints : task.effect = .print
  · obtain ⟨keyword, expr, rfl⟩ := Task.exists_print prints
    obtain ⟨less, rfl, rfl⟩ := Moment.Leads.of_print leads
    exact ⟨⟨distances, less, .evaluate expr, machine⟩, Moment.leads_print, room, rfl⟩
  · obtain ⟨less, enough, passes⟩ := leads
    obtain ⟨earlier, passes, rest⟩ := task.plan_made.exists_passes prints room passes
    exact ⟨earlier, ⟨less, enough, passes⟩, rest⟩

/-- A run into a full sink comes only to the moments of the other run where all has fit so far. By
induction over the tasks handed on.
-/
theorem Moment.exists_reaches {moment later : Moment} (room : moment.machine.HasRoom capacity)
    (reaches : (moment.filled capacity).Reaches later)
    : ∃ earlier,
        moment.Reaches earlier
        ∧ earlier.machine.HasRoom capacity
        ∧ later = earlier.filled capacity := by
  induction reaches with
  | refl => exact ⟨moment, .refl, room, rfl⟩
  | tail _ leads ih =>
      obtain ⟨middle, reaches, still, rfl⟩ := ih
      obtain ⟨earlier, further, rest⟩ := exists_leads still leads
      exact ⟨earlier, reaches.tail further, rest⟩

end Moments

end Lox
