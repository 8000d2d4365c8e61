import Mathlib.Logic.Relation
import Lox.Evaluation

/-! The moments of a run: every task that evaluation is asked for, on the machine that it finds.
A moment leads to the moments of the tasks that its plan hands on. What a plan keeps under a
contract for all tasks holds of every moment that a run reaches, and two ways of finding
bindings that agree wherever a run looks one up give the same run.
-/

namespace Lox

-----------------------------------------------------------------------------------------
-- Moments and what happens in them
-----------------------------------------------------------------------------------------

/-- A task about to be performed on a machine, where occurrences are found at distances. -/
structure Moment where
  distances : Distances
  budget : Nat
  task : Task
  machine : Machine

/-- The ending of a step. -/
abbrev Ending (α : Type) : Type := EStateM.Result Interruption Machine α

/-- The machine that is left at the end. -/
def Ending.machine {α : Type} : Ending α → Machine
  | .ok _ machine => machine
  | .error _ machine => machine

/-- How the task of a moment ends. -/
def Moment.ending (moment : Moment) : Ending moment.task.Result :=
  moment.task.perform (.byDistance moment.distances) moment.budget moment.machine

/-- What happens in a run of a plan. -/
inductive Event where
  /-- A task is handed on. -/
  | handing (moment : Moment)
  /-- An action is performed on a machine. -/
  | acting (action : Action) (machine : Machine)

/-- The machine that a task is handed on with. -/
def Manner.before (manner : Manner) (machine : Machine) : Machine :=
  match manner with
  | plain => machine
  | within environment => { machine with environment }
  | deeper => { machine with callDepth := machine.callDepth + 1 }

/-- The machine to go on with, from the one before a task and the one that the task left. -/
def Manner.after (manner : Manner) (before left : Machine) : Machine :=
  match manner with
  | plain => left
  | within _ => { left with environment := before.environment }
  | deeper => { left with callDepth := left.callDepth - 1 }

/-- An ending seen from around the task. -/
def Manner.afterAll {α : Type} (manner : Manner) (before : Machine) : Ending α → Ending α
  | .ok value left => .ok value (manner.after before left)
  | .error interruption left => .error interruption (manner.after before left)

/-- A step in other surroundings takes place between entering and leaving them. -/
theorem Manner.around_eq {α : Type} (manner : Manner) (step : Step α) (machine : Machine)
    : manner.around step machine = manner.afterAll machine (step (manner.before machine)) := by
  cases manner with
  | plain =>
      simp only [around, before]
      cases step machine <;> rfl
  | within environment =>
      simp only [around, Step.within, before]
      cases step { machine with environment } <;> rfl
  | deeper =>
      simp only [around, Step.deeper, before]
      cases step { machine with callDepth := machine.callDepth + 1 } <;> rfl

namespace Plan

variable {α β : Type}

/-- What happens in the run of a plan on a machine, where tasks that it hands on have the given
distances and budget.
-/
inductive Passes (distances : Distances) (budget : Nat) : Plan α → Machine → Event → Prop
  | step {β : Type} {first : Step β} {next : β → Plan α} {machine value after event}
    (done : first machine = .ok value after)
    (later : Passes distances budget (next value) after event)
    : Passes distances budget (.step first next) machine event
  | acting {action : Action} {next : action.Result → Plan α} {machine}
    : Passes distances budget (.act action next) machine (.acting action machine)
  | act {action : Action} {next : action.Result → Plan α} {machine value after event}
    (done : action.perform (.byDistance distances) machine = .ok value after)
    (later : Passes distances budget (next value) after event)
    : Passes distances budget (.act action next) machine event
  | handing {manner : Manner} {task : Task} {next : task.Result → Plan α} {machine}
    : Passes distances budget (.hand manner task next) machine
        (.handing ⟨distances, budget, task, manner.before machine⟩)
  | hand {manner : Manner} {task : Task} {next : task.Result → Plan α} {machine value left event}
    (done : Moment.ending ⟨distances, budget, task, manner.before machine⟩ = .ok value left)
    (later : Passes distances budget (next value) (manner.after machine left) event)
    : Passes distances budget (.hand manner task next) machine event

/-- Tasks are handed on with the distances and the budget of the run. -/
theorem Passes.handed {distances : Distances} {budget : Nat} {plan : Plan α}
    {machine : Machine} {next : Moment}
    (h : plan.Passes distances budget machine (.handing next))
    : next.distances = distances ∧ next.budget = budget := by
  generalize asked : Event.handing next = event at h
  induction h with
  | step _ _ ih => exact ih asked
  | acting => cases asked
  | act _ _ ih => exact ih asked
  | handing =>
      cases asked
      exact ⟨rfl, rfl⟩
  | hand _ _ ih => exact ih asked

end Plan

namespace Moment

/-- Something happens in the run of the plan for a moment. A moment without budget has none. -/
def Passes (moment : Moment) (event : Event) : Prop :=
  ∃ budget,
    moment.budget = budget + 1
    ∧ moment.task.plan.Passes moment.distances budget moment.machine event

/-- A moment hands a task on, which begins at another moment. -/
def Leads (moment next : Moment) : Prop := moment.Passes (.handing next)

/-- An action is performed for a moment. -/
def Does (moment : Moment) (action : Action) (machine : Machine) : Prop :=
  moment.Passes (.acting action machine)

/-- A moment comes up in the run that begins with another. -/
def Reaches : Moment → Moment → Prop := Relation.ReflTransGen Leads

theorem Leads.distances_eq {moment next : Moment} (h : moment.Leads next)
    : next.distances = moment.distances := by
  obtain ⟨budget, _, passes⟩ := h
  exact passes.handed.1

theorem Reaches.distances_eq {moment later : Moment} (h : moment.Reaches later)
    : later.distances = moment.distances := by
  induction h with
  | refl => rfl
  | tail _ leads ih => exact leads.distances_eq.trans ih

end Moment

-----------------------------------------------------------------------------------------
-- Runs step by step
-----------------------------------------------------------------------------------------

/-- How a run goes on after the ending of its first part. -/
def Ending.andThen {α β : Type} (ending : Ending α) (next : α → Machine → Ending β) : Ending β :=
  match ending with
  | .ok value after => next value after
  | .error interruption after => .error interruption after

namespace Plan

variable {α β : Type} (access : Access) (perform : (task : Task) → Step task.Result)

theorem run_step (first : Step β) (next : β → Plan α) (machine : Machine)
    : (step first next).run access perform machine
      = Ending.andThen (first machine) fun value => (next value).run access perform := by
  simp only [run, Bind.bind, EStateM.bind]
  cases first machine <;> rfl

theorem run_act (action : Action) (next : action.Result → Plan α) (machine : Machine)
    : (act action next).run access perform machine
      = Ending.andThen (action.perform access machine) fun value =>
          (next value).run access perform := by
  simp only [run, Bind.bind, EStateM.bind]
  cases action.perform access machine <;> rfl

theorem run_hand (manner : Manner) (task : Task) (next : task.Result → Plan α)
    (machine : Machine)
    : (hand manner task next).run access perform machine
      = Ending.andThen (manner.afterAll machine (perform task (manner.before machine)))
          fun value => (next value).run access perform := by
  simp only [run, Bind.bind, EStateM.bind, Manner.around_eq]
  cases manner.afterAll machine (perform task (manner.before machine)) <;> rfl

/-- A task that is handed on in the same surroundings comes first. -/
theorem run_hand_plain (task : Task) (next : task.Result → Plan α) (machine : Machine)
    : (hand .plain task next).run access perform machine
      = Ending.andThen (perform task machine) fun value => (next value).run access perform := by
  rw [run_hand]
  simp only [Manner.before]
  cases perform task machine <;> rfl

/-- A plan that only hands a task on is performed as the task. -/
theorem run_asking (task : Task) (machine : Machine)
    : (asking task).run access perform machine = perform task machine := by
  refine (run_hand_plain access perform task .done machine).trans ?_
  cases perform task machine <;> rfl

/-- A plan may be a step by itself. -/
theorem run_last (last : Step α) (machine : Machine)
    : (step last done).run access perform machine = last machine := by
  rw [run_step]
  cases last machine <;> rfl

/-- Two plans run one after the other, by induction over the first. -/
theorem run_bind (first : Plan β) (next : β → Plan α) (machine : Machine)
    : (first >>= next).run access perform machine
      = Ending.andThen (first.run access perform machine) fun value =>
          (next value).run access perform := by
  induction first generalizing machine with
  | done value => rfl
  | step first rest ih =>
      rw [run_step]
      refine (run_step ..).trans ?_
      cases first machine with
      | ok value after => exact ih value after
      | error interruption after => rfl
  | act action rest ih =>
      rw [run_act]
      refine (run_act ..).trans ?_
      cases action.perform access machine with
      | ok value after => exact ih value after
      | error interruption after => rfl
  | hand manner task rest ih =>
      rw [run_hand]
      refine (run_hand ..).trans ?_
      cases manner.afterAll machine (perform task (manner.before machine)) with
      | ok value after => exact ih value after
      | error interruption after => rfl

end Plan

/-- A value that is in a table is read there, and nothing else happens. -/
theorem Step.getHere_of_ok {machine : Machine} {address : Nat} {token : Token} {value : Value}
    (there : machine.store.getHere address token.lexeme = .ok value)
    : Step.getHere address token machine = .ok value machine := by
  simp [getHere, lookup, there]

/-- An occurrence that is found has its value read. -/
theorem Plan.run_read {α : Type} {access : Access} {perform : (task : Task) → Step task.Result}
    {machine : Machine} {use : Use} {occurrence : Occurrence} {address : Nat} {value : Value}
    (home : access.home use occurrence machine = .ok address)
    (there : machine.store.getHere address occurrence.name = .ok value) (next : Value → Plan α)
    : (Plan.read use occurrence >>= next).run access perform machine
      = (next value).run access perform machine := by
  refine (Plan.run_act ..).trans ?_
  simp only [Action.perform, Step.lookup, home, Ending.andThen]
  refine (Plan.run_step ..).trans ?_
  have read : Step.getHere address occurrence.token machine = .ok value machine :=
    Step.getHere_of_ok there
  exact congrArg (Ending.andThen · _) read

-----------------------------------------------------------------------------------------
-- Contracts
-----------------------------------------------------------------------------------------

/-- What is required of a moment before and after its task, what holds when the task is
interrupted, and what each action relies on. The ghost is what the conditions refer to and no
machine holds.
-/
structure Contract (Ghost : Type) where
  before : Ghost → Moment → Prop
  after : Ghost → (moment : Moment) → moment.task.Result → Machine → Prop
  abort : Ghost → Moment → Interruption → Machine → Prop
  allows : Ghost → Moment → Action → Machine → Prop

namespace Contract

variable {Ghost : Type} {α β : Type} (contract : Contract Ghost) (ghost : Ghost)
  (moment : Moment) (budget : Nat)

/-- An ending comes to a goal, unless it is an interruption that the contract allows for. -/
def Comes (ending : Ending α) (goal : α → Machine → Prop) : Prop :=
  match ending with
  | .ok value after => goal value after
  | .error interruption after => contract.abort ghost moment interruption after

/-- A plan keeps a contract in its run on a machine, and comes to its goal unless it is
interrupted. Tasks that it hands on are taken to keep the contract too.
-/
def Keeps : Plan α → Machine → (goal : α → Machine → Prop) → Prop
  | .done value, machine, goal => goal value machine
  | .step first next, machine, goal =>
    contract.Comes ghost moment (first machine) fun value after => Keeps (next value) after goal
  | .act action next, machine, goal =>
    moment.Does action machine
    → contract.allows ghost moment action machine
      ∧ contract.Comes ghost moment (action.perform (.byDistance moment.distances) machine)
          fun value after => Keeps (next value) after goal
  | .hand manner task next, machine, goal =>
    let inner : Moment := ⟨moment.distances, budget, task, manner.before machine⟩
    moment.Leads inner
    → ∃ other,
        contract.before other inner
        ∧ (∀ value left,
            inner.ending = .ok value left
            → contract.after other inner value left
            → Keeps (next value) (manner.after machine left) goal)
        ∧ ∀ interruption left,
            inner.ending = .error interruption left
            → contract.abort other inner interruption left
            → contract.abort ghost moment interruption (manner.after machine left)

/-- The plan of every task keeps the contract. -/
structure Sound : Prop where
  keeps
    : ∀ {ghost moment budget},
        moment.budget = budget + 1
        → contract.before ghost moment
        → contract.Keeps ghost moment budget moment.task.plan moment.machine
            (contract.after ghost moment)
  exhausted
    : ∀ {ghost moment},
        moment.budget = 0
        → contract.before ghost moment
        → contract.abort ghost moment .budget moment.machine

/-- A moment ends as the contract has it. -/
def Honours : Prop := contract.Comes ghost moment moment.ending (contract.after ghost moment)

/-- What is asked of an event in a moment that keeps the contract. -/
def Admits : Event → Prop
  | .handing next => ∃ other, contract.before other next
  | .acting action machine => contract.allows ghost moment action machine

variable {contract ghost moment budget}

theorem Comes.mono {ending : Ending α} {goal weaker : α → Machine → Prop}
    (h : contract.Comes ghost moment ending goal)
    (weaken : ∀ value after, ending = .ok value after → goal value after → weaker value after)
    : contract.Comes ghost moment ending weaker := by
  cases ending with
  | ok value after => exact weaken value after rfl h
  | error interruption after => exact h

/-- A run in two parts comes to its goal if the second does from wherever the first comes to. -/
theorem Comes.andThen {ending : Ending α} {next : α → Machine → Ending β}
    {goal : β → Machine → Prop}
    (h : contract.Comes ghost moment ending fun value after =>
      contract.Comes ghost moment (next value after) goal)
    : contract.Comes ghost moment (Ending.andThen ending next) goal := by
  cases ending <;> exact h

theorem Honours.of_ok {value : moment.task.Result} {after : Machine}
    (h : contract.Honours ghost moment) (ended : moment.ending = .ok value after)
    : contract.after ghost moment value after := by
  rwa [Honours, ended] at h

theorem Honours.of_error {interruption : Interruption} {after : Machine}
    (h : contract.Honours ghost moment) (ended : moment.ending = .error interruption after)
    : contract.abort ghost moment interruption after := by
  rwa [Honours, ended] at h

/-- The machine that is left at the end is one after the task or after an interruption. -/
theorem Honours.left (h : contract.Honours ghost moment)
    : (∃ value, contract.after ghost moment value moment.ending.machine)
      ∨ ∃ interruption, contract.abort ghost moment interruption moment.ending.machine := by
  cases ended : moment.ending with
  | ok value machine => exact .inl ⟨value, h.of_ok ended⟩
  | error interruption machine => exact .inr ⟨interruption, h.of_error ended⟩

theorem Comes.afterAll {manner : Manner} {before : Machine} {ending : Ending α}
    {goal : α → Machine → Prop}
    (ok : ∀ value left, ending = .ok value left → goal value (manner.after before left))
    (error
      : ∀ interruption left,
          ending = .error interruption left
          → contract.abort ghost moment interruption (manner.after before left))
    : contract.Comes ghost moment (manner.afterAll before ending) goal := by
  cases ending with
  | ok value left => exact ok value left rfl
  | error interruption left => exact error interruption left rfl

/-- A plan for two things one after the other keeps the contract, by induction over the first. -/
theorem Keeps.bind {first : Plan α} {next : α → Plan β} {machine : Machine}
    {goal : β → Machine → Prop}
    (h : contract.Keeps ghost moment budget first machine fun value after =>
      contract.Keeps ghost moment budget (next value) after goal)
    : contract.Keeps ghost moment budget (first >>= next) machine goal := by
  induction first generalizing machine with
  | done value => exact h
  | step first rest ih => exact Comes.mono h fun value after _ => ih value
  | act action rest ih =>
      intro does
      exact ⟨(h does).1, (h does).2.mono fun value after _ => ih value⟩
  | hand manner task rest ih =>
      intro leads
      obtain ⟨other, before, ok, interrupted⟩ := h leads
      exact ⟨other, before, fun value left ended after => ih value (ok value left ended after),
        interrupted⟩

/-- The run of a plan that keeps a contract ends as it should, and so does all that happens in
it. By induction over the plan, when tasks with the smaller budget honour the contract.
-/
theorem Keeps.run {plan : Plan α} {machine : Machine} {goal : α → Machine → Prop}
    (inner
      : ∀ {other task machine},
          contract.before other ⟨moment.distances, budget, task, machine⟩
          → contract.Honours other ⟨moment.distances, budget, task, machine⟩)
    (within
      : ∀ {event}, plan.Passes moment.distances budget machine event → moment.Passes event)
    (h : contract.Keeps ghost moment budget plan machine goal)
    : contract.Comes ghost moment
        (plan.run (.byDistance moment.distances)
          (Task.perform (.byDistance moment.distances) budget) machine)
        goal
      ∧ ∀ event,
          plan.Passes moment.distances budget machine event
          → contract.Admits ghost moment event := by
  induction plan generalizing machine with
  | done value =>
      refine ⟨h, ?_⟩
      intro event passes
      cases passes
  | step first next ih =>
      rw [Plan.run_step]
      refine ⟨.andThen (Comes.mono h fun value after ran h =>
        (ih value (fun passes => within (.step ran passes)) h).1), ?_⟩
      intro event passes
      cases passes with
      | step ran later =>
          simp only [Keeps, ran, Comes] at h
          exact (ih _ (fun passes => within (.step ran passes)) h).2 event later
  | act action next ih =>
      obtain ⟨allowed, h⟩ := h (within .acting)
      rw [Plan.run_act]
      refine ⟨.andThen (Comes.mono h fun value after ran h =>
        (ih value (fun passes => within (.act ran passes)) h).1), ?_⟩
      intro event passes
      cases passes with
      | acting => exact allowed
      | act ran later =>
          simp only [ran, Comes] at h
          exact (ih _ (fun passes => within (.act ran passes)) h).2 event later
  | hand manner task next ih =>
      obtain ⟨other, before, ok, interrupted⟩ := h (within .handing)
      have honoured := inner before
      have rest {value left} (ended : Moment.ending _ = .ok value left) :=
        ih value (fun passes => within (.hand ended passes))
          (ok value left ended (honoured.of_ok ended))
      constructor
      · rw [Plan.run_hand]
        refine .andThen (.afterAll (fun value left ended => (rest ended).1) ?_)
        intro interruption left ended
        exact interrupted interruption left ended (honoured.of_error ended)
      · intro event passes
        cases passes with
        | handing => exact ⟨other, before⟩
        | hand ended later => exact (rest ended).2 event later

/-- In a moment that a sound contract allows, the plan comes to its end and every event is
admitted. By induction over the budget.
-/
theorem Sound.run (sound : contract.Sound) (h : contract.before ghost moment)
    : contract.Honours ghost moment
      ∧ ∀ event, moment.Passes event → contract.Admits ghost moment event := by
  obtain ⟨distances, budget, task, machine⟩ := moment
  induction budget generalizing ghost task machine with
  | zero =>
      refine ⟨sound.exhausted rfl h, ?_⟩
      rintro event ⟨budget, positive, _⟩
      cases positive
  | succ budget ih =>
      have kept := sound.keeps rfl h
      obtain ⟨ended, events⟩ := kept.run (fun before => (ih _ _ before).1)
        (fun passes => ⟨budget, rfl, passes⟩)
      refine ⟨ended, ?_⟩
      rintro event ⟨_, same, passes⟩
      cases same
      exact events event passes

theorem Sound.honours (sound : contract.Sound) (h : contract.before ghost moment)
    : contract.Honours ghost moment :=
  (sound.run h).1

/-- What an action relies on holds wherever the action is performed. -/
theorem Sound.allows (sound : contract.Sound) (h : contract.before ghost moment)
    {action : Action} {machine : Machine} (does : moment.Does action machine)
    : contract.allows ghost moment action machine :=
  (sound.run h).2 _ does

/-- The requirement of a sound contract holds of every moment that a run reaches. -/
theorem Sound.reaches (sound : contract.Sound) (h : contract.before ghost moment)
    {later : Moment} (reaches : moment.Reaches later)
    : ∃ other, contract.before other later := by
  induction reaches with
  | refl => exact ⟨ghost, h⟩
  | tail _ leads ih =>
      obtain ⟨other, before⟩ := ih
      exact (sound.run before).2 _ leads

end Contract
end Lox
