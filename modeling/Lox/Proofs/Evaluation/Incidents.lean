import Lox.Proofs.Evaluation.Instances
import Lox.Proofs.Evaluation.Moments
import Lox.Proofs.Evaluation.Plans
import Lox.Proofs.Evaluation.Steps

/-! What happens to instances in a run. A construction makes an instance before all else, and an
assignment to a field takes place when the instance and the value have been evaluated; nothing else
changes an instance. So every moment finds the instances as the changes before it have left them.
-/

namespace Lox

-----------------------------------------------------------------------------------------
-- The incidents of a run
-----------------------------------------------------------------------------------------

/-- What happens in a run, as far as instances go. -/
inductive Incident where
  /-- A task is about to be performed. -/
  | moment (moment : Moment)
  /-- An instance is made or assigned to. -/
  | change (change : InstanceChange)

/-- The changes among incidents, in order. -/
def Incident.changes : List Incident → List InstanceChange
  | [] => []
  | .moment _ :: rest => changes rest
  | .change made :: rest => made :: changes rest

/-- What comes after an ending, if it is no interruption. -/
def Ending.follow {α β : Type} (ending : Ending α) (next : α → Machine → List β) : List β :=
  match ending with
  | .ok value after => next value after
  | .error _ _ => []

/-- The incidents in the run of a plan on a machine, from those of the tasks that it hands on. -/
def Plan.incidents {α : Type} (distances : Distances) (budget : Nat)
    (tasks : Task → Machine → List Incident) : Plan α → Machine → List Incident
  | .done _, _ => []
  | .step first next, machine =>
    Ending.follow (first machine) fun value => incidents distances budget tasks (next value)
  | .act action next, machine =>
    Ending.follow (action.perform (.byDistance distances) machine) fun value =>
      incidents distances budget tasks (next value)
  | .hand manner task next, machine =>
    let inner : Moment := ⟨distances, budget, task, manner.before machine⟩
    tasks task (manner.before machine)
      ++ Ending.follow (manner.afterAll machine inner.ending) fun value =>
        incidents distances budget tasks (next value)

namespace Task

/-- The instance that a task makes at its beginning. -/
def makes : Task → List InstanceChange
  | .construct definition _ => [.make definition]
  | _ => []

/-- The assignment that a task makes at its end, if it comes so far: that of the value to the field
of the instance.
-/
def assigns (distances : Distances) (budget : Nat) : Task → Machine → List InstanceChange
  | .evaluate (.set object name value), machine =>
    Ending.follow (Moment.ending ⟨distances, budget, .evaluate object, machine⟩) fun
      | .instance address => fun between =>
        Ending.follow (Moment.ending ⟨distances, budget, .evaluate value, between⟩) fun given _ =>
          [.assign ⟨address, name.lexeme, given⟩]
      | _ => fun _ => []
  | _, _ => []

/-- The incidents in the run of a task on a machine, in order. -/
def incidents (distances : Distances) : (budget : Nat) → Task → Machine → List Incident
  | 0, task, machine => [.moment ⟨distances, 0, task, machine⟩]
  | budget + 1, task, machine =>
    .moment ⟨distances, budget + 1, task, machine⟩
      :: (task.makes.map .change
        ++ task.plan.incidents distances budget (incidents distances budget) machine
        ++ (task.assigns distances budget machine).map .change)

end Task

namespace Moment

/-- The incidents in the run that begins with a moment, in order. -/
def incidents (moment : Moment) : List Incident :=
  moment.task.incidents moment.distances moment.budget moment.machine

/-- What happens to instances in the run that begins with a moment, in order. -/
def changes (moment : Moment) : List InstanceChange := Incident.changes moment.incidents

end Moment

-----------------------------------------------------------------------------------------
-- Instances accounted for
-----------------------------------------------------------------------------------------

/-- Every moment finds the instances as the changes before it have left them, and so are the last
ones left.
-/
def Accounts : List Incident → (first last : Array Instance) → Prop
  | [], first, last => last = first
  | .moment moment :: rest, first, last =>
    moment.machine.instances = first ∧ Accounts rest first last
  | .change change :: rest, first, last => Accounts rest (change.apply first) last

namespace Accounts

variable {incidents more : List Incident} {first middle last : Array Instance}

/-- By induction over the incidents before. -/
theorem append (h : Accounts incidents first middle) (next : Accounts more middle last)
    : Accounts (incidents ++ more) first last := by
  induction incidents generalizing first with
  | nil =>
      cases h
      exact next
  | cons incident rest ih =>
      cases incident with
      | moment moment => exact ⟨h.1, ih h.2⟩
      | change change => exact ih h

/-- All changes together leave the last instances, by induction over the incidents. -/
theorem last_eq (h : Accounts incidents first last)
    : last = InstanceChange.applyAll (Incident.changes incidents) first := by
  induction incidents generalizing first with
  | nil => exact h
  | cons incident rest ih =>
      cases incident with
      | moment moment => exact ih h.2
      | change change => exact ih h

/-- The incidents before one account for the instances that it finds. -/
theorem before (h : Accounts (incidents ++ more) first last)
    : ∃ middle, Accounts incidents first middle ∧ Accounts more middle last := by
  induction incidents generalizing first with
  | nil => exact ⟨first, rfl, h⟩
  | cons incident rest ih =>
      cases incident with
      | moment moment =>
          obtain ⟨middle, earlier, later⟩ := ih h.2
          exact ⟨middle, ⟨h.1, earlier⟩, later⟩
      | change change => exact ih h

/-- A moment finds the instances as the changes before it have left them. -/
theorem found {moment : Moment} (h : Accounts (incidents ++ .moment moment :: more) first last)
    : moment.machine.instances
      = InstanceChange.applyAll (Incident.changes incidents) first := by
  obtain ⟨middle, earlier, later⟩ := h.before
  exact later.1.trans earlier.last_eq

/-- A run in two parts is accounted for if both are. -/
theorem follow {α β : Type} {ending : Ending α} {next : α → Machine → List Incident}
    {goOn : α → Machine → Ending β}
    (h : Accounts incidents first ending.machine.instances)
    (later
      : ∀ value after,
          ending = .ok value after
          → Accounts (next value after) after.instances (goOn value after).machine.instances)
    : Accounts (incidents ++ ending.follow next) first
        (Ending.andThen ending goOn).machine.instances := by
  apply append h
  cases ending with
  | ok value after => exact later value after rfl
  | error interruption after => rfl

end Accounts

-----------------------------------------------------------------------------------------
-- Steps and plans that change no instance
-----------------------------------------------------------------------------------------

namespace Step

variable {α : Type} {machine : Machine}

theorem Quiet.spares {step : Step α} {good : α → Prop} (quiet : Quiet step machine good)
    : (Ending.machine (step machine)).instances = machine.instances := by
  unfold Quiet at quiet
  split at quiet
  all_goals
    next ran =>
      rw [ran]
      exact quiet.1.instances

theorem spares_lookup (token : Token) (find : Machine → Except LookupError α)
    : (Ending.machine (lookup token find machine)).instances = machine.instances := by
  unfold lookup
  split <;> rfl

theorem spares_overwrite (name : Token) (value : Value)
    : (Ending.machine (overwrite name value machine)).instances = machine.instances := by
  simp only [overwrite, Bind.bind, EStateM.bind, lookup]
  cases machine.store.find machine.environment name.lexeme <;> rfl

/-- A step that neither makes an instance nor assigns to one changes none. -/
theorem Primitive.spares {effect : Effect} {step : Step α} (primitive : step.Primitive effect)
    (makes : effect ≠ .make) (assigns : effect ≠ .assign)
    : (Ending.machine (step machine)).instances = machine.instances := by
  cases primitive with
  | fault | setSlot | define => rfl
  | getHere => exact spares_lookup _ _
  | receiver =>
      unfold Step.receiver getAt
      exact spares_lookup _ _
  | overwrite => exact spares_overwrite _ _
  | setField may => exact absurd may assigns
  | newInstance may => exact absurd may makes
  | freshIdentity => exact (quiet_freshIdentity machine).spares
  | functionOf => exact (quiet_functionOf machine _).spares
  | functionHere => exact (quiet_functionHere machine _).spares
  | unary => exact (quiet_unary machine _ _).spares
  | binary => exact (quiet_binary machine _ _ _).spares
  | checkCall => exact (quiet_checkCall machine _ _ _).spares
  | callNative => exact (quiet_deeper machine (quiet_callNative _ _ _)).spares
  | print => exact (quiet_print machine _).spares

end Step

theorem Action.spares (access : Access) (action : Action) (machine : Machine)
    : (Ending.machine (action.perform access machine)).instances = machine.instances := by
  cases action with
  | locate | locateReceiver => exact Step.spares_lookup _ _
  | enter => rfl

theorem Manner.instances_before (manner : Manner) (machine : Machine)
    : (manner.before machine).instances = machine.instances := by
  cases manner <;> rfl

theorem Manner.instances_after (manner : Manner) (machine left : Machine)
    : (manner.after machine left).instances = left.instances := by
  cases manner <;> rfl

theorem Manner.instances_afterAll {α : Type} (manner : Manner) (machine : Machine)
    (ending : Ending α)
    : (manner.afterAll machine ending).machine.instances = ending.machine.instances := by
  cases ending with
  | ok value left => exact manner.instances_after machine left
  | error interruption left => exact manner.instances_after machine left

-----------------------------------------------------------------------------------------
-- Runs
-----------------------------------------------------------------------------------------

/-- The run that begins with a moment is accounted for. -/
def Moment.Accounted (moment : Moment) : Prop :=
  Accounts moment.incidents moment.machine.instances moment.ending.machine.instances

section Runs

variable {distances : Distances} {budget : Nat} {machine : Machine}

theorem Plan.incidents_hand_plain {α : Type} (tasks : Task → Machine → List Incident)
    (task : Task) (next : task.Result → Plan α)
    : (Plan.hand .plain task next).incidents distances budget tasks machine
      = tasks task machine
        ++ Ending.follow (Moment.ending ⟨distances, budget, task, machine⟩) fun value =>
          (next value).incidents distances budget tasks := by
  rw [incidents]
  simp only [Manner.before]
  cases Moment.ending ⟨distances, budget, task, machine⟩ <;> rfl

/-- A plan that neither makes an instance nor assigns to one is accounted for by the tasks that it
hands on. By induction over what it is made of.
-/
theorem Plan.Made.accounts {α : Type} {plan : Plan α} {effect : Effect} {isCall : Bool}
    (made : plan.Made effect isCall) (makes : effect ≠ .make) (assigns : effect ≠ .assign)
    (tasks : ∀ task machine, Moment.Accounted ⟨distances, budget, task, machine⟩)
    (machine : Machine)
    : Accounts (plan.incidents distances budget (Task.incidents distances budget) machine)
        machine.instances
        (Ending.machine
          (plan.run (.byDistance distances) (Task.perform (.byDistance distances) budget)
            machine)).instances := by
  induction made generalizing machine with
  | done value => rfl
  | @step β first next primitive _ ih =>
      have spared : Accounts [] machine.instances (Ending.machine (first machine)).instances :=
        primitive.spares makes assigns
      rw [Plan.run_step]
      exact spared.follow fun value after _ => ih value after
  | look _ _ ih => exact ih machine machine
  | @act action next _ ih =>
      have spared
          : Accounts [] machine.instances
              (Ending.machine (action.perform (.byDistance distances) machine)).instances :=
        action.spares (.byDistance distances) machine
      rw [Plan.run_act]
      exact spared.follow fun value after _ => ih value after
  | @hand manner task next _ _ ih =>
      have inner := tasks task (manner.before machine)
      unfold Moment.Accounted at inner
      rw [manner.instances_before, ← manner.instances_afterAll machine] at inner
      rw [Plan.run_hand]
      exact inner.follow fun value after _ => ih value after

namespace Task

theorem makes_of_ne {task : Task} (h : task.effect ≠ .make) : task.makes = [] := by
  cases task with
  | construct definition arguments => exact absurd rfl h
  | _ => rfl

theorem assigns_of_ne {task : Task} (h : task.effect ≠ .assign)
    : task.assigns distances budget machine = [] := by
  cases task with
  | evaluate expr =>
      cases expr with
      | set object name value => exact absurd rfl h
      | _ => rfl
  | _ => rfl

theorem exists_construct {task : Task} (h : task.effect = .make)
    : ∃ definition arguments, task = .construct definition arguments := by
  unfold effect at h
  split at h
  · cases h
  · exact ⟨_, _, rfl⟩
  · cases h
  · cases h

theorem exists_set {task : Task} (h : task.effect = .assign)
    : ∃ object name value, task = .evaluate (.set object name value) := by
  unfold effect at h
  split at h
  · cases h
  · cases h
  · exact ⟨_, _, _, rfl⟩
  · cases h

/-- A run is accounted for from its beginning over its plan to its end. -/
theorem accounted_of_parts {task : Task} {begun ran : Array Instance}
    (makes : Accounts (task.makes.map .change) machine.instances begun)
    (plan
      : Accounts (task.plan.incidents distances budget (incidents distances budget) machine) begun
          ran)
    (assigns
      : Accounts ((task.assigns distances budget machine).map .change) ran
          (Moment.ending ⟨distances, budget + 1, task, machine⟩).machine.instances)
    : Moment.Accounted ⟨distances, budget + 1, task, machine⟩ :=
  ⟨rfl, (makes.append plan).append assigns⟩

/-- A construction makes its instance first; the rest is done by the initializer. -/
theorem accounted_construct
    (tasks : ∀ task machine, Moment.Accounted ⟨distances, budget, task, machine⟩)
    (definition : Class) (arguments : List Value)
    : Moment.Accounted ⟨distances, budget + 1, .construct definition arguments, machine⟩ := by
  let added : Machine :=
    { machine with instances := machine.instances.push ⟨definition, .empty⟩ }
  have first : Accounts [.change (.make definition)] machine.instances added.instances := rfl
  have made : Plan.Made .none false _ :=
    Plan.made_initialization definition arguments (.instance machine.instances.size)
  exact accounted_of_parts first (made.accounts nofun nofun tasks added) rfl

/-- What an assignment to a field comes to, when the instance has been evaluated. -/
theorem ending_set (object : Expr) (name : Token) (value : Expr)
    : Moment.ending ⟨distances, budget + 1, .evaluate (.set object name value), machine⟩
      = Ending.andThen (Moment.ending ⟨distances, budget, .evaluate object, machine⟩) fun
          | .instance address => fun between =>
            Ending.andThen (Moment.ending ⟨distances, budget, .evaluate value, between⟩)
              fun given after =>
                .ok given
                  { after with
                    instances :=
                      (Assignment.mk address name.lexeme given).apply after.instances }
          | _ => fun between => .error (.fault ⟨name, .noFields⟩) between := by
  refine (Plan.run_hand_plain ..).trans ?_
  refine congrArg (Ending.andThen _) (funext fun target => funext fun between => ?_)
  cases target with
  | «instance» address => exact Plan.run_hand_plain ..
  | _ => rfl

/-- An assignment to a field evaluates the instance and the value, and is made then. -/
theorem incidents_set (object : Expr) (name : Token) (value : Expr)
    : (Task.evaluate (.set object name value)).plan.incidents distances budget
          (incidents distances budget) machine
        ++ ((Task.evaluate (.set object name value)).assigns distances budget machine).map .change
      = Task.incidents distances budget (.evaluate object) machine
        ++ Ending.follow (Moment.ending ⟨distances, budget, .evaluate object, machine⟩) fun
          | .instance address => fun between =>
            Task.incidents distances budget (.evaluate value) between
              ++ Ending.follow (Moment.ending ⟨distances, budget, .evaluate value, between⟩)
                  fun given _ => [.change (.assign ⟨address, name.lexeme, given⟩)]
          | _ => fun _ => [] := by
  have run
      : (Task.evaluate (.set object name value)).plan.incidents distances budget
          (incidents distances budget) machine
        = _ := Plan.incidents_hand_plain ..
  rw [run, List.append_assoc]
  refine congrArg (_ ++ ·) ?_
  cases first : Moment.ending ⟨distances, budget, .evaluate object, machine⟩ with
  | error interruption left =>
      simp only [assigns, first]
      rfl
  | ok target between =>
      simp only [assigns, first, Ending.follow]
      cases target with
      | «instance» address =>
          have rest
              : Plan.incidents distances budget (incidents distances budget)
                  (Plan.evaluate value >>= fun given => do
                    Step.setField address name.lexeme given
                    return given)
                  between
                = _ := Plan.incidents_hand_plain ..
          refine (congrArg (· ++ _) rest).trans ?_
          rw [List.append_assoc]
          refine congrArg (_ ++ ·) ?_
          cases second : Moment.ending ⟨distances, budget, .evaluate value, between⟩ <;>
            simp only [second] <;>
            rfl
      | _ => rfl

/-- An assignment is made last, when the instance and the value have been evaluated. -/
theorem accounted_set
    (tasks : ∀ task machine, Moment.Accounted ⟨distances, budget, task, machine⟩)
    (object : Expr) (name : Token) (value : Expr)
    : Moment.Accounted ⟨distances, budget + 1, .evaluate (.set object name value), machine⟩ := by
  refine ⟨rfl, ?_⟩
  rw [ending_set, List.append_assoc, incidents_set]
  refine (tasks (.evaluate object) machine).follow fun target between _ => ?_
  cases target with
  | «instance» address =>
      exact (tasks (.evaluate value) between).follow fun given after _ => rfl
  | _ => rfl

/-- Every run is accounted for, by induction over the budget. -/
theorem accounted (distances : Distances) (budget : Nat) (task : Task) (machine : Machine)
    : Moment.Accounted ⟨distances, budget, task, machine⟩ := by
  induction budget generalizing task machine with
  | zero => exact ⟨rfl, rfl⟩
  | succ budget ih =>
      by_cases makes : task.effect = .make
      · obtain ⟨definition, arguments, rfl⟩ := exists_construct makes
        exact accounted_construct ih definition arguments
      by_cases assigns : task.effect = .assign
      · obtain ⟨object, name, value, rfl⟩ := exists_set assigns
        exact accounted_set ih object name value
      have run := task.plan_made.accounts makes assigns ih machine
      refine ⟨rfl, ?_⟩
      rw [makes_of_ne makes, assigns_of_ne assigns, List.map_nil, List.append_nil]
      exact run

end Task

-----------------------------------------------------------------------------------------
-- The moments of a run
-----------------------------------------------------------------------------------------

/-- A task that a plan hands on has its incidents among those of the plan. By induction over the
parts before it.
-/
theorem Plan.Passes.incidents_subset {α : Type} {plan : Plan α} {next : Moment}
    (h : plan.Passes distances budget machine (.handing next))
    : next.incidents
      ⊆ plan.incidents distances budget (Task.incidents distances budget) machine := by
  generalize asked : Event.handing next = event at h
  induction h with
  | acting => cases asked
  | handing =>
      cases asked
      exact List.subset_append_left _ _
  | step done _ ih =>
      rw [incidents, done]
      exact ih asked
  | act done _ ih =>
      rw [incidents, done]
      exact ih asked
  | hand done _ ih =>
      rw [incidents]
      dsimp only
      rw [done]
      exact List.Subset.trans (ih asked) (List.subset_append_right _ _)

/-- An incident in the run of a plan is one in a task that the plan hands on. By induction over the
plan.
-/
theorem Plan.exists_passes_of_mem {α : Type} {plan : Plan α} {incident : Incident}
    (member
      : incident ∈ plan.incidents distances budget (Task.incidents distances budget) machine)
    : ∃ next, plan.Passes distances budget machine (.handing next) ∧ incident ∈ next.incidents := by
  induction plan generalizing machine with
  | done value => cases member
  | step first next ih =>
      rw [incidents] at member
      cases done : first machine with
      | error interruption after =>
          rw [done] at member
          cases member
      | ok value after =>
          rw [done] at member
          obtain ⟨inner, passes, inside⟩ := ih value member
          exact ⟨inner, .step done passes, inside⟩
  | act action next ih =>
      rw [incidents] at member
      cases done : action.perform (.byDistance distances) machine with
      | error interruption after =>
          rw [done] at member
          cases member
      | ok value after =>
          rw [done] at member
          obtain ⟨inner, passes, inside⟩ := ih value member
          exact ⟨inner, .act done passes, inside⟩
  | hand manner task next ih =>
      rw [incidents] at member
      rcases List.mem_append.1 member with here | later
      · exact ⟨_, .handing, here⟩
      · cases done : Moment.ending ⟨distances, budget, task, manner.before machine⟩ with
        | error interruption left =>
            rw [done] at later
            cases later
        | ok value left =>
            rw [done] at later
            obtain ⟨inner, passes, inside⟩ := ih value later
            exact ⟨inner, .hand done passes, inside⟩

end Runs

namespace Moment

theorem accounted (moment : Moment) : moment.Accounted :=
  Task.accounted moment.distances moment.budget moment.task moment.machine

/-- A moment that a run hands on has its incidents among those of the run. -/
theorem Leads.incidents_subset {moment next : Moment} (h : moment.Leads next)
    : next.incidents ⊆ moment.incidents := by
  obtain ⟨distances, budget, task, machine⟩ := moment
  obtain ⟨less, same, passes⟩ := h
  dsimp only at same
  subst same
  intro incident member
  apply List.mem_cons_of_mem
  apply List.mem_append_left
  apply List.mem_append_right
  exact passes.incidents_subset member

/-- A run begins with its first moment. -/
theorem exists_incidents_eq_cons (moment : Moment)
    : ∃ rest, moment.incidents = .moment moment :: rest := by
  obtain ⟨distances, budget, task, machine⟩ := moment
  cases budget with
  | zero => exact ⟨_, rfl⟩
  | succ budget => exact ⟨_, rfl⟩

/-- A moment that is an incident comes up in the run. By induction over the budget. -/
theorem reaches_of_mem {distances : Distances} {budget : Nat} {task : Task} {machine : Machine}
    {later : Moment} (member : .moment later ∈ task.incidents distances budget machine)
    : Reaches ⟨distances, budget, task, machine⟩ later := by
  induction budget generalizing task machine with
  | zero =>
      cases List.mem_singleton.1 member
      exact .refl
  | succ budget ih =>
      rcases List.mem_cons.1 member with same | within
      · cases same
        exact .refl
      rcases List.mem_append.1 within with within | assigned
      · rcases List.mem_append.1 within with made | inside
        · obtain ⟨_, _, other⟩ := List.mem_map.1 made
          cases other
        · obtain ⟨⟨_, _, inner, state⟩, passes, deeper⟩ := Plan.exists_passes_of_mem inside
          obtain ⟨same, less⟩ := passes.handed
          cases same
          cases less
          exact .head ⟨_, rfl, passes⟩ (ih deeper)
      · obtain ⟨_, _, other⟩ := List.mem_map.1 assigned
        cases other

/-- The moments among the incidents are those that come up in the run. -/
theorem mem_incidents {first later : Moment}
    : .moment later ∈ first.incidents ↔ first.Reaches later := by
  constructor
  · exact reaches_of_mem
  · intro reaches
    induction reaches using Relation.ReflTransGen.head_induction_on with
    | refl =>
        obtain ⟨rest, run⟩ := later.exists_incidents_eq_cons
        exact run ▸ List.mem_cons_self
    | head leads _ ih => exact leads.incidents_subset ih

end Moment
end Lox
