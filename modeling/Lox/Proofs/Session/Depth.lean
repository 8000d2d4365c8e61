import Lox.Proofs.Session.Control

/-! The depth of calls and the current environment in a session. However a task ends, both are as
they were before it; in between, the depth is the number of calls that are going on, and no call
begins beyond the limit of the session.
-/

namespace Lox

namespace Moment

-----------------------------------------------------------------------------------------
-- Tasks that are going on
-----------------------------------------------------------------------------------------

/-- A moment comes up in the run that begins with another one, while the tasks of some moments are
going on. Each of these has handed the next on; the innermost stands first.
-/
inductive Nests (first : Moment) : List Moment → Moment → Prop
  | here : Nests first [] first
  | deeper {pending moment next} (nests : Nests first pending moment) (leads : moment.Leads next)
    : Nests first (moment :: pending) next

/-- The number of calls among the tasks that are going on. -/
def calls (pending : List Moment) : Nat := pending.countP (·.task.isCall)

variable {first moment next : Moment} {pending : List Moment}

/-- What comes up in a run are the moments in which some tasks are going on. -/
theorem reaches_iff_exists_nests
    : first.Reaches moment ↔ ∃ pending, first.Nests pending moment := by
  constructor
  · intro reaches
    induction reaches with
    | refl => exact ⟨[], .here⟩
    | tail _ leads ih =>
        obtain ⟨pending, nests⟩ := ih
        exact ⟨_ :: pending, nests.deeper leads⟩
  · rintro ⟨pending, nests⟩
    induction nests with
    | here => exact .refl
    | deeper _ leads ih => exact ih.tail leads

-----------------------------------------------------------------------------------------
-- The depth of calls
-----------------------------------------------------------------------------------------

/-- A task is handed on at the depth of its moment, and one deeper by a call. -/
theorem Leads.callDepth (h : moment.Leads next)
    : next.machine.callDepth = moment.machine.callDepth + (if moment.task.isCall then 1 else 0)
      ∧ next.machine.maxDepth = moment.machine.maxDepth := by
  obtain ⟨manner, state, visits, same, deeper⟩ := h.exists_visit
  obtain ⟨_, callDepth, maxDepth⟩ := visits.proceeds.balanced
  rw [same, ← deeper, ← callDepth, ← maxDepth]
  cases manner <;> exact ⟨rfl, rfl⟩

/-- The depth counts the calls that are going on, by induction over the tasks. -/
theorem Nests.callDepth (h : first.Nests pending moment)
    : moment.machine.callDepth = first.machine.callDepth + calls pending
      ∧ moment.machine.maxDepth = first.machine.maxDepth := by
  induction h with
  | here => exact ⟨rfl, rfl⟩
  | deeper _ leads ih =>
      obtain ⟨depth, limit⟩ := leads.callDepth
      refine ⟨?_, limit.trans ih.2⟩
      rw [depth, ih.1, Nat.add_assoc]
      exact congrArg _ List.countP_cons.symm

end Moment

/-- A call that goes on is not at the limit yet. -/
theorem Step.eq_of_checkCall {closing : Token} {arity given : Nat} {machine after : Machine}
    (ran : Plan.checkCall closing arity given machine = .ok () after)
    : after = machine ∧ machine.callDepth < machine.maxDepth := by
  unfold Plan.checkCall at ran
  split at ran
  · cases ran
  · change (if machine.maxDepth ≤ machine.callDepth then Step.fault closing .stackOverflow
      else Pure.pure () : Step Unit) machine = _ at ran
    split at ran
    · cases ran
    · next below =>
        cases ran
        exact ⟨rfl, Nat.lt_of_not_le below⟩

/-- Nothing is handed on by a call at the limit. -/
theorem Plan.lt_maxDepth_of_passes {distances : Distances} {budget : Nat} {callee : Value}
    {closing : Token} {arguments : List Value} {machine : Machine} {next : Moment}
    (passes
      : (Plan.ofCall callee closing arguments).Passes distances budget machine (.handing next))
    : machine.callDepth < machine.maxDepth := by
  cases callee with
  | native callee =>
      cases passes with
      | step ran later => exact (Step.eq_of_checkCall ran).2
  | function callee =>
      cases passes with
      | step ran later => exact (Step.eq_of_checkCall ran).2
  | «class» definition =>
      cases passes with
      | step ran later => exact (Step.eq_of_checkCall ran).2
  | nil | bool _ | number _ | string _ | «instance» _ =>
      cases passes with
      | step ran later => cases ran

namespace Moment

/-- The limit is kept where a task is handed on. -/
theorem Leads.le_maxDepth {moment next : Moment} (h : moment.Leads next)
    (le : moment.machine.callDepth ≤ moment.machine.maxDepth)
    : next.machine.callDepth ≤ next.machine.maxDepth := by
  obtain ⟨depth, limit⟩ := h.callDepth
  rw [depth, limit]
  obtain ⟨distances, budget, task, machine⟩ := moment
  obtain ⟨less, _, passes⟩ := h
  cases task with
  | call callee closing arguments => exact Plan.lt_maxDepth_of_passes passes
  | evaluate | evaluateAll | invoke | construct | execute | executeAll | loop => exact le

/-- No call begins beyond the limit, by induction over the tasks. -/
theorem Nests.le_maxDepth {first moment : Moment} {pending : List Moment}
    (h : first.Nests pending moment)
    (le : first.machine.callDepth ≤ first.machine.maxDepth)
    : moment.machine.callDepth ≤ moment.machine.maxDepth := by
  induction h with
  | here => exact le
  | deeper _ leads ih => exact leads.le_maxDepth ih

end Moment

namespace Session

variable {config : Config} {sink : Sink} {clock : Nat → Float} {requests : List Request}
  {request : Request} {session opened : Session} {task : Task}

-----------------------------------------------------------------------------------------
-- Between requests
-----------------------------------------------------------------------------------------

/-- A request leaves the environment and the depth as they were. -/
theorem balanced_take (session : Session) (request : Request)
    : session.machine.Balanced (session.take request).machine := by
  rcases answers_take session request with ⟨opened, task, begins, continues, _⟩ | continues
  · have ran : opened.machine.Balanced _ := (opened.moment task).ending_proceeds.balanced
    rw [begins.opens.machine] at ran
    exact ran.trans continues.balanced
  · exact continues.balanced

/-- By induction over the requests. -/
theorem balanced_takeAll (session : Session) (requests : List Request)
    : session.machine.Balanced (session.takeAll requests).machine := by
  induction requests generalizing session with
  | nil => exact .refl _
  | cons request rest ih => exact (session.balanced_take request).trans (ih (session.take request))

-----------------------------------------------------------------------------------------
-- In the course of a session
-----------------------------------------------------------------------------------------

/-- Whatever the machine that a task or a block begins on, it leaves the environment and the depth
of calls as they were, also when it is interrupted. In any evaluation of a session, the depth is
the number of calls that are going on and is within the limit, also for a native function, which
is called one deeper. Between requests, no call is going on and the globals are current.
-/
theorem depth_counts_calls
    (begins : ((start config sink clock).takeAll requests).Begins request opened task)
    : (∀ access budget (task : Task) (machine : Machine),
        machine.Balanced (Ending.machine (task.perform access budget machine)))
      ∧ (∀ access budget body environment (machine : Machine),
          machine.Balanced
            (Ending.machine
              (Step.within environment (Task.perform access budget (.executeAll body)) machine)))
      ∧ (∀ pending moment state,
          (opened.moment task).Nests pending moment
          → state = moment.machine ∨ moment.Visits state
          → state.callDepth = Moment.calls pending ∧ Moment.calls pending ≤ config.maxDepth)
      ∧ (∀ pending distances budget callee closing arguments arity machine state,
          (opened.moment task).Nests pending
              ⟨distances, budget, .call callee closing arguments, machine⟩
          → Plan.checkCall closing arity arguments.length machine = .ok () state
          → state.callDepth + 1
              = Moment.calls
                  (⟨distances, budget, .call callee closing arguments, machine⟩ :: pending)
            ∧ state.callDepth + 1 ≤ config.maxDepth)
      ∧ ((start config sink clock).takeAll requests).machine.callDepth = 0
      ∧ ((start config sink clock).takeAll requests).machine.environment = .globals := by
  have between := (start config sink clock).balanced_takeAll requests
  have idle : opened.machine.callDepth = 0 := by
    rw [begins.opens.machine]
    exact between.callDepth
  have limit : opened.machine.maxDepth = config.maxDepth := by
    rw [begins.opens.machine]
    exact between.maxDepth
  have depth {pending moment} (nests : (opened.moment task).Nests pending moment)
      : moment.machine.callDepth = Moment.calls pending
        ∧ moment.machine.maxDepth = config.maxDepth := by
    obtain ⟨counted, same⟩ := nests.callDepth
    refine ⟨counted.trans ?_, same.trans limit⟩
    exact (congrArg (· + _) idle).trans (Nat.zero_add _)
  refine ⟨?_, ?_, ?_, ?_, between.callDepth, between.environment⟩
  · intro access budget task machine
    exact (task.perform_proceeds access budget machine).balanced
  · intro access budget body environment machine
    have proceeds := Task.perform_proceeds access budget (.executeAll body)
    exact (proceeds.around (.within environment) machine).balanced
  · intro pending moment state nests at_
    obtain ⟨counted, same⟩ := depth nests
    have within := nests.le_maxDepth (Nat.le_trans (Nat.le_of_eq idle) (Nat.zero_le _))
    rw [counted, same] at within
    refine ⟨?_, within⟩
    rcases at_ with rfl | visits
    · exact counted
    · exact visits.proceeds.balanced.callDepth.trans counted
  · intro pending distances budget callee closing arguments arity machine state nests checked
    obtain ⟨counted, same⟩ := depth nests
    obtain ⟨rfl, below⟩ := Step.eq_of_checkCall checked
    refine ⟨?_, same ▸ below⟩
    exact (congrArg (· + 1) counted).trans (List.countP_cons_of_pos rfl).symm

/-- Where an initializer runs, the depth is the number of calls around it. -/
theorem depth_counts_calls_of_initializer
    : ∃ (first : Moment) (distances : Distances) (budget : Nat) (closure : Closure)
          (machine : Machine) (pending : List Moment),
        first.Nests pending ⟨distances, budget, .invoke closure [], machine⟩
        ∧ closure.initializes = true
        ∧ machine.callDepth = Moment.calls pending := by
  obtain ⟨opened, task, distances, budget, closure, machine, less, inside, begins, reaches, leads,
    initializes⟩ := exists_initializer_run
  obtain ⟨pending, nests⟩ := Moment.reaches_iff_exists_nests.1 reaches
  exact ⟨opened.moment task, distances, budget, closure, machine, pending, nests, initializes,
    ((depth_counts_calls begins).2.2.1 _ _ _ nests (.inl rfl)).1⟩

end Session
end Lox
