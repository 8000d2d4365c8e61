import Lox.Proofs.Evaluation.Moments

/-! Two ways of finding bindings that agree wherever a run looks one up. They give the same run,
with any budget for the second that is at least as large, if only the first run comes to its end
within its own budget.
-/

namespace Lox

/-- A run comes to its end before its budget does. -/
def Moment.Finishes (moment : Moment) : Prop :=
  ∀ machine, moment.ending ≠ .error .budget machine

/-- Another way of finding bindings finds the same wherever the run from a moment looks one up. -/
def Moment.Suits (moment : Moment) (access : Access) : Prop :=
  ∀ later,
    moment.Reaches later
    → ∀ action machine,
        later.Does action machine
        → action.perform access machine
          = action.perform (.byDistance moment.distances) machine

theorem Moment.Suits.leads {moment next : Moment} {access : Access} (h : moment.Suits access)
    (leads : moment.Leads next)
    : next.Suits access := by
  intro later reaches action machine does
  rw [leads.distances_eq]
  exact h later (.head leads reaches) action machine does

/-- The run of a plan is the same in another way of finding bindings and with another budget, if
this is so for the actions and tasks in it. By induction over the plan; an interrupted task
interrupts the plan, so that a plan which finishes hands on only tasks which do.
-/
theorem Plan.run_eq {α : Type} {distances : Distances} {access : Access} {budget more : Nat}
    {equal : Prop} (plan : Plan α) (machine : Machine)
    (actions
      : ∀ {action machine'},
          plan.Passes distances budget machine (.acting action machine')
          → action.perform access machine' = action.perform (.byDistance distances) machine')
    (tasks
      : ∀ {next : Moment},
          plan.Passes distances budget machine (.handing next)
          → equal ∨ next.Finishes
          → next.task.perform access more next.machine = next.ending)
    (enough
      : equal
        ∨ ∀ machine',
            plan.run (.byDistance distances) (Task.perform (.byDistance distances) budget) machine
              ≠ .error .budget machine')
    : plan.run access (Task.perform access more) machine
      = plan.run (.byDistance distances) (Task.perform (.byDistance distances) budget)
          machine := by
  induction plan generalizing machine with
  | done value => rfl
  | step first next ih =>
      rw [Plan.run_step] at enough
      rw [Plan.run_step, Plan.run_step]
      cases ran : first machine with
      | error interruption after => rfl
      | ok value after =>
          rw [ran] at enough
          exact ih value after (fun passes => actions (.step ran passes))
            (fun passes => tasks (.step ran passes)) enough
  | act action next ih =>
      rw [Plan.run_act] at enough
      rw [Plan.run_act, Plan.run_act, actions .acting]
      cases ran : action.perform (.byDistance distances) machine with
      | error interruption after => rfl
      | ok value after =>
          rw [ran] at enough
          exact ih value after (fun passes => actions (.act ran passes))
            (fun passes => tasks (.act ran passes)) enough
  | hand manner task next ih =>
      let inner : Moment := ⟨distances, budget, task, manner.before machine⟩
      have split
          : (Plan.hand manner task next).run (.byDistance distances)
              (Task.perform (.byDistance distances) budget) machine
            = Ending.andThen (manner.afterAll machine inner.ending) fun value =>
                (next value).run (.byDistance distances)
                  (Task.perform (.byDistance distances) budget) :=
        Plan.run_hand ..
      rw [split] at enough
      have finishes : equal ∨ inner.Finishes := by
        refine enough.imp_right fun finishes left ended => ?_
        rw [ended] at finishes
        exact finishes _ rfl
      have same : task.perform access more (manner.before machine) = inner.ending :=
        tasks .handing finishes
      rw [split, Plan.run_hand, same]
      cases ended : inner.ending with
      | error interruption left => rfl
      | ok value left =>
          rw [ended] at enough
          exact ih value (manner.after machine left) (fun passes => actions (.hand ended passes))
            (fun passes => tasks (.hand ended passes)) enough

/-- Where another way of finding bindings suits a run, it gives the same run, by induction over
the budget. The other budget may be larger if the run finishes.
-/
theorem Moment.Suits.perform_eq {moment : Moment} {access : Access} (h : moment.Suits access)
    {more : Nat} (le : moment.budget ≤ more) (enough : moment.budget = more ∨ moment.Finishes)
    : moment.task.perform access more moment.machine = moment.ending := by
  obtain ⟨distances, budget, task, machine⟩ := moment
  induction budget generalizing task machine more with
  | zero =>
      rcases enough with same | finishes
      · cases same
        rfl
      · exact absurd rfl (finishes machine)
  | succ budget ih =>
      cases more with
      | zero => simp at le
      | succ more =>
          refine Plan.run_eq task.plan machine
            (fun acting => h _ .refl _ _ ⟨budget, rfl, acting⟩) ?_ enough
          rintro ⟨_, _, task', machine'⟩ handing enough
          obtain ⟨rfl, rfl⟩ := handing.handed
          have suits := h.leads ⟨_, rfl, handing⟩
          exact ih task' machine' suits (Nat.le_of_succ_le_succ le)
            (enough.imp_left Nat.succ.inj)

/-- A run that finishes is the same with any larger budget. -/
theorem Moment.Finishes.perform_eq {moment : Moment} (h : moment.Finishes) {more : Nat}
    (le : moment.budget ≤ more)
    : moment.task.perform (.byDistance moment.distances) more moment.machine = moment.ending :=
  Moment.Suits.perform_eq (fun _ _ _ _ _ => rfl) le (.inr h)

end Lox
