import Lox.Proofs.Evaluation.Limits
import Lox.Proofs.Session.Pieces

/-! Programs with a higher limit of the depth of calls. The outcome is the same unless the lower
limit stops the program, and then the higher one only adds to what the program has written and told.
-/

namespace Lox

/-- The last report, which tells why a run was stopped, is all that may be missing in an outcome. -/
theorem Ending.extends_outcome {α : Type} (ending : Ending α)
    : ending.machine.Extends ending.outcome.2 := by
  cases ending with
  | ok value after => exact .refl after
  | error interruption after =>
      cases interruption with
      | fault fault =>
          refine ⟨(Machine.Extends.refl after).written, ?_⟩
          exact Array.toList_push ▸ List.prefix_append _ _
      | beyondChain | budget => exact .refl after

namespace Session

-----------------------------------------------------------------------------------------
-- Sessions with another limit
-----------------------------------------------------------------------------------------

/-- The session with another limit of the depth of calls. -/
def limited (limit : Nat) (session : Session) : Session :=
  { session with
    config := { session.config with maxDepth := limit }
    machine := session.machine.limited limit }

/-- A program was stopped because its calls were nested too deeply: the last report says so. -/
def Overflows (outcome : Status × Machine) : Prop :=
  outcome.1 = .runtimeError
  ∧ ∃ report ∈ outcome.2.reports.back?, report.diagnostic.message = "Stack overflow."

/-- How the outcome with a lower limit and the one with a higher limit go together. -/
structure Raised (limit : Nat) (low high : Status × Machine) : Prop where
  same : ¬ Overflows low → high = (low.1, low.2.limited limit)
  more : Overflows low → Machine.Extends { low.2 with reports := low.2.reports.pop } high.2

theorem reportAll_limited (session : Session) (limit : Nat) (diagnostics : List Diagnostic)
    : (session.limited limit).reportAll diagnostics
      = (session.reportAll diagnostics).limited limit := by
  induction diagnostics generalizing session with
  | nil => rfl
  | cons first rest ih => exact ih (session.report first)

/-- An ending alike has an outcome alike; a run that the lower limit stopped overflows. -/
theorem raised_outcome {α γ : Type} {limit : Nat} {next : α → γ} {first second : Ending α}
    (h : Ending.Raised limit next first second)
    : Raised limit first.outcome second.outcome := by
  have of_same {low : Status × Machine} : Raised limit low (low.1, low.2.limited limit) := by
    refine ⟨fun _ => rfl, fun _ => ⟨⟨ByteArray.empty, ByteArray.append_empty.symm⟩, ?_⟩⟩
    exact Array.toList_pop ▸ List.dropLast_prefix _
  cases h with
  | ok same le => exact of_same
  | interrupted =>
      next interruption after => cases interruption <;> exact of_same
  | @stopped token after _ keeps =>
      have stopped := keeps.trans second.extends_outcome
      let fault : Fault := ⟨token, .stackOverflow⟩
      constructor
      · intro goesOn
        exact absurd ⟨rfl, ⟨fault.diagnostic, after.sink.size⟩, Array.back?_push, rfl⟩ goesOn
      · intro _
        refine ⟨stopped.written, ?_⟩
        simpa [Ending.outcome] using stopped.told

/-- A higher limit with the same budget. -/
theorem raised_runProgram (session : Session) (program : Program) {lower upper : Nat}
    (le : lower ≤ upper)
    : Raised upper (outcome ((session.limited lower).runProgram program))
        (outcome ((session.limited upper).runProgram program)) := by
  cases resolved : program.resolve session.config.reportUnused with
  | error errors =>
      have rejects (limit)
          : outcome ((session.limited limit).runProgram program)
            = (.staticError,
                (session.reportAll (errors.map ScopeError.diagnostic)).machine.limited limit) := by
        have again
            : program.resolve (session.limited limit).config.reportUnused = .error errors :=
          resolved
        simp only [runProgram, again, reject, outcome, reportAll_limited]
        rfl
      rw [rejects, rejects]
      refine ⟨fun _ => rfl, fun overflows => ?_⟩
      cases overflows.1
  | ok distances =>
      have accepted (limit)
          : program.resolve (session.limited limit).config.reportUnused = .ok distances :=
        resolved
      rw [outcome_runProgram (accepted lower), outcome_runProgram (accepted upper)]
      have bears := Task.perform_bears (session.distances.merge distances) session.config.budget
        (.executeAll program)
      exact raised_outcome (bears.raised (session.machine.limited lower) upper le)

/-- A higher limit is conservative. Whatever the session and the program, if the program comes to
its end with the lower limit and is not stopped by it, it has the same status, output, diagnostics
and tables with the higher limit and any budget that is at least as large. If it is stopped, its
output and its diagnostics but for the last one are the first of those it has with the higher limit.
-/
theorem outcome_of_higher_limit (session : Session) (program : Program)
    {lower upper budget more : Nat} {status : Status} {low : Machine} (le : lower ≤ upper)
    (enough : budget ≤ more)
    (ran : outcome (((session.withBudget budget).limited lower).runProgram program) = (status, low))
    (finishes : status ≠ .unfinished)
    : (¬ Overflows (status, low)
        → outcome (((session.withBudget more).limited upper).runProgram program)
          = (status, low.limited upper))
      ∧ (Overflows (status, low)
          → ∃ other high,
              outcome (((session.withBudget more).limited upper).runProgram program) = (other, high)
              ∧ Machine.Extends { low with reports := low.reports.pop } high) := by
  have ends : (((session.withBudget budget).limited lower).runProgram program).1 ≠ .unfinished :=
    fun stopped => finishes ((congrArg Prod.fst ran).symm.trans stopped)
  have longer := runProgram_withBudget enough ends
  have low_eq
      : outcome (((session.withBudget more).limited lower).runProgram program) = (status, low) := by
    rw [← ran]
    exact (congrArg outcome longer).trans rfl
  have raised := raised_runProgram (session.withBudget more) program le
  rw [low_eq] at raised
  exact ⟨raised.same, fun overflows => ⟨_, _, rfl, raised.more overflows⟩⟩

/-- A native function cannot be called with a limit of zero, but with a limit of one. What was
printed before the call stays.
-/
theorem outcome_of_higher_limit_at_call
    : ∃ program : Program,
        (∃ low high,
          outcome (((start ⟨false, 0, 20⟩ .unlimited fun _ => 0).limited 0).runProgram program)
            = (.runtimeError, low)
          ∧ Overflows (.runtimeError, low)
          ∧ outcome (((start ⟨false, 0, 20⟩ .unlimited fun _ => 0).limited 1).runProgram program)
            = (.ok, high)
          ∧ Machine.Extends { low with reports := low.reports.pop } high) := by
  let session := start ⟨false, 0, 20⟩ .unlimited fun _ => 0
  let program : Program :=
    [.print ⟨.keyword .print, "print", 1⟩ (.literal .nil),
      .print ⟨.keyword .print, "print", 1⟩
        (.call (.variable ⟨0, .identifier, "str", 1⟩) ⟨.mark .rightParen, ")", 1⟩ [.literal .nil])]
  let low := (outcome ((session.limited 0).runProgram program)).2
  have ran
      : outcome (((session.withBudget 20).limited 0).runProgram program) = (.runtimeError, low) :=
    rfl
  have overflows : Overflows (.runtimeError, low) := ⟨rfl, _, rfl, rfl⟩
  have ends : (outcome ((session.limited 1).runProgram program)).1 = .ok := rfl
  rcases (outcome_of_higher_limit session program (Nat.zero_le 1) (Nat.le_refl 20) ran
    (by simp)).2 overflows with ⟨other, high, again, more⟩
  have status : other = .ok := (congrArg Prod.fst again).symm.trans ends
  exact ⟨program, low, high, ran, overflows, status ▸ again, more⟩

end Session
end Lox
