import Lox.Proofs.Evaluation.Renumbering
import Lox.Proofs.Session.Stable
import Lox.Proofs.Syntax.Lockstep

/-! Sessions whose occurrences have other numbers. Requests are answered alike: with the same
status and the same value, and by printing and telling the same.
-/

namespace Lox

/-- Numbers to give in place of others: different ones stay different, and from `first` on they are
given in order.
-/
structure Renumbering (number : Nat → Nat) (first : Nat) : Prop where
  injective : number.Injective
  counts : ∀ id, first ≤ id → number (id + 1) = number id + 1

/-- What is in order stays so further on. -/
theorem Renumbering.later {number : Nat → Nat} {first later : Nat} (h : Renumbering number first)
    (le : first ≤ later)
    : Renumbering number later :=
  ⟨h.injective, fun id above => h.counts id (Nat.le_trans le above)⟩

namespace Session

variable (number : Nat → Nat)

/-- The session, all code that it has read under other numbers. What has been printed and told, the
tables and the instances are the same but for the numbers in code.
-/
def renumber (session : Session) : Session :=
  { session with
    machine := session.machine.renumber number
    distances := session.distances.renumber number
    nextId := number session.nextId }

variable {session : Session}

-----------------------------------------------------------------------------------------
-- Telling and performing
-----------------------------------------------------------------------------------------

theorem report_renumber (session : Session) (diagnostic : Diagnostic)
    : (session.renumber number).report diagnostic = (session.report diagnostic).renumber number :=
  rfl

theorem reportAll_renumber (session : Session) (diagnostics : List Diagnostic)
    : (session.renumber number).reportAll diagnostics
      = (session.reportAll diagnostics).renumber number := by
  unfold reportAll
  induction diagnostics generalizing session with
  | nil => rfl
  | cons first rest ih => rw [List.foldl_cons, report_renumber, ih, List.foldl_cons]

theorem reject_renumber (session : Session) (diagnostics : List Diagnostic)
    : (session.renumber number).reject diagnostics
      = Prod.map id (renumber number) (session.reject diagnostics) :=
  congrArg (Prod.mk Status.staticError) (reportAll_renumber number session diagnostics)

theorem interrupt_renumber (session : Session) (interruption : Interruption)
    : (session.renumber number).interrupt interruption
      = Prod.map id (renumber number) (session.interrupt interruption) := by
  cases interruption <;> rfl

theorem perform_renumber {α β : Type} {change : α → β} {step : Step α} {other : Step β}
    (same : Step.Renumbers number change step other) (session : Session)
    : (session.renumber number).perform other
      = Prod.map (Except.map change) (renumber number) (session.perform step) := by
  unfold perform
  have ran := same session.machine
  simp only [renumber, ran]
  cases step session.machine <;> rfl

theorem learn_renumber (session : Session) (distances : Distances)
    : (session.renumber number).learn (distances.renumber number)
      = (session.learn distances).renumber number := by
  simp only [learn, renumber, Distances.renumber_merge]

variable {number}

theorem performResolved_renumber (injective : number.Injective) (session : Session) (task : Task)
    : (session.renumber number).performResolved (task.renumber number)
      = Prod.map (Except.map (task.renumberResult number)) (renumber number)
          (session.performResolved task) :=
  perform_renumber number
    ((Access.renumbers_byDistance injective session.distances).perform session.config.budget task)
    session

-----------------------------------------------------------------------------------------
-- Reading
-----------------------------------------------------------------------------------------

theorem parseProgram_renumber (h : Renumbering number session.nextId) (scan : Scan)
    : (session.renumber number).parseProgram scan
      = Prod.map (Except.map (Stmts.renumber number)) (renumber number)
          (session.parseProgram scan) := by
  have read := (Program.parse_renumber h.counts scan.tokens scan.stop).2
  simp only [parseProgram, renumber, read, Prod.map]

theorem parseExpression_renumber (h : Renumbering number session.nextId) (scan : Scan)
    : (session.renumber number).parseExpression scan
      = Prod.map (Option.map (Expr.renumber number)) (renumber number)
          (session.parseExpression scan) := by
  have read := Expr.parse?_renumber h.counts scan.tokens scan.stop
  simp only [parseExpression, renumber, read, Prod.map]

-----------------------------------------------------------------------------------------
-- Requests
-----------------------------------------------------------------------------------------

theorem runProgram_renumber (injective : number.Injective) (session : Session) (program : Program)
    : (session.renumber number).runProgram (Stmts.renumber number program)
      = Prod.map id (renumber number) (session.runProgram program) := by
  have config : (session.renumber number).config = session.config := rfl
  have other := Program.resolve_renumber number program session.config.reportUnused
  unfold runProgram
  cases resolved : program.resolve session.config.reportUnused with
  | error errors =>
      rw [config, other, resolved]
      exact reject_renumber number session _
  | ok distances =>
      have ran := performResolved_renumber injective (session.learn distances) (.executeAll program)
      rw [← learn_renumber] at ran
      simp only [Task.renumber] at ran
      rw [config, other, resolved]
      dsimp only [Except.map]
      rw [ran]
      rcases (session.learn distances).performResolved (.executeAll program) with ⟨_ | _, after⟩
      · exact interrupt_renumber number after _
      · rfl

theorem evaluateExpr_renumber (injective : number.Injective) (session : Session) (expr : Expr)
    : (session.renumber number).evaluateExpr (expr.renumber number)
      = Prod.map (Except.map (Value.renumber number)) (renumber number)
          (session.evaluateExpr expr) := by
  unfold evaluateExpr
  rw [Expr.resolve_renumber]
  cases resolved : expr.resolve with
  | error errors =>
      dsimp only [Except.map]
      rw [reject_renumber]
      rfl
  | ok distances =>
      have ran := performResolved_renumber injective (session.learn distances) (.evaluate expr)
      rw [← learn_renumber] at ran
      simp only [Task.renumber] at ran
      dsimp only [Except.map]
      rw [ran]
      rcases (session.learn distances).performResolved (.evaluate expr) with ⟨_ | _, after⟩
      · dsimp only [Prod.map, Except.map]
        rw [interrupt_renumber]
        rfl
      · rfl

theorem runScan_renumber (h : Renumbering number session.nextId) (scan : Scan)
    : (session.renumber number).runScan scan
      = Prod.map id (renumber number) (session.runScan scan) := by
  unfold runScan
  split
  · rw [parseProgram_renumber h]
    rcases session.parseProgram scan with ⟨_ | program, after⟩
    · exact reject_renumber number after _
    · exact runProgram_renumber h.injective after program
  · exact reject_renumber number session _

theorem run_renumber (h : Renumbering number session.nextId) (source : String)
    : (session.renumber number).run source
      = Prod.map id (renumber number) (session.run source) :=
  runScan_renumber h (.ofText source)

theorem rejectExpression_renumber (h : Renumbering number session.nextId) (scan : Scan)
    : (session.renumber number).rejectExpression scan
      = Prod.map id (renumber number) (session.rejectExpression scan) := by
  unfold rejectExpression
  rw [parseProgram_renumber h]
  rcases session.parseProgram scan with ⟨_ | program, after⟩
  · exact reject_renumber number after _
  · exact reject_renumber number after _

theorem echo_renumber (session : Session) (value : Value)
    : (session.renumber number).echo (value.renumber number)
      = Prod.map id (renumber number) (session.echo value) := by
  unfold echo
  rw [perform_renumber number (Step.renumbers_print number value)]
  rcases session.perform (Step.print value) with ⟨_ | _ | _, after⟩
  · exact interrupt_renumber number after _
  · rfl
  · rfl

/-- The numbers go on behind an attempt to read an expression. -/
theorem nextId_le_parseExpression (session : Session) (source : String)
    : session.nextId ≤ (session.parseExpression (.ofText source)).2.nextId :=
  (session.continues_parseExpression source).numbers

theorem evaluate_renumber (h : Renumbering number session.nextId) (source : String)
    : (session.renumber number).evaluate source
      = Prod.map (Except.map (Value.renumber number)) (renumber number)
          (session.evaluate source) := by
  have later := h.later (session.nextId_le_parseExpression source)
  unfold evaluate
  dsimp only
  split
  · rw [parseExpression_renumber h]
    generalize session.parseExpression (.ofText source) = read at later
    rcases read with ⟨_ | expr, after⟩
    · dsimp only [Prod.map, Option.map]
      rw [rejectExpression_renumber later]
      rfl
    · exact evaluateExpr_renumber h.injective after expr
  · rw [reject_renumber]
    rfl

theorem runLine_renumber (h : Renumbering number session.nextId) (source : String)
    : (session.renumber number).runLine source
      = Prod.map id (renumber number) (session.runLine source) := by
  have later := h.later (session.nextId_le_parseExpression source)
  unfold runLine
  dsimp only
  split
  · rw [parseExpression_renumber h]
    generalize session.parseExpression (.ofText source) = read at later
    rcases read with ⟨_ | expr, after⟩
    · exact run_renumber later source
    · dsimp only [Prod.map, Option.map]
      rw [evaluateExpr_renumber h.injective]
      rcases after.evaluateExpr expr with ⟨status | value, last⟩
      · rfl
      · exact echo_renumber last value
  · exact reject_renumber number session _

/-- Under other numbers a request has the same effect. -/
theorem take_renumber (h : Renumbering number session.nextId) (request : Request)
    : (session.renumber number).take request = (session.take request).renumber number := by
  cases request with
  | run source => exact congrArg Prod.snd (run_renumber h source)
  | line source => exact congrArg Prod.snd (runLine_renumber h source)
  | evaluate source => exact congrArg Prod.snd (evaluate_renumber h source)

/-- No request gives numbers back. -/
theorem nextId_le_take (session : Session) (request : Request)
    : session.nextId ≤ (session.take request).nextId := by
  rcases answers_take session request with ⟨opened, task, _, continues, le⟩ | continues
  · exact Nat.le_trans le continues.numbers
  · exact continues.numbers

/-- Under other numbers requests have the same effect, by induction over them. -/
theorem takeAll_renumber (h : Renumbering number session.nextId) (requests : List Request)
    : (session.renumber number).takeAll requests
      = (session.takeAll requests).renumber number := by
  induction requests generalizing session with
  | nil => rfl
  | cons request rest ih =>
      rw [takeAll, List.foldl_cons, take_renumber h]
      exact ih (h.later (session.nextId_le_take request))

-----------------------------------------------------------------------------------------
-- Numbers that have been given
-----------------------------------------------------------------------------------------

/-- All code of the session has numbers that have been given: it stays as it is under others that
keep these.
-/
def Counted (session : Session) : Prop :=
  ∀ number : Nat → Nat,
    number.Injective
    → (∀ id < session.nextId, number id = id)
    → session.machine.renumber number = session.machine
      ∧ session.distances.renumber number = session.distances

theorem counted_start (config : Config) (sink : Sink) (clock : Nat → Float)
    : (start config sink clock).Counted := by
  intro number _ _
  have natives : Machine.initialBindings.renumber number = Machine.initialBindings := rfl
  refine ⟨?_, rfl⟩
  simp only [start, Machine.start, Machine.renumber, Store.renumber_add, natives]
  simp [Store.renumber, Store.empty]

variable {opened after : Session} {task : Task}

/-- Code that has been read and accepted has numbers that have been given. -/
theorem Opens.renumber_task (h : session.Opens opened task)
    (kept : ∀ id < opened.nextId, number id = id)
    : task.renumber number = task
      ∧ (Distances.empty.noteAll task.places).renumber number
        = Distances.empty.noteAll task.places := by
  have keeps : ∀ place ∈ task.places, place.Keeps number := fun place member =>
    ⟨h.lawful place member, fun id given =>
      kept id (h.within id (List.mem_filterMap.2 ⟨place, member, given⟩)).2⟩
  refine ⟨?_, Distances.renumber_noteAll .empty keeps⟩
  rcases h.whole with ⟨program, rfl⟩ | ⟨expr, rfl⟩
  · exact congrArg Task.executeAll (Places.renumber_stmts program keeps)
  · exact congrArg Task.evaluate (Places.renumber_expr expr keeps)

/-- What an evaluation leaves has numbers that have been given, since under others that keep these
it is the same evaluation.
-/
theorem Counted.evaluated (h : session.Counted) (opens : session.Opens opened task)
    : Counted { opened with machine := (opened.moment task).ending.machine } := by
  intro number injective kept
  obtain ⟨machine, distances⟩ := h number injective fun id below =>
    kept id (Nat.lt_of_lt_of_le below opens.numbers)
  obtain ⟨sameTask, learned⟩ := opens.renumber_task kept
  have sameDistances : opened.distances.renumber number = opened.distances := by
    rw [opens.distances, Distances.renumber_merge, distances, learned]
  have ran := (Access.renumbers_byDistance injective opened.distances).perform opened.config.budget
    task opened.machine
  rw [sameDistances, opens.machine, machine] at ran
  have left := congrArg Ending.machine ran
  rw [Ending.machine_renumber, sameTask, ← opens.machine] at left
  exact ⟨left.symm, sameDistances⟩

/-- A session that goes on on a machine. -/
theorem Counted.continues {machine : Machine} (h : Counted { session with machine })
    (continues : session.Continues machine after)
    : after.Counted := by
  intro number injective kept
  obtain ⟨same, distances⟩ := h number injective fun id below =>
    kept id (Nat.lt_of_lt_of_le below continues.numbers)
  have store : after.machine.store.renumber number = after.machine.store := by
    rw [continues.alike.store]
    exact congrArg Machine.store same
  have instances
      : after.machine.instances.map (Instance.renumber number) = after.machine.instances := by
    rw [continues.alike.instances]
    exact congrArg Machine.instances same
  refine ⟨?_, continues.distances ▸ distances⟩
  simp only [Machine.renumber, store, instances]

theorem Counted.take (h : session.Counted) (request : Request)
    : (session.take request).Counted := by
  rcases answers_take session request with ⟨opened, task, begins, continues, _⟩ | continues
  · exact (h.evaluated begins.opens).continues continues
  · exact h.continues continues

theorem counted_takeAll (config : Config) (sink : Sink) (clock : Nat → Float)
    (requests : List Request)
    : ((start config sink clock).takeAll requests).Counted := by
  induction requests using List.reverseRecOn with
  | nil => exact counted_start config sink clock
  | append_singleton requests request ih =>
      rw [takeAll_append_singleton]
      exact ih.take request

-----------------------------------------------------------------------------------------
-- Numbers that are skipped
-----------------------------------------------------------------------------------------

/-- The numbers from `first` on are given from `next` on. -/
def skipping (first next id : Nat) : Nat := if id < first then id else id + (next - first)

theorem renumbering_skipping (first next : Nat) : Renumbering (skipping first next) first where
  injective id other same := by
    simp only [skipping] at same
    split at same <;> split at same <;> omega
  counts id le := by
    simp only [skipping]
    split <;> split <;> omega

/-- A session that skips numbers has them in place of others. -/
theorem Counted.skip (h : session.Counted) {next : Nat} (le : session.nextId ≤ next)
    : { session with nextId := next } = session.renumber (skipping session.nextId next) := by
  obtain ⟨machine, distances⟩ := h (skipping session.nextId next)
    (renumbering_skipping session.nextId next).injective fun id below => if_pos below
  have first : skipping session.nextId next session.nextId = next := by
    simp only [skipping]
    split <;> omega
  simp only [renumber, machine, distances, first]

end Session
end Lox
