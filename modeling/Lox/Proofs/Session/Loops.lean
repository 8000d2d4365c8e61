import Lox.Proofs.Session.Pieces
import Lox.Proofs.Syntax.Soundness

/-! What `for` means. A `for` statement is read as a `while` loop inside of blocks; a run of that
form ends exactly as the direct reading of the clauses does, with one scope for all rounds if there
is an initializer, and one for each round if there is an increment.
-/

namespace Lox

-----------------------------------------------------------------------------------------
-- The direct reading
-----------------------------------------------------------------------------------------

/-- What a `for` statement may begin with. -/
inductive ForInitializer where
  | var (name : Token) (value : Option Expr)
  | expression (value : Expr)

def ForInitializer.stmt : ForInitializer → Stmt
  | .var name value => .var name value
  | .expression value => .expression value

/-- A `for` statement by its clauses and its body. -/
structure ForLoop where
  initializer : Option ForInitializer
  condition : Option Expr
  increment : Option Expr
  body : Stmt

/-- Runs a step in a new scope inside of the current one. -/
def Step.inScope {α : Type} (step : Step α) : Step α := do
  let machine ← get
  let environment ← enter machine.environment .empty
  within environment step

namespace ForLoop

/-- The statement that a `for` statement is read as. -/
def stmt (loop : ForLoop) : Stmt :=
  .ofFor (loop.initializer.map ForInitializer.stmt) loop.condition loop.increment loop.body

variable (loop : ForLoop) (perform : (task : Task) → Step task.Result)

/-- Whether another round begins. A missing condition is true. -/
def test : Step Bool :=
  match loop.condition with
  | none => return true
  | some condition => Value.truthy <$> perform (.evaluate condition)

/-- A round: the body, and the increment only if the body ends normally. With an increment, both
are in a new scope.
-/
def round : Step Flow :=
  match loop.increment with
  | none => perform (.execute loop.body)
  | some increment => Step.inScope do
    match ← perform (.execute loop.body) with
    | .normal =>
      let _ ← perform (.evaluate increment)
      return .normal
    | flow => return flow

/-- As many rounds as it takes, if the limit allows for them. A `break` ends the loop normally, a
`return` leaves it.
-/
def rounds : (limit : Nat) → Step Flow
  | 0 => throw .budget
  | limit + 1 => do
    if ← loop.test perform then
      match ← loop.round perform with
      | .normal => rounds limit
      | .break => return .normal
      | .return value => return .return value
    else
      return .normal

/-- The whole loop. If there is an initializer, all is in a new scope where it runs first. -/
def run (limit : Nat) : Step Flow :=
  match loop.initializer with
  | none => loop.rounds perform limit
  | some initializer => Step.inScope do
    let _ ← perform (.execute initializer.stmt)
    loop.rounds perform limit

end ForLoop

-----------------------------------------------------------------------------------------
-- Steps that more budget leaves as they are
-----------------------------------------------------------------------------------------

/-- An ending that does not come from a lack of budget. -/
def Ending.Finished {α : Type} (ending : Ending α) : Prop :=
  ∀ machine, ending ≠ .error .budget machine

namespace Step

variable {α β : Type} {step other : Step α}

/-- Another step ends like this one wherever this one does not lack budget. -/
def Determines (step other : Step α) : Prop :=
  ∀ machine, Ending.Finished (step machine) → other machine = step machine

namespace Determines

theorem refl (step : Step α) : step.Determines step := fun _ _ => rfl

theorem of_eq (same : step = other) : step.Determines other := same ▸ refl step

theorem trans {third : Step α} (h : step.Determines other) (next : other.Determines third)
    : step.Determines third := by
  intro machine finished
  have same := h machine finished
  exact (next machine (same ▸ finished)).trans same

theorem exhausted (other : Step α) : Determines (throw .budget) other :=
  fun machine finished => absurd rfl (finished machine)

/-- One step after the other. -/
theorem bind {next more : α → Step β} (h : step.Determines other)
    (rest : ∀ value, (next value).Determines (more value))
    : Determines (step >>= next) (other >>= more) := by
  intro machine finished
  simp only [Bind.bind, EStateM.bind] at finished ⊢
  cases ran : step machine with
  | error interruption after =>
      rw [ran] at finished
      have first : Ending.Finished (step machine) := by
        intro left lacks
        rw [ran] at lacks
        cases lacks
        exact finished after rfl
      rw [h machine first, ran]
  | ok value after =>
      rw [ran] at finished
      have first : Ending.Finished (step machine) := by
        rw [ran]
        exact nofun
      rw [h machine first, ran]
      exact rest value after finished

theorem map {change : α → β} (h : step.Determines other)
    : Determines (change <$> step) (change <$> other) :=
  bind h fun value => refl (Pure.pure (change value))

theorem inScope (h : step.Determines other) : Determines step.inScope other.inScope := by
  refine bind (refl _) fun machine => bind (refl _) fun environment => ?_
  intro inside finished
  have around (step : Step α)
      : within environment step inside
        = (Manner.within environment).afterAll inside (step { inside with environment }) :=
    Manner.around_eq (.within environment) step inside
  rw [around] at finished
  rw [around, around]
  refine congrArg _ (h _ fun left lacks => ?_)
  rw [lacks] at finished
  exact finished _ rfl

/-- A task with a larger budget. -/
theorem perform (distances : Distances) (task : Task) {budget more : Nat} (le : budget ≤ more)
    : Determines (task.perform (.byDistance distances) budget)
        (task.perform (.byDistance distances) more) := by
  intro machine finished
  have finishes : Moment.Finishes ⟨distances, budget, task, machine⟩ := finished
  exact finishes.perform_eq le

end Determines

end Step

-----------------------------------------------------------------------------------------
-- The tasks of the form that is read
-----------------------------------------------------------------------------------------

namespace Task

variable (access : Access) (budget : Nat)

/-- A task that is handed on last. -/
theorem run_askingIn (perform : (task : Task) → Step task.Result) (manner : Manner) (task : Task)
    : (Plan.askingIn manner task).run access perform = manner.around (perform task) :=
  bind_pure _

theorem perform_block (body : List Stmt)
    : (Task.execute (.block body)).perform access (budget + 1)
      = Step.inScope ((Task.executeAll body).perform access budget) :=
  congrArg (get >>= ·) <| funext fun machine =>
    congrArg (Step.enter machine.environment .empty >>= ·) <| funext fun environment =>
      run_askingIn access _ (.within environment) (.executeAll body)

theorem perform_while (condition : Expr) (body : Stmt)
    : (Task.execute (.while condition body)).perform access (budget + 1)
      = (Task.loop condition body).perform access budget :=
  run_askingIn access _ .plain (.loop condition body)

theorem perform_expression (value : Expr)
    : (Task.execute (.expression value)).perform access (budget + 1)
      = do
        let _ ← (Task.evaluate value).perform access budget
        return .normal := rfl

theorem perform_cons (first : Stmt) (rest : List Stmt)
    : (Task.executeAll (first :: rest)).perform access (budget + 1)
      = do
        match ← (Task.execute first).perform access budget with
        | .normal => (Task.executeAll rest).perform access budget
        | flow => return flow := by
  refine congrArg ((Task.execute first).perform access budget >>= ·) (funext fun flow => ?_)
  cases flow with
  | normal => exact run_askingIn access _ .plain (.executeAll rest)
  | «break» => rfl
  | «return» value => rfl

/-- What a `for` statement begins with ends normally if it ends at all. -/
theorem perform_initializer (initializer : ForInitializer) {α : Type} (next : Flow → Step α)
    : (Task.execute initializer.stmt).perform access budget >>= next
      = (Task.execute initializer.stmt).perform access budget >>= fun _ => next .normal := by
  cases budget with
  | zero => rfl
  | succ budget =>
      cases initializer with
      | var name value =>
          cases value with
          | none => rfl
          | some value =>
              have plan
                  : (Task.execute (.var name (some value))).perform access (budget + 1)
                    = do
                      let value ← (Task.evaluate value).perform access budget
                      Step.define name.lexeme value
                      return .normal := rfl
              rw [ForInitializer.stmt, plan, bind_assoc, bind_assoc]
              rfl
      | expression value =>
          rw [ForInitializer.stmt, perform_expression, bind_assoc, bind_assoc]
          rfl

/-- The last statement of a block is an expression. -/
theorem perform_last (value : Expr)
    : (Task.executeAll [.expression value]).perform access (budget + 2)
      = do
        let _ ← (Task.evaluate value).perform access budget
        return .normal := by
  rw [perform_cons, perform_expression, bind_assoc]
  exact congrArg ((Task.evaluate value).perform access budget >>= ·) (funext fun _ => rfl)

theorem perform_loop (condition : Expr) (body : Stmt)
    : (Task.loop condition body).perform access (budget + 1)
      = do
        if ← Value.truthy <$> (Task.evaluate condition).perform access budget then
          match ← (Task.execute body).perform access budget with
          | .normal => (Task.loop condition body).perform access budget
          | .break => return .normal
          | .return value => return .return value
        else return .normal := by
  rw [map_eq_pure_bind, bind_assoc]
  refine congrArg ((Task.evaluate condition).perform access budget >>= ·) (funext fun holds => ?_)
  rw [pure_bind]
  cases truthy : holds.truthy with
  | false => exact congrArg (Plan.run access _) (if_neg (ne_true_of_eq_false truthy))
  | true =>
      refine (congrArg (Plan.run access _) (if_pos truthy)).trans ?_
      refine congrArg ((Task.execute body).perform access budget >>= ·) (funext fun flow => ?_)
      cases flow with
      | normal => exact run_askingIn access _ .plain (.loop condition body)
      | «break» => rfl
      | «return» value => rfl

end Task

-----------------------------------------------------------------------------------------
-- The two readings
-----------------------------------------------------------------------------------------

namespace ForLoop

variable (loop : ForLoop) (distances : Distances)

/-- The condition of the `while` loop. -/
def whileCondition : Expr := loop.condition.getD (.literal (.bool true))

/-- The body of the `while` loop. -/
def whileBody : Stmt := loop.body.forRound loop.increment

/-- The condition of the `while` loop is the test of the direct reading. -/
theorem test_of_evaluate {budget more : Nat} (le : budget ≤ more)
    : Step.Determines
        (Value.truthy <$> (Task.evaluate loop.whileCondition).perform (.byDistance distances) budget)
        (loop.test (Task.perform (.byDistance distances) more)) := by
  unfold whileCondition test
  cases loop.condition with
  | none =>
      cases budget with
      | zero => exact .exhausted _
      | succ budget => exact .refl _
  | some condition => exact .map (.perform distances _ le)

theorem evaluate_of_test {budget more : Nat} (lt : budget < more)
    : Step.Determines
        (loop.test (Task.perform (.byDistance distances) budget))
        (Value.truthy
          <$> (Task.evaluate loop.whileCondition).perform (.byDistance distances) more) := by
  unfold whileCondition test
  cases loop.condition with
  | none =>
      obtain ⟨more, rfl⟩ := Nat.exists_eq_add_of_lt lt
      exact .refl _
  | some condition => exact .map (.perform distances _ (Nat.le_of_lt lt))

/-- The body of the `while` loop is a round of the direct reading. -/
theorem round_of_execute {budget more : Nat} (le : budget ≤ more)
    : Step.Determines
        ((Task.execute loop.whileBody).perform (.byDistance distances) budget)
        (loop.round (Task.perform (.byDistance distances) more)) := by
  unfold whileBody round
  cases loop.increment with
  | none => exact .perform distances _ le
  | some increment =>
      rcases budget with _ | _ | budget
      · exact .exhausted _
      · rw [Stmt.forRound, Task.perform_block]
        exact .inScope (.exhausted _)
      · rw [Stmt.forRound, Task.perform_block, Task.perform_cons]
        refine .inScope (.bind (.perform distances _ (by omega)) fun flow => ?_)
        cases flow with
        | normal =>
            rcases budget with _ | _ | budget
            · exact .exhausted _
            · exact .exhausted _
            · rw [Task.perform_last]
              exact .bind (.perform distances _ (by omega)) fun _ => .refl _
        | «break» => exact .refl _
        | «return» value => exact .refl _

theorem execute_of_round {budget more : Nat} (le : budget + 4 ≤ more)
    : Step.Determines
        (loop.round (Task.perform (.byDistance distances) budget))
        ((Task.execute loop.whileBody).perform (.byDistance distances) more) := by
  unfold whileBody round
  cases loop.increment with
  | none => exact .perform distances _ (by omega)
  | some increment =>
      obtain ⟨more, rfl⟩ := Nat.exists_eq_add_of_le' le
      rw [Stmt.forRound, ← Nat.add_assoc, Task.perform_block, Task.perform_cons]
      refine .inScope (.bind (.perform distances _ (by omega)) fun flow => ?_)
      cases flow with
      | normal =>
          rw [Task.perform_last]
          exact .bind (.perform distances _ (by omega)) fun _ => .refl _
      | «break» => exact .refl _
      | «return» value => exact .refl _

/-- The `while` loop ends as the rounds of the direct reading, by induction over the budget. -/
theorem rounds_of_loop {budget more limit : Nat} (le : budget ≤ more) (enough : budget ≤ limit)
    : Step.Determines
        ((Task.loop loop.whileCondition loop.whileBody).perform (.byDistance distances) budget)
        (loop.rounds (Task.perform (.byDistance distances) more) limit) := by
  induction budget generalizing limit with
  | zero => exact .exhausted _
  | succ budget ih =>
      obtain ⟨limit, rfl⟩ := Nat.exists_eq_add_of_le' (Nat.le_of_add_left_le enough)
      have le := Nat.le_of_succ_le le
      rw [Task.perform_loop, rounds]
      refine .bind (loop.test_of_evaluate distances le) fun again => ?_
      cases again with
      | false => exact .refl _
      | true =>
          refine .bind (loop.round_of_execute distances le) fun flow => ?_
          cases flow with
          | normal => exact ih le (Nat.le_of_succ_le_succ enough)
          | «break» | «return» value => exact .refl _

/-- So many rounds of the direct reading end as the `while` loop, by induction over the limit. -/
theorem loop_of_rounds {budget limit more : Nat} (le : budget + limit + 4 ≤ more)
    : Step.Determines
        (loop.rounds (Task.perform (.byDistance distances) budget) limit)
        ((Task.loop loop.whileCondition loop.whileBody).perform (.byDistance distances) more) := by
  induction limit generalizing more with
  | zero => exact .exhausted _
  | succ limit ih =>
      obtain ⟨more, rfl⟩ := Nat.exists_eq_add_of_le' (show 1 ≤ more by omega)
      rw [Task.perform_loop, rounds]
      refine .bind (loop.evaluate_of_test distances (by omega)) fun again => ?_
      cases again with
      | false => exact .refl _
      | true =>
          refine .bind (loop.execute_of_round distances (by omega)) fun flow => ?_
          cases flow with
          | normal => exact ih (by omega)
          | «break» | «return» value => exact .refl _

/-- The `while` loop as the last statement of a block. -/
theorem rounds_of_last {budget more limit : Nat} (le : budget ≤ more) (enough : budget ≤ limit)
    : Step.Determines
        ((Task.executeAll [.while loop.whileCondition loop.whileBody]).perform
          (.byDistance distances) budget)
        (loop.rounds (Task.perform (.byDistance distances) more) limit) := by
  rcases budget with _ | _ | budget
  · exact .exhausted _
  · exact .exhausted _
  · rw [Task.perform_cons, Task.perform_while, ← bind_pure (loop.rounds _ _)]
    refine .bind (loop.rounds_of_loop distances (by omega) (by omega)) fun flow => ?_
    cases flow with
    | normal | «break» | «return» value => exact .refl _

theorem last_of_rounds {budget limit more : Nat} (le : budget + limit + 6 ≤ more)
    : Step.Determines
        (loop.rounds (Task.perform (.byDistance distances) budget) limit)
        ((Task.executeAll [.while loop.whileCondition loop.whileBody]).perform
          (.byDistance distances) more) := by
  obtain ⟨more, rfl⟩ := Nat.exists_eq_add_of_le' (show 2 ≤ more by omega)
  rw [Task.perform_cons, Task.perform_while, ← bind_pure (loop.rounds _ _)]
  refine .bind (loop.loop_of_rounds distances (by omega)) fun flow => ?_
  cases flow with
  | normal | «break» | «return» value => exact .refl _

/-- The statement that is read ends as the direct reading. -/
theorem run_of_execute {budget more limit : Nat} (le : budget ≤ more) (enough : budget ≤ limit)
    : Step.Determines
        ((Task.execute loop.stmt).perform (.byDistance distances) budget)
        (loop.run (Task.perform (.byDistance distances) more) limit) := by
  cases budget with
  | zero => exact .exhausted _
  | succ budget =>
      unfold stmt run
      cases loop.initializer with
      | none =>
          refine .trans (.of_eq (Task.perform_while ..)) ?_
          exact loop.rounds_of_loop distances (by omega) (by omega)
      | some initializer =>
          refine .trans (.of_eq (Task.perform_block ..)) (.inScope ?_)
          cases budget with
          | zero => exact .exhausted _
          | succ budget =>
              rw [Task.perform_cons, Task.perform_initializer]
              refine .bind (.perform distances _ (by omega)) fun _ => ?_
              exact loop.rounds_of_last distances (by omega) (by omega)

theorem execute_of_run {budget limit more : Nat} (le : budget + limit + 8 ≤ more)
    : Step.Determines
        (loop.run (Task.perform (.byDistance distances) budget) limit)
        ((Task.execute loop.stmt).perform (.byDistance distances) more) := by
  obtain ⟨more, rfl⟩ := Nat.exists_eq_add_of_le' (show 2 ≤ more by omega)
  unfold stmt run
  cases loop.initializer with
  | none =>
      refine .trans ?_ (.of_eq (Task.perform_while ..).symm)
      exact loop.loop_of_rounds distances (by omega)
  | some initializer =>
      refine .trans (.inScope ?_) (.of_eq (Task.perform_block ..).symm)
      rw [Task.perform_cons, Task.perform_initializer (.byDistance distances) more]
      refine .bind (.perform distances _ (by omega)) fun _ => ?_
      exact loop.last_of_rounds distances (by omega)

/-- A `for` statement has the endings of its direct reading. -/
theorem execute_iff_run {machine : Machine} {ending : Ending Flow} (finished : ending.Finished)
    : (∃ budget,
        (Task.execute loop.stmt).perform (.byDistance distances) budget machine = ending)
      ↔ ∃ budget limit,
          loop.run (Task.perform (.byDistance distances) budget) limit machine = ending := by
  constructor
  · rintro ⟨budget, rfl⟩
    have le := Nat.le_refl budget
    exact ⟨budget, budget, loop.run_of_execute distances le le machine finished⟩
  · rintro ⟨budget, limit, rfl⟩
    exact ⟨_, loop.execute_of_run distances (Nat.le_refl _) machine finished⟩

-----------------------------------------------------------------------------------------
-- Scopes of the two readings
-----------------------------------------------------------------------------------------

/-- The places in the test and the rounds of the direct reading. -/
def repeatedPlaces (around : Surroundings) : List Place :=
  let inside := around.inBody around.setting.body (around.setting.loops + 1)
  let tested := loop.condition.elim [] fun condition => Places.ofExpr condition inside
  let round :=
    match loop.increment with
    | none => Places.ofStmt loop.body inside
    | some increment =>
      let scope := inside.enter (.block [loop.body, .expression increment]) []
      Places.ofStmt loop.body scope
      ++ Places.ofExpr increment (scope.declareAll loop.body.declares)
  tested ++ (⟨inside, .branch loop.whileBody⟩ :: round)

/-- The places of the direct reading, in the scopes that it opens. -/
def places (around : Surroundings) : List Place :=
  match loop.initializer with
  | none => loop.repeatedPlaces around
  | some initializer =>
    let scope :=
      around.enter (.block [initializer.stmt, .while loop.whileCondition loop.whileBody]) []
    Places.ofStmt initializer.stmt scope
    ++ loop.repeatedPlaces (scope.declareAll initializer.stmt.declares)

theorem ofStmt_while (around : Surroundings)
    : Places.ofStmt (.while loop.whileCondition loop.whileBody) around
      = loop.repeatedPlaces around := by
  obtain ⟨initializer, condition, increment, body⟩ := loop
  cases condition <;> cases increment <;>
    simp [repeatedPlaces, whileCondition, whileBody, Stmt.forRound, Places.ofStmt, Places.ofStmts,
      Places.ofExpr]

/-- The scope analysis sees the statement that is read in the scopes of the direct reading. -/
theorem ofStmt_eq_places (around : Surroundings)
    : Places.ofStmt loop.stmt around = loop.places around := by
  have repeated := loop.ofStmt_while
  unfold stmt places
  cases loop.initializer with
  | none => exact repeated around
  | some initializer =>
      refine congrArg (_ ++ ·) ?_
      exact (List.append_nil _).trans (repeated _)

end ForLoop

-----------------------------------------------------------------------------------------
-- Reading
-----------------------------------------------------------------------------------------

open Grammar in
/-- A `for` statement as it is written: the tokens of its clauses and of its body, in order. -/
inductive ForLoop.Written (loop : ForLoop) : List Token → List Token → Prop
  | intro {word opening semicolon closing : Token} {unmatched : Bool}
      {tokens afterInitializer afterCondition afterIncrement rest : List Token}
      (keyword : word.kind = .keyword .for) (opened : opening.kind = .mark .leftParen)
      (start
        : Derives .nearest .forInitializer tokens
            (loop.initializer.map fun initializer => initializer.stmt.unnumbered)
            afterInitializer)
      (test
        : Derives .nearest .optional afterInitializer (loop.condition.map Expr.unnumbered)
            (semicolon :: afterCondition))
      (ended : semicolon.kind = .mark .semicolon)
      (step
        : Derives .nearest .optional afterCondition (loop.increment.map Expr.unnumbered)
            (closing :: afterIncrement))
      (closed : closing.kind = .mark .rightParen)
      (body : Derives .nearest (.statement unmatched) afterIncrement loop.body.unnumbered rest)
    : loop.Written (word :: opening :: tokens) rest

namespace Parser

open Reader Grammar

/-- Nothing need be known of what is read. -/
theorem takes_any {α : Type} (reader : Reader α) (ahead : List Token)
    : Takes reader ahead fun _ _ => True :=
  fun _ _ _ _ _ => trivial

theorem takes_var (budget : Nat) (ahead : List Token)
    : Takes (varDeclaration budget) ahead fun stmt _ =>
        ∃ initializer : ForInitializer, stmt = initializer.stmt := by
  cases budget with
  | zero => exact .fail
  | succ budget =>
      unfold varDeclaration
      refine .bind (takes_any _ _) fun name _ _ => ?_
      refine .bind (takes_any _ _) fun value _ _ => ?_
      exact .bind (takes_any _ _) fun _ _ _ => .pure ⟨.var name value, rfl⟩

theorem takes_expressionOnly (budget : Nat) (ahead : List Token)
    : Takes (expressionStatement budget) ahead fun stmt _ =>
        ∃ initializer : ForInitializer, stmt = initializer.stmt := by
  cases budget with
  | zero => exact .fail
  | succ budget =>
      unfold expressionStatement
      refine .bind (takes_any _ _) fun value _ _ => ?_
      exact .bind (takes_any _ _) fun _ _ _ => .pure ⟨.expression value, rfl⟩

/-- What is read as the first clause can begin a `for` statement. -/
theorem takes_initializer (budget : Nat) (ahead : List Token)
    : Takes (forInitializer budget) ahead fun start _ =>
        ∃ initializer : Option ForInitializer, start = initializer.map ForInitializer.stmt := by
  cases budget with
  | zero => exact .fail
  | succ budget =>
      unfold forInitializer
      refine .accept (fun _ _ _ _ => .pure ⟨none, rfl⟩) fun _ => ?_
      refine .accept (fun _ more _ _ => .map (takes_var budget more) ?_) fun _ =>
        .map (takes_expressionOnly budget ahead) ?_
      all_goals
        rintro stmt rest ⟨initializer, rfl⟩
        exact ⟨some initializer, rfl⟩

/-- A `for` statement is read from its clauses and its body. -/
theorem takes_forLoop (budget : Nat) {word : Token} (keyword : word.kind = .keyword .for)
    (ahead : List Token)
    : Takes (forStatement budget) ahead fun stmt rest =>
        ∃ loop : ForLoop, stmt = loop.stmt ∧ loop.Written (word :: ahead) rest := by
  cases budget with
  | zero => exact .fail
  | succ budget =>
      unfold forStatement
      refine .expectMark ?_
      rintro opening more rfl opened
      have clause : Takes (forInitializer budget) more fun start rest =>
          ∃ initializer : Option ForInitializer,
            start = initializer.map ForInitializer.stmt
            ∧ Derives .nearest .forInitializer more (start.map Stmt.unnumbered) rest := by
        intro stop first start after ran
        obtain ⟨initializer, same⟩ := takes_initializer budget more stop first start after ran
        exact ⟨initializer, same, takes_forInitializer budget more stop first start after ran⟩
      have expression (ahead : List Token)
          : Takes (expression budget) ahead fun expr rest =>
              Derives .nearest .expression ahead expr.unnumbered rest :=
        takes_expression budget ahead
      have statement (ahead : List Token) : Takes (statement budget) ahead (Stated .nearest ahead) :=
        takes_statement budget ahead
      refine .bind clause fun start afterInitializer clause => ?_
      obtain ⟨initializer, rfl, start⟩ := clause
      refine .bind (takes_optional (expression afterInitializer)) fun condition middle test => ?_
      refine .expectMark ?_
      rintro semicolon afterCondition rfl ended
      refine .bind (takes_optional (expression afterCondition)) fun increment middle step => ?_
      refine .expectMark ?_
      rintro closing afterIncrement rfl closed
      refine .bind (statement afterIncrement) fun body rest stated => .pure ?_
      obtain ⟨unmatched, derived, _⟩ := stated
      rw [Option.map_map] at start
      exact ⟨⟨initializer, condition, increment, body⟩, rfl,
        .intro keyword opened start test ended step closed derived⟩

theorem statement_for {word stop : Token} (keyword : word.kind = .keyword .for) (budget first : Nat)
    (ahead : List Token)
    : statement (budget + 1) ⟨word :: ahead, stop, first⟩
      = forStatement budget ⟨ahead, stop, first⟩ := by
  simp only [statement, Bind.bind, EStateM.bind, peek?, List.head?_cons, keyword, skip,
    Cursor.behind]

/-- A `for` statement that is read, from any tokens, is a `while` loop inside of blocks; on every
machine it has exactly the endings of the direct reading of its clauses, with the same output,
diagnostics and store. The scope analysis sees it in the scopes that the direct reading opens, and
the environment around it is back after it.
-/
theorem for_runs_directly {budget first : Nat} {word stop : Token} {ahead : List Token}
    {stmt : Stmt} {after : Cursor} (keyword : word.kind = .keyword .for)
    (read : statement budget ⟨word :: ahead, stop, first⟩ = .ok stmt after)
    : ∃ loop : ForLoop,
        stmt = loop.stmt
        ∧ loop.Written (word :: ahead) after.ahead
        ∧ (∀ around, Places.ofStmt stmt around = loop.places around)
        ∧ ∀ distances machine,
            (∀ ending : Ending Flow,
              ending.Finished
              → ((∃ budget,
                    (Task.execute stmt).perform (.byDistance distances) budget machine = ending)
                  ↔ ∃ budget limit,
                      loop.run (Task.perform (.byDistance distances) budget) limit machine
                        = ending))
            ∧ ∀ budget,
                (Ending.machine
                  ((Task.execute stmt).perform (.byDistance distances) budget machine)).environment
                  = machine.environment := by
  cases budget with
  | zero => cases read
  | succ budget =>
      rw [statement_for keyword] at read
      obtain ⟨loop, rfl, written⟩ := takes_forLoop budget keyword ahead stop first stmt after read
      refine ⟨loop, rfl, written, loop.ofStmt_eq_places, fun distances machine => ⟨?_, ?_⟩⟩
      · exact fun _ => loop.execute_iff_run distances
      · intro budget
        exact (Task.perform_proceeds _ budget (.execute loop.stmt) machine).balanced.environment

/-- The loop `for (a; b; c) d;`. -/
theorem for_runs_directly_all_clauses
    : ∃ loop : ForLoop,
        Stmt.ofFor (some (.expression (.variable ⟨0, ⟨.identifier, "a", 1⟩⟩)))
            (some (.variable ⟨1, ⟨.identifier, "b", 1⟩⟩))
            (some (.variable ⟨2, ⟨.identifier, "c", 1⟩⟩))
            (.expression (.variable ⟨3, ⟨.identifier, "d", 1⟩⟩))
          = loop.stmt
        ∧ loop.Written
            [⟨.keyword .for, "for", 1⟩, ⟨.mark .leftParen, "(", 1⟩, ⟨.identifier, "a", 1⟩,
              ⟨.mark .semicolon, ";", 1⟩, ⟨.identifier, "b", 1⟩, ⟨.mark .semicolon, ";", 1⟩,
              ⟨.identifier, "c", 1⟩, ⟨.mark .rightParen, ")", 1⟩, ⟨.identifier, "d", 1⟩,
              ⟨.mark .semicolon, ";", 1⟩]
            []
        ∧ ∀ distances machine,
            ∀ ending : Ending Flow,
              ending.Finished
              → ((∃ budget,
                    (Task.execute loop.stmt).perform (.byDistance distances) budget machine
                      = ending)
                  ↔ ∃ budget limit,
                      loop.run (Task.perform (.byDistance distances) budget) limit machine
                        = ending) := by
  have read
      : statement 20
          ⟨[⟨.keyword .for, "for", 1⟩, ⟨.mark .leftParen, "(", 1⟩, ⟨.identifier, "a", 1⟩,
              ⟨.mark .semicolon, ";", 1⟩, ⟨.identifier, "b", 1⟩, ⟨.mark .semicolon, ";", 1⟩,
              ⟨.identifier, "c", 1⟩, ⟨.mark .rightParen, ")", 1⟩, ⟨.identifier, "d", 1⟩,
              ⟨.mark .semicolon, ";", 1⟩],
            Token.endOfInput 1, 0⟩
        = .ok
            (Stmt.ofFor (some (.expression (.variable ⟨0, ⟨.identifier, "a", 1⟩⟩)))
              (some (.variable ⟨1, ⟨.identifier, "b", 1⟩⟩))
              (some (.variable ⟨2, ⟨.identifier, "c", 1⟩⟩))
              (.expression (.variable ⟨3, ⟨.identifier, "d", 1⟩⟩)))
            ⟨[], Token.endOfInput 1, 4⟩ := by cbv
  obtain ⟨loop, same, written, _, runs⟩ := for_runs_directly rfl read
  rw [same] at runs
  exact ⟨loop, same, written, fun distances machine => (runs distances machine).1⟩

end Parser
end Lox
