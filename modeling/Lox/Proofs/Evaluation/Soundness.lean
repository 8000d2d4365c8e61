import Lox.Proofs.Evaluation.Preservation

/-! The contract between scopes and environments is sound: the plans of statements uphold it too,
so that every task does, in every moment of every run.
-/

namespace Lox

/-- A method that a class has is its own or that of its superclass. -/
theorem Class.findMethod?_eq_some {identity : Nat} {name wanted : String}
    {superclass : Option Class} {methods statics : Table String Closure} {method : Closure}
    (found
      : (Class.mk identity name superclass methods statics).findMethod? wanted = some method)
    : methods.get? wanted = some method
      ∨ ∃ inherited, superclass = some inherited ∧ inherited.findMethod? wanted = some method := by
  cases superclass with
  | none => exact .inl found
  | some inherited =>
      rw [findMethod?] at found
      split at found
      · next own => exact .inl (own.trans found)
      · exact .inr ⟨inherited, rfl, found⟩

theorem Class.findStatic?_eq_some {identity : Nat} {name wanted : String}
    {superclass : Option Class} {methods statics : Table String Closure} {method : Closure}
    (found
      : (Class.mk identity name superclass methods statics).findStatic? wanted = some method)
    : statics.get? wanted = some method
      ∨ ∃ inherited, superclass = some inherited ∧ inherited.findStatic? wanted = some method := by
  cases superclass with
  | none => exact .inl found
  | some inherited =>
      rw [findStatic?] at found
      split at found
      · next own => exact .inl (own.trans found)
      · exact .inr ⟨inherited, rfl, found⟩

/-- The methods in a table are made from declarations. -/
theorem Step.of_get?_methodTable {environment : Environment} {initializes : FunctionDecl → Bool}
    {declarations : List FunctionDecl} {name : String} {method : Closure}
    (found : (methodTable environment initializes declarations).get? name = some method)
    : method.declaration ∈ declarations ∧ method.environment = environment := by
  obtain ⟨declaration, member, same⟩ := List.mem_map.1 (Table.mem_of_get?_ofList found)
  cases same
  exact ⟨member, rfl⟩

variable {course : Course} {ghost : Ghost} {moment : Moment} {budget : Nat} {world : World}
  {machine : Machine}

/-- A class fits if its own methods stand in the scopes around it and its superclass fits. -/
theorem World.fitsClass_of_declaration {definition : ClassDecl} {around : Surroundings}
    {environment : Environment} {identity : Nat} {superclass : Option Class}
    (stands : world.Stands environment.chain (around.atClass definition).frames)
    (known : ∀ place ∈ Places.ofClass definition around, world.known place)
    (fits : ∀ inherited, superclass = some inherited → world.FitsClass inherited)
    (owns
      : world.Owns
          ⟨identity, definition.name.lexeme, superclass,
            Step.methodTable environment FunctionDecl.initializes definition.methods,
            Step.methodTable environment (fun _ => false) definition.statics⟩
          definition environment)
    : world.FitsClass
        ⟨identity, definition.name.lexeme, superclass,
          Step.methodTable environment FunctionDecl.initializes definition.methods,
          Step.methodTable environment (fun _ => false) definition.statics⟩ := by
  rw [Places.ofClass_eq, List.forall_mem_cons, List.forall_mem_append, List.forall_mem_append]
    at known
  obtain ⟨_, _, statics, methods⟩ := known
  refine ⟨?_, ?_, ?_⟩
  · intro name method found
    rcases Class.findMethod?_eq_some found with own | ⟨inherited, same, found⟩
    · obtain ⟨member, closed⟩ := Step.of_get?_methodTable own
      exact ⟨around, definition, _, _, closed ▸ stands,
        fun place inside => methods place (Places.mem_ofMethods member inside), member,
        closed ▸ owns, .refl⟩
    · exact ((fits inherited same).methods name method found).inherit same
  · intro name method found
    rcases Class.findStatic?_eq_some found with own | ⟨inherited, same, found⟩
    · obtain ⟨member, closed⟩ := Step.of_get?_methodTable own
      exact ⟨around, definition, _, _, closed ▸ stands,
        fun place inside => statics place (Places.mem_ofStatics member inside), member,
        closed ▸ owns, .refl⟩
    · exact ((fits inherited same).statics name method found).inherit same
  · intro ancestor descends
    rcases descends.cases_head with rfl | ⟨inherited, same, further⟩
    · exact ⟨definition, environment, owns.declared⟩
    · exact (fits inherited same).declared ancestor further

namespace Upholds

-----------------------------------------------------------------------------------------
-- Statements
-----------------------------------------------------------------------------------------

/-- The declaration of a class binds its name. -/
theorem ofClass (run : Underway course ghost moment budget) (definition : ClassDecl)
    {goal : Unit → Machine → Prop} (task : moment.task = .execute (.class definition))
    (stands : ghost.world.Stands moment.machine.environment.chain ghost.around.frames)
    (known : ∀ place ∈ Places.ofClass definition ghost.around, ghost.world.known place)
    (binds : ghost.around.Binds definition.name.lexeme)
    (rest
      : ∀ later after,
          moment.Later course ghost later after
          → later.Stands moment.machine.environment.chain
              (ghost.around.declare definition.name.lexeme .class).frames
          → goal () after)
    : Upholds course ghost moment budget (Plan.ofClass definition) moment.machine goal := by
  have clause : ∀ place ∈ Places.ofClause definition.name definition.superclass ghost.around,
      ghost.world.known place := by
    intro place member
    refine known place ?_
    rw [Places.ofClass_eq]
    exact List.mem_cons_of_mem _ (List.mem_append_left _ member)
  have free : ¬ Reserved definition.name.lexeme := by
    refine (run.required.settled ⟨ghost.around, .declare definition.name⟩ (known _ ?_)).proper
    rw [Places.ofClass_eq]
    exact List.mem_cons_self ..
  have start := run.required.start
  refine .bind (superclassOf run start clause stands fun superclass same fits given => ?_)
  have blank (world : World) : world.FitsValue .nil := trivial
  refine define .class start stands free binds (fun later _ _ => blank later)
    fun world after _ h named counted => ?_
  rw [Plan.bind]
  refine .bind (methodEnvironment run h named free binds same
    (fun inherited found => (fits inherited found).mono h.grows)
    fun environment later after le h stands owns kept => ?_)
  let made : Class :=
    ⟨after.nextIdentity, definition.name.lexeme, superclass,
      Step.methodTable environment FunctionDecl.initializes definition.methods,
      Step.methodTable environment (fun _ => false) definition.statics⟩
  have comes : made.MadeFrom definition environment := ⟨rfl, same, rfl, rfl⟩
  have declares : moment.Declares definition made environment := by
    refine ⟨task, kept.trans counted, fun occurrence some => ?_, comes⟩
    obtain ⟨inherited, found, read⟩ := given occurrence some
    rw [Moment.ending, run.budget_eq]
    exact ⟨inherited, found, read⟩
  have more := later.le_declaring definition made environment
  refine declare run h declares fun h => ?_
  rw [Plan.bind]
  refine overwrite h free
    (World.fitsClass_of_declaration (stands.mono more)
      (fun place member => h.grows.known place (known place member))
      (fun inherited found => (fits inherited found).mono h.grows)
      (owns made _ comes rfl more (.inr ⟨rfl, rfl, rfl⟩)))
    fun last after further h => rest last after h (named.mono (le.trans (more.trans further)))

/-- A statement under a condition declares nothing. -/
theorem branch {body : Stmt} {goal : Flow → Machine → Prop}
    (run : Underway course ghost moment budget) (h : moment.Later course ghost world machine)
    (stands : ghost.world.Stands moment.machine.environment.chain ghost.around.frames)
    (known : ∀ place ∈ Places.ofStmt body ghost.around, ghost.world.known place)
    (nothing : body.declares = [])
    (rest
      : ∀ flow later after,
          moment.Later course ghost later after
          → ghost.Follows later moment.machine.environment [] flow
          → goal flow after)
    : Upholds course ghost moment budget (Plan.asking (.execute body)) machine goal := by
  refine hand run h h.environment ghost.around
    ⟨stands.mono h.grows, fun place member => h.grows.known place (known place member), ?_⟩
    fun flow later after _ h follows => rest flow later after h ?_
  · rw [nothing]
    exact List.forall_mem_nil _
  · dsimp only [Ghost.Grants] at follows
    rw [nothing] at follows
    cases flow <;> exact follows

section Statements

variable (run : Underway course ghost moment budget)
  (stands : ghost.world.Stands moment.machine.environment.chain ghost.around.frames)

include run stands

theorem ofVar (name : Token) (initializer : Option Expr)
    (task : moment.task = .execute (.var name initializer))
    (known : ∀ place ∈ Places.ofStmt (.var name initializer) ghost.around, ghost.world.known place)
    (named : ghost.around.Binds name.lexeme)
    : Upholds course ghost moment budget (Plan.ofStmt (.var name initializer)) moment.machine
        (Gives course ghost moment fun world flow =>
          ghost.Follows world moment.machine.environment [(name.lexeme, .variable)] flow) := by
  have start := run.required.start
  have settled (place) (known : ghost.world.known place) := run.required.settled place known
  cases initializer with
  | none =>
      have blank (world : World) : world.FitsValue .nil := trivial
      have free := (settled _ (known _ (List.mem_singleton.2 rfl))).proper
      exact define .variable start stands free named (fun later _ _ => blank later)
        fun later _ _ h stands _ => ⟨later, h, stands⟩
  | some initializer =>
      rw [Places.ofStmt, List.forall_mem_cons] at known
      exact initVar run task start stands (settled _ known.1).proper named known.2
        fun later _ _ h stands => ⟨later, h, stands⟩

/-- The statements of a block run in a table of their own, so nothing is declared outside it. -/
theorem ofBlock (body : List Stmt)
    (known : ∀ place ∈ Places.ofStmt (.block body) ghost.around, ghost.world.known place)
    : Upholds course ghost moment budget (Plan.ofStmt (.block body)) moment.machine
        (Gives course ghost moment fun world flow =>
          ghost.Follows world moment.machine.environment [] flow) := by
  have free := Stmt.free_flatMap_declares body fun place member =>
    (run.required.settled place (known place member)).proper
  refine look ?_
  rw [Plan.bind]
  refine enter run run.required.start ⟨.block body, []⟩ stands rfl (by simp)
    (fun _ _ found => by cases found) (fun _ bound => by cases bound) (List.forall_mem_nil _)
    (fun _ _ same => by cases same) ?_
  intro environment later after le h inside _ _
  refine hand run h rfl (ghost.around.enter (.block body) [])
    ⟨inside, fun place member => le.known place (known place member), ?_⟩
    fun flow last _ _ h follows => ?_
  · intro entry member
    exact ⟨_, rfl, free entry member, List.mem_map.2 ⟨entry, member, rfl⟩⟩
  · cases flow with
    | normal => exact ⟨last, h, stands.mono h.grows⟩
    | «break» => exact ⟨last, h, follows⟩
    | «return» value => exact ⟨last, h, follows⟩

/-- The branches declare nothing, and so does the statement. -/
theorem ofIf (condition : Expr) (positive : Stmt) (negative : Option Stmt)
    (known
      : ∀ place ∈ Places.ofStmt (.if condition positive negative) ghost.around,
          ghost.world.known place)
    : Upholds course ghost moment budget (Plan.ofStmt (.if condition positive negative))
        moment.machine
        (Gives course ghost moment fun world flow =>
          ghost.Follows world moment.machine.environment
            (Stmt.if condition positive negative).declares flow) := by
  have start := run.required.start
  have settled (place) (known : ghost.world.known place) := run.required.settled place known
  cases negative with
  | none =>
      rw [Places.ofStmt, List.forall_mem_append, List.forall_mem_cons] at known
      have nothing : positive.declares = [] := (settled _ known.2.1).proper
      refine .bind (evaluate run start stands known.1 fun condition later _ _ h _ => ?_)
      rw [Stmt.declares, nothing]
      split
      · exact branch run h stands known.2.2 nothing fun _ last _ h follows => ⟨last, h, follows⟩
      · exact ⟨later, h, stands.mono h.grows⟩
  | some negative =>
      simp only [Places.ofStmt, List.forall_mem_append, List.forall_mem_cons] at known
      obtain ⟨guard, ⟨first, inside⟩, second, insideElse⟩ := known
      have nothing : positive.declares = [] := (settled _ first).proper
      have nothingElse : negative.declares = [] := (settled _ second).proper
      rw [nothing] at insideElse
      refine .bind (evaluate run start stands guard fun condition _ _ _ h _ => ?_)
      rw [Stmt.declares, nothing, nothingElse]
      split
      · exact branch run h stands inside nothing fun _ last _ h follows => ⟨last, h, follows⟩
      · exact branch run h stands insideElse nothingElse fun _ last _ h follows =>
          ⟨last, h, follows⟩

/-- A `while` statement is its loop, which takes every `break`. -/
theorem ofWhile (condition : Expr) (body : Stmt)
    (known
      : ∀ place ∈ Places.ofStmt (.while condition body) ghost.around, ghost.world.known place)
    : Upholds course ghost moment budget (Plan.ofStmt (.while condition body)) moment.machine
        (Gives course ghost moment fun world flow =>
          ghost.Follows world moment.machine.environment (Stmt.while condition body).declares
            flow) := by
  rw [Places.ofStmt, List.forall_mem_append, List.forall_mem_cons] at known
  have nothing : body.declares = [] := (run.required.settled _ known.2.1).proper
  refine hand run run.required.start rfl
    (ghost.around.inBody ghost.around.setting.body (ghost.around.setting.loops + 1))
    ⟨stands, known.1, known.2.2, nothing⟩ fun flow later _ _ h ends => ?_
  cases flow with
  | normal =>
      refine ⟨later, h, ?_⟩
      rw [Stmt.declares, nothing]
      exact stands.mono h.grows
  | «break» => exact ends.elim
  | «return» value => exact ⟨later, h, ends⟩

/-- The closure of a function stands in the scopes around its declaration. -/
theorem ofFunction (declaration : FunctionDecl)
    (known
      : ∀ place ∈ Places.ofStmt (.function declaration) ghost.around, ghost.world.known place)
    (binds : ∀ entry ∈ (Stmt.function declaration).declares, ghost.around.Binds entry.1)
    : Upholds course ghost moment budget (Plan.ofStmt (.function declaration)) moment.machine
        (Gives course ghost moment fun world flow =>
          ghost.Follows world moment.machine.environment (Stmt.function declaration).declares
            flow) := by
  have settled (place) (known : ghost.world.known place) := run.required.settled place known
  rw [Places.ofStmt, List.forall_mem_cons, List.forall_mem_append] at known
  obtain ⟨name, given⟩ := (settled _ known.1).proper
  obtain ⟨_, keyword, parameters, body⟩ := declaration
  cases given
  have free := (settled _ (known.2.1 _ (List.mem_singleton.2 rfl))).proper
  refine quiet run.required.start (Step.quiet_functionHere _ _) (.of_ok rfl)
    fun value _ h made => ?_
  obtain ⟨identity, rfl⟩ := made
  exact define .function h stands free (binds _ (List.mem_singleton.2 rfl))
    (fun later le stands => ⟨_, .function, stands,
      fun place member => le.known place (known.2.2 place member), by simp⟩)
    fun later _ _ h stands _ => ⟨later, h, stands⟩

/-- A `return` is inside a function. -/
theorem ofReturn (keyword : Token) (value : Option Expr)
    (known : ∀ place ∈ Places.ofStmt (.return keyword value) ghost.around, ghost.world.known place)
    : Upholds course ghost moment budget (Plan.ofStmt (.return keyword value)) moment.machine
        (Gives course ghost moment fun world flow =>
          ghost.Follows world moment.machine.environment [] flow) := by
  have start := run.required.start
  have inside (givesValue : Bool)
      (known : ghost.world.known ⟨ghost.around, .return keyword givesValue⟩)
      : ghost.around.setting.body ≠ .program := by
    intro outside
    have lawful := (run.required.settled _ known).lawful
    simp [Place.errors, outside] at lawful
  cases value with
  | none =>
      exact ⟨_, start, trivial, inside false (known _ (List.mem_singleton.2 rfl))⟩
  | some value =>
      rw [Places.ofStmt, List.forall_mem_cons] at known
      exact .bind (evaluate run start stands known.2 fun _ later _ _ h fits =>
        ⟨later, h, fits, inside true known.1⟩)

/-- By cases over the statement. -/
theorem ofStmt (stmt : Stmt) (task : moment.task = .execute stmt)
    (known : ∀ place ∈ Places.ofStmt stmt ghost.around, ghost.world.known place)
    (binds : ∀ entry ∈ stmt.declares, ghost.around.Binds entry.1)
    : Upholds course ghost moment budget (Plan.ofStmt stmt) moment.machine
        (Gives course ghost moment fun world flow =>
          ghost.Follows world moment.machine.environment stmt.declares flow) := by
  have start := run.required.start
  cases stmt with
  | expression value =>
      exact .bind (evaluate run start stands known fun _ later _ _ h _ =>
        ⟨later, h, stands.mono h.grows⟩)
  | print keyword value =>
      refine .bind (evaluate run start stands known fun value later after _ h _ => ?_)
      refine quiet h (Step.quiet_print after value) (.of_ok rfl) fun error after h _ => ?_
      cases error with
      | none => exact ⟨later, h, stands.mono h.grows⟩
      | some error => exact fault h id
  | var name initializer =>
      exact ofVar run stands name initializer task known (binds _ (List.mem_singleton.2 rfl))
  | block body => exact ofBlock run stands body known
  | «if» condition positive negative => exact ofIf run stands condition positive negative known
  | «while» condition body => exact ofWhile run stands condition body known
  | «break» keyword =>
      have lawful := (run.required.settled _ (known _ (List.mem_singleton.2 rfl))).lawful
      refine ⟨_, start, fun outside => ?_⟩
      simp [Place.errors, outside] at lawful
  | function declaration => exact ofFunction run stands declaration known binds
  | «return» keyword value => exact ofReturn run stands keyword value known
  | «class» definition =>
      obtain ⟨name, superclass, methods, statics⟩ := definition
      exact .bind (ofClass run _ task stands known (binds _ (List.mem_singleton.2 rfl))
        fun later _ h stands => ⟨later, h, stands⟩)

end Statements

/-- By cases over the statements. A statement that ends normally has bound what it declares. -/
theorem ofStmts (run : Underway course ghost moment budget) (stmts : List Stmt)
    (stands : ghost.world.Stands moment.machine.environment.chain ghost.around.frames)
    (known : ∀ place ∈ Places.ofStmts stmts ghost.around, ghost.world.known place)
    (binds : ∀ entry ∈ stmts.flatMap Stmt.declares, ghost.around.Binds entry.1)
    : Upholds course ghost moment budget (Plan.ofStmts stmts) moment.machine
        (Gives course ghost moment fun world flow =>
          ghost.Follows world moment.machine.environment (stmts.flatMap Stmt.declares) flow) := by
  have start := run.required.start
  cases stmts with
  | nil => exact ⟨_, start, stands⟩
  | cons first rest =>
      rw [Places.ofStmts, List.forall_mem_append] at known
      rw [List.flatMap_cons, List.forall_mem_append] at binds
      refine hand run start rfl ghost.around ⟨stands, known.1, binds.1⟩
        fun flow later _ _ h follows => ?_
      cases flow with
      | normal =>
          refine hand run h h.environment (ghost.around.declareAll first.declares)
            ⟨follows, fun place member => h.grows.known place (known.2 place member),
              fun entry member => Surroundings.binds_declareAll (binds.2 entry member) _⟩
            fun flow last _ _ h follows => ⟨last, h, ?_⟩
          rw [List.flatMap_cons]
          cases flow with
          | normal =>
              simp only [Ghost.Follows, Surroundings.declareAll_append]
              exact follows
          | «break» =>
              simp only [Ghost.Grants, Ghost.Follows, Surroundings.declareAll_setting] at follows
              exact follows
          | «return» value =>
              simp only [Ghost.Grants, Ghost.Follows, Surroundings.declareAll_setting] at follows
              exact follows
      | «break» => exact ⟨later, h, follows⟩
      | «return» value => exact ⟨later, h, follows⟩

/-- A round of a loop leaves the chain as it was for the next. -/
theorem ofLoop (run : Underway course ghost moment budget) (condition : Expr) (body : Stmt)
    (stands : ghost.world.Stands moment.machine.environment.chain ghost.around.frames)
    (guard : ∀ place ∈ Places.ofExpr condition ghost.around, ghost.world.known place)
    (known : ∀ place ∈ Places.ofStmt body ghost.around, ghost.world.known place)
    (nothing : body.declares = [])
    : Upholds course ghost moment budget (Plan.ofLoop condition body) moment.machine
        (Gives course ghost moment fun world flow =>
          ghost.Grants world moment.machine.environment (.loop condition body) flow) := by
  refine .bind (evaluate run run.required.start stands guard fun holds later _ _ h _ => ?_)
  split
  · refine .bind (branch run h stands known nothing fun flow later _ h follows => ?_)
    cases flow with
    | normal =>
        exact hand run h h.environment ghost.around
          ⟨stands.mono h.grows, fun place member => h.grows.known place (guard place member),
            fun place member => h.grows.known place (known place member), nothing⟩
          fun flow last _ _ h ends => ⟨last, h, ends⟩
    | «break» => exact ⟨later, h, trivial⟩
    | «return» value => exact ⟨later, h, follows⟩
  · exact ⟨later, h, trivial⟩

end Upholds

-----------------------------------------------------------------------------------------
-- Soundness
-----------------------------------------------------------------------------------------

/-- Every plan keeps the contract between scopes and environments, so it holds in all runs. -/
theorem scopeContract_sound (closed : course.history.Closed) : (scopeContract course).Sound where
  keeps := by
    intro ghost moment budget budget_eq required
    have run : Underway course ghost moment budget := ⟨closed, required, budget_eq⟩
    have admits := required.admits
    obtain ⟨distances, _, task, machine⟩ := moment
    cases task with
    | evaluate expr => exact Upholds.ofExpr run expr admits.1 admits.2
    | evaluateAll exprs => exact Upholds.ofExprs run exprs admits.1 admits.2
    | call callee closing arguments =>
        exact Upholds.ofCall run callee closing arguments admits.1 admits.2
    | invoke closure arguments =>
        exact Upholds.ofInvocation run closure arguments admits.1 admits.2.1 admits.2.2
    | construct definition arguments =>
        exact Upholds.ofConstruction run definition arguments admits.1 admits.2.1 admits.2.2
    | execute stmt => exact Upholds.ofStmt run admits.1 stmt rfl admits.2.1 admits.2.2
    | executeAll stmts => exact Upholds.ofStmts run stmts admits.1 admits.2.1 admits.2.2
    | loop condition body =>
        exact Upholds.ofLoop run condition body admits.1 admits.2.1 admits.2.2.1 admits.2.2.2
  exhausted := by
    intro ghost moment _ required
    exact ⟨by simp, trivial, ghost.world, required.start.left⟩

/-- However a moment ends, its machine is as a world has it that has come out of the first. -/
theorem Moment.Required.exists_left (required : moment.Required course ghost)
    (closed : course.history.Closed)
    : ∃ world, moment.Left course ghost world moment.ending.machine := by
  rcases ((scopeContract_sound closed).honours required).left with
    ⟨value, world, later, _⟩ | ⟨interruption, _, _, left⟩
  · exact ⟨world, later.left⟩
  · exact left

end Lox
