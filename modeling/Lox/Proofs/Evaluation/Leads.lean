import Lox.Proofs.Evaluation.Moments

/-! The moments that a moment leads to, read off the plan of its task: what statements in order
run next, and the way of a call from its callee to the body that it runs.
-/

namespace Lox

variable {distances : Distances} {budget : Nat} {machine after : Machine}

-----------------------------------------------------------------------------------------
-- Checks before a call
-----------------------------------------------------------------------------------------

namespace Plan

variable {closing : Token} {arity given : Nat}

/-- The number of arguments is checked first. -/
theorem checkCall_of_ne (wrong : given ≠ arity)
    : checkCall closing arity given machine
      = .error (.fault ⟨closing, .argumentCount arity given⟩) machine := by
  rw [checkCall, if_pos wrong]
  rfl

/-- A call that is not too deep goes on with the right number of arguments. -/
theorem checkCall_of_eq (same : given = arity) (below : machine.callDepth < machine.maxDepth)
    : checkCall closing arity given machine = .ok () machine := by
  have goes
      : checkCall closing arity given machine
        = (if machine.maxDepth ≤ machine.callDepth then Step.fault closing .stackOverflow
          else Pure.pure () : Step Unit) machine := by
    rw [checkCall, if_neg (not_not_intro same)]
    rfl
  rw [goes, if_neg (Nat.not_le_of_lt below)]
  rfl

end Plan

namespace Moment

-----------------------------------------------------------------------------------------
-- Statements
-----------------------------------------------------------------------------------------

variable {first : Stmt} {rest body : List Stmt} {expr : Expr}

/-- Statements in order begin with the first. -/
theorem leads_first
    : Leads ⟨distances, budget + 1, .executeAll (first :: rest), machine⟩
        ⟨distances, budget, .execute first, machine⟩ :=
  ⟨budget, rfl, .handing⟩

/-- When the first of some statements has ended normally, the others follow. -/
theorem leads_rest
    (ended : ending ⟨distances, budget, .execute first, machine⟩ = .ok .normal after)
    : Leads ⟨distances, budget + 1, .executeAll (first :: rest), machine⟩
        ⟨distances, budget, .executeAll rest, after⟩ :=
  ⟨budget, rfl, .hand ended .handing⟩

/-- When the first of some statements has ended normally, they end as the others do. -/
theorem ending_rest
    (ended : ending ⟨distances, budget, .execute first, machine⟩ = .ok .normal after)
    : ending ⟨distances, budget + 1, .executeAll (first :: rest), machine⟩
      = ending ⟨distances, budget, .executeAll rest, after⟩ := by
  refine (Plan.run_hand_plain ..).trans ?_
  exact (congrArg (Ending.andThen · _) ended).trans (Plan.run_asking ..)

theorem leads_expression
    : Leads ⟨distances, budget + 1, .execute (.expression expr), machine⟩
        ⟨distances, budget, .evaluate expr, machine⟩ :=
  ⟨budget, rfl, .handing⟩

theorem leads_print {keyword : Token}
    : Leads ⟨distances, budget + 1, .execute (.print keyword expr), machine⟩
        ⟨distances, budget, .evaluate expr, machine⟩ :=
  ⟨budget, rfl, .handing⟩

/-- The statements of a block are run in a new environment inside the current one. -/
theorem leads_block
    : Leads ⟨distances, budget + 1, .execute (.block body), machine⟩
        ⟨distances, budget, .executeAll body,
          { machine with
            environment := machine.store.nextInside machine.environment
            store := machine.store.add .empty }⟩ :=
  ⟨budget, rfl, .step rfl (.act rfl .handing)⟩

-----------------------------------------------------------------------------------------
-- Calls
-----------------------------------------------------------------------------------------

variable {closing : Token} {exprs : List Expr} {arguments : List Value} {callee : Value}
  {definition : Class} {closure : Closure}

theorem leads_callee
    : Leads ⟨distances, budget + 1, .evaluate (.call expr closing exprs), machine⟩
        ⟨distances, budget, .evaluate expr, machine⟩ :=
  ⟨budget, rfl, .handing⟩

/-- The arguments are evaluated after the callee. -/
theorem leads_arguments
    (evaluated : ending ⟨distances, budget, .evaluate expr, machine⟩ = .ok callee after)
    : Leads ⟨distances, budget + 1, .evaluate (.call expr closing exprs), machine⟩
        ⟨distances, budget, .evaluateAll exprs, after⟩ :=
  ⟨budget, rfl, .hand evaluated .handing⟩

/-- What the callee has given is called with what the arguments have given. -/
theorem leads_call {between : Machine}
    (evaluated : ending ⟨distances, budget, .evaluate expr, machine⟩ = .ok callee between)
    (given : ending ⟨distances, budget, .evaluateAll exprs, between⟩ = .ok arguments after)
    : Leads ⟨distances, budget + 1, .evaluate (.call expr closing exprs), machine⟩
        ⟨distances, budget, .call callee closing arguments, after⟩ :=
  ⟨budget, rfl, .hand evaluated (.hand given .handing)⟩

/-- A call ends as what the callee has given does when it is called. -/
theorem ending_call (distances : Distances) (budget : Nat) (expr : Expr) (closing : Token)
    (exprs : List Expr) (machine : Machine)
    : ending ⟨distances, budget + 1, .evaluate (.call expr closing exprs), machine⟩
      = Ending.andThen (ending ⟨distances, budget, .evaluate expr, machine⟩)
          fun callee between =>
            Ending.andThen (ending ⟨distances, budget, .evaluateAll exprs, between⟩)
              fun arguments later =>
                ending ⟨distances, budget, .call callee closing arguments, later⟩ := by
  refine (Plan.run_hand_plain ..).trans ?_
  refine congrArg (Ending.andThen _) (funext fun callee => funext fun between => ?_)
  refine (Plan.run_hand_plain ..).trans ?_
  refine congrArg (Ending.andThen _) (funext fun arguments => funext fun later => ?_)
  refine (Plan.run_hand_plain ..).trans ?_
  unfold Ending.andThen
  split <;> next ended => exact ended.symm

/-- What has a property is evaluated before the property is looked for. -/
theorem leads_object {name : Token}
    : Leads ⟨distances, budget + 1, .evaluate (.get expr name), machine⟩
        ⟨distances, budget, .evaluate expr, machine⟩ :=
  ⟨budget, rfl, .handing⟩

/-- With the right number of arguments, an instance is made one call deeper. -/
theorem leads_construct (same : arguments.length = definition.arity)
    (below : machine.callDepth < machine.maxDepth)
    : Leads ⟨distances, budget + 1, .call (.class definition) closing arguments, machine⟩
        ⟨distances, budget, .construct definition arguments,
          { machine with callDepth := machine.callDepth + 1 }⟩ :=
  ⟨budget, rfl, .step (Plan.checkCall_of_eq same below) .handing⟩

/-- An initializer is run with a new instance as its receiver. -/
theorem leads_initializer (found : definition.initializer? = some closure)
    : Leads ⟨distances, budget + 1, .construct definition arguments, machine⟩
        ⟨distances, budget,
          .invoke
            { closure with environment := machine.store.nextInside closure.environment }
            arguments,
          { machine with
            instances := machine.instances.push ⟨definition, .empty⟩
            store :=
              machine.store.add
                (Table.empty.set "this" (some (.instance machine.instances.size))) }⟩ := by
  refine ⟨budget, rfl, .step rfl ?_⟩
  rw [found]
  exact .act rfl .handing

/-- A body is run in a new environment inside that of the function, which binds its parameters. -/
theorem leads_body
    : Leads ⟨distances, budget + 1, .invoke closure arguments, machine⟩
        ⟨distances, budget, .executeAll closure.declaration.body,
          { machine with
            environment := machine.store.nextInside closure.environment
            store :=
              machine.store.add
                (Plan.parameterBindings closure.declaration.parameters arguments) }⟩ :=
  ⟨budget, rfl, .act rfl .handing⟩

end Moment
end Lox
