import Lox.Evaluation
import Lox.Proofs.Evaluation.Worlds

/-! Steps that change no table and no instance. They leave the environment alone too and never
walk past the end of a chain.
-/

namespace Lox

/-- A machine that differs from another at most in what is printed, told and counted. -/
structure Machine.Alike (machine other : Machine) : Prop where
  environment : machine.environment = other.environment
  store : machine.store = other.store
  instances : machine.instances = other.instances

theorem Machine.Alike.refl (machine : Machine) : machine.Alike machine := ⟨rfl, rfl, rfl⟩

theorem Machine.Alike.trans {first second third : Machine} (h : first.Alike second)
    (next : second.Alike third)
    : first.Alike third :=
  ⟨h.environment.trans next.environment, h.store.trans next.store,
    h.instances.trans next.instances⟩

namespace Step

variable {α β : Type}

/-- A step on a machine keeps all that matters, and gives a good result if it gives any. -/
def Quiet (step : Step α) (machine : Machine) (good : α → Prop) : Prop :=
  match step machine with
  | .ok value after => after.Alike machine ∧ good value
  | .error interruption after => after.Alike machine ∧ interruption ≠ .beyondChain

namespace Quiet

variable {step : Step α} {machine : Machine} {good : α → Prop}

theorem pure {value : α} (h : good value) : Quiet (Pure.pure value) machine good :=
  ⟨.refl machine, h⟩

theorem get : Quiet MonadState.get machine (· = machine) := ⟨.refl machine, rfl⟩

/-- One quiet step after the other. -/
theorem bind {next : α → Step β} {last : β → Prop} (h : Quiet step machine good)
    (rest : ∀ value after, after.Alike machine → good value → Quiet (next value) after last)
    : Quiet (step >>= next) machine last := by
  unfold Quiet at h ⊢
  simp only [Bind.bind, EStateM.bind]
  cases ran : step machine with
  | error interruption after =>
      rw [ran] at h
      exact h
  | ok value after =>
      rw [ran] at h
      have more := rest value after h.1 h.2
      unfold Quiet at more
      dsimp only
      split at more <;> exact ⟨more.1.trans h.1, more.2⟩

theorem fault {token : Token} {cause : FaultCause} : Quiet (Step.fault token cause) machine good :=
  ⟨.refl machine, nofun⟩

/-- Nothing comes after a fault. -/
theorem faultBind {token : Token} {cause : FaultCause} {next : α → Step β} {last : β → Prop}
    : Quiet (Step.fault token cause >>= next) machine last :=
  ⟨.refl machine, nofun⟩

/-- A lookup that does not walk past the end of a chain. -/
theorem lookup {token : Token} {find : Machine → Except LookupError α}
    (found : ∀ value, find machine = .ok value → good value)
    (inside : find machine ≠ .error .beyondChain)
    : Quiet (Step.lookup token find) machine good := by
  unfold Quiet Step.lookup
  cases ran : find machine with
  | ok value => exact ⟨.refl machine, found value ran⟩
  | error error =>
      refine ⟨.refl machine, ?_⟩
      cases error <;> first | exact absurd ran inside | exact nofun

end Quiet

-----------------------------------------------------------------------------------------
-- Operators, printing and calls of native functions
-----------------------------------------------------------------------------------------

/-- A value is neither a function nor a class nor an instance. -/
def IsPlain : Value → Prop
  | .nil | .bool _ | .number _ | .string _ | .native _ => True
  | .function _ | .class _ | .instance _ => False

/-- Values that refer to nothing fit into every world. -/
theorem IsPlain.fits {value : Value} (h : IsPlain value) (world : World)
    : world.FitsValue value := by
  cases value <;> trivial

variable (machine : Machine)

theorem quiet_report (diagnostic : Diagnostic)
    : Quiet (report diagnostic) machine fun _ => True :=
  ⟨⟨rfl, rfl, rfl⟩, trivial⟩

theorem quiet_unary (operator : Token) (operand : Value)
    : Quiet (unary operator operand) machine IsPlain := by
  unfold unary
  split
  · exact .pure trivial
  · exact .fault
  · exact .pure trivial
  · exact .fault

theorem quiet_divide (operator : Token) (a b : Float)
    : Quiet (divide operator a b) machine IsPlain := by
  unfold divide
  split
  · exact .bind (quiet_report machine _) fun _ _ _ _ => .pure trivial
  · exact .pure trivial

theorem quiet_arithmetic (operator : Token) (a b : Float)
    : Quiet (arithmetic operator a b) machine IsPlain := by
  unfold arithmetic
  split
  case h_4 => exact quiet_divide machine operator a b
  case h_9 => exact .fault
  all_goals exact .pure trivial

theorem quiet_binary (operator : Token) (left right : Value)
    : Quiet (binary operator left right) machine IsPlain := by
  unfold binary
  split
  case h_4 => exact quiet_arithmetic machine operator _ _
  all_goals first | exact .fault | exact .pure trivial

theorem quiet_textOf (value : Value) : Quiet (textOf value) machine fun _ => True :=
  ⟨.refl machine, trivial⟩

theorem quiet_print (value : Value) : Quiet (print value) machine fun _ => True :=
  .bind (quiet_textOf machine value) fun _ _ _ _ => ⟨⟨rfl, rfl, rfl⟩, trivial⟩

theorem quiet_callNative (callee : Native) (arguments : List Value)
    : Quiet (callNative callee arguments) machine IsPlain := by
  cases callee with
  | clock => exact ⟨⟨rfl, rfl, rfl⟩, trivial⟩
  | str =>
      cases arguments with
      | nil => exact .pure trivial
      | cons first rest =>
          exact .bind (quiet_textOf machine first) fun _ _ _ _ => .pure trivial

theorem quiet_deeper {step : Step α} {good : α → Prop}
    (h : Quiet step { machine with callDepth := machine.callDepth + 1 } good)
    : Quiet (deeper step) machine good := by
  unfold Quiet at h ⊢
  unfold deeper
  cases ran : step { machine with callDepth := machine.callDepth + 1 } with
  | ok value after =>
      rw [ran] at h
      exact ⟨⟨h.1.environment, h.1.store, h.1.instances⟩, h.2⟩
  | error interruption after =>
      rw [ran] at h
      exact ⟨⟨h.1.environment, h.1.store, h.1.instances⟩, h.2⟩

/-- A call that goes on has the right number of arguments. -/
theorem quiet_checkCall (closing : Token) (arity given : Nat)
    : Quiet (Plan.checkCall closing arity given) machine fun _ => given = arity := by
  unfold Plan.checkCall
  by_cases same : given = arity
  · simp only [ne_eq, same, not_true_eq_false, if_false]
    refine .bind .get fun state after alike _ => ?_
    split
    · exact .fault
    · exact .pure trivial
  · simp only [ne_eq, same, not_false_eq_true, if_true]
    exact .faultBind

-----------------------------------------------------------------------------------------
-- New functions and lookups in one table
-----------------------------------------------------------------------------------------

theorem quiet_freshIdentity : Quiet freshIdentity machine fun _ => True :=
  ⟨⟨rfl, rfl, rfl⟩, trivial⟩

theorem quiet_functionOf (closure : Closure)
    : Quiet (functionOf closure) machine fun value =>
        ∃ identity, value = .function ⟨identity, closure⟩ :=
  .bind (quiet_freshIdentity machine) fun identity _ _ _ => .pure ⟨identity, rfl⟩

/-- A function made here is closed by the current environment. -/
theorem quiet_functionHere (declaration : FunctionDecl)
    : Quiet (functionHere declaration) machine fun value =>
        ∃ identity, value = .function ⟨identity, declaration, machine.environment, false⟩ := by
  refine .bind .get fun state after alike same => ?_
  subst same
  exact quiet_functionOf after _

/-- What is found in a table is there. -/
theorem quiet_getHere (address : Nat) (token : Token)
    : Quiet (getHere address token) machine fun value =>
        (machine.store.table address).get? token.lexeme = some (some value) := by
  unfold getHere
  refine .lookup (fun value found => ?_) ?_
  · unfold Store.getHere at found
    split at found <;> simp_all
  · unfold Store.getHere
    split <;> exact nofun

end Step
end Lox
