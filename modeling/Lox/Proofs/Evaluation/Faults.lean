import Lox.Evaluation
import Lox.Proofs.Scoping.Layers
import Lox.Proofs.Syntax.Derivation

/-! Faults that no program runs into: those of a `this`, a `super` or a slot that is not as its
scope has it, and those of an operator that no grammar rule reads. For each step that no part of
a program depends on, the causes that it may fail for.
-/

namespace Lox

/-- A binding is not as scopes have it: there are no slots without a value, each `this` and `super`
is bound, and a `super` is bound to a class.
-/
def FaultCause.OfBinding : FaultCause → Prop
  | .superUnresolved | .superNotClass | .uninitializedVariable _ => True
  | .undefinedVariable name => Reserved name
  | _ => False

/-- An operator is not one of the grammar. -/
def FaultCause.OfOperator : FaultCause → Prop
  | .unknownUnary | .unknownBinary => True
  | _ => False

/-- An interruption is no fault of some kinds. -/
def Interruption.Avoids (causes : FaultCause → Prop) : Interruption → Prop
  | .fault ⟨_, cause⟩ => ¬ causes cause
  | .beyondChain | .budget => True

/-- Operators do not matter where a name is looked up. -/
theorem LookupError.avoids_ofOperator (error : LookupError) (token : Token)
    : (error.interruption token).Avoids FaultCause.OfOperator := by
  cases error with
  | beyondChain => trivial
  | undefined | uninitialized | unresolved => exact id

namespace Step

open Grammar (UnaryOperator BinaryOperator)

variable {α β : Type} {causes : FaultCause → Prop}

/-- A step on a machine does not end with a fault of some kinds. -/
def Avoids (causes : FaultCause → Prop) (step : Step α) (machine : Machine) : Prop :=
  ∀ interruption after, step machine = .error interruption after → interruption.Avoids causes

namespace Avoids

variable {step : Step α} {machine : Machine}

/-- What comes to a value avoids all faults. -/
theorem of_ok {value : α} {after : Machine} (ran : step machine = .ok value after)
    : Avoids causes step machine := by
  intro interruption last failed
  cases ran.symm.trans failed

theorem fault {token : Token} {cause : FaultCause} (other : ¬ causes cause)
    : Avoids causes (Step.fault token cause : Step α) machine := by
  intro interruption after failed
  cases failed
  exact other

theorem bind {next : α → Step β} (h : Avoids causes step machine)
    (rest : ∀ value after, step machine = .ok value after → Avoids causes (next value) after)
    : Avoids causes (step >>= next) machine := by
  intro interruption last failed
  simp only [Bind.bind, EStateM.bind] at failed
  cases ran : step machine with
  | ok value after =>
      rw [ran] at failed
      exact rest value after ran interruption last failed
  | error other after =>
      rw [ran] at failed
      cases failed
      exact h interruption last ran

/-- A lookup avoids what its error would be told as. -/
theorem lookup {token : Token} {find : Machine → Except LookupError α}
    (found : ∀ error, find machine = .error error → (error.interruption token).Avoids causes)
    : Avoids causes (Step.lookup token find) machine := by
  intro interruption after failed
  unfold Step.lookup at failed
  cases ran : find machine with
  | ok value => simp [ran] at failed
  | error error =>
      simp only [ran] at failed
      cases failed
      exact found error ran

theorem deeper (h : Avoids causes step { machine with callDepth := machine.callDepth + 1 })
    : Avoids causes (Step.deeper step) machine := by
  intro interruption last failed
  unfold Step.deeper at failed
  cases ran : step { machine with callDepth := machine.callDepth + 1 } with
  | ok value after => simp [ran] at failed
  | error other after =>
      simp only [ran] at failed
      cases failed
      exact h interruption after ran

end Avoids

variable (machine : Machine)

theorem avoids_unary {operator : Token} {operand : Value} (number : ¬ causes .operandNotNumber)
    (unknown : causes .unknownUnary → UnaryOperator operator.kind)
    : Avoids causes (unary operator operand) machine := by
  unfold unary
  split
  · exact .of_ok rfl
  · exact .fault number
  · exact .of_ok rfl
  · refine .fault fun cause => ?_
    have sign := unknown cause
    obtain ⟨kind, lexeme, line⟩ := operator
    cases sign <;> simp_all

theorem avoids_divide (operator : Token) (a b : Float)
    : Avoids causes (divide operator a b) machine := by
  unfold divide
  split <;> exact .of_ok rfl

/-- Equality is settled before two numbers are compared. -/
theorem avoids_arithmetic {operator : Token} {a b : Float}
    (unknown
      : causes .unknownBinary
        → (∃ tier, BinaryOperator tier operator.kind)
          ∧ operator.kind ≠ .mark .equalEqual
          ∧ operator.kind ≠ .mark .bangEqual)
    : Avoids causes (arithmetic operator a b) machine := by
  unfold arithmetic
  split
  case h_4 => exact avoids_divide machine operator a b
  case h_9 =>
    refine .fault fun cause => ?_
    obtain ⟨⟨tier, sign⟩, others⟩ := unknown cause
    obtain ⟨kind, lexeme, line⟩ := operator
    cases sign <;> simp_all
  all_goals exact .of_ok rfl

theorem avoids_binary {operator : Token} {left right : Value}
    (numbers : ¬ causes .operandsNotNumbers) (addable : ¬ causes .operandsNotAddable)
    (unknown : causes .unknownBinary → ∃ tier, BinaryOperator tier operator.kind)
    : Avoids causes (binary operator left right) machine := by
  unfold binary
  split
  case h_4 =>
    next unequal unlike =>
      exact avoids_arithmetic machine fun cause => ⟨unknown cause, unequal, unlike⟩
  case h_5 => exact .fault addable
  case h_13 =>
    refine .fault fun cause => ?_
    obtain ⟨tier, sign⟩ := unknown cause
    obtain ⟨kind, lexeme, line⟩ := operator
    cases sign <;> simp_all
  all_goals first | exact .fault numbers | exact .of_ok rfl

/-- A call fails for the number of its arguments or for its depth. -/
theorem avoids_checkCall {closing : Token} {arity given : Nat}
    (count : given ≠ arity → ¬ causes (.argumentCount arity given))
    (depth : ¬ causes .stackOverflow)
    : Avoids causes (Plan.checkCall closing arity given) machine := by
  unfold Plan.checkCall
  by_cases same : given = arity
  · simp only [ne_eq, same, not_true_eq_false, if_false]
    refine .bind (.of_ok rfl) fun state after _ => ?_
    split
    · exact .fault depth
    · exact .of_ok rfl
  · simp only [ne_eq, same, not_false_eq_true, if_true]
    exact .bind (.fault (count same)) nofun

theorem avoids_callNative (callee : Native) (arguments : List Value)
    : Avoids causes (callNative callee arguments) machine := by
  cases callee with
  | clock => exact .of_ok rfl
  | str => cases arguments <;> exact .of_ok rfl

end Step
end Lox
