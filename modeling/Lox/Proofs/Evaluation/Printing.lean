import Lox.Proofs.Evaluation.Balance

/-! What print statements do. A sink that takes any number of bytes and passes all lines on does not
fail, and then a print statement only adds its line.
-/

namespace Lox

-----------------------------------------------------------------------------------------
-- Writing that does not fail
-----------------------------------------------------------------------------------------

/-- Whatever is written to the sink, writing does not fail. -/
def Sink.Reliable (sink : Sink) : Prop := ∀ text, (sink.writeLine text).1 = none

namespace Sink

variable {sink other : Sink}

theorem fits_of_reliable (h : sink.Reliable) (text : String)
    : sink.fits (text ++ "\n").toUTF8 = true ∧ sink.flushes = true := by
  have written := h text
  unfold writeLine at written
  dsimp only at written
  split at written
  · cases written
  · split at written
    · cases written
    · simp_all

/-- A sink does not fail if it takes any number of bytes and passes all lines on. -/
theorem reliable_iff : sink.Reliable ↔ sink.capacity = none ∧ sink.flushes = true := by
  constructor
  · intro reliable
    refine ⟨?_, (fits_of_reliable reliable "").2⟩
    cases limit : sink.capacity with
    | none => rfl
    | some capacity =>
        have fits := (fits_of_reliable reliable (String.ofList (List.replicate capacity 'a'))).1
        have length (count : Nat) : (List.replicate count 'a').utf8Encode.size = count := by
          have one : 'a'.utf8Size = 1 := by decide
          simp [List.utf8Encode, one]
        have newline : "\n".utf8ByteSize = 1 := by decide
        simp [Sink.fits, limit, length, newline] at fits
        omega
  · rintro ⟨unlimited, flushes⟩ text
    simp [writeLine, fits, unlimited, flushes]

theorem Reliable.akin (h : sink.Reliable) (same : sink.Akin other) : other.Reliable := by
  rw [reliable_iff] at h ⊢
  rwa [same.capacity, same.flushes]

theorem Reliable.writeLine_eq (h : sink.Reliable) (text : String)
    : sink.writeLine text
      = (none, { sink with written := sink.written ++ (text ++ "\n").toUTF8 }) := by
  have unlimited := (reliable_iff.1 h).1
  refine Prod.ext (h text) ?_
  simp [writeLine, part, unlimited]

end Sink

-----------------------------------------------------------------------------------------
-- Printing the value of an expression
-----------------------------------------------------------------------------------------

/-- The machine after a line has been written. -/
def Machine.writing (machine : Machine) (text : String) : Machine :=
  { machine with
    sink := { machine.sink with written := machine.sink.written ++ (text ++ "\n").toUTF8 } }

/-- The machine after a value has been printed. -/
def Machine.printing (machine : Machine) (value : Value) : Machine :=
  machine.writing (value.text machine.instances)

theorem Step.print_eq {machine : Machine} (reliable : machine.sink.Reliable) (value : Value)
    : Step.print value machine = .ok none (machine.printing value) := by
  have written := reliable.writeLine_eq (value.text machine.instances)
  change Step.writeLine (value.text machine.instances) machine = _
  rw [Step.writeLine, written]
  rfl

variable {access : Access} {budget : Nat} {keyword : Token} {expr : Expr} {machine : Machine}

/-- A statement that prints does what its expression does and then prints the value; if that fails,
there is a fault at its keyword.
-/
theorem Task.perform_print_eq (machine : Machine)
    : Task.perform access (budget + 1) (.execute (.print keyword expr)) machine
      = Ending.andThen (Task.perform access budget (.evaluate expr) machine) fun value after =>
          Ending.andThen (Step.print value after) fun error last =>
            match error with
            | none => .ok .normal last
            | some error => .error (.fault ⟨keyword, .output error⟩) last := by
  refine (Plan.run_hand_plain access _ (.evaluate expr) _ machine).trans ?_
  cases Task.perform access budget (.evaluate expr) machine with
  | error interruption after => rfl
  | ok value after =>
      refine (Plan.run_step access _ (Step.print value) _ after).trans ?_
      dsimp only [Ending.andThen]
      cases Step.print value after with
      | error interruption last => rfl
      | ok error last => cases error <;> rfl

/-- If writing does not fail, the line is all that is added. -/
theorem Task.perform_print (reliable : machine.sink.Reliable)
    : Task.perform access (budget + 1) (.execute (.print keyword expr)) machine
      = Ending.andThen (Task.perform access budget (.evaluate expr) machine) fun value after =>
          .ok .normal (after.printing value) := by
  have proceeds := Task.perform_proceeds access budget (.evaluate expr) machine
  rw [perform_print_eq]
  cases ran : Task.perform access budget (.evaluate expr) machine with
  | error interruption after => rfl
  | ok value after =>
      rw [ran] at proceeds
      have printed : Step.print value after = .ok none (after.printing value) :=
        Step.print_eq (reliable.akin proceeds.sink) value
      dsimp only [Ending.andThen]
      rw [printed]

/-- So does the statement as the only one of a program. -/
theorem Task.perform_printing (reliable : machine.sink.Reliable)
    : Task.perform access (budget + 2) (.executeAll [.print keyword expr]) machine
      = Ending.andThen (Task.perform access budget (.evaluate expr) machine) fun value after =>
          .ok .normal (after.printing value) := by
  have printed
      : Task.perform access (budget + 1) (.execute (.print keyword expr)) machine = _ :=
    perform_print reliable
  refine (Plan.run_hand_plain access _ (.execute (.print keyword expr)) _ machine).trans ?_
  rw [printed]
  cases Task.perform access budget (.evaluate expr) machine <;> rfl

end Lox
