import Lox.Proofs.Evaluation.Filling
import Lox.Proofs.Session.Diagnostics
import Lox.Proofs.Session.Limits

/-! Programs whose output goes to a sink that fills up. What is written are the first bytes of what
is written without a limit, and nothing else is different up to the line that does not fit any more.
-/

namespace Lox

namespace Session

-----------------------------------------------------------------------------------------
-- Sessions with a full sink
-----------------------------------------------------------------------------------------

/-- The session if its sink takes only so many bytes. -/
def filled (capacity : Nat) (session : Session) : Session :=
  { session with machine := session.machine.filled capacity }

/-- Without a limit, the run of a source comes to a print statement whose line does not fit any more
into a sink that takes only so many bytes.
-/
structure Overrun (session : Session) (source : String) (capacity : Nat) where
  opened : Session
  program : Program
  begins : session.Begins (.run source) opened (.executeAll program)
  stop : Moment
  reaches : (opened.moment (.executeAll program)).Reaches stop
  keyword : Token
  /-- The machine that has all of the line. -/
  spilled : Machine
  overruns : stop.Overruns capacity keyword spilled

/-- The session with as much of the line as fits, which has told of the fault and is back where the
run began.
-/
def Overrun.left {session : Session} {source : String} {capacity : Nat}
    (overrun : session.Overrun source capacity) : Session :=
  { overrun.opened with
    machine := session.machine.backAt (overrun.spilled.filled capacity) }.report
    (.atToken .running overrun.keyword ("Failed to write output: " ++ SinkError.closed.message))

/-- How a source runs without a limit of the output, and how if the sink takes only so many bytes.
-/
inductive Fills (capacity : Nat) (session : Session) (source : String) :
    Status × Session → Status × Session → Prop
  | fits {status : Status} {after : Session} (room : after.machine.sink.size ≤ capacity)
    : Fills capacity session source (status, after) (status, after.filled capacity)
  | cut {free : Status × Session} (overrun : session.Overrun source capacity)
    (keeps : overrun.spilled.Extends free.2.machine)
    : Fills capacity session source free (.runtimeError, overrun.left)

variable {session : Session} {source : String} {capacity : Nat}

/-- What is told as long as all has fit is told at the same place. -/
theorem report_filled (room : session.machine.sink.size ≤ capacity) (diagnostic : Diagnostic)
    : (session.filled capacity).report diagnostic
      = (session.report diagnostic).filled capacity := by
  have same : (session.filled capacity).machine.sink.size = session.machine.sink.size :=
    Sink.size_filled room
  unfold report
  rw [same]
  rfl

/-- Static errors write nothing, by induction over them. -/
theorem fills_reject (room : session.machine.sink.size ≤ capacity) (first : Session)
    (diagnostics : List Diagnostic)
    : Fills capacity first source (session.reject diagnostics)
        ((session.filled capacity).reject diagnostics) := by
  unfold reject reportAll
  induction diagnostics generalizing session with
  | nil => exact .fits room
  | cons diagnostic rest ih =>
      have told := report_filled room diagnostic
      rw [List.foldl_cons, List.foldl_cons, told]
      exact ih room

/-- What has been written and told is kept when the ending of an evaluation is told. -/
theorem extends_conclude {α : Type} (session : Session) (ending : Ending α)
    : ending.machine.Extends (session.conclude ending).2.machine := by
  have same : (session.conclude ending).2.machine = ending.outcome.2 := by
    cases ending with
    | ok value after => rfl
    | error interruption after => cases interruption <;> rfl
  rw [same]
  exact ending.extends_outcome

/-- The ending of a program decides how it fills the sink. -/
theorem fills_conclude {opened : Session} {program : Program} {first second : Ending Flow}
    (begins : session.Begins (.run source) opened (.executeAll program))
    (h
      : first.Fills capacity opened.machine (opened.moment (.executeAll program)).Reaches second)
    : Fills capacity session source (opened.conclude first)
        ((opened.filled capacity).conclude second) := by
  cases h with
  | fits room =>
      cases first with
      | ok flow after => exact .fits room
      | error interruption after =>
          cases interruption with
          | beyondChain | budget => exact .fits room
          | fault fault =>
              let last : Session := { opened with machine := after }
              have here : last.machine.sink.size ≤ capacity := room
              have told := report_filled here fault.diagnostic
              change Fills capacity session source (.runtimeError, last.report fault.diagnostic)
                (.runtimeError, (last.filled capacity).report fault.diagnostic)
              rw [told]
              exact .fits room
  | cut reaches overruns keeps =>
      have told := opened.extends_conclude first
      have cut
          : Fills capacity session source (opened.conclude first)
              (.runtimeError,
                Overrun.left ⟨opened, program, begins, _, reaches, _, _, overruns⟩) :=
        .cut _ (keeps.trans told)
      unfold Overrun.left at cut
      rw [← begins.opens.machine] at cut
      exact cut

/-- The output has no part in reading. -/
theorem parseProgram_filled {scan : Scan} {result : Except (List SyntaxError) Program}
    {numbered : Session} (parsed : session.parseProgram scan = (result, numbered))
    : (session.filled capacity).parseProgram scan = (result, numbered.filled capacity)
      ∧ numbered.machine = session.machine := by
  unfold parseProgram at parsed ⊢
  have next : (session.filled capacity).nextId = session.nextId := rfl
  rw [next]
  generalize Program.parse scan.tokens scan.stop session.nextId = read at parsed ⊢
  cases parsed
  exact ⟨rfl, rfl⟩

/-- A program that has been read fills the sink as its task does, if it is accepted. -/
theorem fills_runProgram {program : Program} {numbered : Session}
    (room : numbered.machine.HasRoom capacity)
    (scanned : (Scan.ofText source).errors = [])
    (parsed : session.parseProgram (.ofText source) = (.ok program, numbered))
    : Fills capacity session source (numbered.runProgram program)
        ((numbered.filled capacity).runProgram program) := by
  have same := config_of_parseProgram parsed
  cases resolved : program.resolve numbered.config.reportUnused with
  | error errors =>
      have refused
          : program.resolve (numbered.filled capacity).config.reportUnused = .error errors :=
        resolved
      unfold runProgram
      rw [resolved, refused]
      exact fills_reject room.le session _
  | ok distances =>
      have accepted
          : program.resolve (numbered.filled capacity).config.reportUnused = .ok distances :=
        resolved
      have fills := Task.perform_fills (numbered.learn distances).distances
        (numbered.learn distances).config.budget (.executeAll program) room
      rw [runProgram_eq_conclude resolved, runProgram_eq_conclude accepted]
      rw [same] at resolved
      exact fills_conclude (.run scanned parsed resolved) fills

/-- A source fills the sink as its program does; one with a static error writes nothing. -/
theorem run_fills (session : Session) (source : String)
    (room : session.machine.HasRoom capacity)
    : Fills capacity session source (session.run source)
        ((session.filled capacity).run source) := by
  unfold run runScan
  split
  · next scanned =>
      rcases parsed : session.parseProgram (.ofText source) with ⟨errors | program, numbered⟩
      · obtain ⟨again, machine⟩ := parseProgram_filled parsed
        rw [← machine] at room
        rw [again]
        exact fills_reject room.le session _
      · obtain ⟨again, machine⟩ := parseProgram_filled parsed
        rw [← machine] at room
        rw [again]
        exact fills_runProgram room (List.isEmpty_iff.1 scanned) parsed
  · exact fills_reject room.le session _

-----------------------------------------------------------------------------------------
-- What is written to a sink that fills up
-----------------------------------------------------------------------------------------

/-- A full sink has the first bytes of all that is written. -/
theorem Fills.written {free full : Status × Session} (h : Fills capacity session source free full)
    : full.2.machine.sink.written = free.2.machine.sink.written.extract 0 capacity := by
  cases h with
  | fits room => rfl
  | cut overrun keeps =>
      obtain ⟨more, written⟩ := keeps.written
      have enough : capacity - overrun.spilled.sink.written.size = 0 :=
        Nat.sub_eq_zero_of_le (Nat.le_of_lt overrun.overruns.lt)
      rw [written, ByteArray.extract_append, Nat.zero_sub, enough, ByteArray.extract_same,
        ByteArray.append_empty]
      rfl

/-- If all output fits, the source runs as without the limit. -/
theorem Fills.eq_of_le {free full : Status × Session} (h : Fills capacity session source free full)
    (le : free.2.machine.sink.size ≤ capacity)
    : full = (free.1, free.2.filled capacity) := by
  cases h with
  | fits room => rfl
  | cut overrun keeps =>
      have long := Nat.lt_of_lt_of_le overrun.overruns.lt keeps.size_le
      exact absurd le (Nat.not_le.2 long)

/-- If not, the run is cut. -/
theorem Fills.exists_overrun {free full : Status × Session}
    (h : Fills capacity session source free full) (lt : capacity < free.2.machine.sink.size)
    : ∃ overrun : session.Overrun source capacity,
        full = (.runtimeError, overrun.left) ∧ overrun.spilled.Extends free.2.machine := by
  cases h with
  | fits room => exact absurd room (Nat.not_le.2 lt)
  | cut overrun keeps => exact ⟨overrun, rfl, keeps⟩

/-- The run begins in the same way. -/
theorem Begins.filled {opened : Session} {task : Task}
    (h : session.Begins (.run source) opened task)
    : (session.filled capacity).Begins (.run source) (opened.filled capacity) task := by
  cases h with
  | run scanned parsed resolved => exact .run scanned (parseProgram_filled parsed).1 resolved

/-- A source only adds to what has been written and told. -/
theorem extends_run (session : Session) (source : String)
    : session.machine.Extends (session.run source).2.machine := by
  rcases session.refuses_or_concludes source with
    ⟨diagnostics, refuses⟩ | ⟨opened, program, begins, ran⟩
  · rw [(run_of_refuses refuses).2.machine]
    refine ⟨(Machine.Extends.refl _).written, ?_⟩
    rw [Array.toList_append]
    exact List.prefix_append _ _
  · have bears := Task.perform_bears opened.distances opened.config.budget (.executeAll program)
    rw [ran, ← begins.opens.machine]
    exact (bears.keeps opened.machine).trans (opened.extends_conclude _)

/-- The session when its output goes to a sink that passes all lines on, and that takes only so many
more bytes if they are limited.
-/
def pouring (room : Option Nat) (session : Session) : Session :=
  { session with
    machine :=
      { session.machine with
        sink :=
          ⟨session.machine.sink.written, room.map (session.machine.sink.size + ·), true⟩ } }

/-- A limit of what is still to be written is one of all that has been. -/
theorem pouring_some (session : Session) (room : Nat)
    : session.pouring (some room)
      = (session.pouring none).filled (session.machine.sink.size + room) := by
  have fits : (session.pouring none).machine.sink.size ≤ session.machine.sink.size + room :=
    Nat.le_add_right session.machine.sink.size room
  have kept := Sink.written_filled fits
  have sink
      : (session.pouring (some room)).machine.sink
        = (session.pouring none).machine.sink.filled (session.machine.sink.size + room) :=
    congrArg (Sink.mk · (some (session.machine.sink.size + room)) true) kept.symm
  exact congrArg (fun sink => { session with machine := { session.machine with sink } }) sink

/-- A sink that fills up cuts a run off and does nothing else. Whatever the session and the source,
with room for some more bytes only, the output is the first bytes of what it is without a limit. If
all of it fits, the status and the session are the same. If not, the run ends with a runtime error.
Without the limit, it comes to a print statement whose line does not fit any more. With the limit,
it comes only to what it comes to while all fits, and the session that is left is the one at the
print statement: it has as much of the line as fits, it is back in the environment and at the depth
of calls in which the run began, and what has been told by then is followed by one fault at the
keyword of the statement.
-/
theorem run_truncates (session : Session) (source : String) (room : Nat)
    : let capacity := session.machine.sink.size + room
      let free := (session.pouring none).run source
      let full := (session.pouring (some room)).run source
      ∃ output,
        free.2.machine.sink.written = session.machine.sink.written ++ output
        ∧ full.2.machine.sink.written = session.machine.sink.written ++ output.extract 0 room
        ∧ (output.size ≤ room → full = (free.1, free.2.filled capacity))
        ∧ (room < output.size
            → ∃ overrun : (session.pouring none).Overrun source capacity,
                full = (.runtimeError, overrun.left)
                ∧ overrun.spilled.Extends free.2.machine
                ∧ full.2.machine.environment = session.machine.environment
                ∧ full.2.machine.callDepth = session.machine.callDepth
                ∧ (session.pouring (some room)).Begins (.run source)
                    (overrun.opened.filled capacity) (.executeAll overrun.program)
                ∧ ∀ later,
                    ((overrun.opened.filled capacity).moment
                      (.executeAll overrun.program)).Reaches later
                    → ∃ earlier,
                        (overrun.opened.moment (.executeAll overrun.program)).Reaches earlier
                        ∧ earlier.machine.sink.size ≤ capacity
                        ∧ later = earlier.filled capacity) := by
  have hasRoom : (session.pouring none).machine.HasRoom (session.machine.sink.size + room) :=
    ⟨Sink.reliable_iff.2 ⟨rfl, rfl⟩, Nat.le_add_right session.machine.sink.size room⟩
  have fills := run_fills (session.pouring none) source hasRoom
  obtain ⟨output, written⟩ := (extends_run (session.pouring none) source).written
  have size
      : ((session.pouring none).run source).2.machine.sink.size
        = session.machine.sink.size + output.size :=
    (congrArg ByteArray.size written).trans ByteArray.size_append
  dsimp only
  rw [pouring_some]
  refine ⟨output, written, ?_, ?_, ?_⟩
  · have kept
        : session.machine.sink.written.extract 0 (session.machine.sink.size + room)
          = session.machine.sink.written :=
      Sink.written_filled hasRoom.le
    have rest
        : session.machine.sink.size + room - session.machine.sink.written.size = room :=
      Nat.add_sub_cancel_left ..
    rw [fills.written, written]
    refine (ByteArray.extract_append ..).trans ?_
    rw [Nat.zero_sub]
    exact congrArg₂ (· ++ output.extract 0 ·) kept rest
  · intro le
    exact fills.eq_of_le (Nat.le_trans (Nat.le_of_eq size) (Nat.add_le_add_left le _))
  · intro lt
    obtain ⟨overrun, cut, keeps⟩ :=
      fills.exists_overrun (Nat.lt_of_lt_of_eq (Nat.add_lt_add_left lt _) size.symm)
    have begun
        : (overrun.opened.moment (.executeAll overrun.program)).machine.HasRoom
            (session.machine.sink.size + room) := by
      rw [← overrun.begins.opens.machine] at hasRoom
      exact hasRoom
    rw [cut]
    refine ⟨overrun, rfl, keeps, rfl, rfl, overrun.begins.filled, fun later reaches => ?_⟩
    obtain ⟨earlier, earlierReaches, fits, same⟩ := Moment.exists_reaches begun reaches
    exact ⟨earlier, earlierReaches, fits.le, same⟩

end Session

end Lox
