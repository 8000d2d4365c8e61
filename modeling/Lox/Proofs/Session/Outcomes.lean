import Lox.Proofs.Evaluation.Agreement
import Lox.Proofs.Session.Stable

/-! The outcomes of programs, and ways of finding bindings that lead to the same. An access that
finds what distances lead to, wherever the current chain of tables stands for the scopes around
an occurrence, suits every run that meets the contract between scopes and environments.
-/

namespace Lox

-----------------------------------------------------------------------------------------
-- Ways of finding bindings that match
-----------------------------------------------------------------------------------------

/-- Lookups that find the same at a machine are the same step there. -/
theorem Step.lookup_congr {α : Type} {token : Token} {find other : Machine → Except LookupError α}
    {machine : Machine} (same : find machine = other machine)
    : Step.lookup token find machine = Step.lookup token other machine := by
  unfold lookup
  rw [same]

/-- An access finds what distances lead to, at the listed places. -/
structure Access.Matches (access : Access) (distances : Distances) (listed : Place → Prop) :
    Prop where
  home
    : ∀ {world : World} {history : History} {machine : Machine} {around : Surroundings} {use : Use}
        {occurrence : Occurrence},
        listed ⟨around, .use use occurrence⟩
        → Place.Settled ⟨around, .use use occurrence⟩ distances
        → world.Describes history machine
        → world.Stands machine.environment.chain around.frames
        → access.home use occurrence machine
          = (Access.byDistance distances).home use occurrence machine
  receiverHome
    : ∀ {world : World} {history : History} {machine : Machine} {around : Surroundings}
        {occurrence : Occurrence},
        listed ⟨around, .use .super occurrence⟩
        → Place.Settled ⟨around, .use .super occurrence⟩ distances
        → world.Describes history machine
        → world.Stands machine.environment.chain around.frames
        → access.receiverHome occurrence machine
          = (Access.byDistance distances).receiverHome occurrence machine

/-- The course of a run about which nothing is asked but which places it may come to. -/
def Course.listing (listed : Place → Prop) : Course := ⟨fun _ => True, fun _ => True, listed⟩

theorem Course.closed_listing (listed : Place → Prop)
    : (Course.listing listed).history.Closed :=
  fun _ _ _ _ => trivial

/-- An access that matches at all places that a run may come to suits the run. -/
theorem Access.Matches.suits {access : Access} {listed : Place → Prop} {moment : Moment}
    {ghost : Ghost} (h : access.Matches moment.distances listed)
    (required : moment.Required (.listing listed) ghost)
    : moment.Suits access := by
  intro later reaches action machine does
  have sound := scopeContract_sound (Course.closed_listing listed)
  obtain ⟨other, here⟩ := sound.reaches required reaches
  obtain ⟨world, begun, relies⟩ := sound.allows here does
  rw [← reaches.distances_eq] at h ⊢
  cases action with
  | enter layer outer bindings => rfl
  | locate use occurrence =>
      obtain ⟨around, known, stands⟩ := relies
      have known := begun.known ▸ known
      exact Step.lookup_congr
        (h.home (here.listed _ known) (here.settled _ known) begun.describes stands)
  | locateReceiver occurrence =>
      obtain ⟨around, known, stands⟩ := relies
      have known := begun.known ▸ known
      exact Step.lookup_congr
        (h.receiverHome (here.listed _ known) (here.settled _ known) begun.describes stands)

-----------------------------------------------------------------------------------------
-- Outcomes
-----------------------------------------------------------------------------------------

/-- The status and the machine that an ending leads to; a fault is told. -/
def Ending.outcome {α : Type} : Ending α → Status × Machine
  | .ok _ after => (.ok, after)
  | .error (.fault fault) after =>
    (.runtimeError,
      { after with reports := after.reports.push ⟨fault.diagnostic, after.sink.size⟩ })
  | .error .beyondChain after => (.unfinished, after)
  | .error .budget after => (.unfinished, after)

namespace Session

/-- What can be told of a session that has run something: the status and the machine. -/
def outcome (result : Status × Session) : Status × Machine := (result.1, result.2.machine)

/-- An accepted program ends well if its run does. -/
theorem runProgram_of_ok {session : Session} {program : Program} {distances : Distances}
    (resolved : program.resolve session.config.reportUnused = .ok distances) {flow : Flow}
    {after : Machine}
    (ended : ((session.learn distances).moment (.executeAll program)).ending = .ok flow after)
    : session.runProgram program = (.ok, { session.learn distances with machine := after }) := by
  unfold runProgram
  rw [resolved]
  dsimp only
  rw [performResolved_eq]
  unfold leave
  rw [ended]

/-- An interrupted run decides the outcome. -/
theorem runProgram_of_error {session : Session} {program : Program} {distances : Distances}
    (resolved : program.resolve session.config.reportUnused = .ok distances)
    {interruption : Interruption} {after : Machine}
    (ended
      : ((session.learn distances).moment (.executeAll program)).ending
        = .error interruption after)
    : session.runProgram program
      = { session.learn distances with machine := after }.interrupt interruption := by
  unfold runProgram
  rw [resolved]
  dsimp only
  rw [performResolved_eq]
  unfold leave
  rw [ended]

/-- The outcome of an accepted program is that of its run. -/
theorem outcome_runProgram {session : Session} {program : Program} {distances : Distances}
    (resolved : program.resolve session.config.reportUnused = .ok distances)
    : outcome (session.runProgram program)
      = ((session.learn distances).moment (.executeAll program)).ending.outcome := by
  cases ended : ((session.learn distances).moment (.executeAll program)).ending with
  | ok flow after =>
      rw [runProgram_of_ok resolved ended]
      rfl
  | error interruption after =>
      rw [runProgram_of_error resolved ended]
      cases interruption <;> rfl

end Session

end Lox
