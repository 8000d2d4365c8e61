import Lox.Proofs.Evaluation.Contract
import Lox.Proofs.Evaluation.Steps

/-! How the parts of plans uphold the contract between scopes and environments: quiet steps, new
bindings and tables, lookups of occurrences, and tasks that are handed on.
-/

namespace Lox

variable {history : History} {course : Course} {ghost : Ghost} {moment : Moment} {world : World}
  {machine : Machine}

-----------------------------------------------------------------------------------------
-- Machines in the run of a moment
-----------------------------------------------------------------------------------------

/-- A machine may change in what no world is about. -/
theorem World.Describes.alike {after : Machine} (h : world.Describes history machine)
    (alike : after.Alike machine)
    : world.Describes history after where
  fits := by
    rw [alike.instances]
    exact h.fits
  store := alike.store.trans h.store
  made := h.made
  declared := h.declared

theorem World.Describes.before (h : world.Describes history machine) (manner : Manner)
    : world.Describes history (manner.before machine) := by
  cases manner <;> exact ⟨h.fits, h.store, h.made, h.declared⟩

theorem World.Describes.after {left : Machine} (h : world.Describes history left)
    (manner : Manner)
    : world.Describes history (manner.after machine left) := by
  cases manner <;> exact ⟨h.fits, h.store, h.made, h.declared⟩

/-- The environment around a task is back after it. -/
theorem Manner.after_environment {manner : Manner} {left : Machine}
    (same : left.environment = (manner.before machine).environment)
    : (manner.after machine left).environment = machine.environment := by
  cases manner with
  | plain => exact same
  | within environment => rfl
  | deeper => exact same

namespace Moment

/-- The run of a moment begins in the world that is required. -/
theorem Required.start (h : moment.Required course ghost)
    : moment.Later course ghost ghost.world moment.machine :=
  ⟨le_refl _, h.describes, rfl, rfl, rfl⟩

theorem Later.alike {after : Machine} (h : moment.Later course ghost world machine)
    (alike : after.Alike machine)
    : moment.Later course ghost world after :=
  ⟨h.grows, h.describes.alike alike, h.pending, h.known, alike.environment.trans h.environment⟩

/-- A run may be interrupted at any time. -/
theorem Later.left (h : moment.Later course ghost world machine)
    : moment.Left course ghost world machine :=
  ⟨h.grows, h.describes, fun _ _ pending => .inl (h.pending ▸ pending), h.known, h.environment⟩

/-- A variable that its scope may bind gets a value in the table at an address. -/
theorem Later.define (h : moment.Later course ghost world machine) {address : Nat}
    {name : String} {value : Value} {opening : Opening} (free : ¬ Reserved name)
    (fits : (world.define address name value).FitsValue value)
    (opened : world.openings[address]? = some opening) (binds : opening.region.Binds name)
    : moment.Later course ghost (world.define address name value)
        { machine with store := machine.store.setSlot address name (some value) } where
  grows := h.grows.trans (world.le_define address value free)
  describes :=
    ⟨h.describes.fits.define free fits opened binds, by rw [World.define, h.describes.store],
      h.describes.made, h.describes.declared⟩
  pending := h.pending
  known := h.known
  environment := h.environment

/-- The declaration of a class takes the next identity. -/
theorem Later.declare (h : moment.Later course ghost world machine) {definition : ClassDecl}
    {made : Class} {closing : Environment} (came : course.history moment)
    (declares : moment.Declares definition made closing)
    : moment.Later course ghost (world.declaring definition made closing)
        { machine with nextIdentity := machine.nextIdentity + 1 } where
  grows := h.grows.trans (world.le_declaring definition made closing)
  describes := by
    refine ⟨h.describes.fits.declaring definition made closing, h.describes.store,
      h.describes.made, ?_⟩
    rintro declaration other environment (declared | ⟨rfl, rfl, rfl⟩)
    · exact h.describes.declared declaration other environment declared
    · exact ⟨moment, came, declares⟩
  pending := h.pending
  known := h.known
  environment := h.environment

end Moment

-----------------------------------------------------------------------------------------
-- Distances along a chain that stands for the scopes around a place
-----------------------------------------------------------------------------------------

namespace Place.Settled

variable {distances : Distances} {around : Surroundings} {use : Use} {occurrence : Occurrence}
  {distance : Nat}

/-- The distance of a lawful occurrence is that of its name. -/
theorem find?_eq (h : Settled ⟨around, .use use occurrence⟩ distances)
    : distances.find? occurrence.id = around.distance? occurrence.name := by
  rw [h.found _ rfl, Place.distance?_eq h.lawful]

/-- A distance leads to the table that was made for the innermost scope with the name. -/
theorem leads (h : Settled ⟨around, .use use occurrence⟩ distances)
    (found : distances.find? occurrence.id = some distance) {environment : Environment}
    (stands : world.Stands environment.chain around.frames)
    : ∃ frame target,
        around.frames[distance]? = some frame
        ∧ frame.has occurrence.name = true
        ∧ environment.ancestor? distance = some target
        ∧ world.openings[target.table]? = some ⟨frame.region, target.outer⟩
        ∧ frame.region.Binds occurrence.name
        ∧ ∀ entry ∈ frame.names, world.Has target.table entry := by
  rw [h.find?_eq] at found
  obtain ⟨inside, has, _⟩ := List.findIdx?_eq_some_iff_getElem.1 found
  obtain ⟨entry, member, same⟩ := List.any_eq_true.1 has
  have there := List.getElem?_eq_getElem inside
  obtain ⟨target, walked, opened, names, _⟩ := stands.ancestor there
  exact ⟨_, target, there, has, walked, opened, of_decide_eq_true same ▸ (names entry member).1,
    fun entry member => (names entry member).2⟩

/-- A lawful `super` stands in a class that has a superclass. -/
theorem derived (h : Settled ⟨around, .use .super occurrence⟩ distances)
    : Layered around.frames .derived := by
  have lawful := h.lawful
  have layered := h.layered
  unfold Layered.Around at layered
  unfold errors at lawful
  dsimp only at lawful layered
  cases kind : around.setting.classBody <;> simp_all

/-- A lawful `this` or `super` stands in a method. -/
theorem exists_method (h : Settled ⟨around, .use use occurrence⟩ distances)
    (reserved : Reserved occurrence.name)
    : ∃ definition isStatic, around.method? = some (definition, isStatic) := by
  have proper := h.proper
  cases use with
  | «variable» => exact absurd reserved proper
  | assign => exact absurd reserved proper
  | this =>
      have inside : around.setting.classBody ≠ .none := by
        intro outside
        have lawful := h.lawful
        simp [errors, outside] at lawful
      exact h.layered.exists_method inside around.setting
  | super => exact h.derived.exists_method (by simp) around.setting

/-- A lawful `this` or `super` has a distance. -/
theorem exists_distance (h : Settled ⟨around, .use use occurrence⟩ distances)
    (reserved : Reserved occurrence.name)
    : ∃ distance, distances.find? occurrence.id = some distance := by
  have proper := h.proper
  rw [h.find?_eq]
  cases use with
  | «variable» => exact absurd reserved proper
  | assign => exact absurd reserved proper
  | this =>
      obtain ⟨definition, isStatic, inside⟩ := h.exists_method reserved
      obtain ⟨distance, found, _⟩ := h.layered.receiver inside
      have name : occurrence.name = "this" := proper
      exact ⟨distance, name ▸ found⟩
  | super =>
      obtain ⟨distance, _, _, found, _⟩ := h.derived.super_receiver
      have name : occurrence.name = "super" := proper
      exact ⟨distance + 1, name ▸ found⟩

/-- A `this` or `super` is bound where its distance leads. -/
theorem bound_of_reserved (h : Settled ⟨around, .use use occurrence⟩ distances)
    (found : distances.find? occurrence.id = some distance) {environment target : Environment}
    (stands : world.Stands environment.chain around.frames)
    (walked : environment.ancestor? distance = some target) (reserved : Reserved occurrence.name)
    : world.Bound target.table occurrence.name := by
  rw [h.find?_eq] at found
  obtain ⟨inside, has, _⟩ := List.findIdx?_eq_some_iff_getElem.1 found
  obtain ⟨same, there, _, names, _⟩ := stands.ancestor (List.getElem?_eq_getElem inside)
  cases Option.some.inj (walked.symm.trans there)
  exact World.bound_of_settles names
    (h.layered.settles_reserved (List.getElem_mem inside) reserved has)

/-- An occurrence is found in a table for a scope that may bind its name, unless it is that of a
variable that is nowhere defined.
-/
theorem home {instances : Array Instance} (h : Settled ⟨around, .use use occurrence⟩ distances)
    (stands : world.Stands machine.environment.chain around.frames)
    (fits : world.Fits instances) (store : machine.store = world.store)
    : (∀ address,
        (Access.byDistance distances).home use occurrence machine = .ok address
        → ∃ opening,
            world.openings[address]? = some opening
            ∧ opening.region.Binds occurrence.name
            ∧ (Reserved occurrence.name → world.Bound address occurrence.name))
      ∧ ∀ error,
          (Access.byDistance distances).home use occurrence machine = .error error
          → error = .undefined ∧ ¬ Reserved occurrence.name := by
  simp only [Access.byDistance]
  cases found : distances.find? occurrence.id with
  | some distance =>
      obtain ⟨frame, target, _, _, walked, opened, binds, _⟩ := h.leads found stands
      simp only [Environment.tableAt, walked]
      refine ⟨?_, nofun⟩
      rintro address ⟨⟩
      exact ⟨_, opened, binds, h.bound_of_reserved found stands walked⟩
  | none =>
      have free : ¬ Reserved occurrence.name := by
        intro reserved
        obtain ⟨distance, there⟩ := h.exists_distance reserved
        simp [found] at there
      have plain : use ≠ .super := by
        rintro rfl
        exact free (.inr h.proper)
      simp only [plain, if_false, store]
      constructor
      · intro address there
        obtain ⟨opening, opened, binds⟩ := fits.find_globals there
        exact ⟨opening, opened, binds, fun reserved => absurd reserved free⟩
      · intro error failed
        exact ⟨Store.eq_undefined_of_find failed, free⟩

/-- A lawful `super` has its receiver in the table one link inside that of the superclass. -/
theorem leads_inside (h : Settled ⟨around, .use .super occurrence⟩ distances)
    (found : distances.find? occurrence.id = some distance) {environment : Environment}
    (stands : world.Stands environment.chain around.frames)
    : ∃ definition isStatic outer target,
        1 ≤ distance
        ∧ environment.ancestor? (distance - 1) = some target
        ∧ environment.ancestor? distance = some outer
        ∧ target.outer = outer.chain
        ∧ around.frames[distance]? = some (.ofSuperclass definition)
        ∧ world.openings[target.table]? = some ⟨.receiver definition isStatic, target.outer⟩
        ∧ world.Bound target.table "this" := by
  rw [h.find?_eq] at found
  obtain ⟨less, definition, isStatic, away, outside, inside, _⟩ := h.derived.super_receiver
  have name : occurrence.name = "super" := h.proper
  rw [Surroundings.distance?, name, away] at found
  cases found
  obtain ⟨target, walked, opened, names, _⟩ := stands.ancestor inside
  have bound : world.Bound target.table "this" :=
    (names _ (List.mem_singleton.2 rfl)).2.resolve_right fun waits => by cases waits.1
  obtain ⟨outer, walkedOut, _⟩ := stands.ancestor outside
  exact ⟨definition, isStatic, outer, target, Nat.succ_pos less, walked, walkedOut,
    Environment.outer_of_ancestor? walked walkedOut, outside, opened, bound⟩

end Place.Settled

-----------------------------------------------------------------------------------------
-- Goals and quiet steps
-----------------------------------------------------------------------------------------

/-- A plan upholds the contract between scopes and environments. -/
abbrev Upholds {α : Type} (course : Course) (ghost : Ghost) (moment : Moment) (budget : Nat)
    (plan : Plan α) (machine : Machine) (goal : α → Machine → Prop) : Prop :=
  (scopeContract course).Keeps ghost moment budget plan machine goal

/-- The goal of coming to a value that fits into the world by then. -/
def Gives {α : Type} (course : Course) (ghost : Ghost) (moment : Moment)
    (fits : World → α → Prop) (value : α) (machine : Machine) : Prop :=
  ∃ world, moment.Later course ghost world machine ∧ fits world value

/-- A moment in a history, with all that is required of it. -/
structure Underway (course : Course) (ghost : Ghost) (moment : Moment) (budget : Nat) : Prop
    where
  closed : course.history.Closed
  required : moment.Required course ghost
  budget_eq : moment.budget = budget + 1

namespace Upholds

variable {α β : Type} {budget : Nat} {goal : α → Machine → Prop}

/-- A quiet step comes to a good result in the same world. -/
theorem comes_quiet {step : Step β} (good : β → Prop) {goal : β → Machine → Prop}
    (h : moment.Later course ghost world machine) (quiet : step.Quiet machine good)
    (avoids : step.Avoids FaultCause.OfBinding machine)
    (rest : ∀ value after, moment.Later course ghost world after → good value → goal value after)
    : (scopeContract course).Comes ghost moment (step machine) goal := by
  unfold Step.Quiet at quiet
  unfold Contract.Comes
  split
  · next value after ran =>
      rw [ran] at quiet
      exact rest value after (h.alike quiet.1) quiet.2
  · next interruption after ran =>
      rw [ran] at quiet
      exact ⟨quiet.2, avoids interruption after ran, world, (h.alike quiet.1).left⟩

/-- A quiet step leaves the world as it is. -/
theorem quiet {step : Step β} {next : β → Plan α} {good : β → Prop}
    (h : moment.Later course ghost world machine) (quiet : step.Quiet machine good)
    (avoids : step.Avoids FaultCause.OfBinding machine)
    (rest
      : ∀ value after,
          moment.Later course ghost world after
          → good value
          → Upholds course ghost moment budget (next value) after goal)
    : Upholds course ghost moment budget (.step step next) machine goal :=
  comes_quiet _ h quiet avoids rest

/-- A lookup leaves the machine as it is. All that it can miss is a variable that is nowhere
defined.
-/
theorem comes_lookup {token : Token} {find : Machine → Except LookupError β}
    {goal : β → Machine → Prop} (h : moment.Later course ghost world machine)
    (failed : ∀ error, find machine = .error error → error = .undefined ∧ ¬ Reserved token.lexeme)
    (rest : ∀ value, find machine = .ok value → goal value machine)
    : (scopeContract course).Comes ghost moment (Step.lookup token find machine) goal := by
  unfold Step.lookup
  cases found : find machine with
  | ok value => exact rest value found
  | error error =>
      obtain ⟨rfl, free⟩ := failed error found
      exact ⟨by simp [LookupError.interruption], free, world, h.left⟩

/-- A plan may look at the machine. -/
theorem look {next : Machine → Plan α}
    (rest : Upholds course ghost moment budget (next machine) machine goal)
    : Upholds course ghost moment budget (.step MonadState.get next) machine goal := rest

/-- A fault interrupts the plan. -/
theorem fault {token : Token} {cause : FaultCause} {next : β → Plan α}
    (h : moment.Later course ghost world machine) (other : ¬ cause.OfBinding)
    : Upholds course ghost moment budget (.step (Step.fault token cause) next) machine goal :=
  ⟨by simp, other, world, h.left⟩

/-- A name is bound in the current environment, which stands for the scope with this name. The
value may refer to itself by the name.
-/
theorem define {name : String} {value : Value} {next : Unit → Plan α} {around : Surroundings}
    (binder : Binder) (h : moment.Later course ghost world machine)
    (stands : world.Stands moment.machine.environment.chain around.frames)
    (free : ¬ Reserved name) (binds : around.Binds name)
    (fits
      : ∀ later,
          world ≤ later
          → later.Stands moment.machine.environment.chain (around.declare name binder).frames
          → later.FitsValue value)
    (rest
      : ∀ later after,
          world ≤ later
          → moment.Later course ghost later after
          → later.Stands moment.machine.environment.chain (around.declare name binder).frames
          → after.nextIdentity = machine.nextIdentity
          → Upholds course ghost moment budget (next ()) after goal)
    : Upholds course ghost moment budget (.step (Step.define name value) next) machine goal := by
  obtain ⟨opening, opened, may⟩ := stands.head binds
  rw [← h.environment] at opened stands fits
  have le := world.le_define machine.environment.table value free
  have bound := world.bound_define_self name value (h.describes.fits.inside opened)
  have declared
      : (world.define machine.environment.table name value).Stands machine.environment.chain
          (around.declare name binder).frames :=
    stands.declare binds le (.inl bound)
  exact rest _ _ le (h.define free (fits _ le declared) opened may) (h.environment ▸ declared) rfl

/-- A slot of a table gets a value that fits. -/
theorem setSlot {address : Nat} {name : String} {value : Value} {next : Unit → Plan α}
    {opening : Opening} (h : moment.Later course ghost world machine) (free : ¬ Reserved name)
    (fits : world.FitsValue value) (opened : world.openings[address]? = some opening)
    (binds : opening.region.Binds name)
    (rest
      : ∀ later after,
          world ≤ later
          → moment.Later course ghost later after
          → Upholds course ghost moment budget (next ()) after goal)
    : Upholds course ghost moment budget (.step (Step.setSlot address name value) next) machine
        goal :=
  rest _ _ (world.le_define address value free)
    (h.define free (fits.mono (world.le_define address value free)) opened binds)

/-- The instances change to others of the same classes that fit. -/
theorem objects {step : Step β} {value : β} {next : β → Plan α} {instances : Array Instance}
    (h : moment.Later course ghost world machine)
    (ran : step machine = .ok value { machine with instances })
    (kept : KeepsClasses machine.instances instances)
    (fits
      : ∀ (address : Nat) (object : Instance),
          instances[address]? = some object
          → world.FitsClass object.definition
            ∧ ∀ name value, object.fields.get? name = some value → world.FitsValue value)
    (rest
      : moment.Later course ghost world { machine with instances }
        → Upholds course ghost moment budget (next value) { machine with instances } goal)
    : Upholds course ghost moment budget (.step step next) machine goal := by
  unfold Upholds Contract.Keeps Contract.Comes
  rw [ran]
  have fits : world.Fits instances :=
    { h.describes.fits with
      objects := fits
      receivers := fun address opening there =>
        (h.describes.fits.receivers address opening there).mono (le_refl world) kept fun _ => id }
  exact rest ⟨h.grows, ⟨fits, h.describes.store, h.describes.made, h.describes.declared⟩, h.pending,
    h.known, h.environment⟩

/-- A new instance has no fields. -/
theorem newInstance {definition : Class} {next : Value → Plan α}
    (h : moment.Later course ghost world machine) (fits : world.FitsClass definition)
    (rest
      : ∀ address after,
          moment.Later course ghost world after
          → Value.Receives after.instances definition false (.instance address)
          → Upholds course ghost moment budget (next (.instance address)) after goal)
    : Upholds course ghost moment budget (.step (Step.newInstance definition) next) machine
        goal := by
  refine objects h rfl (keepsClasses_push _ _) (fun address object found => ?_)
    fun later => rest _ _ later (.instance Array.getElem?_push_size .refl)
  rw [Array.getElem?_push] at found
  split at found
  · cases found
    exact ⟨fits, fun _ _ unset => by cases unset⟩
  · exact h.describes.fits.objects address object found

/-- A field gets a value that fits. -/
theorem setField {target : Nat} {name : String} {value : Value} {next : Unit → Plan α}
    (h : moment.Later course ghost world machine) (fits : world.FitsValue value)
    (rest
      : ∀ after,
          moment.Later course ghost world after
          → Upholds course ghost moment budget (next ()) after goal)
    : Upholds course ghost moment budget (.step (Step.setField target name value) next) machine
        goal := by
  refine objects h rfl (keepsClasses_modify _ _ (·.set name value))
    (fun address object found => ?_) (rest _)
  rw [Array.getElem?_modify] at found
  split at found
  · obtain ⟨old, there, rfl⟩ := Option.map_eq_some_iff.1 found
    obtain ⟨same, fields⟩ := h.describes.fits.objects address old there
    refine ⟨same, fun field given had => ?_⟩
    rw [Table.get?_set] at had
    split at had
    · cases had
      exact fits
    · exact fields field given had
  · exact h.describes.fits.objects address object found

/-- A variable in the current chain gets another value. -/
theorem overwrite {token : Token} {value : Value} {next : Unit → Plan α}
    (h : moment.Later course ghost world machine) (free : ¬ Reserved token.lexeme)
    (fits : world.FitsValue value)
    (rest
      : ∀ later after,
          world ≤ later
          → moment.Later course ghost later after
          → Upholds course ghost moment budget (next ()) after goal)
    : Upholds course ghost moment budget (.step (Step.overwrite token value) next) machine
        goal := by
  unfold Upholds Contract.Keeps
  simp only [Step.overwrite, Step.lookup, Bind.bind, EStateM.bind]
  cases found : machine.store.find machine.environment token.lexeme with
  | error error =>
      cases Store.eq_undefined_of_find found
      exact ⟨by simp [LookupError.interruption], free, world, h.left⟩
  | ok address =>
      have has := Store.has_of_find found
      rw [h.describes.store] at has
      obtain ⟨opening, opened, binds⟩ := h.describes.fits.names address token.lexeme has
      exact rest _ _ (world.le_define address value free)
        (h.define free (fits.mono (world.le_define _ _ free)) opened binds)

/-- A class that is declared takes the next identity. -/
theorem declare {definition : ClassDecl} {made : Class} {closing : Environment}
    {next : Nat → Plan α} (run : Underway course ghost moment budget)
    (h : moment.Later course ghost world machine)
    (declares : moment.Declares definition made closing)
    (rest
      : moment.Later course ghost (world.declaring definition made closing)
            { machine with nextIdentity := machine.nextIdentity + 1 }
        → Upholds course ghost moment budget (next machine.nextIdentity)
            { machine with nextIdentity := machine.nextIdentity + 1 } goal)
    : Upholds course ghost moment budget (.step Step.freshIdentity next) machine goal :=
  rest (h.declare run.required.came declares)

-----------------------------------------------------------------------------------------
-- New tables
-----------------------------------------------------------------------------------------

/-- A table is made for a scope around which other tables stand. -/
theorem enter {layer : Layer} {outer : Environment} {bindings : Bindings Value}
    {next : Environment → Plan α} (run : Underway course ghost moment budget)
    (h : moment.Later course ghost world machine) (frame : Frame) {frames : List Frame}
    (stands : world.Stands outer.chain frames) (isFor : layer.IsFor frame.region)
    (inner : frame.region ≠ .program)
    (values
      : ∀ name slot,
          bindings.get? name = some slot → ∃ value, slot = some value ∧ world.FitsValue value)
    (names : ∀ name, bindings.has name = true → frame.region.Binds name)
    (bound : ∀ entry ∈ frame.names, bindings.has entry.1 = true)
    (receiver : world.HasReceiver machine.instances ⟨frame.region, outer.chain⟩ bindings)
    (rest
      : ∀ environment later after,
          world ≤ later
          → moment.Later course ghost later after
          → later.Stands environment.chain (frame :: frames)
          → (∀ name slot,
              bindings.get? name = some slot
              → (later.store.table environment.table).get? name = some slot)
          → after.nextIdentity = machine.nextIdentity
          → Upholds course ghost moment budget (next environment) after goal)
    : Upholds course ghost moment budget (.act (.enter layer outer bindings) next) machine
        goal := by
  intro does
  refine ⟨⟨world, h, trivial⟩, ?_⟩
  let opening : Opening := ⟨frame.region, outer.chain⟩
  have fits := h.describes.fits
  have made : course.history.Made machine.store.tables.size opening :=
    .inr ⟨moment, layer, outer, bindings, machine, run.required.came, does, rfl, rfl, isFor⟩
  refine rest _ (world.open opening bindings) _ (world.le_open _ _)
    ⟨h.grows.trans (world.le_open _ _),
      ⟨fits.open inner values names receiver, ?_, ?_, h.describes.declared⟩, h.pending, h.known,
      h.environment⟩ ?_ ?_ rfl
  · rw [World.open, h.describes.store]
  · intro address other there
    simp only [World.open, List.getElem?_append] at there
    split at there
    · exact h.describes.made address other there
    · next outside =>
        obtain ⟨inside, rfl⟩ := List.getElem?_eq_some_iff.1 there
        simp only [List.length_singleton] at inside
        have same : address = machine.store.tables.size := by
          rw [h.describes.store, ← fits.size]
          omega
        rw [List.getElem_singleton, same]
        exact made
  · have new := stands.open fits frame fun entry member =>
      ⟨names entry.1 (bound entry member), bound entry member⟩
    rw [← h.describes.store] at new
    exact new
  · intro name slot given
    rw [World.open, Store.table_add, ← h.describes.store, Store.nextInside, if_pos rfl]
    exact given

-----------------------------------------------------------------------------------------
-- Lookups of occurrences
-----------------------------------------------------------------------------------------

/-- The table that binds an occurrence was made for a scope that may bind its name. A `this` or
`super` is bound there.
-/
theorem locate {use : Use} {occurrence : Occurrence} {next : Nat → Plan α}
    {around : Surroundings} (run : Underway course ghost moment budget)
    (h : moment.Later course ghost world machine)
    (known : world.known ⟨around, .use use occurrence⟩)
    (stands : world.Stands moment.machine.environment.chain around.frames)
    (rest
      : ∀ address opening,
          (Access.byDistance moment.distances).home use occurrence machine = .ok address
          → world.openings[address]? = some opening
          → opening.region.Binds occurrence.name
          → (Reserved occurrence.name → world.Bound address occurrence.name)
          → Upholds course ghost moment budget (next address) machine goal)
    : Upholds course ghost moment budget (.act (.locate use occurrence) next) machine goal := by
  have settled := run.required.settled _ (h.known ▸ known)
  rw [← h.environment] at stands
  obtain ⟨found, failed⟩ := settled.home stands h.describes.fits h.describes.store
  refine fun _ => ⟨⟨world, h, around, known, stands⟩, comes_lookup h failed ?_⟩
  intro address there
  obtain ⟨opening, opened, binds, bound⟩ := found address there
  exact rest address opening there opened binds bound

/-- The table of the receiver that belongs to a `super` is found. -/
theorem locateReceiver {occurrence : Occurrence} {next : Nat → Plan α}
    {around : Surroundings} (run : Underway course ghost moment budget)
    (h : moment.Later course ghost world machine)
    (known : world.known ⟨around, .use .super occurrence⟩)
    (stands : world.Stands moment.machine.environment.chain around.frames)
    (rest
      : ∀ address,
          (Access.byDistance moment.distances).receiverHome occurrence machine = .ok address
          → Upholds course ghost moment budget (next address) machine goal)
    : Upholds course ghost moment budget (.act (.locateReceiver occurrence) next) machine
        goal := by
  have settled := run.required.settled _ (h.known ▸ known)
  rw [← h.environment] at stands
  obtain ⟨distance, found⟩ := settled.exists_distance (.inr settled.proper)
  obtain ⟨_, _, _, target, _, walked, _⟩ := settled.leads_inside found stands
  refine fun _ => ⟨⟨world, h, around, known, stands⟩, comes_lookup h (fun error failed => ?_) rest⟩
  simp [Access.byDistance, found, Environment.tableAt, walked] at failed

/-- What is read fits, wherever it is found. A `this` or `super` is there. -/
theorem getHere {address : Nat} {token : Token} {next : Value → Plan α}
    (h : moment.Later course ghost world machine)
    (bound : Reserved token.lexeme → world.Bound address token.lexeme)
    (rest
      : ∀ value,
          (world.store.table address).get? token.lexeme = some (some value)
          → world.FitsValue value
          → Upholds course ghost moment budget (next value) machine goal)
    : Upholds course ghost moment budget (.step (Step.getHere address token) next) machine
        goal := by
  have values := h.describes.fits.values address token.lexeme
  refine comes_lookup h ?_ ?_
  · intro error failed
    rw [h.describes.store, Store.getHere] at failed
    split at failed
    · cases failed
    · next there =>
        obtain ⟨_, same, _⟩ := values _ there
        cases same
    · next absent =>
        cases failed
        refine ⟨rfl, fun reserved => ?_⟩
        have there := bound reserved
        simp [World.Bound, Table.has, absent] at there
  · intro value found
    rw [h.describes.store, Store.getHere] at found
    split at found
    · next there =>
        cases found
        obtain ⟨_, ⟨⟩, fits⟩ := values _ there
        exact rest value there fits
    · cases found
    · cases found

-----------------------------------------------------------------------------------------
-- Tasks that are handed on
-----------------------------------------------------------------------------------------

end Upholds

section

variable {budget : Nat} {manner : Manner} {inner : Moment} {around : Surroundings}
  {later : World} {left : Machine}

/-- The run of the task that a moment hands on is part of the run of the moment. -/
theorem Moment.Later.after (h : moment.Later course ghost world machine)
    (begins : inner.machine.environment = (manner.before machine).environment)
    (more : inner.Later course ⟨world, around⟩ later left)
    : moment.Later course ghost later (manner.after machine left) where
  grows := h.grows.trans more.grows
  describes := more.describes.after manner
  pending := more.pending.trans h.pending
  known := more.known.trans h.known
  environment :=
    (Manner.after_environment (more.environment.trans begins)).trans h.environment

/-- An interrupted task interrupts the run that it is part of. -/
theorem Moment.Later.interrupted (h : moment.Later course ghost world machine)
    (begins : inner.machine.environment = (manner.before machine).environment)
    (more : inner.Left course ⟨world, around⟩ later left)
    : moment.Left course ghost later (manner.after machine left) where
  grows := h.grows.trans more.grows
  describes := more.describes.after manner
  pending := fun address name pending => h.pending ▸ more.pending address name pending
  known := more.known.trans h.known
  environment :=
    (Manner.after_environment (more.environment.trans begins)).trans h.environment

/-- What a task needs is there, in the surroundings that it is handed on in. -/
theorem Moment.Required.handed {task : Task} (run : Underway course ghost moment budget)
    (h : moment.Later course ghost world machine)
    (leads : moment.Leads ⟨moment.distances, budget, task, manner.before machine⟩)
    (admits : (Ghost.mk world around).Admits (manner.before machine).environment task)
    : Moment.Required course ⟨world, around⟩
        ⟨moment.distances, budget, task, manner.before machine⟩ where
  came := run.closed _ _ run.required.came leads
  describes := h.describes.before manner
  listed := fun place known => run.required.listed place (h.known ▸ known)
  settled := fun place known => run.required.settled place (h.known ▸ known)
  pending := by
    intro address name waiting
    rw [h.pending] at waiting
    refine (run.required.pending address name waiting).imp_right ?_
    rintro ⟨earlier, came, initializes, reaches⟩
    exact ⟨earlier, came, initializes, reaches.tail leads⟩
  admits := admits

end

namespace Upholds

variable {α β : Type} {budget : Nat} {goal : α → Machine → Prop}

/-- A task is handed on in an environment that stands for the scopes that it needs. -/
theorem hand {manner : Manner} {task : Task} {next : task.Result → Plan α}
    {environment : Environment} (run : Underway course ghost moment budget)
    (h : moment.Later course ghost world machine)
    (begins : (manner.before machine).environment = environment) (around : Surroundings)
    (admits : (Ghost.mk world around).Admits environment task)
    (rest
      : ∀ value later after,
          world ≤ later
          → moment.Later course ghost later after
          → (Ghost.mk world around).Grants later environment task value
          → Upholds course ghost moment budget (next value) after goal)
    : Upholds course ghost moment budget (.hand manner task next) machine goal := by
  subst begins
  intro leads
  refine ⟨⟨world, around⟩, .handed run h leads admits, ?_, ?_⟩
  · rintro value left _ ⟨later, more, grants⟩
    exact rest value later _ more.grows (h.after rfl more) grants
  · rintro interruption left _ ⟨inside, avoids, later, more⟩
    exact ⟨inside, avoids, later, h.interrupted rfl more⟩

/-- A name gets its value from an initializer. Until then its binding is pending, and it stays so
if the initializer is interrupted.
-/
theorem initVar {token : Token} {initializer : Expr} {next : Unit → Plan α}
    {around : Surroundings} (run : Underway course ghost moment budget)
    (task : moment.task = .execute (.var token (some initializer)))
    (h : moment.Later course ghost world machine)
    (stands : world.Stands moment.machine.environment.chain around.frames)
    (free : ¬ Reserved token.lexeme) (binds : around.Binds token.lexeme)
    (known
      : ∀ place ∈ Places.ofExpr initializer (around.declare token.lexeme .unfinished),
          world.known place)
    (rest
      : ∀ later after,
          world ≤ later
          → moment.Later course ghost later after
          → later.Stands moment.machine.environment.chain
              (around.declare token.lexeme .variable).frames
          → Upholds course ghost moment budget (next ()) after goal)
    : Upholds course ghost moment budget
        (.hand .plain (.evaluate initializer) fun value =>
          .step (Step.define token.lexeme value) next)
        machine goal := by
  intro leads
  let address := moment.machine.environment.table
  let waiting := world.awaiting fun other name =>
    world.pending other name ∨ (other = address ∧ name = token.lexeme)
  have initializes : moment.Initializes address token.lexeme := ⟨token, initializer, task, rfl, rfl⟩
  have le : world ≤ waiting := World.le_awaiting fun _ _ pending => .inr (.inl pending)
  have begun
      : waiting.Stands machine.environment.chain
          (around.declare token.lexeme .unfinished).frames := by
    rw [h.environment]
    exact stands.declare binds le (.inr ⟨rfl, .inr ⟨rfl, rfl⟩⟩)
  refine ⟨⟨waiting, around.declare token.lexeme .unfinished⟩,
    ⟨run.closed _ _ run.required.came leads,
      ⟨h.describes.fits.awaiting le, h.describes.store, h.describes.made, h.describes.declared⟩,
      fun place known => run.required.listed place (h.known ▸ known),
      fun place known => run.required.settled place (h.known ▸ known), ?_, begun, known⟩,
    ?_, ?_⟩
  · rintro other name (pending | ⟨rfl, rfl⟩)
    · rw [h.pending] at pending
      refine (run.required.pending other name pending).imp_right ?_
      rintro ⟨earlier, came, begins, reaches⟩
      exact ⟨earlier, came, begins, reaches.tail leads⟩
    · exact .inr ⟨moment, run.required.came, initializes, .single leads⟩
  · rintro value left _ ⟨later, more, fits⟩
    have same : left.environment = moment.machine.environment :=
      more.environment.trans h.environment
    obtain ⟨opening, opened, may⟩ := stands.head binds
    have opened := more.grows.openings _ _ opened
    let defined := later.define address token.lexeme value
    have bound : defined.Bound address token.lexeme :=
      later.bound_define_self _ value (more.describes.fits.inside opened)
    have settled : defined ≤ defined.awaiting world.pending := by
      refine World.le_awaiting fun other name pending => ?_
      change later.pending other name at pending
      rw [more.pending] at pending
      rcases pending with pending | ⟨rfl, rfl⟩
      · exact .inr pending
      · exact .inl bound
    have defines := later.le_define address value free
    have all := le.trans (more.grows.trans (defines.trans settled))
    have fitting := more.describes.fits.define free (fits.mono defines) opened may
    refine rest (defined.awaiting world.pending) _ all
      ⟨h.grows.trans all,
        ⟨fitting.awaiting settled, ?_, more.describes.made, more.describes.declared⟩, h.pending,
        more.known.trans h.known, same⟩
      (stands.declare binds all (.inl bound))
    change left.store.setSlot left.environment.table token.lexeme (some value)
      = later.store.setSlot address token.lexeme (some value)
    rw [same, more.describes.store]
  · rintro interruption left ended ⟨inside, avoids, later, more⟩
    refine ⟨inside, avoids, later, h.grows.trans (le.trans more.grows), more.describes, ?_,
      more.known.trans h.known, more.environment.trans h.environment⟩
    intro other name pending
    rcases more.pending other name pending with (pending | ⟨rfl, rfl⟩) | gone
    · exact .inl (h.pending ▸ pending)
    · exact .inr ⟨moment, _, interruption, left, run.required.came, initializes, leads, ended⟩
    · exact .inr gone

end Upholds
end Lox
