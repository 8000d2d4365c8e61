import Lox.Proofs.Evaluation.Leads
import Lox.Proofs.Scanning.Steps
import Lox.Proofs.Session.Stable

/-! Where distances lead. Whenever an occurrence with a distance is looked up, the environment as
many links out is the one that was made for the scope in which the occurrence was resolved, and
it binds the name unless the initializer of this very binding has not been completed.
-/

namespace Lox

/-- The environments from one outwards were made for scopes, one by one. -/
structure History.Mirrors (history : History) (environment : Environment) (frames : List Frame) :
    Prop where
  length : environment.chain.length = frames.length
  made
    : ∀ (depth : Nat) (frame : Frame),
        frames[depth]? = some frame
        → ∃ target,
            environment.ancestor? depth = some target
            ∧ history.Made target.table ⟨frame.region, target.outer⟩

/-- An occurrence is looked up at a distance in the environment `target` that was made for the
scope in which its name was resolved.
-/
structure Course.Resolves (course : Course) (use : Use) (occurrence : Occurrence)
    (distance : Nat) (environment : Environment) (around : Surroundings) (frame : Frame)
    (target : Environment) : Prop where
  /-- The occurrence is in something that has been accepted. -/
  listed : course.listed ⟨around, .use use occurrence⟩
  resolved : around.distance? occurrence.name = some distance
  declares : around.frames[distance]? = some frame
  mirrors : course.history.Mirrors environment around.frames
  /-- The chain ends with the globals. -/
  ends : ∃ inner, environment.chain = inner ++ [0] ∧ 0 ∉ inner
  links : distance ≤ environment.outer.length
  ancestor : environment.ancestor? distance = some target
  made : course.history.Made target.table ⟨frame.region, target.outer⟩

/-- The binding of a name in a table waits for its initializer: the run is at it, or an earlier
run was interrupted in it.
-/
def Course.Unfinished (course : Course) (moment : Moment) (address : Nat) (name : String) : Prop :=
  course.past.Abandoned address name
  ∨ ∃ earlier, course.history earlier ∧ earlier.Initializes address name ∧ earlier.Reaches moment

variable {world : World}

/-- A chain for scopes that end with that of the program ends with the global table. By induction
over the scopes inside it.
-/
theorem World.Fits.ends {instances : Array Instance} (h : world.Fits instances)
    {environment : Environment} {frames : List Frame} {kind : ClassKind}
    (layered : Layered frames kind) (stands : world.Stands environment.chain frames)
    : ∃ inner, environment.chain = inner ++ [0] ∧ 0 ∉ inner := by
  obtain ⟨scopes, names, rfl, others⟩ := layered.outermost
  generalize environment.chain = chain at stands
  clear layered
  induction scopes generalizing chain with
  | nil =>
      obtain _ | ⟨address, outer⟩ := chain
      · exact stands.elim
      · obtain ⟨opened, _, rest⟩ := stands
        cases outer with
        | cons => exact rest.elim
        | nil =>
            have first := h.onlyGlobals address _ opened rfl
            subst first
            exact ⟨[], rfl, List.not_mem_nil⟩
  | cons frame scopes ih =>
      obtain _ | ⟨address, outer⟩ := chain
      · exact stands.elim
      · obtain ⟨opened, _, rest⟩ := stands
        rw [List.forall_mem_cons] at others
        obtain ⟨inner, rfl, absent⟩ := ih others.2 outer rest
        refine ⟨address :: inner, rfl, fun member => ?_⟩
        rcases List.mem_cons.1 member with rfl | member
        · rw [h.globals] at opened
          exact others.1 (congrArg Opening.region (Option.some.inj opened)).symm
        · exact absent member

/-- Environments that stand for scopes were made for them. -/
theorem World.Describes.mirrors {history : History} {machine : Machine}
    (h : world.Describes history machine) {environment : Environment} {frames : List Frame}
    (stands : world.Stands environment.chain frames)
    : history.Mirrors environment frames where
  length := stands.length_eq
  made := by
    intro depth frame there
    obtain ⟨target, walked, opened, _⟩ := stands.ancestor there
    exact ⟨target, walked, h.made _ _ opened⟩

section

variable {course : Course} {ghost : Ghost} {moment : Moment} {machine : Machine} {use : Use}
  {occurrence : Occurrence} {distance : Nat} {around : Surroundings}

/-- Where a lookup finds what it relies on, the distance resolves the occurrence. The names of the
scope are bound or wait for their initializers.
-/
theorem Moment.Later.resolves (h : moment.Later course ghost world machine)
    (required : moment.Required course ghost)
    (known : world.known ⟨around, .use use occurrence⟩)
    (stands : world.Stands machine.environment.chain around.frames)
    (found : moment.distances.find? occurrence.id = some distance)
    : ∃ frame target,
        course.Resolves use occurrence distance machine.environment around frame target
        ∧ ∀ entry ∈ frame.names, world.Has target.table entry := by
  have known := h.known ▸ known
  have settled := required.settled _ known
  obtain ⟨frame, target, there, _, walked, opened, _, names⟩ := settled.leads found stands
  have mirrors := h.describes.mirrors stands
  have inside := (List.getElem?_eq_some_iff.1 there).1
  rw [← mirrors.length] at inside
  exact ⟨frame, target, ⟨required.listed _ known, settled.find?_eq ▸ found, there, mirrors,
    h.describes.fits.ends settled.layered stands, Nat.le_of_lt_succ inside, walked,
    h.describes.made _ _ opened⟩, names⟩

/-- A name that is bound in a table has a value there. -/
theorem Moment.Later.getAt_of_bound (h : moment.Later course ghost world machine)
    {target : Environment} (walked : machine.environment.ancestor? distance = some target)
    {name : String} (bound : world.Bound target.table name)
    : ∃ value, machine.store.getAt machine.environment distance name = .ok value := by
  obtain ⟨slot, found⟩ := Option.isSome_iff_exists.1 bound
  obtain ⟨value, rfl, _⟩ := h.describes.fits.values _ _ _ found
  refine ⟨value, ?_⟩
  simp only [Store.getAt, Environment.tableAt, walked, Store.getHere, h.describes.store, found]

end

namespace Session

variable {config : Config} {sink : Sink} {clock : Nat → Float} {requests : List Request}
  {request : Request} {opened : Session} {task : Task} {moment : Moment}

/-- What is looked up is looked up where the scopes around its place are. -/
theorem relies_of_does
    (begins : ((start config sink clock).takeAll requests).Begins request opened task)
    (reaches : (opened.moment task).Reaches moment) {action : Action} {machine : Machine}
    (does : moment.Does action machine)
    : ∃ ghost world,
        moment.Required ((start config sink clock).course requests request) ghost
        ∧ moment.Later ((start config sink clock).course requests request) ghost world machine
        ∧ action.Relies world machine.environment := by
  obtain ⟨ghost, required⟩ := required_of_reaches begins reaches
  have closed := (start config sink clock).closed_course requests request
  obtain ⟨world, later, relies⟩ := (scopeContract_sound closed).allows required does
  exact ⟨ghost, world, required, later, relies⟩

/-- A session that runs a block, in which a name is about to be looked up. -/
theorem exists_lookup_in_block
    : ∃ opened task moment machine,
        ((start ⟨false, 255, 10⟩ .unlimited fun _ => 0).takeAll []).Begins (.run "{var a;a;}")
          opened task
        ∧ (opened.moment task).Reaches moment
        ∧ moment.Does (.locate .variable ⟨0, .identifier, "a", 1⟩) machine
        ∧ moment.distances.find? 0 = some 0 := by
  have scan
      : Scan.ofText "{var a;a;}"
        = ⟨[.token ⟨.mark .leftBrace, "\x7b", 1⟩, .token ⟨.keyword .var, "var", 1⟩,
            .token ⟨.identifier, "a", 1⟩, .token ⟨.mark .semicolon, ";", 1⟩,
            .token ⟨.identifier, "a", 1⟩, .token ⟨.mark .semicolon, ";", 1⟩,
            .token ⟨.mark .rightBrace, "\x7d", 1⟩],
          Token.endOfInput 1⟩ := by
    rw [Scan.ofText_eq]
    rfl
  let block : Stmt :=
    .block [.var ⟨.identifier, "a", 1⟩ none, .expression (.variable ⟨0, .identifier, "a", 1⟩)]
  let numbered : Session := ⟨⟨false, 255, 10⟩, .start 255 .unlimited fun _ => 0, .empty, 1⟩
  let opened := numbered.learn (Distances.empty.record 0 0)
  have parsed
      : (start ⟨false, 255, 10⟩ .unlimited fun _ => 0).parseProgram (.ofText "{var a;a;}")
        = (.ok [block], numbered) := by
    rw [scan]
    rfl
  have begins : Begins (start ⟨false, 255, 10⟩ .unlimited fun _ => 0) (.run "{var a;a;}") opened
      (.executeAll [block]) :=
    .run (by rw [scan]; rfl) parsed rfl
  have reaches : (opened.moment (.executeAll [block])).Reaches _ :=
    .head Moment.leads_first (.head Moment.leads_block (.head (Moment.leads_rest rfl)
      (.head Moment.leads_first (.single Moment.leads_expression))))
  exact ⟨_, _, _, _, begins, reaches, ⟨4, rfl, .acting⟩, rfl⟩

/-- In any evaluation of a session, a distance leads to the environment that was made for the
scope in which the name was resolved, and that of a `super` to the one around its receiver. No
distance leads past the end of a chain.
-/
theorem distance_leads_to_scope
    (begins : ((start config sink clock).takeAll requests).Begins request opened task)
    (reaches : (opened.moment task).Reaches moment)
    : (∀ use occurrence machine distance,
        moment.Does (.locate use occurrence) machine
        → moment.distances.find? occurrence.id = some distance
        → ∃ around frame target,
            ((start config sink clock).course requests request).Resolves use occurrence distance
              machine.environment around frame target
            ∧ (use = .super
              → 1 ≤ distance
                ∧ ∃ definition isStatic inside,
                    frame.region = .superclass definition
                    ∧ machine.environment.ancestor? (distance - 1) = some inside
                    ∧ inside.outer = target.chain
                    ∧ ((start config sink clock).course requests request).history.Made
                        inside.table ⟨.receiver definition isStatic, inside.outer⟩))
      ∧ ∀ machine, moment.ending ≠ .error .beyondChain machine := by
  constructor
  · intro use occurrence machine distance does found
    obtain ⟨ghost, world, required, later, around, known, stands⟩ :=
      relies_of_does begins reaches does
    obtain ⟨frame, target, resolves, _⟩ := later.resolves required known stands found
    refine ⟨around, frame, target, resolves, ?_⟩
    rintro rfl
    have settled := required.settled _ (later.known ▸ known)
    obtain ⟨definition, isStatic, outer, inside, le, walked, walkedOut, links, there, opened, _⟩ :=
      settled.leads_inside found stands
    have same : outer = target := Option.some.inj (walkedOut.symm.trans resolves.ancestor)
    have region : frame = .ofSuperclass definition :=
      Option.some.inj (resolves.declares.symm.trans there)
    exact ⟨le, definition, isStatic, inside, congrArg Frame.region region, walked, same ▸ links,
      later.describes.made _ _ opened⟩
  · intro machine ended
    obtain ⟨ghost, required⟩ := required_of_reaches begins reaches
    have closed : ((start config sink clock).course requests request).history.Closed :=
      closed_history (start config sink clock) (requests ++ [request])
    exact (((scopeContract_sound closed).honours required).of_error ended).1 rfl

/-- A name in a block is looked up in the table of the block. -/
theorem distance_leads_to_block
    : ∃ (moment : Moment) (machine : Machine) (around : Surroundings) (frame : Frame)
          (target : Environment),
        moment.Does (.locate .variable ⟨0, .identifier, "a", 1⟩) machine
        ∧ moment.distances.find? 0 = some 0
        ∧ ((start ⟨false, 255, 10⟩ .unlimited fun _ => 0).course [] (.run "{var a;a;}")).Resolves
            .variable ⟨0, .identifier, "a", 1⟩ 0 machine.environment around frame target := by
  obtain ⟨opened, task, moment, machine, begins, reaches, does, found⟩ := exists_lookup_in_block
  obtain ⟨around, frame, target, resolves, _⟩ :=
    (distance_leads_to_scope begins reaches).1 _ _ _ _ does found
  exact ⟨moment, machine, around, frame, target, does, found, resolves⟩

/-- In any evaluation of a session, the environment that a distance leads to has a value for the
name, unless a `var` statement binds the name there whose initializer surrounds the occurrence and
has not been completed. The receiver that belongs to a `super` has a value, and a function is run
with a value for each of its parameters.
-/
theorem distance_finds_value
    (begins : ((start config sink clock).takeAll requests).Begins request opened task)
    (reaches : (opened.moment task).Reaches moment)
    : (∀ use occurrence machine distance,
        moment.Does (.locate use occurrence) machine
        → moment.distances.find? occurrence.id = some distance
        → (∃ value,
            machine.store.getAt machine.environment distance occurrence.name = .ok value)
          ∨ ¬ Reserved occurrence.name
            ∧ ∃ around frame target,
                ((start config sink clock).course requests request).Resolves use occurrence
                  distance machine.environment around frame target
                ∧ (∀ entry ∈ frame.names, entry.1 = occurrence.name → entry.2 = .unfinished)
                ∧ ((start config sink clock).course requests request).Unfinished moment
                    target.table occurrence.name)
      ∧ (∀ occurrence machine distance,
          moment.Does (.locateReceiver occurrence) machine
          → moment.distances.find? occurrence.id = some distance
          → ∃ value, machine.store.getAt machine.environment (distance - 1) "this" = .ok value)
      ∧ ∀ closure arguments,
          moment.task = .invoke closure arguments
          → arguments.length = closure.declaration.parameters.length
            ∧ ∀ parameter ∈ closure.declaration.parameters,
                ∃ value ∈ arguments,
                  (Plan.parameterBindings closure.declaration.parameters arguments).get?
                      parameter.lexeme
                    = some (some value) := by
  refine ⟨?_, ?_, ?_⟩
  · intro use occurrence machine distance does found
    obtain ⟨ghost, world, required, later, around, known, stands⟩ :=
      relies_of_does begins reaches does
    obtain ⟨frame, target, resolves, names⟩ := later.resolves required known stands found
    by_cases bound : world.Bound target.table occurrence.name
    · exact .inl (later.getAt_of_bound resolves.ancestor bound)
    have waits (entry) (member : entry ∈ frame.names) (same : entry.1 = occurrence.name) :=
      (names entry member).resolve_left (same ▸ bound)
    have has := Surroundings.has_of_distance? resolves.resolved resolves.declares
    obtain ⟨entry, member, same⟩ := List.any_eq_true.1 has
    have same := of_decide_eq_true same
    refine .inr ⟨fun reserved => ?_, around, frame, target, resolves,
      fun entry member same => (waits entry member same).1, ?_⟩
    · have settled := required.settled _ (later.known ▸ known)
      have settles := settled.layered.settles_reserved
        (List.mem_of_getElem? resolves.declares) reserved has
      obtain ⟨entry, member, settles⟩ := List.any_eq_true.1 settles
      obtain ⟨same, done⟩ := Bool.and_eq_true_iff.1 settles
      exact of_decide_eq_true done (waits entry member (of_decide_eq_true same)).1
    · have pending := (waits entry member same).2
      rw [later.pending, same] at pending
      exact required.pending _ _ pending
  · intro occurrence machine distance does found
    obtain ⟨ghost, world, required, later, around, known, stands⟩ :=
      relies_of_does begins reaches does
    have settled := required.settled _ (later.known ▸ known)
    obtain ⟨_, _, _, _, _, walked, _, _, _, _, bound⟩ := settled.leads_inside found stands
    exact later.getAt_of_bound walked bound
  · intro closure arguments invoked
    obtain ⟨ghost, required⟩ := required_of_reaches begins reaches
    have admits := required.admits
    rw [invoked] at admits
    refine ⟨admits.2.2, fun parameter member => ?_⟩
    have has := (Plan.has_parameterBindings admits.2.2 parameter.lexeme).2
      (List.mem_map.2 ⟨parameter, member, rfl⟩)
    obtain ⟨slot, found⟩ := Option.isSome_iff_exists.1 has
    obtain ⟨value, given, rfl⟩ := Plan.get?_parameterBindings found
    exact ⟨value, given, found⟩

/-- A name in a block has a value when it is looked up, or waits for its initializer. -/
theorem distance_finds_value_in_block
    : ∃ (moment : Moment) (machine : Machine),
        moment.Does (.locate .variable ⟨0, .identifier, "a", 1⟩) machine
        ∧ moment.distances.find? 0 = some 0
        ∧ ((∃ value, machine.store.getAt machine.environment 0 "a" = .ok value)
          ∨ ∃ address,
              ((start ⟨false, 255, 10⟩ .unlimited fun _ => 0).course []
                (.run "{var a;a;}")).Unfinished moment address "a") := by
  obtain ⟨opened, task, moment, machine, begins, reaches, does, found⟩ := exists_lookup_in_block
  refine ⟨moment, machine, does, found, ?_⟩
  refine ((distance_finds_value begins reaches).1 _ _ _ _ does found).imp_right ?_
  rintro ⟨_, _, _, target, _, _, waits⟩
  exact ⟨target.table, waits⟩

end Session
end Lox
