import Lox.Proofs.Scanning.Steps
import Lox.Proofs.Session.Outcomes

/-! Names instead of distances. Where blocks and functions declare names before they use them, and
no name occurs in its own initializer, each distance leads to the first table of the current chain
that has the name. So a program runs in the same way when it is not resolved at all.
-/

namespace Lox

-----------------------------------------------------------------------------------------
-- Programs that declare names before they use them
-----------------------------------------------------------------------------------------

/-- The names that a block or a function declares somewhere in its own scope. -/
def Region.declared : Region → List String
  | .block body => (body.flatMap Stmt.declares).map Prod.fst
  | .function declaration =>
    (declaration.parameterNames ++ declaration.body.flatMap Stmt.declares).map Prod.fst
  | .program | .receiver _ _ | .superclass _ => []

/-- The name that occurs at a place. -/
def Place.name? (place : Place) : Option String :=
  match place.act with
  | .use _ occurrence => some occurrence.name
  | _ => none

/-- A name occurs after its declaration in each block and function that declares it around the
place, and not in its own initializer.
-/
def Place.Orderly (place : Place) : Prop :=
  ∀ name ∈ place.name?, ∀ frame ∈ place.around.frames,
    (name ∈ frame.region.declared → frame.has name = true)
    ∧ (name, Binder.unfinished) ∉ frame.names

instance (place : Place) : Decidable place.Orderly := by
  unfold Place.Orderly
  infer_instance

/-- Names in blocks and functions are declared before they occur. The same name may be declared in
several scopes, and at the top level it may occur before its declaration.
-/
def Program.Orderly (program : Program) : Prop := ∀ place ∈ program.places, place.Orderly

instance (program : Program) : Decidable program.Orderly := by
  unfold Program.Orderly
  infer_instance

-----------------------------------------------------------------------------------------
-- The first table that has a name
-----------------------------------------------------------------------------------------

/-- Each scope inside that of the program that may bind a name has done so. -/
structure Surroundings.Clear (around : Surroundings) (name : String) : Prop where
  begun
    : ∀ frame ∈ around.frames,
        frame.region ≠ .program → frame.region.Binds name → frame.has name = true
  done : ∀ frame ∈ around.frames, frame.has name = true → frame.settles name = true

/-- Scopes bind reserved names from the start. By induction over the layers. -/
theorem Layered.has_of_binds {frames : List Frame} {kind : ClassKind} (h : Layered frames kind)
    {frame : Frame} (member : frame ∈ frames) {name : String} (reserved : Reserved name)
    (binds : frame.region.Binds name)
    : frame.has name = true := by
  induction h with
  | program =>
      cases List.mem_singleton.1 member
      exact absurd reserved binds
  | block _ _ ih =>
      rcases List.mem_cons.1 member with rfl | member
      · exact absurd reserved binds.1
      · exact ih member
  | function _ _ ih =>
      rcases List.mem_cons.1 member with rfl | member
      · exact absurd reserved binds.1
      · exact ih member
  | method _ _ ih =>
      simp only [List.mem_cons] at member
      rcases member with rfl | rfl | member
      · exact absurd reserved binds.1
      · exact (Frame.ofReceiver_has ..).trans (decide_eq_true (Eq.symm binds))
      · exact ih member
  | derived _ _ ih =>
      simp only [List.mem_cons] at member
      rcases member with rfl | rfl | rfl | member
      · exact absurd reserved binds.1
      · exact (Frame.ofReceiver_has ..).trans (decide_eq_true (Eq.symm binds))
      · exact (Frame.ofSuperclass_has ..).trans (decide_eq_true (Eq.symm binds))
      · exact ih member

/-- Nothing stands in the way of a reserved name. -/
theorem Layered.clear {around : Surroundings} (h : Around around) {name : String}
    (reserved : Reserved name)
    : around.Clear name where
  begun _ member _ binds := h.has_of_binds member reserved binds
  done _ member has := h.settles_reserved member reserved has

/-- The name at an orderly place is found in the first table that may have it. -/
theorem Place.Orderly.clear {around : Surroundings} {use : Use} {occurrence : Occurrence}
    {distances : Distances} (h : Place.Orderly ⟨around, .use use occurrence⟩)
    (settled : Place.Settled ⟨around, .use use occurrence⟩ distances)
    : around.Clear occurrence.name := by
  by_cases reserved : Reserved occurrence.name
  · exact settled.layered.clear reserved
  have orderly := h occurrence.name rfl
  constructor
  · intro frame member inner binds
    refine (orderly frame member).1 ?_
    obtain ⟨region, names⟩ := frame
    cases region with
    | program => exact absurd rfl inner
    | block body => exact binds.2
    | function declaration => exact binds.2
    | receiver definition isStatic => exact absurd (.inl binds) reserved
    | superclass definition => exact absurd (.inr binds) reserved
  · intro frame member has
    obtain ⟨entry, there, same⟩ := List.any_eq_true.1 has
    refine List.any_eq_true.2 ⟨entry, there, Bool.and_eq_true_iff.2 ⟨same, decide_eq_true ?_⟩⟩
    intro unfinished
    have same := of_decide_eq_true same
    exact (orderly frame member).2 (same ▸ unfinished ▸ there)

/-- The table some links out is as far along the chain. -/
theorem Environment.getElem?_chain {environment target : Environment} {distance : Nat}
    (walked : environment.ancestor? distance = some target)
    : environment.chain[distance]? = some target.table := by
  rw [← environment.map_ancestor? distance, walked, Option.map_some]

namespace World

variable {world : World} {instances : Array Instance} {name : String}

/-- The first table of a chain that has a name is the one for the first scope that declares it, or
else that of the globals. By induction over the scopes inside that of the program.
-/
theorem Stands.home?_eq {chain : List Nat} {inner : List Frame}
    {names : List (String × Binder)} {setting : Setting}
    (h : world.Stands chain (inner ++ [⟨.program, names⟩])) (fits : world.Fits instances)
    (others : ∀ frame ∈ inner, frame.region ≠ .program)
    (clear : Surroundings.Clear ⟨inner ++ [⟨.program, names⟩], setting⟩ name)
    : world.store.home? name chain
      = match (inner ++ [Frame.mk .program names]).findIdx? (·.has name) with
        | some distance => chain[distance]?
        | none => world.store.home? name [0] := by
  induction inner generalizing chain with
  | nil =>
      obtain _ | ⟨address, _ | ⟨next, outer⟩⟩ := chain
      · exact h.elim
      · obtain ⟨opened, there, _⟩ := h
        have first := fits.onlyGlobals address _ opened rfl
        subst first
        rw [List.nil_append, List.findIdx?_singleton]
        cases has : (Frame.mk .program names).has name with
        | true =>
            have bound := bound_of_settles there (clear.done _ (List.mem_cons_self ..) has)
            unfold Bound at bound
            simp [Store.home?, bound]
        | false => rfl
      · exact h.2.2.elim
  | cons frame inner ih =>
      obtain _ | ⟨address, outer⟩ := chain
      · exact h.elim
      obtain ⟨opened, there, rest⟩ := h
      rw [List.forall_mem_cons] at others
      rw [List.cons_append, List.findIdx?_cons, Store.home?]
      have first : frame ∈ frame :: inner ++ [⟨.program, names⟩] := List.mem_cons_self ..
      cases has : frame.has name with
      | true =>
          have bound := bound_of_settles there (clear.done _ first has)
          unfold Bound at bound
          simp [bound]
      | false =>
          have unbound : (world.store.table address).has name = false := by
            refine Bool.eq_false_iff.2 fun bound => ?_
            obtain ⟨opening, same, binds⟩ := fits.names address name bound
            cases Option.some.inj (opened.symm.trans same)
            have begun := clear.begun _ first others.1 binds
            rw [has] at begun
            cases begun
          have inside := ih rest others.2
            ⟨fun frame member => clear.begun frame (List.mem_cons_of_mem _ member),
              fun frame member => clear.done frame (List.mem_cons_of_mem _ member)⟩
          rw [unbound, if_neg Bool.false_ne_true, inside]
          cases (inner ++ [Frame.mk .program names]).findIdx? (·.has name) <;> rfl

/-- A name is found along the chain where its distance leads, or else among the globals. -/
theorem Stands.find_eq {environment : Environment} {around : Surroundings}
    (h : world.Stands environment.chain around.frames) (fits : world.Fits instances)
    (layered : Layered.Around around) (clear : around.Clear name)
    : world.store.find environment name
      = match around.distance? name with
        | some distance => environment.tableAt distance
        | none => world.store.find .globals name := by
  obtain ⟨frames, setting⟩ := around
  obtain ⟨inner, names, rfl, others⟩ := layered.outermost
  rw [Store.find, h.home?_eq fits others clear, Surroundings.distance?]
  cases found : (inner ++ [Frame.mk .program names]).findIdx? (·.has name) with
  | none => rfl
  | some distance =>
      obtain ⟨inside, _⟩ := List.findIdx?_eq_some_iff_getElem.1 found
      obtain ⟨target, walked, _⟩ := h.ancestor (List.getElem?_eq_getElem inside)
      simp only [Environment.getElem?_chain walked, Environment.tableAt, walked]

end World

-----------------------------------------------------------------------------------------
-- Looking names up along the chain
-----------------------------------------------------------------------------------------

/-- Every occurrence is looked up by its name in the tables of the current chain. -/
def Access.byName : Access where
  home _ occurrence machine := machine.store.find machine.environment occurrence.name
  receiverHome _ machine := machine.store.find machine.environment "this"

namespace Place.Settled

variable {world : World} {history : History} {machine : Machine} {around : Surroundings} {use : Use}
  {occurrence : Occurrence} {distances : Distances}

/-- Where nothing stands in the way of a name, its distance leads to where it is found. -/
theorem home_eq_find (settled : Settled ⟨around, .use use occurrence⟩ distances)
    (describes : world.Describes history machine)
    (stands : world.Stands machine.environment.chain around.frames)
    (clear : around.Clear occurrence.name)
    : (Access.byDistance distances).home use occurrence machine
      = machine.store.find machine.environment occurrence.name := by
  have found := stands.find_eq describes.fits settled.layered clear
  unfold Access.byDistance
  dsimp only
  rw [describes.store, found, settled.find?_eq]
  cases away : around.distance? occurrence.name with
  | some distance => rfl
  | none =>
      dsimp only
      rw [if_neg]
      rintro rfl
      obtain ⟨_, _, _, there, _⟩ := settled.derived.super_receiver
      have name : occurrence.name = "super" := settled.proper
      rw [name, Surroundings.distance?, there] at away
      cases away

/-- The receiver that belongs to a `super` is what `this` is. -/
theorem receiverHome_eq_find (settled : Settled ⟨around, .use .super occurrence⟩ distances)
    (describes : world.Describes history machine)
    (stands : world.Stands machine.environment.chain around.frames)
    : (Access.byDistance distances).receiverHome occurrence machine
      = machine.store.find machine.environment "this" := by
  have found := stands.find_eq describes.fits settled.layered
    (settled.layered.clear (.inl rfl : Reserved "this"))
  obtain ⟨distance, _, _, away, _, _, inside⟩ := settled.derived.super_receiver
  have outside : around.distance? occurrence.name = some (distance + 1) :=
    (settled.proper : occurrence.name = "super") ▸ away
  have inside : around.distance? "this" = some distance := inside
  unfold Access.byDistance
  dsimp only
  rw [describes.store, found, settled.find?_eq, outside, inside]
  rfl

end Place.Settled

/-- At orderly places, names are found where distances lead. -/
theorem Access.matches_byName {distances : Distances} {listed : Place → Prop}
    (orderly : ∀ place, listed place → place.Orderly)
    : Access.byName.Matches distances listed where
  home here settled describes stands :=
    (settled.home_eq_find describes stands ((orderly _ here).clear settled)).symm
  receiverHome _ settled describes stands :=
    (settled.receiverHome_eq_find describes stands).symm

namespace Session

/-- Runs a program in which every occurrence is looked up by its name. -/
def chaseProgram (session : Session) (program : Program) : Status × Session :=
  match session.perform
      ((Task.executeAll program).perform .byName session.config.budget) with
  | (.ok _, after) => (.ok, after)
  | (.error interruption, after) => after.interrupt interruption

theorem outcome_chaseProgram (session : Session) (program : Program)
    : outcome (session.chaseProgram program)
      = Ending.outcome
          ((Task.executeAll program).perform .byName session.config.budget session.machine) := by
  unfold chaseProgram
  rw [perform_eq]
  cases (Task.executeAll program).perform .byName session.config.budget session.machine with
  | ok flow after => rfl
  | error interruption after => cases interruption <;> rfl

/-- A program that declares names before they occur, in blocks and functions, has the same outcome
when every occurrence is looked up by its name.
-/
theorem outcome_by_name {config : Config} {sink : Sink} {clock : Nat → Float} {source : String}
    {program : Program} {numbered : Session} {distances : Distances}
    (parsed
      : (start config sink clock).parseProgram (.ofText source) = (.ok program, numbered))
    (accepted : program.resolve config.reportUnused = .ok distances)
    (orderly : program.Orderly)
    : outcome (numbered.chaseProgram program) = outcome (numbered.runProgram program) := by
  have read := (start config sink clock).continues_parseProgram source
  rw [parsed] at read
  have stable : Stable (Course.listing (· ∈ program.places)).history (· ∈ program.places)
      (start config sink clock) .start :=
    (stable_start config sink clock).mono (fun _ => False.elim) fun _ => False.elim
  have required
      : ((numbered.learn distances).moment (.executeAll program)).Required
          (.listing (· ∈ program.places)) ⟨World.start.learning program.places, .top⟩ :=
    stable.required (opens_program parsed accepted) rfl (fun _ => id) trivial fun _ known =>
      known.resolve_left id
  have suits := (Access.matches_byName orderly).suits required
  have resolved : program.resolve numbered.config.reportUnused = .ok distances := by
    rw [read.config]
    exact accepted
  rw [outcome_chaseProgram, outcome_runProgram resolved]
  exact congrArg Ending.outcome (suits.perform_eq Nat.le.refl (.inl rfl))

/-- A function that is called finds a name of the block around it. -/
theorem outcome_by_name_in_function
    : ∃ program numbered,
        (start ⟨false, 255, 20⟩ .unlimited fun _ => 0).parseProgram
            (.ofText "{var a;fun f(){print a;}f();}")
          = (.ok program, numbered)
        ∧ program.Orderly
        ∧ outcome (numbered.chaseProgram program) = outcome (numbered.runProgram program)
        ∧ (outcome (numbered.runProgram program)).2.sink.written = "null\n".toUTF8 := by
  let name : Token := ⟨.identifier, "f", 1⟩
  let closing : Token := ⟨.mark .rightParen, ")", 1⟩
  let keyword : Token := ⟨.keyword .print, "print", 1⟩
  have scan
      : Scan.ofText "{var a;fun f(){print a;}f();}"
        = ⟨[.token ⟨.mark .leftBrace, "\x7b", 1⟩, .token ⟨.keyword .var, "var", 1⟩,
            .token ⟨.identifier, "a", 1⟩, .token ⟨.mark .semicolon, ";", 1⟩,
            .token ⟨.keyword .fun, "fun", 1⟩, .token name,
            .token ⟨.mark .leftParen, "(", 1⟩, .token closing,
            .token ⟨.mark .leftBrace, "\x7b", 1⟩, .token keyword, .token ⟨.identifier, "a", 1⟩,
            .token ⟨.mark .semicolon, ";", 1⟩, .token ⟨.mark .rightBrace, "\x7d", 1⟩,
            .token name, .token ⟨.mark .leftParen, "(", 1⟩, .token closing,
            .token ⟨.mark .semicolon, ";", 1⟩, .token ⟨.mark .rightBrace, "\x7d", 1⟩],
          Token.endOfInput 1⟩ := by
    rw [Scan.ofText_eq]
    rfl
  let function : FunctionDecl :=
    ⟨some name, name, [], [.print keyword (.variable ⟨0, .identifier, "a", 1⟩)]⟩
  let program : Program :=
    [.block [.var ⟨.identifier, "a", 1⟩ none, .function function,
      .expression (.call (.variable ⟨1, .identifier, "f", 1⟩) closing [])]]
  let numbered : Session := ⟨⟨false, 255, 20⟩, .start 255 .unlimited fun _ => 0, .empty, 2⟩
  have read
      : Program.parse (Scan.ofText "{var a;fun f(){print a;}f();}").tokens
            (Scan.ofText "{var a;fun f(){print a;}f();}").stop 0
          = (.ok program, 2) := by
    rw [scan]
    cbv
  have parsed
      : (start ⟨false, 255, 20⟩ .unlimited fun _ => 0).parseProgram
          (.ofText "{var a;fun f(){print a;}f();}")
        = (.ok program, numbered) :=
    parseProgram_eq read
  have accepted : program.resolve false = .ok ((Distances.empty.record 0 1).record 1 0) := rfl
  have orderly : program.Orderly := by decide
  refine ⟨program, numbered, parsed, orderly, outcome_by_name parsed accepted orderly, ?_⟩
  decide +kernel

end Session

end Lox
