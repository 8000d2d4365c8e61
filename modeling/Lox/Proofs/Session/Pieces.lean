import Lox.Proofs.Scanning.Steps
import Lox.Proofs.Scoping.Pieces
import Lox.Proofs.Session.Outcomes

/-! Programs in pieces. A program that is run in consecutive pieces, each resolved by itself, has
the same outcome as in one: a name of an earlier piece is found among the globals, where its
distance would lead.
-/

namespace Lox

-----------------------------------------------------------------------------------------
-- Statements one after the other
-----------------------------------------------------------------------------------------

/-- How a sequence goes on after the ending of its first part. -/
def Ending.thenAll (ending : Ending Flow) (next : Machine → Ending Flow) : Ending Flow :=
  match ending with
  | .ok .normal after => next after
  | other => other

/-- Statements in order: the rest runs if the first one ends normally. -/
theorem Task.perform_executeAll_cons (access : Access) (budget : Nat) (first : Stmt)
    (rest : List Stmt) (machine : Machine)
    : (Task.executeAll (first :: rest)).perform access (budget + 1) machine
      = Ending.thenAll ((Task.execute first).perform access budget machine)
          ((Task.executeAll rest).perform access budget) := by
  refine (Plan.run_hand access (Task.perform access budget) .plain (.execute first) _ machine).trans
    ?_
  simp only [Manner.before]
  cases (Task.execute first).perform access budget machine with
  | error interruption after => rfl
  | ok flow after =>
      cases flow with
      | normal => exact Plan.run_asking ..
      | «break» => rfl
      | «return» value => rfl

/-- Statements run after others on the budget that the others leave. By induction over the
others.
-/
theorem Task.perform_executeAll_append (access : Access) (budget : Nat)
    (first second : List Stmt) (machine : Machine)
    : (Task.executeAll (first ++ second)).perform access budget machine
      = Ending.thenAll ((Task.executeAll first).perform access budget machine)
          ((Task.executeAll second).perform access (budget - first.length)) := by
  induction first generalizing budget machine with
  | nil => cases budget <;> rfl
  | cons stmt rest ih =>
      cases budget with
      | zero => rfl
      | succ budget =>
          rw [List.cons_append, perform_executeAll_cons, perform_executeAll_cons,
            List.length_cons, Nat.add_sub_add_right]
          cases (Task.execute stmt).perform access budget machine with
          | error interruption after => rfl
          | ok flow after =>
              cases flow with
              | normal => exact ih budget after
              | «break» => rfl
              | «return» value => rfl

/-- Statements that end normally leave some budget. -/
theorem Task.length_lt_of_normal {access : Access} {budget : Nat} {stmts : List Stmt}
    {machine after : Machine}
    (ended : (Task.executeAll stmts).perform access budget machine = .ok .normal after)
    : stmts.length < budget := by
  induction stmts generalizing budget machine with
  | nil =>
      cases budget with
      | zero => cases ended
      | succ budget => exact Nat.succ_pos budget
  | cons stmt rest ih =>
      cases budget with
      | zero => cases ended
      | succ budget =>
          rw [perform_executeAll_cons] at ended
          cases ran : (Task.execute stmt).perform access budget machine with
          | error interruption after =>
              rw [ran] at ended
              cases ended
          | ok flow left =>
              rw [ran] at ended
              cases flow with
              | normal => exact Nat.succ_lt_succ (ih ended)
              | «break» => cases ended
              | «return» value => cases ended

-----------------------------------------------------------------------------------------
-- Runs in pieces
-----------------------------------------------------------------------------------------

namespace Session

/-- The session with another budget. -/
def withBudget (session : Session) (budget : Nat) : Session :=
  { session with config := { session.config with budget } }

/-- Runs programs one after the other, up to the first that does not end well. What is left of
the budget after each is given.
-/
def runPieces (left : Nat → Program → Nat) : Session → List Program → Status × Session
  | session, [] => (.ok, session)
  | session, piece :: rest =>
    match session.runProgram piece with
    | (.ok, after) =>
      runPieces left (after.withBudget (left session.config.budget piece)) rest
    | stopped => stopped

/-- Pieces that share a budget as the statements of one program do. -/
def shared (budget : Nat) (piece : Program) : Nat := budget - piece.length

/-- Pieces that each get the whole budget. -/
def separate (budget : Nat) (_ : Program) : Nat := budget

end Session

-----------------------------------------------------------------------------------------
-- Occurrences found at a distance or among the globals
-----------------------------------------------------------------------------------------

/-- Distances of a piece agree with those of the whole about the occurrence at a place: they are
the same, or the piece has none where the name is bound among the globals.
-/
def Place.Agrees (own whole : Distances) (place : Place) : Prop :=
  ∀ use occurrence,
    place.act = .use use occurrence
    → own.find? occurrence.id = whole.find? occurrence.id
      ∨ use ≠ .super
        ∧ own.find? occurrence.id = none
        ∧ ∃ inner names entry,
            place.around.frames = inner ++ [⟨.program, names⟩]
            ∧ whole.find? occurrence.id = some inner.length
            ∧ entry ∈ names
            ∧ entry.1 = occurrence.name
            ∧ entry.2 ≠ .unfinished

/-- An occurrence is found in the same table, at its distance or among the globals. -/
theorem Place.Agrees.home_eq {own whole : Distances} {around : Surroundings} {use : Use}
    {occurrence : Occurrence} {world : World} {machine : Machine} {instances : Array Instance}
    (h : Place.Agrees own whole ⟨around, .use use occurrence⟩)
    (stands : world.Stands machine.environment.chain around.frames)
    (fits : world.Fits instances) (store : machine.store = world.store)
    : (Access.byDistance own).home use occurrence machine
      = (Access.byDistance whole).home use occurrence machine := by
  unfold Access.byDistance
  dsimp only
  rcases h use occurrence rfl with
    same | ⟨notSuper, unfound, inner, names, entry, frames, found, member, same, finished⟩
  · rw [same]
  · have last : around.frames[inner.length]? = some ⟨.program, names⟩ := by
      rw [frames, List.getElem?_concat_length]
    obtain ⟨target, walked, opened, has, _⟩ := stands.ancestor last
    have first := fits.onlyGlobals target.table _ opened rfl
    have bound : (machine.store.table 0).has occurrence.name = true := by
      rw [store, ← same, ← first]
      exact (has entry member).2.resolve_right fun waits => finished waits.1
    simp only [unfound, found, notSuper, if_false, Environment.tableAt, walked, first, Store.find,
      Environment.chain, Environment.globals, Store.home?, bound, if_true]

/-- The receiver that belongs to a `super` is found in the same table. -/
theorem Place.Agrees.receiverHome_eq {own whole : Distances} {around : Surroundings}
    {occurrence : Occurrence} (h : Place.Agrees own whole ⟨around, .use .super occurrence⟩)
    (machine : Machine)
    : (Access.byDistance own).receiverHome occurrence machine
      = (Access.byDistance whole).receiverHome occurrence machine := by
  unfold Access.byDistance
  dsimp only
  rcases h .super occurrence rfl with same | ⟨notSuper, _⟩
  · rw [same]
  · exact absurd rfl notSuper

/-- Where all places agree, the distances of the piece match those of the whole. -/
theorem Access.matches_byDistance {own whole : Distances} {listed : Place → Prop}
    (agrees : ∀ place, listed place → place.Agrees own whole)
    : (Access.byDistance own).Matches whole listed where
  home here _ describes stands :=
    (agrees _ here).home_eq stands describes.fits describes.store
  receiverHome here _ _ _ := (agrees _ here).receiverHome_eq _

-----------------------------------------------------------------------------------------
-- From piece to piece
-----------------------------------------------------------------------------------------

namespace Session

/-- What holds of a session that has run some pieces well, before the statements in `rest`. The
names in `before` have been declared, and `whole` are the distances of all pieces.
-/
structure Stage (whole : Distances) (session : Session) (before : List (String × Binder))
    (rest : List Stmt) (world : World) : Prop where
  lenient : session.config.reportUnused = false
  describes : world.Describes (fun _ => True) session.machine
  environment : session.machine.environment = .globals
  stands : world.Stands [0] (Surroundings.top.declareAll before).frames
  settled : ∀ place, world.known place → place.Settled whole
  agrees : ∀ place, world.known place → place.Agrees session.distances whole
  pending
    : ∀ address name, world.pending address name → History.Abandoned (fun _ => True) address name
  declared : ∀ entry ∈ before, ¬ Reserved entry.1 ∧ entry.2 ≠ .unfinished
  ahead
    : ∀ place ∈ Places.ofStmts rest (Surroundings.top.declareAll before), place.Settled whole
  apart
    : ((Places.ofStmts rest (Surroundings.top.declareAll before)).filterMap Place.id?).Nodup
  fresh
    : ∀ id ∈ (Places.ofStmts rest (Surroundings.top.declareAll before)).filterMap Place.id?,
        session.distances.find? id = none
        ∧ ∀ place, world.known place → place.id? ≠ some id

variable {whole : Distances} {session : Session} {before : List (String × Binder)}
  {piece : Program} {rest : List Stmt} {world : World}

theorem Stage.ahead_piece (stage : Stage whole session before (piece ++ rest) world)
    : ∀ place ∈ Places.ofStmts piece (Surroundings.top.declareAll before),
        place.Settled whole := by
  intro place member
  refine stage.ahead place ?_
  rw [Places.ofStmts_append]
  exact List.mem_append_left _ member

theorem Stage.lawful (stage : Stage whole session before (piece ++ rest) world)
    : ∀ place ∈ Program.places piece, place.errors = [] :=
  Program.lawful_of_after before fun place member => (stage.ahead_piece place member).lawful

/-- The occurrences of a piece are new to the session and numbered apart. -/
theorem Stage.fresh_piece (stage : Stage whole session before (piece ++ rest) world)
    : ∀ id ∈ (Program.places piece).filterMap Place.id?,
        session.distances.find? id = none
        ∧ ∀ place, world.known place → place.id? ≠ some id := by
  intro id member
  refine stage.fresh id ?_
  rw [Places.ofStmts_append, List.filterMap_append, Program.ids_after]
  exact List.mem_append_left _ member

theorem Stage.apart_piece (stage : Stage whole session before (piece ++ rest) world)
    : ((Program.places piece).filterMap Place.id?).Nodup := by
  have apart := stage.apart
  rw [Places.ofStmts_append, List.filterMap_append, Program.ids_after] at apart
  exact (List.nodup_append.1 apart).1

/-- A piece is accepted by itself. -/
theorem Stage.resolved (stage : Stage whole session before (piece ++ rest) world)
    : Program.resolve piece session.config.reportUnused
      = .ok (Distances.empty.noteAll (Program.places piece)) := by
  rw [stage.lenient]
  exact Program.resolve_eq_ok.2 ⟨stage.lawful, rfl⟩

/-- What a piece resolves by itself agrees with the whole about its own places. -/
theorem Stage.agrees_piece (stage : Stage whole session before (piece ++ rest) world)
    : ∀ place ∈ Places.ofStmts piece (Surroundings.top.declareAll before),
        place.Agrees
          (session.distances.merge (Distances.empty.noteAll (Program.places piece))) whole := by
  have settled := stage.ahead_piece
  rw [← Surroundings.top_after, Places.ofStmts_after] at settled ⊢
  rw [List.forall_mem_map] at settled ⊢
  have layered := Layered.of_program fun place member => (settled place member).proper
  rintro ⟨around, act⟩ member use occurrence ⟨⟩
  have here := settled _ member
  have own
      : (session.distances.merge (Distances.empty.noteAll (Program.places piece))).find?
          occurrence.id
        = around.distance? occurrence.name := by
    have new := stage.fresh_piece occurrence.id (List.mem_filterMap.2 ⟨_, member, rfl⟩)
    rw [Distances.find?_merge, new.1, Option.or_none,
      Distances.find?_noteAll stage.apart_piece member rfl rfl,
      Place.distance?_eq (stage.lawful _ member)]
  rw [own, here.find?_eq]
  rcases Surroundings.distance?_after (layered _ member) occurrence.name with
    same | ⟨unfound, inner, names, entry, frames, found, old, same⟩
  · exact .inl same.symm
  · have declared := stage.declared entry (List.mem_reverse.1 old)
    refine .inr ⟨?_, unfound, inner, _, entry, frames, found, List.mem_append_right _ old, same,
      declared.2⟩
    rintro rfl
    exact declared.1 (.inr (same.trans here.proper))

/-- What a piece resolves changes nothing about the places before. -/
theorem Stage.agrees_before (stage : Stage whole session before (piece ++ rest) world)
    : ∀ place,
        world.known place
        → place.Agrees
            (session.distances.merge (Distances.empty.noteAll (Program.places piece))) whole := by
  intro place known use occurrence act
  have id : place.id? = some occurrence.id := by rw [Place.id?, act]
  have absent : occurrence.id ∉ (Program.places piece).filterMap Place.id? := fun member =>
    (stage.fresh_piece _ member).2 place known id
  rw [Distances.find?_merge, Distances.find?_noteAll_of_notMem _ absent, Distances.find?_empty,
    Option.none_or]
  exact stage.agrees place known use occurrence act

/-- The whole meets the contract where a piece of it begins. -/
theorem Stage.required (stage : Stage whole session before (piece ++ rest) world)
    : Moment.Required
        (.listing (Place.Agrees
          (session.distances.merge (Distances.empty.noteAll (Program.places piece))) whole))
        ⟨world.learning (Places.ofStmts piece (Surroundings.top.declareAll before)),
          Surroundings.top.declareAll before⟩
        ⟨whole, session.config.budget, .executeAll piece, session.machine⟩ where
  came := trivial
  describes := stage.describes.learning _
  listed place known := known.elim (stage.agrees_before place) (stage.agrees_piece place)
  settled place known := known.elim (stage.settled place) (stage.ahead_piece place)
  pending address name pending := .inl (stage.pending address name pending)
  admits := by
    have free := Stmt.free_flatMap_declares piece fun place member =>
      (stage.ahead_piece place member).proper
    refine ⟨?_, fun place member => .inr member, fun entry member =>
      Surroundings.binds_declareAll ⟨⟨.program, []⟩, rfl, free entry member⟩ before⟩
    rw [stage.environment]
    exact stage.stands.mono (world.le_learning _)

/-- The run of a piece is the same with the distances of the whole. -/
theorem Stage.ending_eq (stage : Stage whole session before (piece ++ rest) world)
    : ((session.learn (Distances.empty.noteAll (Program.places piece))).moment
          (.executeAll piece)).ending
      = Moment.ending ⟨whole, session.config.budget, .executeAll piece, session.machine⟩ := by
  let moment : Moment := ⟨whole, session.config.budget, .executeAll piece, session.machine⟩
  have suits
      : moment.Suits (.byDistance
          (session.distances.merge (Distances.empty.noteAll (Program.places piece)))) :=
    (Access.matches_byDistance fun _ => id).suits stage.required
  exact suits.perform_eq Nat.le.refl (.inl rfl)

/-- A piece that ends well ends normally, and the next one finds its names declared. -/
theorem Stage.next (stage : Stage whole session before (piece ++ rest) world) {flow : Flow}
    {after : Machine} (budget : Nat)
    (ended
      : Moment.ending ⟨whole, session.config.budget, .executeAll piece, session.machine⟩
        = .ok flow after)
    : flow = .normal
      ∧ ∃ later,
          Stage whole
            (withBudget
              { session.learn (Distances.empty.noteAll (Program.places piece)) with
                machine := after }
              budget)
            (before ++ piece.flatMap Stmt.declares) rest later := by
  obtain ⟨later, left, follows⟩ :=
    ((scopeContract_sound (Course.closed_listing _)).honours stage.required).of_ok ended
  have setting : (Surroundings.top.declareAll before).setting = .top :=
    Surroundings.declareAll_setting ..
  cases flow with
  | «break» =>
      simp only [Ghost.Grants, Ghost.Follows, setting] at follows
      exact absurd rfl follows
  | «return» value =>
      simp only [Ghost.Grants, Ghost.Follows, setting] at follows
      exact absurd rfl follows.2
  | normal =>
      have apart := stage.apart
      rw [Places.ofStmts_append, List.filterMap_append, List.nodup_append] at apart
      have ahead := stage.ahead
      rw [Places.ofStmts_append, List.forall_mem_append] at ahead
      have fresh := stage.fresh
      rw [Places.ofStmts_append, List.filterMap_append, List.forall_mem_append] at fresh
      refine ⟨rfl, later, stage.lenient, left.describes,
        left.environment.trans stage.environment, ?_, ?_, ?_, ?_, ?_, ?_, ?_, ?_⟩
      · rw [Surroundings.declareAll_append]
        have stands : later.Stands session.machine.environment.chain _ := follows
        rw [stage.environment] at stands
        exact stands
      · intro place known
        rw [left.known] at known
        exact known.elim (stage.settled place) (ahead.1 place)
      · intro place known
        rw [left.known] at known
        exact known.elim (stage.agrees_before place) (stage.agrees_piece place)
      · intro address name pending
        rw [left.pending] at pending
        exact stage.pending address name pending
      · refine List.forall_mem_append.2 ⟨stage.declared, fun entry member => ⟨?_, ?_⟩⟩
        · exact Stmt.free_flatMap_declares piece (fun place member => (ahead.1 place member).proper)
            entry member
        · obtain ⟨stmt, _, member⟩ := List.mem_flatMap.1 member
          exact stmt.finished_declares entry member
      · rw [Surroundings.declareAll_append]
        exact ahead.2
      · rw [Surroundings.declareAll_append]
        exact apart.2.1
      · rw [Surroundings.declareAll_append]
        intro id member
        have absent : id ∉ (Program.places piece).filterMap Place.id? := by
          rw [← Program.ids_after piece before]
          exact fun first => apart.2.2 id first id member rfl
        have new := fresh.2 id member
        constructor
        · change (session.distances.merge _).find? id = none
          rw [Distances.find?_merge, Distances.find?_noteAll_of_notMem _ absent,
            Distances.find?_empty, Option.none_or]
          exact new.1
        · intro place known same
          rw [left.known] at known
          rcases known with known | first
          · exact new.2 place known same
          · exact apart.2.2 id (List.mem_filterMap.2 ⟨place, first, same⟩) id member rfl

-----------------------------------------------------------------------------------------
-- All pieces
-----------------------------------------------------------------------------------------

/-- Pieces that share a budget have the outcome of the whole, by induction over them. -/
theorem Stage.outcome_shared {pieces : List Program}
    (stage : Stage whole session before pieces.flatten world)
    (positive : 0 < session.config.budget)
    : outcome (session.runPieces shared pieces)
      = (Moment.ending
          ⟨whole, session.config.budget, .executeAll pieces.flatten, session.machine⟩).outcome := by
  induction pieces generalizing session before world with
  | nil =>
      obtain ⟨budget, same⟩ := Nat.exists_eq_succ_of_ne_zero (Nat.ne_of_gt positive)
      rw [same]
      rfl
  | cons piece rest ih =>
      rw [List.flatten_cons] at stage ⊢
      have split
          : Moment.ending
              ⟨whole, session.config.budget, .executeAll (piece ++ rest.flatten), session.machine⟩
            = Ending.thenAll
                (Moment.ending ⟨whole, session.config.budget, .executeAll piece, session.machine⟩)
                ((Task.executeAll rest.flatten).perform (.byDistance whole)
                  (session.config.budget - piece.length)) :=
        Task.perform_executeAll_append ..
      rw [split]
      cases ended
          : Moment.ending ⟨whole, session.config.budget, .executeAll piece, session.machine⟩ with
      | ok flow after =>
          obtain ⟨rfl, later, next⟩ := stage.next (shared session.config.budget piece) ended
          have ran := runProgram_of_ok stage.resolved (stage.ending_eq.trans ended)
          rw [runPieces, ran]
          exact ih next (Nat.sub_pos_of_lt (Task.length_lt_of_normal ended))
      | error interruption after =>
          have ran := runProgram_of_error stage.resolved (stage.ending_eq.trans ended)
          rw [runPieces, ran]
          cases interruption <;> rfl

/-- Where a program has been read and is accepted, it can be run in pieces, on any budget. -/
theorem Stable.stage {past : History} {listing : Place → Prop}
    (h : Stable past listing session world) {source : String} {program : Program}
    {numbered : Session} {distances : Distances}
    (parsed : session.parseProgram (.ofText source) = (.ok program, numbered))
    (resolved : program.resolve session.config.reportUnused = .ok distances)
    (lenient : session.config.reportUnused = false) (budget : Nat)
    : Stage (numbered.distances.merge distances) (numbered.withBudget budget) [] program world
    := by
  have opens := opens_program parsed resolved
  have read := session.continues_parseProgram source
  rw [parsed] at read
  have settled := h.settled_learning opens
  refine ⟨?_, ?_, ?_, ?_, ?_, ?_, ?_, ?_, ?_, ?_, ?_⟩
  · exact (congrArg Config.reportUnused read.config).trans lenient
  · exact (h.describes.alike read.alike).mono fun _ _ => trivial
  · exact read.alike.environment.trans h.environment
  · exact ⟨h.describes.fits.globals, List.forall_mem_nil _, trivial⟩
  · exact fun place known => settled place (.inl known)
  · intro place known use occurrence act
    have id : place.id? = some occurrence.id := by rw [Place.id?, act]
    have before := (h.settled place known).found _ id
    have since := (settled place (.inl known)).found _ id
    rw [← read.distances] at before
    exact .inl (before.trans since.symm)
  · exact fun address name pending => (h.pending address name pending).mono fun _ _ => trivial
  · exact List.forall_mem_nil _
  · exact fun place member => settled place (.inr member)
  · exact opens.apart
  · intro id member
    have unused := (opens.within id member).1
    have new := h.fresh id unused
    rw [← read.distances] at new
    exact ⟨new, fun place known same => Nat.not_lt.2 unused (h.numbered place known id same)⟩

/-- Pieces of an accepted program are accepted. -/
theorem resolve_pieces {pieces : List Program} {distances : Distances}
    (accepted : Program.resolve pieces.flatten false = .ok distances)
    : ∀ piece ∈ pieces, ∃ own, Program.resolve piece false = .ok own := by
  intro piece member
  obtain ⟨front, back, rfl⟩ := List.append_of_mem member
  have lawful := (Program.resolve_eq_ok.1 accepted).1
  rw [Program.places, List.flatten_append, List.flatten_cons, Places.ofStmts_append,
    Places.ofStmts_append, List.forall_mem_append, List.forall_mem_append] at lawful
  exact ⟨_, Program.resolve_eq_ok.2 ⟨Program.lawful_of_after _ lawful.2.1, rfl⟩⟩

-----------------------------------------------------------------------------------------
-- Other budgets
-----------------------------------------------------------------------------------------

theorem reportAll_withBudget (session : Session) (budget : Nat) (diagnostics : List Diagnostic)
    : (session.withBudget budget).reportAll diagnostics
      = (session.reportAll diagnostics).withBudget budget := by
  induction diagnostics generalizing session with
  | nil => rfl
  | cons first rest ih => exact ih (session.report first)

/-- A program that is not stopped for its budget runs in the same way with a larger one. -/
theorem runProgram_withBudget {session : Session} {program : Program} {budget : Nat}
    (le : session.config.budget ≤ budget)
    (finishes : (session.runProgram program).1 ≠ .unfinished)
    : (session.withBudget budget).runProgram program
      = ((session.runProgram program).1, (session.runProgram program).2.withBudget budget) := by
  cases resolved : program.resolve session.config.reportUnused with
  | error errors =>
      have again
          : program.resolve (session.withBudget budget).config.reportUnused = .error errors :=
        resolved
      simp only [runProgram, resolved, again, reject, reportAll_withBudget]
  | ok distances =>
      have again
          : program.resolve (session.withBudget budget).config.reportUnused = .ok distances :=
        resolved
      let moment := (session.learn distances).moment (.executeAll program)
      have ends : moment.Finishes := by
        intro after ended
        rw [runProgram_of_error resolved ended] at finishes
        exact finishes rfl
      have same
          : (((session.withBudget budget).learn distances).moment (.executeAll program)).ending
            = moment.ending :=
        ends.perform_eq le
      cases ended : moment.ending with
      | ok flow after =>
          rw [runProgram_of_ok resolved ended, runProgram_of_ok again (same.trans ended)]
          rfl
      | error interruption after =>
          rw [runProgram_of_error resolved ended, runProgram_of_error again (same.trans ended)]
          cases interruption <;> rfl

/-- Pieces that are not stopped for their budgets have the same outcome when each gets at least as
much. What is enough is kept from piece to piece, so by induction over them.
-/
theorem outcome_runPieces_withBudget {left more : Nat → Program → Nat}
    (enough : Nat → Nat → List Program → Prop)
    (le : ∀ {small large pieces}, enough small large pieces → small ≤ large)
    (next
      : ∀ {small large piece rest},
          enough small large (piece :: rest) → enough (left small piece) (more large piece) rest)
    {session : Session} {pieces : List Program} {budget : Nat}
    (begins : enough session.config.budget budget pieces)
    (finishes : (session.runPieces left pieces).1 ≠ .unfinished)
    : outcome ((session.withBudget budget).runPieces more pieces)
      = outcome (session.runPieces left pieces) := by
  induction pieces generalizing session budget with
  | nil => rfl
  | cons piece rest ih =>
      rw [runPieces] at finishes ⊢
      rw [runPieces]
      cases ran : session.runProgram piece with
      | mk status after =>
          rw [ran] at finishes
          have first : (session.runProgram piece).1 ≠ .unfinished := by
            rw [ran]
            rintro rfl
            exact finishes rfl
          rw [runProgram_withBudget (le begins) first, ran]
          cases status with
          | ok => exact ih (next begins) finishes
          | staticError | runtimeError | unfinished => rfl

/-- Pieces that each get the budget of the whole do at least as well as on a shared one. -/
theorem outcome_separate {session : Session} {pieces : List Program}
    (finishes : (session.runPieces shared pieces).1 ≠ .unfinished)
    : outcome (session.runPieces separate pieces) = outcome (session.runPieces shared pieces) :=
  outcome_runPieces_withBudget (fun small large _ => small ≤ large) id
    (fun le => Nat.le_trans (Nat.sub_le ..) le) Nat.le.refl finishes

/-- Pieces that share a budget do as well as on separate ones if it is larger by the number of all
statements.
-/
theorem outcome_shared {session : Session} {pieces : List Program} {budget : Nat}
    (enough : session.config.budget + pieces.flatten.length ≤ budget)
    (finishes : (session.runPieces separate pieces).1 ≠ .unfinished)
    : outcome ((session.withBudget budget).runPieces shared pieces)
      = outcome (session.runPieces separate pieces) := by
  refine outcome_runPieces_withBudget
    (fun small large pieces => small + pieces.flatten.length ≤ large)
    (fun le => Nat.le_trans (Nat.le_add_right ..) le) ?_ enough finishes
  intro small large piece rest le
  rw [List.flatten_cons, List.length_append] at le
  unfold shared separate
  omega

-----------------------------------------------------------------------------------------
-- The whole and its pieces
-----------------------------------------------------------------------------------------

/-- A program that is run in pieces, after any requests, has the outcome that it has as a whole:
the same status, output, diagnostics and tables, up to the first fault. Every piece is accepted by
itself. On a shared budget the outcomes are the same for every budget; when each piece gets a
budget of its own, the same outcomes are had for some budget.
-/
theorem outcome_pieces {config : Config} {sink : Sink} {clock : Nat → Float}
    {requests : List Request} {source : String} {program : Program} {numbered : Session}
    {distances : Distances} {pieces : List Program} (lenient : config.reportUnused = false)
    (parsed
      : ((start config sink clock).takeAll requests).parseProgram (.ofText source)
        = (.ok program, numbered))
    (accepted : program.resolve false = .ok distances) (cut : pieces.flatten = program)
    : (∀ piece ∈ pieces, ∃ own, Program.resolve piece false = .ok own)
      ∧ (∀ budget,
          0 < budget
          → outcome ((numbered.withBudget budget).runPieces shared pieces)
            = outcome ((numbered.withBudget budget).runProgram program))
      ∧ ∀ status machine,
          status ≠ .unfinished
          → ((∃ budget,
                outcome ((numbered.withBudget budget).runPieces separate pieces)
                = (status, machine))
            ↔ ∃ budget,
                outcome ((numbered.withBudget budget).runProgram program)
                = (status, machine)) := by
  subst cut
  obtain ⟨world, stable⟩ := stable_takeAll config sink clock requests
  have off : ((start config sink clock).takeAll requests).config.reportUnused = false := by
    rw [config_takeAll]
    exact lenient
  have stage := stable.stage parsed (off.symm ▸ accepted) off
  have whole (budget : Nat)
      : outcome ((numbered.withBudget budget).runProgram pieces.flatten)
        = (Moment.ending ⟨numbered.distances.merge distances, budget, .executeAll pieces.flatten,
            numbered.machine⟩).outcome :=
    outcome_runProgram ((stage budget).lenient.symm ▸ accepted)
  have same (budget : Nat) (positive : 0 < budget)
      : outcome ((numbered.withBudget budget).runPieces shared pieces)
        = outcome ((numbered.withBudget budget).runProgram pieces.flatten) :=
    ((stage budget).outcome_shared positive).trans (whole budget).symm
  refine ⟨resolve_pieces accepted, same, fun status machine ends => ⟨?_, ?_⟩⟩
  · rintro ⟨budget, ran⟩
    have finishes : ((numbered.withBudget budget).runPieces separate pieces).1 ≠ .unfinished :=
      fun stopped => ends ((congrArg Prod.fst ran).symm.trans stopped)
    refine ⟨budget + pieces.flatten.length + 1, (same _ (Nat.succ_pos _)).symm.trans ?_⟩
    exact (outcome_shared (Nat.le_succ _) finishes).trans ran
  · rintro ⟨budget, ran⟩
    cases budget with
    | zero =>
        cases (whole 0).symm.trans ran
        exact absurd rfl ends
    | succ budget =>
        have shared := (same _ (Nat.succ_pos budget)).trans ran
        have finishes
            : ((numbered.withBudget (budget + 1)).runPieces Session.shared pieces).1
              ≠ .unfinished :=
          fun stopped => ends ((congrArg Prod.fst shared).symm.trans stopped)
        exact ⟨budget + 1, (outcome_separate finishes).trans shared⟩

/-- A variable may be declared in one piece and used in the next. -/
theorem outcome_declared_then_used
    : ∃ numbered declaration use,
        ((start ⟨false, 255, 10⟩ .unlimited fun _ => 0).takeAll []).parseProgram
            (.ofText "var a;a;")
          = (.ok [declaration, use], numbered)
        ∧ ∀ budget,
            0 < budget
            → outcome ((numbered.withBudget budget).runPieces shared [[declaration], [use]])
              = outcome ((numbered.withBudget budget).runProgram [declaration, use]) := by
  have scan
      : Scan.ofText "var a;a;"
        = ⟨[.token ⟨.keyword .var, "var", 1⟩, .token ⟨.identifier, "a", 1⟩,
            .token ⟨.mark .semicolon, ";", 1⟩, .token ⟨.identifier, "a", 1⟩,
            .token ⟨.mark .semicolon, ";", 1⟩],
          Token.endOfInput 1⟩ := by
    rw [Scan.ofText_eq]
    rfl
  let declaration : Stmt := .var ⟨.identifier, "a", 1⟩ none
  let use : Stmt := .expression (.variable ⟨0, .identifier, "a", 1⟩)
  let numbered : Session := ⟨⟨false, 255, 10⟩, .start 255 .unlimited fun _ => 0, .empty, 1⟩
  have parsed
      : ((start ⟨false, 255, 10⟩ .unlimited fun _ => 0).takeAll []).parseProgram
          (.ofText "var a;a;")
        = (.ok [declaration, use], numbered) := by
    rw [scan]
    rfl
  have accepted
      : Program.resolve [declaration, use] false = .ok (Distances.empty.record 0 0) := rfl
  exact ⟨numbered, declaration, use, parsed,
    (outcome_pieces rfl parsed accepted rfl).2.1⟩

end Session

end Lox
