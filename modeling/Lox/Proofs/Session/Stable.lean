import Mathlib.Data.List.Induction
import Lox.Proofs.Evaluation.Soundness
import Lox.Proofs.Scoping.Walk
import Lox.Proofs.Session.Requests

/-! What holds of a session between its requests: everything in its tables fits, and all that it
has resolved is found at the distances that it knows. So the contract between scopes and
environments is met in every moment of every evaluation, however the ones before it ended.
-/

namespace Lox

/-- The places of what is evaluated as a whole. -/
def Task.places : Task → List Place
  | .executeAll program => Program.places program
  | .evaluate expr => expr.places
  | _ => []

-----------------------------------------------------------------------------------------
-- More history
-----------------------------------------------------------------------------------------

namespace History

variable {history later : History} {address : Nat} {name : String}

theorem Made.mono {opening : Opening} (h : history.Made address opening)
    (more : ∀ moment, history moment → later moment)
    : later.Made address opening := by
  rcases h with first | ⟨moment, layer, outer, bindings, machine, came, rest⟩
  · exact .inl first
  · exact .inr ⟨moment, layer, outer, bindings, machine, more moment came, rest⟩

theorem Declared.mono {definition : ClassDecl} {made : Class} {closing : Environment}
    (h : history.Declared definition made closing)
    (more : ∀ moment, history moment → later moment)
    : later.Declared definition made closing :=
  h.imp fun moment => And.imp_left (more moment)

theorem Abandoned.mono (h : history.Abandoned address name)
    (more : ∀ moment, history moment → later moment)
    : later.Abandoned address name := by
  obtain ⟨moment, next, interruption, machine, came, rest⟩ := h
  exact ⟨moment, next, interruption, machine, more moment came, rest⟩

end History

theorem World.Describes.mono {world : World} {history later : History} {machine : Machine}
    (h : world.Describes history machine) (more : ∀ moment, history moment → later moment)
    : world.Describes later machine :=
  ⟨h.fits, h.store, fun address opening there => (h.made address opening there).mono more,
    fun definition made closing declared => (h.declared definition made closing declared).mono more⟩

/-- The world when further places are known. -/
def World.learning (world : World) (places : List Place) : World :=
  { world with known := fun place => world.known place ∨ place ∈ places }

theorem World.le_learning (world : World) (places : List Place)
    : world ≤ world.learning places :=
  ⟨fun _ _ => id, fun _ _ => id, fun _ _ _ _ => id, fun _ _ => .inr, fun _ => .inl,
    fun _ _ _ => id⟩

theorem World.Fits.learning {world : World} {instances : Array Instance}
    (h : world.Fits instances) (places : List Place)
    : (world.learning places).Fits instances :=
  h.grown (world.le_learning places) rfl rfl

theorem World.Describes.learning {world : World} {history : History} {machine : Machine}
    (h : world.Describes history machine) (places : List Place)
    : (world.learning places).Describes history machine :=
  ⟨h.fits.learning places, h.store, h.made, h.declared⟩

/-- The world in which nothing has run. -/
def World.start : World :=
  ⟨[⟨.program, []⟩], Store.empty.add Machine.initialBindings, fun _ _ => False, fun _ => False,
    fun _ _ _ => False⟩

/-- At the start there are native functions only. -/
theorem World.fits_start : World.start.Fits #[] := by
  have tables (address : Nat)
      : World.start.store.table address
        = if address = 0 then Machine.initialBindings else Store.empty.table address :=
    Store.table_add ..
  have none (address : Nat) (name : String)
      : ((Store.empty : Store Value).table address).get? name = none := rfl
  refine ⟨rfl, ?_, ?_, nofun, ?_, rfl, ?_⟩
  · intro address name slot found
    rw [tables] at found
    split at found
    · obtain ⟨callee, _, same⟩ := List.mem_map.1 (Table.mem_of_get?_ofList found)
      cases same
      exact ⟨.native callee, rfl, trivial⟩
    · rw [none] at found
      cases found
  · intro address name bound
    rw [Bound, tables] at bound
    split at bound
    · next first =>
        subst first
        have member := (Table.has_ofList _ name).1 bound
        have free : ∀ name ∈ ["clock", "str"], ¬ Reserved name := by decide
        exact ⟨⟨.program, []⟩, rfl, free name member⟩
    · rw [Table.has, none] at bound
      cases bound
  · intro address opening there definition isStatic same
    obtain ⟨inside, rfl⟩ := List.getElem?_eq_some_iff.1 there
    have first : address = 0 := Nat.lt_one_iff.1 inside
    subst first
    cases same
  · intro address opening there _
    exact Nat.lt_one_iff.1 (List.getElem?_eq_some_iff.1 there).1

namespace Session

-----------------------------------------------------------------------------------------
-- What a request has read
-----------------------------------------------------------------------------------------

/-- An evaluation has been opened for what was read and accepted. -/
structure Opens (session opened : Session) (task : Task) : Prop where
  config : opened.config = session.config
  machine : opened.machine = session.machine
  distances : opened.distances = session.distances.merge (Distances.empty.noteAll task.places)
  numbers : session.nextId ≤ opened.nextId
  lawful : ∀ place ∈ task.places, place.errors = []
  proper : ∀ place ∈ task.places, place.act.Proper
  layered : ∀ place ∈ task.places, Layered.Around place.around
  apart : (task.places.filterMap Place.id?).Nodup
  within : ∀ id ∈ task.places.filterMap Place.id?, session.nextId ≤ id ∧ id < opened.nextId
  whole : (∃ program, task = .executeAll program) ∨ ∃ expr, task = .evaluate expr

variable {session opened : Session} {request : Request} {task : Task}

/-- A program that has been read and accepted can be run. -/
theorem opens_program {source : String} {program : Program} {numbered : Session}
    {distances : Distances}
    (parsed : session.parseProgram (.ofText source) = (.ok program, numbered))
    (resolved : program.resolve session.config.reportUnused = .ok distances)
    : session.Opens (numbered.learn distances) (.executeAll program) := by
  have read := Program.parse_numbered source session.nextId
  unfold parseProgram at parsed
  obtain ⟨result, rfl⟩ := Prod.mk.inj parsed
  have listing := read.2 program _ (Prod.ext result rfl)
  obtain ⟨lawful, rfl⟩ := Program.resolve_eq_ok.1 (Program.resolve_of_reportUnused resolved)
  have proper := listing.proper .top
  exact ⟨rfl, rfl, rfl, read.1, lawful, proper, Layered.of_program proper, listing.apart .top,
    listing.within .top, .inl ⟨program, rfl⟩⟩

/-- What begins has been read, numbered and accepted. -/
theorem Begins.opens (h : session.Begins request opened task) : session.Opens opened task := by
  induction h with
  | run scanned parsed resolved => exact opens_program parsed resolved
  | @evaluate session source expr numbered distances scanned parsed resolved =>
      have read := Expr.parse?_numbered source session.nextId
      unfold parseExpression at parsed
      obtain ⟨result, rfl⟩ := Prod.mk.inj parsed
      have listing := read.2 expr _ (Prod.ext result rfl)
      obtain ⟨lawful, rfl⟩ := Expr.resolve_eq_ok.1 resolved
      have proper := listing.proper .top
      exact ⟨rfl, rfl, rfl, read.1, lawful, proper, Layered.of_expr proper, listing.apart .top,
        listing.within .top, .inr ⟨expr, rfl⟩⟩
  | echo begins ih => exact ih
  | @line session source numbered opened task scanned parsed begins ih =>
      have read := Expr.parse?_numbered source session.nextId
      unfold parseExpression at parsed
      obtain ⟨result, rfl⟩ := Prod.mk.inj parsed
      exact { ih with
        numbers := Nat.le_trans read.1 ih.numbers
        within := fun id member =>
          ⟨Nat.le_trans read.1 (ih.within id member).1, (ih.within id member).2⟩ }

/-- Requests do not change the settings of a session, by induction over them. -/
theorem config_takeAll (session : Session) (requests : List Request)
    : (session.takeAll requests).config = session.config := by
  induction requests generalizing session with
  | nil => rfl
  | cons request rest ih =>
      refine (ih (session.take request)).trans ?_
      rcases answers_take session request with
        ⟨opened, task, begins, continues, _⟩ | continues
      · exact continues.config.trans begins.opens.config
      · exact continues.config

-----------------------------------------------------------------------------------------
-- Between requests
-----------------------------------------------------------------------------------------

/-- What holds of a session between requests. -/
structure Stable (past : History) (listing : Place → Prop) (session : Session) (world : World) :
    Prop where
  describes : world.Describes past session.machine
  environment : session.machine.environment = .globals
  listed : ∀ place, world.known place → listing place
  settled : ∀ place, world.known place → place.Settled session.distances
  numbered : ∀ place, world.known place → ∀ id, place.id? = some id → id < session.nextId
  fresh : ∀ id, session.nextId ≤ id → session.distances.find? id = none
  pending : ∀ address name, world.pending address name → past.Abandoned address name

variable {past : History} {listing : Place → Prop} {world : World}

/-- A session in which nothing has run. -/
theorem stable_start (config : Config) (sink : Sink) (clock : Nat → Float)
    : Stable (fun _ => False) (fun _ => False) (start config sink clock) .start where
  describes :=
    ⟨World.fits_start, rfl, by
      intro address opening there
      obtain ⟨inside, rfl⟩ := List.getElem?_eq_some_iff.1 there
      have first : address = 0 := Nat.lt_one_iff.1 inside
      subst first
      exact .inl ⟨rfl, rfl⟩,
      fun _ _ _ => False.elim⟩
  environment := rfl
  listed _ := id
  settled _ := False.elim
  numbered _ := False.elim
  fresh _ _ := rfl
  pending _ _ := False.elim

/-- A request that evaluates nothing leaves all as it was. -/
theorem Stable.idle (h : Stable past listing session world) {after : Session}
    (continues : session.Continues session.machine after)
    : Stable past listing after world where
  describes := h.describes.alike continues.alike
  environment := continues.alike.environment.trans h.environment
  listed := h.listed
  settled place known := continues.distances ▸ h.settled place known
  numbered place known id given :=
    Nat.lt_of_lt_of_le (h.numbered place known id given) continues.numbers
  fresh id unused := continues.distances ▸ h.fresh id (Nat.le_trans continues.numbers unused)
  pending := h.pending

/-- All places are settled when what has been read is learned. -/
theorem Stable.settled_learning (h : Stable past listing session world)
    (opens : session.Opens opened task)
    : ∀ place, (world.learning task.places).known place → place.Settled opened.distances := by
  rintro place (known | member)
  · obtain ⟨proper, lawful, layered, found⟩ := h.settled place known
    refine ⟨proper, lawful, layered, fun id given => ?_⟩
    have used := h.numbered place known id given
    have absent : id ∉ task.places.filterMap Place.id? := fun member => by
      have unused := (opens.within id member).1
      omega
    rw [opens.distances, Distances.find?_merge, Distances.find?_noteAll_of_notMem _ absent]
    simpa using found id given
  · refine ⟨opens.proper place member, opens.lawful place member, opens.layered place member, ?_⟩
    intro id given
    have unused := (opens.within id (List.mem_filterMap.2 ⟨place, member, given⟩)).1
    rw [opens.distances, Distances.find?_merge, h.fresh id unused, Option.or_none]
    exact Distances.find?_noteAll opens.apart member given rfl

/-- The contract is met where an evaluation begins. -/
theorem Stable.required (h : Stable past listing session world) {course : Course}
    (opens : session.Opens opened task) (same : course.past = past)
    (more : ∀ moment, past moment → course.history moment)
    (came : course.history (opened.moment task))
    (all : ∀ place, (world.learning task.places).known place → course.listed place)
    : (opened.moment task).Required course ⟨world.learning task.places, .top⟩ := by
  have describes : (world.learning task.places).Describes course.history opened.machine := by
    rw [opens.machine]
    exact (h.describes.mono more).learning task.places
  refine ⟨came, describes, all, h.settled_learning opens,
    fun address name pending => .inl (same ▸ h.pending address name pending), ?_⟩
  have stands : (world.learning task.places).Stands opened.machine.environment.chain
      Surroundings.top.frames := by
    rw [opens.machine, h.environment]
    exact ⟨h.describes.fits.globals, List.forall_mem_nil _, trivial⟩
  obtain ⟨program, rfl⟩ | ⟨expr, rfl⟩ := opens.whole
  · refine ⟨stands, fun place member => .inr member, fun entry member => ⟨_, rfl, ?_⟩⟩
    exact Stmt.free_flatMap_declares program opens.proper entry member
  · exact ⟨stands, fun place member => .inr member⟩

/-- However an evaluation ends, the session is stable after it. -/
theorem Stable.ended (h : Stable past listing session world) {course : Course}
    (opens : session.Opens opened task) (closed : course.history.Closed)
    (required : (opened.moment task).Required course ⟨world.learning task.places, .top⟩)
    (more : ∀ moment, past moment → course.history moment)
    {after : Session}
    (continues : opened.Continues (opened.moment task).ending.machine after)
    : ∃ later, Stable course.history course.listed after later := by
  obtain ⟨later, left⟩ := required.exists_left closed
  refine ⟨later, left.describes.alike continues.alike,
    (continues.alike.environment.trans left.environment).trans ?_, ?_, ?_, ?_, ?_, ?_⟩
  · exact (congrArg Machine.environment opens.machine).trans h.environment
  · intro place known
    exact required.listed place (left.known ▸ known)
  · intro place known
    rw [continues.distances]
    exact required.settled place (left.known ▸ known)
  · intro place known id given
    refine Nat.lt_of_lt_of_le ?_ continues.numbers
    rw [left.known] at known
    rcases known with known | member
    · exact Nat.lt_of_lt_of_le (h.numbered place known id given) opens.numbers
    · exact (opens.within id (List.mem_filterMap.2 ⟨place, member, given⟩)).2
  · intro id unused
    have unused := Nat.le_trans continues.numbers unused
    have absent : id ∉ task.places.filterMap Place.id? := fun member => by
      have used := (opens.within id member).2
      omega
    rw [continues.distances, opens.distances, Distances.find?_merge,
      Distances.find?_noteAll_of_notMem _ absent]
    simpa using h.fresh id (Nat.le_trans opens.numbers unused)
  · intro address name pending
    rcases left.pending address name pending with pending | gone
    · exact (h.pending address name pending).mono more
    · exact gone

-----------------------------------------------------------------------------------------
-- After any requests
-----------------------------------------------------------------------------------------

/-- The moments of the evaluations that some requests begin. -/
def history (session : Session) (requests : List Request) : History := fun moment =>
  ∃ opened task,
    session.Evaluates requests opened task ∧ (opened.moment task).Reaches moment

/-- The places of what some requests evaluate. -/
def listed (session : Session) (requests : List Request) (place : Place) : Prop :=
  ∃ opened task, session.Evaluates requests opened task ∧ place ∈ task.places

/-- The course of an evaluation that begins with a request, after some others. -/
def course (session : Session) (requests : List Request) (request : Request) : Course where
  past := session.history requests
  history := session.history (requests ++ [request])
  listed := session.listed (requests ++ [request])

theorem closed_history (session : Session) (requests : List Request)
    : (session.history requests).Closed := by
  rintro moment next ⟨opened, task, evaluates, reaches⟩ leads
  exact ⟨opened, task, evaluates, reaches.tail leads⟩

theorem closed_course (session : Session) (requests : List Request) (request : Request)
    : (session.course requests request).history.Closed :=
  session.closed_history (requests ++ [request])

theorem Evaluates.append {session opened : Session} {requests : List Request} {task : Task}
    (h : session.Evaluates requests opened task) (request : Request)
    : session.Evaluates (requests ++ [request]) opened task :=
  evaluates_append_singleton.2 (.inl h)

/-- A further request adds to the history. -/
theorem history_append {session : Session} {requests : List Request} {moment : Moment}
    (h : session.history requests moment) (request : Request)
    : session.history (requests ++ [request]) moment := by
  obtain ⟨opened, task, evaluates, reaches⟩ := h
  exact ⟨opened, task, evaluates.append request, reaches⟩

theorem listed_append {session : Session} {requests : List Request} {place : Place}
    (h : session.listed requests place) (request : Request)
    : session.listed (requests ++ [request]) place := by
  obtain ⟨opened, task, evaluates, member⟩ := h
  exact ⟨opened, task, evaluates.append request, member⟩

theorem Stable.mono (h : Stable past listing session world) {more : History}
    {longer : Place → Prop} (history : ∀ moment, past moment → more moment)
    (places : ∀ place, listing place → longer place)
    : Stable more longer session world where
  describes := h.describes.mono history
  environment := h.environment
  listed place known := places place (h.listed place known)
  settled := h.settled
  numbered := h.numbered
  fresh := h.fresh
  pending address name pending := (h.pending address name pending).mono history

/-- Where an evaluation begins, the contract is met. -/
theorem Stable.begins {first : Session} {requests : List Request}
    (h : Stable (first.history requests) (first.listed requests) (first.takeAll requests) world)
    (begins : (first.takeAll requests).Begins request opened task)
    : (opened.moment task).Required (first.course requests request)
        ⟨world.learning task.places, .top⟩ := by
  have evaluates := evaluates_append_singleton.2 (.inr begins)
  refine h.required begins.opens rfl (fun moment came => history_append came request)
    ⟨opened, task, evaluates, .refl⟩ ?_
  rintro place (known | member)
  · exact listed_append (h.listed place known) request
  · exact ⟨opened, task, evaluates, member⟩

/-- A session is stable after any requests, by induction over them. -/
theorem stable_takeAll (config : Config) (sink : Sink) (clock : Nat → Float)
    (requests : List Request)
    : ∃ world,
        Stable ((start config sink clock).history requests)
          ((start config sink clock).listed requests)
          ((start config sink clock).takeAll requests) world := by
  induction requests using List.reverseRecOn with
  | nil =>
      exact ⟨.start,
        (stable_start config sink clock).mono (fun _ => False.elim) fun _ => False.elim⟩
  | append_singleton requests request ih =>
      obtain ⟨world, stable⟩ := ih
      rw [takeAll_append_singleton]
      rcases answers_take ((start config sink clock).takeAll requests) request with
        ⟨opened, task, begins, continues, _⟩ | continues
      · exact stable.ended begins.opens
          ((start config sink clock).closed_course requests request) (stable.begins begins)
          (fun moment came => history_append came request) continues
      · exact ⟨world, (stable.mono (fun moment came => history_append came request)
          fun place there => listed_append there request).idle continues⟩

/-- The contract is met in every moment of every evaluation. -/
theorem required_of_reaches {config : Config} {sink : Sink} {clock : Nat → Float}
    {requests : List Request} {moment : Moment}
    (begins : ((start config sink clock).takeAll requests).Begins request opened task)
    (reaches : (opened.moment task).Reaches moment)
    : ∃ ghost, moment.Required ((start config sink clock).course requests request) ghost := by
  obtain ⟨world, stable⟩ := stable_takeAll config sink clock requests
  have closed := (start config sink clock).closed_course requests request
  exact (scopeContract_sound closed).reaches (stable.begins begins) reaches

end Session
end Lox
