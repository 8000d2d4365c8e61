import Lox.Proofs.Evaluation.Incidents
import Lox.Proofs.Evaluation.Rendering
import Lox.Proofs.Session.Construction
import Lox.Proofs.Session.Identities

/-! The texts of values in a session. Its instances have been made and assigned to by the evaluations
so far and by nothing else, so their texts are finite and canonical at any time: an instance lists
what was last assigned to its fields.
-/

namespace Lox

namespace Session

-----------------------------------------------------------------------------------------
-- What has happened to the instances of a session
-----------------------------------------------------------------------------------------

/-- What some requests have done to the instances of a session: the changes in the evaluations that
they have begun, in order.
-/
inductive Changes (session : Session) : List Request → List InstanceChange → Prop
  | nothing : Changes session [] []
  | idle {requests history request} (before : Changes session requests history)
    (idle : ∀ opened task, ¬ (session.takeAll requests).Begins request opened task)
    : Changes session (requests ++ [request]) history
  | evaluation {requests history request opened task} (before : Changes session requests history)
    (begins : (session.takeAll requests).Begins request opened task)
    : Changes session (requests ++ [request]) (history ++ (opened.moment task).changes)

/-- A session comes to a machine, when its instances have gone through a history: between requests,
where a task is about to be performed, and where one has ended.
-/
inductive Comes (session : Session) : List InstanceChange → Machine → Prop
  | rest {requests history} (changes : session.Changes requests history)
    : Comes session history (session.takeAll requests).machine
  | moment {requests history request opened task before moment after}
    (changes : session.Changes requests history)
    (begins : (session.takeAll requests).Begins request opened task)
    (run : (opened.moment task).incidents = before ++ .moment moment :: after)
    : Comes session (history ++ Incident.changes before) moment.machine
  | ending {requests history request opened task before moment after}
    (changes : session.Changes requests history)
    (begins : (session.takeAll requests).Begins request opened task)
    (run : (opened.moment task).incidents = before ++ .moment moment :: after)
    : Comes session (history ++ Incident.changes before ++ moment.changes) moment.ending.machine

variable {config : Config} {sink : Sink} {clock : Nat → Float} {requests : List Request}
  {request : Request} {session opened : Session} {task : Task} {machine : Machine}
  {history : List InstanceChange}

/-- All that requests do to instances are the changes in their evaluations. By induction over the
requests.
-/
theorem Changes.built (h : (start config sink clock).Changes requests history)
    : ((start config sink clock).takeAll requests).machine.instances
      = InstanceChange.build history := by
  induction h with
  | nothing => rfl
  | @idle requests history request _ idle ih =>
      rw [takeAll_append_singleton]
      rcases answers_take ((start config sink clock).takeAll requests) request with
        ⟨opened, task, begins, _⟩ | continues
      · exact absurd begins (idle opened task)
      · exact continues.alike.instances.trans ih
  | @evaluation requests history request opened task _ begins ih =>
      have same : (opened.moment task).machine.instances = InstanceChange.build history :=
        (congrArg Machine.instances begins.opens.machine).trans ih
      have accounted := (opened.moment task).accounted.last_eq
      rw [takeAll_append_singleton, begins.continues.alike.instances, accounted, same,
        InstanceChange.build_append]
      rfl

/-- The changes of any requests. By induction over them. -/
theorem exists_changes (session : Session) (requests : List Request)
    : ∃ history, session.Changes requests history := by
  induction requests using List.reverseRecOn with
  | nil => exact ⟨[], .nothing⟩
  | append_singleton requests request ih =>
      obtain ⟨history, changes⟩ := ih
      by_cases begun : ∃ opened task, (session.takeAll requests).Begins request opened task
      · obtain ⟨opened, task, begins⟩ := begun
        exact ⟨_, .evaluation changes begins⟩
      · refine ⟨history, .idle changes ?_⟩
        intro opened task begins
        exact begun ⟨opened, task, begins⟩

/-- A moment finds the instances of the session as the changes before it have left them. -/
theorem Changes.found {before after : List Incident} {moment : Moment}
    (h : (start config sink clock).Changes requests history)
    (begins : ((start config sink clock).takeAll requests).Begins request opened task)
    (run : (opened.moment task).incidents = before ++ .moment moment :: after)
    : moment.machine.instances = InstanceChange.build (history ++ Incident.changes before) := by
  have same : (opened.moment task).machine.instances = InstanceChange.build history :=
    (congrArg Machine.instances begins.opens.machine).trans h.built
  have accounted := (opened.moment task).accounted
  unfold Moment.Accounted at accounted
  rw [run] at accounted
  rw [accounted.found, same, InstanceChange.build_append]

namespace Comes

/-- Nothing else happens to instances. -/
theorem built (h : (start config sink clock).Comes history machine)
    : machine.instances = InstanceChange.build history := by
  cases h with
  | rest changes => exact changes.built
  | moment changes begins run => exact changes.found begins run
  | @ending _ _ _ _ _ _ moment _ changes begins run =>
      rw [moment.accounted.last_eq, changes.found begins run, ← InstanceChange.build_append]
      rfl

/-- The instances in fields are there. -/
theorem lives (h : (start config sink clock).Comes history machine) {address other : Nat}
    {object : Instance} {name : String} (there : machine.instances[address]? = some object)
    (had : object.fields.get? name = some (.instance other))
    : other < machine.instances.size := by
  have rooted : ∃ history, machine.Rooted history := by
    cases h with
    | rest changes => exact ⟨_, rooted_takeAll config sink clock _⟩
    | moment changes begins run =>
        have reaches := Moment.mem_incidents.1 (run ▸ List.mem_append_right _ List.mem_cons_self)
        obtain ⟨_, _, rooted, _⟩ := rooted_of_reaches begins reaches
        exact ⟨_, rooted⟩
    | ending changes begins run =>
        have reaches := Moment.mem_incidents.1 (run ▸ List.mem_append_right _ List.mem_cons_self)
        obtain ⟨_, required⟩ := rooted_of_reaches begins reaches
        exact ⟨_, (Moment.since_ending (closed_course _ _ _) required).rooted⟩
  obtain ⟨_, rooted⟩ := rooted
  obtain ⟨_, inner, same, found⟩ := (rooted.objects address object there).2 name _ had
  cases same
  exact (Array.getElem?_eq_some_iff.1 found).1

end Comes

end Session

-----------------------------------------------------------------------------------------
-- The texts of instances
-----------------------------------------------------------------------------------------

namespace Machine

/-- The instances of a machine have undergone a history, in some session. -/
def Underwent (machine : Machine) (history : List InstanceChange) : Prop :=
  ∃ config sink clock, (Session.start config sink clock).Comes history machine

namespace Underwent

variable {machine later : Machine} {history more : List InstanceChange} {address : Nat}
  {object : Instance}

theorem built (h : machine.Underwent history)
    : machine.instances = InstanceChange.build history := by
  obtain ⟨config, sink, clock, comes⟩ := h
  exact comes.built

/-- What is in a field of an instance is what was last assigned to it. -/
theorem get?_iff_last (h : machine.Underwent history)
    (there : machine.instances[address]? = some object) {name : String} {value : Value}
    : object.fields.get? name = some value
      ↔ InstanceChange.Last history address name value := by
  rw [← InstanceChange.fieldAt_build, ← h.built, fieldAt, there, Option.bind_some]

/-- The text of an instance stays until it is assigned to, whatever happens to others. -/
theorem text_eq (h : machine.Underwent history) (next : later.Underwent (history ++ more))
    (there : machine.instances[address]? = some object)
    (apart : ∀ name value, InstanceChange.assign ⟨address, name, value⟩ ∉ more)
    : (Value.instance address).text later.instances
      = (Value.instance address).text machine.instances := by
  have grown : later.instances = InstanceChange.applyAll more machine.instances := by
    rw [next.built, InstanceChange.build_append, h.built]
  have inside := (Array.getElem?_eq_some_iff.1 there).1
  rw [grown]
  have kept := InstanceChange.getElem?_applyAll inside apart
  refine Value.text_congr there (kept.trans there) rfl (fun _ => rfl) ?_
  intro name other had
  obtain ⟨config, sink, clock, comes⟩ := h
  exact InstanceChange.className_applyAll more (comes.lives there had)

/-- Instances to which the same was last assigned have the same text, if their classes have the same
name and those of the instances assigned to them too.
-/
theorem text_congr {other : Nat} {twin : Instance} {others : List InstanceChange}
    (h : machine.Underwent history) (next : later.Underwent others)
    (there : machine.instances[address]? = some object)
    (thereToo : later.instances[other]? = some twin)
    (sameName : twin.definition.name = object.definition.name)
    (sameFields
      : ∀ name value,
          InstanceChange.Last others other name value
          ↔ InstanceChange.Last history address name value)
    (sameInside
      : ∀ name inside,
          InstanceChange.Last history address name (.instance inside)
          → Value.className later.instances inside = Value.className machine.instances inside)
    : (Value.instance other).text later.instances
      = (Value.instance address).text machine.instances := by
  refine Value.text_congr there thereToo sameName ?_ ?_
  · intro name
    apply Option.ext
    intro value
    rw [next.get?_iff_last thereToo, sameFields, h.get?_iff_last there]
  · intro name inside had
    exact sameInside name inside ((h.get?_iff_last there).1 had)

end Underwent

end Machine

namespace Session

/-- The machine of a session is known by what its requests have done to instances, and those of an
evaluation by what has been done to them in it.
-/
theorem exists_underwent (config : Config) (sink : Sink) (clock : Nat → Float)
    (requests : List Request)
    : ∃ history,
        ((start config sink clock).takeAll requests).machine.Underwent history
        ∧ ∀ request opened task moment,
            ((start config sink clock).takeAll requests).Begins request opened task
            → (opened.moment task).Reaches moment
            → ∃ before,
                moment.machine.Underwent (history ++ before)
                ∧ moment.ending.machine.Underwent (history ++ before ++ moment.changes) := by
  obtain ⟨history, changes⟩ := (start config sink clock).exists_changes requests
  refine ⟨history, ⟨config, sink, clock, .rest changes⟩, ?_⟩
  intro request opened task moment begins reaches
  obtain ⟨before, after, run⟩ := List.append_of_mem (Moment.mem_incidents.2 reaches)
  exact ⟨Incident.changes before, ⟨config, sink, clock, .moment changes begins run⟩,
    ⟨config, sink, clock, .ending changes begins run⟩⟩

/-- An evaluation leaves its changes after those of the requests before it. -/
theorem Changes.underwent {config : Config} {sink : Sink} {clock : Nat → Float}
    {requests : List Request} {request : Request} {opened : Session} {task : Task}
    {history : List InstanceChange} (h : (start config sink clock).Changes requests history)
    (begins : ((start config sink clock).takeAll requests).Begins request opened task)
    : (opened.moment task).ending.machine.Underwent (history ++ (opened.moment task).changes) := by
  obtain ⟨rest, run⟩ := (opened.moment task).exists_incidents_eq_cons
  have comes
      : (start config sink clock).Comes
          (history ++ Incident.changes [] ++ (opened.moment task).changes)
          (opened.moment task).ending.machine :=
    .ending h begins run
  rw [Incident.changes, List.append_nil] at comes
  exact ⟨config, sink, clock, comes⟩

/-- At any time of a session, also in the course of an evaluation, every text of a value is finite
and canonical: an instance lists its fields by the bytes of their names, each with what the
evaluations have last assigned to it. Its text stays until it is assigned to itself, and it is that
of any instance with the same fields, of a class with the same name.
-/
theorem texts_canonical
    : (∀ (machine : Machine) (history : List InstanceChange),
        machine.Underwent history → machine.Canonical history)
      ∧ (∀ (machine later : Machine) (history more : List InstanceChange) (address : Nat)
            (object : Instance),
          machine.Underwent history
          → later.Underwent (history ++ more)
          → machine.instances[address]? = some object
          → (∀ name value, InstanceChange.assign ⟨address, name, value⟩ ∉ more)
          → (Value.instance address).text later.instances
            = (Value.instance address).text machine.instances)
      ∧ (∀ (machine later : Machine) (history others : List InstanceChange) (address other : Nat)
            (object twin : Instance),
          machine.Underwent history
          → later.Underwent others
          → machine.instances[address]? = some object
          → later.instances[other]? = some twin
          → twin.definition.name = object.definition.name
          → (∀ name value,
              InstanceChange.Last others other name value
              ↔ InstanceChange.Last history address name value)
          → (∀ name inside,
              InstanceChange.Last history address name (.instance inside)
              → Value.className later.instances inside
                = Value.className machine.instances inside)
          → (Value.instance other).text later.instances
            = (Value.instance address).text machine.instances)
      ∧ ∀ config sink clock requests,
          ∃ history,
            ((start config sink clock).takeAll requests).machine.Underwent history
            ∧ ∀ request opened task moment,
                ((start config sink clock).takeAll requests).Begins request opened task
                → (opened.moment task).Reaches moment
                → ∃ before,
                    moment.machine.Underwent (history ++ before)
                    ∧ moment.ending.machine.Underwent (history ++ before ++ moment.changes) := by
  refine ⟨?_, ?_, ?_, exists_underwent⟩
  · intro machine history underwent
    exact Machine.canonical underwent.built
  · intro machine later history more address object underwent next there apart
    exact underwent.text_eq next there apart
  · intro machine later history others address other object twin underwent next there thereToo
      sameName sameFields sameInside
    exact underwent.text_congr next there thereToo sameName sameFields sameInside

/-- An instance that was last assigned to a field of itself shows its class there. -/
theorem texts_canonical_of_cycle
    : ∃ opened task,
        ((start ⟨false, 255, 20⟩ .unlimited fun _ => 0).takeAll []).Begins
          (.run "class N{}var a=N();a.me=a;") opened task
        ∧ InstanceChange.Last (opened.moment task).changes 0 "me" (.instance 0)
        ∧ (Value.instance 0).text (opened.moment task).ending.machine.instances
          = "<N instance \x7bme=<N instance>\x7d>" := by
  let closing : Token := ⟨.mark .rightParen, ")", 1⟩
  let name : Token := ⟨.identifier, "a", 1⟩
  let me : Token := ⟨.identifier, "me", 1⟩
  have scan
      : Scan.ofText "class N{}var a=N();a.me=a;"
        = ⟨[.token ⟨.keyword .class, "class", 1⟩, .token ⟨.identifier, "N", 1⟩,
            .token ⟨.mark .leftBrace, "\x7b", 1⟩, .token ⟨.mark .rightBrace, "\x7d", 1⟩,
            .token ⟨.keyword .var, "var", 1⟩, .token name, .token ⟨.mark .equal, "=", 1⟩,
            .token ⟨.identifier, "N", 1⟩, .token ⟨.mark .leftParen, "(", 1⟩, .token closing,
            .token ⟨.mark .semicolon, ";", 1⟩, .token name, .token ⟨.mark .dot, ".", 1⟩,
            .token me, .token ⟨.mark .equal, "=", 1⟩, .token name,
            .token ⟨.mark .semicolon, ";", 1⟩],
          Token.endOfInput 1⟩ := by
    rw [Scan.ofText_eq]
    rfl
  let declaration : Stmt := .class ⟨⟨.identifier, "N", 1⟩, none, [], []⟩
  let made : Expr := .call (.variable ⟨0, .identifier, "N", 1⟩) closing []
  let again : Expr :=
    .set (.variable ⟨1, .identifier, "a", 1⟩) me (.variable ⟨2, .identifier, "a", 1⟩)
  let program : Program := [declaration, .var name (some made), .expression again]
  let numbered : Session := ⟨⟨false, 255, 20⟩, .start 255 .unlimited fun _ => 0, .empty, 3⟩
  let opened := numbered.learn (((Distances.empty.record 0 0).record 2 0).record 1 0)
  have read
      : Program.parse (Scan.ofText "class N{}var a=N();a.me=a;").tokens
            (Scan.ofText "class N{}var a=N();a.me=a;").stop 0
          = (.ok program, 3) := by
    rw [scan]
    cbv
  have clean : (Analysis.stmts program .start).errors.isEmpty = true := by
    decide +kernel +zetaReduce
  have recorded
      : ((Distances.empty.record 0 0).record 2 0).record 1 0
        = (Analysis.stmts program .start).distances := by
    decide +kernel +zetaReduce
  have accepted
      : program.resolve false = .ok (((Distances.empty.record 0 0).record 2 0).record 1 0) := by
    simp only [Program.resolve, Bool.false_eq_true, if_false]
    exact Analysis.result_eq_ok.2 ⟨List.isEmpty_iff.1 clean, recorded⟩
  have begins : Begins (start ⟨false, 255, 20⟩ .unlimited fun _ => 0)
      (.run "class N{}var a=N();a.me=a;") opened (.executeAll program) :=
    .run (by rw [scan]; rfl) (parseProgram_eq read) accepted
  let definition : Class :=
    ⟨0, "N", none, Step.methodTable .globals FunctionDecl.initializes [],
      Step.methodTable .globals (fun _ => false) []⟩
  let object : Instance := ⟨definition, Table.empty.set "me" (.instance 0)⟩
  -- the machines in order: before and after the declaration, with the variable, and at the end
  let first : Machine := .start 255 .unlimited fun _ => 0
  let machine : Machine :=
    { first with
      store := (first.store.define .globals "N" .nil).setSlot 0 "N" (some (.class definition))
      nextIdentity := 1 }
  let bound : Machine :=
    { machine with
      store := (machine.store.reserve .globals "a").define .globals "a" (.instance 0)
      instances := #[⟨definition, .empty⟩] }
  let last : Machine := { bound with instances := #[object] }
  have declared
      : Moment.ending ⟨opened.distances, 19, .execute declaration, first⟩
        = .ok .normal machine := rfl
  have stored
      : Moment.ending ⟨opened.distances, 18, .execute (.var name (some made)), machine⟩
        = .ok .normal bound := rfl
  have assigned
      : Moment.ending ⟨opened.distances, 17, .execute (.expression again), bound⟩
        = .ok .normal last := rfl
  have ended
      : Moment.ending ⟨opened.distances, 20, .executeAll program, first⟩ = .ok .normal last :=
    (Moment.ending_rest declared).trans
      ((Moment.ending_rest stored).trans ((Moment.ending_rest assigned).trans rfl))
  have underwent := (Changes.nothing : Changes _ [] []).underwent begins
  rw [List.nil_append] at underwent
  have left : (opened.moment (.executeAll program)).ending.machine.instances = #[object] :=
    congrArg (fun ending => ending.machine.instances) ended
  obtain ⟨_, _, _, last, _⟩ := (texts_canonical.1 _ _ underwent).listed 0 object (by rw [left]; rfl)
  refine ⟨opened, .executeAll program, begins, (last "me" (.instance 0)).1 rfl, ?_⟩
  rw [left]
  decide +kernel

end Session
end Lox
