import Lox.Proofs.Scoping.Occurrences
import Lox.Proofs.Session.Stable

/-! The numbers that occurrences are known by. All that a process reads is numbered on from what it
has read before, so no two occurrences of any of its trees have one number. What a walk records
belongs to its own tree; a session only adds to the distances that it knows, and those for the body
of a function stay as they were when the function was made.
-/

namespace Lox

-----------------------------------------------------------------------------------------
-- Readings
-----------------------------------------------------------------------------------------

/-- What a source can be read as. -/
inductive Tree where
  | program (program : Program)
  | expression (expr : Expr)

namespace Tree

/-- The occurrences of the tree. -/
def occurrences : Tree → List Occurrence
  | .program stmts => Stmts.occurrences stmts
  | .expression expr => expr.occurrences

/-- The numbers of the occurrences. -/
def ids (tree : Tree) : List Nat := tree.occurrences.map Occurrence.id

/-- The places of the tree. -/
def places : Tree → List Place
  | .program stmts => Program.places stmts
  | .expression expr => expr.places

/-- The walk that resolves the tree. -/
def walk : Tree → Analysis
  | .program stmts => Analysis.stmts stmts .start
  | .expression expr => Analysis.expr expr .start

/-- The evaluation of the tree. -/
def task : Tree → Task
  | .program stmts => .executeAll stmts
  | .expression expr => .evaluate expr

/-- The numbers of the tree are those of its places. -/
theorem ids_eq (tree : Tree) : tree.ids = tree.places.filterMap Place.number? := by
  rw [Places.filterMap_number?]
  cases tree with
  | program stmts =>
      exact congrArg (List.map Occurrence.id) (Places.occurrences_stmts stmts .top).symm
  | expression expr =>
      exact congrArg (List.map Occurrence.id) (Places.occurrences_expr expr .top).symm

/-- The walk records the distances of the places. -/
theorem distances_walk (tree : Tree)
    : tree.walk.distances = Distances.empty.noteAll tree.places := by
  cases tree with
  | program stmts => exact (Analysis.visited_stmts stmts Analysis.fits_start).distances
  | expression expr => exact (Analysis.passed_expr expr Analysis.fits_start).distances

end Tree

/-- A source is read as a program, or as a single expression. -/
inductive Reading where
  | asProgram (source : String)
  | asExpression (source : String)

namespace Reading

/-- What comes of a reading that numbers from `first` on: the tree, if there is no error, and the
next number.
-/
def read (first : Nat) : Reading → Option Tree × Nat
  | .asProgram source =>
    match Program.parse (Scan.ofText source).tokens (Scan.ofText source).stop first with
    | (.ok program, next) => (some (.program program), next)
    | (.error _, next) => (none, next)
  | .asExpression source =>
    match Expr.parse? (Scan.ofText source).tokens (Scan.ofText source).stop first with
    | (some expr, next) => (some (.expression expr), next)
    | (none, next) => (none, next)

/-- The trees that come of readings one after the other, and the next number. -/
def readAll (first : Nat) : List Reading → List Tree × Nat
  | [] => ([], first)
  | reading :: rest =>
    let (tree, next) := reading.read first
    let (trees, last) := readAll next rest
    (tree.toList ++ trees, last)

/-- A reading counts on, and numbers its tree apart in the interval that it counts through. -/
theorem read_numbered (reading : Reading) (first : Nat)
    : first ≤ (reading.read first).2
      ∧ ∀ tree ∈ (reading.read first).1,
          tree.ids.Nodup ∧ ∀ id ∈ tree.ids, first ≤ id ∧ id < (reading.read first).2 := by
  cases reading with
  | asProgram source =>
      obtain ⟨le, numbered⟩ := Program.parse_numbered source first
      simp only [read]
      split
      · next program next parsed =>
          rw [parsed] at le
          refine ⟨le, fun tree given => ?_⟩
          cases given
          rw [Tree.ids_eq]
          have listing := numbered program next parsed
          exact ⟨listing.distinct .top, listing.range .top⟩
      · next parsed =>
          rw [parsed] at le
          exact ⟨le, nofun⟩
  | asExpression source =>
      obtain ⟨le, numbered⟩ := Expr.parse?_numbered source first
      simp only [read]
      split
      · next expr next parsed =>
          rw [parsed] at le
          refine ⟨le, fun tree given => ?_⟩
          cases given
          rw [Tree.ids_eq]
          have listing := numbered expr next parsed
          exact ⟨listing.distinct .top, listing.range .top⟩
      · next parsed =>
          rw [parsed] at le
          exact ⟨le, nofun⟩

/-- Readings number their trees apart, by induction over them. -/
theorem readAll_numbered (readings : List Reading) (first : Nat)
    : first ≤ (readAll first readings).2
      ∧ ((readAll first readings).1.flatMap Tree.ids).Nodup
      ∧ ∀ id ∈ (readAll first readings).1.flatMap Tree.ids,
          first ≤ id ∧ id < (readAll first readings).2 := by
  induction readings generalizing first with
  | nil => exact ⟨Nat.le.refl, .nil, List.forall_mem_nil _⟩
  | cons reading rest ih =>
      obtain ⟨le, own⟩ := reading.read_numbered first
      obtain ⟨leRest, apart, range⟩ := ih (reading.read first).2
      have all
          : (readAll first (reading :: rest)).1.flatMap Tree.ids
            = (reading.read first).1.toList.flatMap Tree.ids
              ++ (readAll (reading.read first).2 rest).1.flatMap Tree.ids :=
        List.flatMap_append
      have last : (readAll first (reading :: rest)).2 = (readAll (reading.read first).2 rest).2 :=
        rfl
      rw [all, last]
      refine ⟨Nat.le_trans le leRest, ?_⟩
      cases given : (reading.read first).1 with
      | none => exact ⟨apart, fun id member => (range id member).imp_left (Nat.le_trans le)⟩
      | some tree =>
          obtain ⟨distinct, within⟩ := own tree given
          rw [Option.toList_some, List.flatMap_singleton]
          refine ⟨List.nodup_append.2 ⟨distinct, apart, fun id member other later same => ?_⟩, ?_⟩
          · have below := (within id member).2
            have above := (range other later).1
            omega
          · intro id member
            rcases List.mem_append.1 member with member | member
            · exact (within id member).imp_right (Nat.lt_of_lt_of_le · leRest)
            · exact (range id member).imp_left (Nat.le_trans le)

/-- Readings one after others. -/
theorem readAll_append (first : Nat) (readings more : List Reading)
    : readAll first (readings ++ more)
      = ((readAll first readings).1 ++ (readAll (readAll first readings).2 more).1,
          (readAll (readAll first readings).2 more).2) := by
  induction readings generalizing first with
  | nil => rfl
  | cons reading rest ih =>
      simp only [List.cons_append, readAll, ih, List.append_assoc]

/-- The tree of a reading is numbered apart. -/
theorem nodup_of_mem_readAll {readings : List Reading} {first : Nat} {tree : Tree}
    (member : tree ∈ (readAll first readings).1)
    : tree.ids.Nodup :=
  (List.nodup_flatMap.1 (readAll_numbered readings first).2.1).1 tree member

end Reading

/-- The walk over a tree that is numbered apart records each number once, and only its own. -/
theorem Tree.keys_walk {tree : Tree} (apart : tree.ids.Nodup)
    : tree.walk.distances.keys.Nodup ∧ ∀ id ∈ tree.walk.distances.keys, id ∈ tree.ids := by
  obtain ⟨among, distinct⟩ := Distances.keys_noteAll_empty tree.places
  have used := Place.sublist_numbers tree.places
  rw [tree.ids_eq] at apart ⊢
  rw [tree.distances_walk]
  exact ⟨distinct (apart.sublist used), fun id member => used.subset (among id member)⟩

namespace Session

-----------------------------------------------------------------------------------------
-- The readings of a session
-----------------------------------------------------------------------------------------

/-- What a request has read. A source that is no expression is read again as a program, to be run
or to have its errors told.
-/
def readings (session : Session) : Request → List Reading
  | .run source => if (Scan.ofText source).errors.isEmpty then [.asProgram source] else []
  | .line source | .evaluate source =>
    if (Scan.ofText source).errors.isEmpty then
      match (session.parseExpression (.ofText source)).1 with
      | some _ => [.asExpression source]
      | none => [.asExpression source, .asProgram source]
    else []

/-- What requests have read in order. -/
def readingsAll (session : Session) : List Request → List Reading
  | [] => []
  | request :: rest => session.readings request ++ (session.take request).readingsAll rest

variable {session opened : Session} {request : Request} {task : Task}

/-- A session reads programs as any process does. -/
theorem read_of_parseProgram {source : String} {result : Except (List SyntaxError) Program}
    {numbered : Session} (parsed : session.parseProgram (.ofText source) = (result, numbered))
    : (Reading.asProgram source).read session.nextId
      = (result.toOption.map .program, numbered.nextId) := by
  unfold parseProgram at parsed
  simp only [Reading.read]
  split
  · next read =>
      rw [read] at parsed
      cases parsed
      rfl
  · next read =>
      rw [read] at parsed
      cases parsed
      rfl

theorem read_of_parseExpression {source : String} {result : Option Expr} {numbered : Session}
    (parsed : session.parseExpression (.ofText source) = (result, numbered))
    : (Reading.asExpression source).read session.nextId
      = (result.map .expression, numbered.nextId) := by
  unfold parseExpression at parsed
  simp only [Reading.read]
  split
  · next read =>
      rw [read] at parsed
      cases parsed
      rfl
  · next read =>
      rw [read] at parsed
      cases parsed
      rfl

/-- Telling diagnostics takes no number. -/
theorem nextId_reject (session : Session) (diagnostics : List Diagnostic)
    : (session.reject diagnostics).2.nextId = session.nextId := by
  unfold reject reportAll
  dsimp only
  induction diagnostics generalizing session with
  | nil => rfl
  | cons first rest ih => exact ih (session.report first)

theorem nextId_interrupt (session : Session) (interruption : Interruption)
    : (session.interrupt interruption).2.nextId = session.nextId := by
  cases interruption <;> rfl

/-- Nor does running what has been read. -/
theorem nextId_runProgram (session : Session) (program : Program)
    : (session.runProgram program).2.nextId = session.nextId := by
  unfold runProgram
  split
  · exact nextId_reject ..
  · next distances resolved =>
      rw [performResolved_eq]
      cases ((session.learn distances).moment (.executeAll program)).ending with
      | ok value after => rfl
      | error interruption after => exact nextId_interrupt ..

theorem nextId_evaluateExpr (session : Session) (expr : Expr)
    : (session.evaluateExpr expr).2.nextId = session.nextId := by
  unfold evaluateExpr
  split
  · exact nextId_reject ..
  · next distances resolved =>
      rw [performResolved_eq]
      cases ((session.learn distances).moment (.evaluate expr)).ending with
      | ok value after => rfl
      | error interruption after => exact nextId_interrupt ..

theorem nextId_echo (session : Session) (value : Value)
    : (session.echo value).2.nextId = session.nextId := by
  unfold echo
  rw [perform_eq]
  cases Step.print value session.machine with
  | ok error after => cases error <;> rfl
  | error interruption after => exact nextId_interrupt ..

/-- A program that is run takes the numbers of its reading. -/
theorem nextId_run (session : Session) {source : String}
    (scanned : (Scan.ofText source).errors = [])
    : (session.run source).2.nextId = ((Reading.asProgram source).read session.nextId).2 := by
  unfold run runScan
  rw [scanned, List.isEmpty_nil, if_pos rfl]
  split
  · next parsed => rw [read_of_parseProgram parsed, nextId_reject]
  · next parsed => rw [read_of_parseProgram parsed, nextId_runProgram]

/-- A request takes the numbers of its readings. -/
theorem nextId_take (session : Session) (request : Request)
    : (session.take request).nextId
      = (Reading.readAll session.nextId (session.readings request)).2 := by
  cases request with
  | run source =>
      simp only [readings]
      split
      · next scanned => exact session.nextId_run (List.isEmpty_iff.1 scanned)
      · next failed =>
          unfold take run runScan
          dsimp only
          rw [if_neg failed]
          exact nextId_reject ..
  | line source =>
      simp only [readings]
      unfold take runLine
      dsimp only
      split
      · next scanned =>
          split
          · next expr numbered parsed =>
              have read := read_of_parseExpression parsed
              rw [parsed]
              simp only [Reading.readAll, read]
              have evaluated := nextId_evaluateExpr numbered expr
              split
              · next ran =>
                  rw [ran] at evaluated
                  exact (nextId_echo ..).trans evaluated
              · next ran =>
                  rw [ran] at evaluated
                  exact evaluated
          · next numbered parsed =>
              have read := read_of_parseExpression parsed
              rw [parsed]
              simp only [Reading.readAll, read]
              exact numbered.nextId_run (List.isEmpty_iff.1 scanned)
      · exact nextId_reject ..
  | evaluate source =>
      simp only [readings]
      unfold take evaluate
      dsimp only
      split
      · next scanned =>
          split
          · next expr numbered parsed =>
              have read := read_of_parseExpression parsed
              rw [parsed]
              simp only [Reading.readAll, read]
              exact nextId_evaluateExpr ..
          · next numbered parsed =>
              have read := read_of_parseExpression parsed
              rw [parsed]
              simp only [Reading.readAll, read]
              unfold rejectExpression
              split
              · next parsed => rw [read_of_parseProgram parsed, nextId_reject]
              · next parsed => rw [read_of_parseProgram parsed, nextId_reject]
      · exact nextId_reject ..

/-- What a request evaluates is a tree of its readings. -/
theorem Begins.read (h : session.Begins request opened task)
    : ∃ tree ∈ (Reading.readAll session.nextId (session.readings request)).1, tree.task = task := by
  induction h with
  | run scanned parsed resolved =>
      refine ⟨.program _, ?_, rfl⟩
      simp [readings, scanned, Reading.readAll, read_of_parseProgram parsed, Except.toOption]
  | evaluate scanned parsed resolved =>
      refine ⟨.expression _, ?_, rfl⟩
      simp [readings, scanned, Reading.readAll, read_of_parseExpression parsed, parsed]
  | echo begins ih =>
      simp only [readings] at ih ⊢
      exact ih
  | @line session source numbered opened task scanned parsed begins ih =>
      obtain ⟨tree, member, same⟩ := ih
      refine ⟨tree, ?_, same⟩
      have empty : (Scan.ofText source).errors.isEmpty = true := List.isEmpty_iff.2 scanned
      have first : (session.parseExpression (.ofText source)).1 = none := congrArg Prod.fst parsed
      simp only [readings, if_pos empty] at member ⊢
      rw [first]
      simp only [Reading.readAll, read_of_parseExpression parsed] at member ⊢
      exact member

/-- Requests take the numbers of their readings, and evaluate trees of them. By induction over the
requests.
-/
theorem readingsAll_read (session : Session) (requests : List Request)
    : (session.takeAll requests).nextId
        = (Reading.readAll session.nextId (session.readingsAll requests)).2
      ∧ ∀ opened task,
          session.Evaluates requests opened task
          → ∃ tree ∈ (Reading.readAll session.nextId (session.readingsAll requests)).1,
              tree.task = task := by
  induction requests generalizing session with
  | nil =>
      refine ⟨rfl, fun opened task evaluates => ?_⟩
      cases evaluates
  | cons request rest ih =>
      obtain ⟨numbers, trees⟩ := ih (session.take request)
      have taken : session.takeAll (request :: rest) = (session.take request).takeAll rest :=
        List.foldl_cons ..
      rw [taken, readingsAll, Reading.readAll_append, ← nextId_take]
      refine ⟨numbers, fun opened task evaluates => ?_⟩
      cases evaluates with
      | here begins =>
          obtain ⟨tree, member, same⟩ := begins.read
          exact ⟨tree, List.mem_append_left _ member, same⟩
      | later evaluates =>
          obtain ⟨tree, member, same⟩ := trees opened task evaluates
          exact ⟨tree, List.mem_append_right _ member, same⟩

-----------------------------------------------------------------------------------------
-- Distances are only added
-----------------------------------------------------------------------------------------

/-- A program that is run leaves the session on the machine of its evaluation. -/
theorem continues_run {source : String} {program : Program} {numbered : Session}
    {distances : Distances} (scanned : (Scan.ofText source).errors = [])
    (parsed : session.parseProgram (.ofText source) = (.ok program, numbered))
    (resolved : program.resolve session.config.reportUnused = .ok distances)
    : (numbered.learn distances).Continues
        ((numbered.learn distances).moment (.executeAll program)).ending.machine
        (session.run source).2 := by
  have read := session.continues_parseProgram source
  rw [parsed] at read
  unfold run runScan
  simp only [scanned, List.isEmpty_nil, if_true, parsed]
  rw [← read.config] at resolved
  exact continues_runProgram numbered resolved

/-- The session goes on from where an evaluation that a request has begun leaves it. -/
theorem Begins.continues (h : session.Begins request opened task)
    : opened.Continues (opened.moment task).ending.machine (session.take request) := by
  cases h with
  | run scanned parsed resolved => exact continues_run scanned parsed resolved
  | evaluate scanned parsed resolved =>
      unfold take Session.evaluate
      simp only [scanned, List.isEmpty_nil, if_true, parsed]
      exact continues_evaluateExpr _ resolved
  | echo begins =>
      cases begins with
      | @evaluate _ _ _ numbered _ scanned parsed resolved =>
          have left := continues_evaluateExpr numbered resolved
          unfold take runLine
          simp only [scanned, List.isEmpty_nil, if_true, parsed]
          split
          · next ran =>
              rw [ran] at left
              exact left.trans (continues_echo ..)
          · next ran =>
              rw [ran] at left
              exact left
  | line scanned parsed begins =>
      cases begins with
      | run again read resolved =>
          have left := continues_run again read resolved
          unfold take runLine
          simp only [scanned, List.isEmpty_nil, if_true, parsed]
          exact left

/-- A later session knows the same distances and more, for numbers that were not used before. -/
structure Extends (session later : Session) : Prop where
  numbers : session.nextId ≤ later.nextId
  added
    : ∃ more,
        later.distances = session.distances.merge more
        ∧ more.keys.Nodup
        ∧ ∀ id ∈ more.keys, session.nextId ≤ id ∧ id < later.nextId

namespace Extends

variable {middle later : Session}

theorem of_eq (distances : later.distances = session.distances)
    (numbers : session.nextId ≤ later.nextId)
    : session.Extends later where
  numbers := numbers
  added := ⟨.empty, distances, .nil, List.forall_mem_nil _⟩

theorem trans (h : session.Extends middle) (next : middle.Extends later)
    : session.Extends later where
  numbers := Nat.le_trans h.numbers next.numbers
  added := by
    obtain ⟨more, merged, apart, range⟩ := h.added
    obtain ⟨rest, mergedNext, apartNext, rangeNext⟩ := next.added
    refine ⟨more.merge rest, ?_, ?_, ?_⟩
    · rw [mergedNext, merged]
      exact congrArg Distances.mk (List.append_assoc ..).symm
    · rw [Distances.keys_merge]
      refine List.nodup_append.2 ⟨apartNext, apart, fun id member other earlier same => ?_⟩
      have above := (rangeNext id member).1
      have below := (range other earlier).2
      omega
    · intro id member
      rw [Distances.keys_merge] at member
      rcases List.mem_append.1 member with member | member
      · exact (rangeNext id member).imp_left (Nat.le_trans h.numbers)
      · exact (range id member).imp_right (Nat.lt_of_lt_of_le · next.numbers)

/-- What was numbered before is found as before. -/
theorem find?_eq (h : session.Extends later) {id : Nat} (used : id < session.nextId)
    : later.distances.find? id = session.distances.find? id := by
  obtain ⟨more, merged, _, range⟩ := h.added
  have absent : id ∉ more.keys := fun member => Nat.not_le.2 used (range id member).1
  rw [merged, Distances.find?_merge, Distances.find?_of_notMem_keys absent, Option.none_or]

/-- No entry is overwritten, and every entry is for a number that is used. -/
theorem keys (h : session.Extends later) (apart : session.distances.keys.Nodup)
    (below : ∀ id ∈ session.distances.keys, id < session.nextId)
    : later.distances.keys.Nodup ∧ ∀ id ∈ later.distances.keys, id < later.nextId := by
  obtain ⟨more, merged, distinct, range⟩ := h.added
  rw [merged, Distances.keys_merge]
  constructor
  · refine List.nodup_append.2 ⟨distinct, apart, fun id member other earlier same => ?_⟩
    have unused := (range id member).1
    have used := below other earlier
    omega
  · intro id member
    rcases List.mem_append.1 member with member | member
    · exact (range id member).2
    · exact Nat.lt_of_lt_of_le (below id member) h.numbers

end Extends

/-- What is read and accepted is added. -/
theorem Opens.extends (h : session.Opens opened task) : session.Extends opened where
  numbers := h.numbers
  added := by
    obtain ⟨among, distinct⟩ := Distances.keys_noteAll_empty task.places
    exact ⟨_, h.distances, distinct h.apart, fun id member => h.within id (among id member)⟩

theorem extends_take (session : Session) (request : Request)
    : session.Extends (session.take request) := by
  rcases answers_take session request with ⟨opened, task, begins, continues, _⟩ | continues
  · exact begins.opens.extends.trans (.of_eq continues.distances continues.numbers)
  · exact .of_eq continues.distances continues.numbers

/-- Requests only add distances, by induction over them. -/
theorem extends_takeAll (session : Session) (requests : List Request)
    : session.Extends (session.takeAll requests) := by
  induction requests generalizing session with
  | nil => exact .of_eq rfl Nat.le.refl
  | cons request rest ih => exact (session.extends_take request).trans (ih (session.take request))

theorem readingsAll_append (session : Session) (past : List Request) (request : Request)
    : session.readingsAll (past ++ [request])
      = session.readingsAll past ++ (session.takeAll past).readings request := by
  induction past generalizing session with
  | nil => exact List.append_nil _
  | cons first rest ih =>
      have read := ih (session.take first)
      simp only [List.cons_append, readingsAll, read, List.append_assoc]
      rfl

end Session

-----------------------------------------------------------------------------------------
-- The functions of a session
-----------------------------------------------------------------------------------------

/-- A value is the function of a closure, or a class that has it as a method. -/
inductive Value.Carries : Value → Closure → Prop
  | function {callee : Function} : Carries (.function callee) callee.closure
  | method {definition : Class} {name : String} {method : Closure}
    (found : definition.findMethod? name = some method)
    : Carries (.class definition) method
  | static {definition : Class} {name : String} {method : Closure}
    (found : definition.findStatic? name = some method)
    : Carries (.class definition) method

/-- A closure is to be had on a machine: from one of the tables, or from a field or the class of one
of the instances.
-/
inductive Machine.Carries (machine : Machine) : Closure → Prop
  | slot {address : Nat} {name : String} {value : Value} {closure : Closure}
    (bound : (machine.store.table address).get? name = some (some value))
    (carries : value.Carries closure)
    : Carries machine closure
  | field {address : Nat} {object : Instance} {name : String} {value : Value} {closure : Closure}
    (there : machine.instances[address]? = some object)
    (bound : object.fields.get? name = some value) (carries : value.Carries closure)
    : Carries machine closure
  | object {address : Nat} {object : Instance} {closure : Closure}
    (there : machine.instances[address]? = some object)
    (carries : (Value.class object.definition).Carries closure)
    : Carries machine closure

/-- A moment comes upon a closure: it is to be had on the machine, or its body is about to run. -/
def Moment.Meets (moment : Moment) (closure : Closure) : Prop :=
  moment.machine.Carries closure ∨ ∃ arguments, moment.task = .invoke closure arguments

/-- The occurrences in the body of a function are found at the same distances. -/
def Closure.FoundAlike (closure : Closure) (distances later : Distances) : Prop :=
  ∀ occurrence ∈ closure.declaration.occurrences,
    later.find? occurrence.id = distances.find? occurrence.id

namespace World

variable {world : World} {closure : Closure}

/-- All places in the body of a closure are known. -/
def Knows (world : World) (closure : Closure) : Prop :=
  ∃ kind around, ∀ place ∈ Places.ofFunction kind closure.declaration around, world.known place

theorem FitsClosure.knows (h : world.FitsClosure closure) : world.Knows closure := by
  obtain ⟨around, kind, _, places, _⟩ := h
  exact ⟨kind, around, places⟩

theorem FitsMethod.knows {holder : Class} {isStatic : Bool}
    (h : world.FitsMethod holder isStatic closure)
    : world.Knows closure := by
  obtain ⟨around, definition, _, kind, _, places, _⟩ := h
  exact ⟨kind, around.atMethods definition isStatic, places⟩

theorem FitsValue.knows {value : Value} (h : world.FitsValue value)
    (carries : value.Carries closure)
    : world.Knows closure := by
  cases carries with
  | function => exact FitsClosure.knows h
  | method found => exact FitsMethod.knows (FitsClass.methods h _ _ found)
  | static found => exact FitsMethod.knows (FitsClass.statics h _ _ found)

/-- Whatever closure is to be had on a machine is one of the program. -/
theorem Describes.knows {history : History} {machine : Machine}
    (h : world.Describes history machine) (carries : machine.Carries closure)
    : world.Knows closure := by
  cases carries with
  | slot bound carries =>
      rw [h.store] at bound
      obtain ⟨value, same, fits⟩ := h.fits.values _ _ _ bound
      cases same
      exact FitsValue.knows fits carries
  | field there bound carries =>
      exact FitsValue.knows ((h.fits.objects _ _ there).2 _ _ bound) carries
  | object there carries =>
      have fits : world.FitsValue (.class _) := (h.fits.objects _ _ there).1
      exact FitsValue.knows fits carries

/-- A body whose places are lawful is found alike if all that is looked up in it is. -/
theorem Knows.foundAlike (h : world.Knows closure) {distances later : Distances}
    (lawful : ∀ place, world.known place → place.errors = [])
    (found
      : ∀ place,
          world.known place → ∀ id, place.id? = some id → later.find? id = distances.find? id)
    : closure.FoundAlike distances later := by
  obtain ⟨kind, around, places⟩ := h
  intro occurrence member
  rw [← Places.occurrences_function kind closure.declaration around] at member
  obtain ⟨⟨inside, act⟩, there, given⟩ := List.mem_filterMap.1 member
  have known := places _ there
  cases act with
  | use use other =>
      cases given
      exact found _ known _ rfl
  -- A class that names itself as its superclass is refused, so that the name is not looked up.
  | inheritItself other => exact absurd (lawful _ known) (List.cons_ne_nil _ _)
  | declare _ | function _ | branch _ | «return» _ _ | «break» _ => cases given

end World

namespace Session

variable {session opened : Session} {request : Request} {task : Task}

/-- The trees that requests have read in order. -/
def trees (session : Session) (requests : List Request) : List Tree :=
  (Reading.readAll session.nextId (session.readingsAll requests)).1

/-- The numbers of the trees that requests have read are used. -/
theorem lt_of_mem_trees {requests : List Request} {tree : Tree}
    (read : tree ∈ session.trees requests) {id : Nat} (own : id ∈ tree.ids)
    : id < (session.takeAll requests).nextId := by
  rw [(session.readingsAll_read requests).1]
  apply And.right
  apply (Reading.readAll_numbered _ _).2.2
  exact List.mem_flatMap.2 ⟨tree, read, own⟩

/-- The places of what requests have evaluated have numbers that are used. -/
theorem lt_of_listed {requests : List Request} {place : Place}
    (listed : session.listed requests place) {id : Nat} (given : place.id? = some id)
    : id < (session.takeAll requests).nextId := by
  obtain ⟨opened, task, evaluates, member⟩ := listed
  obtain ⟨tree, read, rfl⟩ := (session.readingsAll_read requests).2 opened task evaluates
  apply lt_of_mem_trees read
  rw [tree.ids_eq]
  apply List.mem_filterMap.2
  refine ⟨place, ?_, Place.number?_of_id? given⟩
  cases tree <;> exact member

/-- A request learns the distances of a tree that it has read; none of them was known. -/
theorem Begins.learns (begins : session.Begins request opened task)
    (below : ∀ id ∈ session.distances.keys, id < session.nextId)
    : ∃ tree ∈ (Reading.readAll session.nextId (session.readings request)).1,
        tree.task = task
        ∧ opened.distances = session.distances.merge tree.walk.distances
        ∧ ∀ id ∈ tree.walk.distances.keys, id ∉ session.distances.keys := by
  obtain ⟨tree, read, rfl⟩ := begins.read
  have numbered := Reading.readAll_numbered (session.readings request) session.nextId
  have places : tree.task.places = tree.places := by cases tree <;> rfl
  refine ⟨tree, read, rfl, ?_, fun id recorded known => ?_⟩
  · rw [begins.opens.distances, places, tree.distances_walk]
  · have own := (Tree.keys_walk (Reading.nodup_of_mem_readAll read)).2 id recorded
    have unused := (numbered.2.2 id (List.mem_flatMap.2 ⟨tree, read, own⟩)).1
    exact absurd (below id known) (Nat.not_lt.2 unused)

/-- Where a process has come to, no distance has been overwritten. -/
theorem keys_takeAll (config : Config) (sink : Sink) (clock : Nat → Float) (past : List Request)
    : ((start config sink clock).takeAll past).distances.keys.Nodup
      ∧ ∀ id ∈ ((start config sink clock).takeAll past).distances.keys,
          id < ((start config sink clock).takeAll past).nextId :=
  (extends_takeAll _ past).keys .nil (List.forall_mem_nil _)

/-- The body of a function that is to be had between requests keeps its distances. -/
theorem foundAlike_of_carries {config : Config} {sink : Sink} {clock : Nat → Float}
    {past : List Request} {closure : Closure}
    (carries : ((start config sink clock).takeAll past).machine.Carries closure)
    (more : List Request)
    : closure.FoundAlike ((start config sink clock).takeAll past).distances
        (((start config sink clock).takeAll past).takeAll more).distances := by
  obtain ⟨world, stable⟩ := stable_takeAll config sink clock past
  apply (stable.describes.knows carries).foundAlike
  · exact fun place known => (stable.settled place known).lawful
  · intro place known id given
    exact (extends_takeAll _ more).find?_eq (stable.numbered place known id given)

/-- So does the body of a function that an evaluation comes upon, from then on. -/
theorem foundAlike_of_meets {config : Config} {sink : Sink} {clock : Nat → Float}
    {past : List Request} {moment : Moment} {closure : Closure}
    (begins : ((start config sink clock).takeAll past).Begins request opened task)
    (reaches : (opened.moment task).Reaches moment) (meets : moment.Meets closure)
    (more : List Request)
    : closure.FoundAlike moment.distances
        ((((start config sink clock).takeAll past).take request).takeAll more).distances := by
  obtain ⟨⟨world, around⟩, required⟩ := required_of_reaches begins reaches
  have known : world.Knows closure := by
    -- The closure of a body that is about to run may be on the machine no more.
    rcases meets with carries | ⟨arguments, invoked⟩
    · exact required.describes.knows carries
    · have admits := required.admits
      rw [invoked] at admits
      exact World.FitsClosure.knows admits.1
  have same
      : moment.distances = (((start config sink clock).takeAll past).take request).distances :=
    reaches.distances_eq.trans begins.continues.distances.symm
  rw [same]
  apply known.foundAlike
  · exact fun place known => (required.settled place known).lawful
  · intro place known id given
    have used := lt_of_listed (required.listed place known) given
    rw [takeAll_append_singleton] at used
    exact (extends_takeAll _ more).find?_eq used

/-- Identities never collide. However sources are read one after the other in a process, no two
occurrences of the trees have one number, and the walk over a tree records each number once and
only numbers of its own. The trees of a session are read so; what it learns with a request was
not known before, so that nothing is overwritten. What is known of a tree that has been read stays
as it is, and so do the distances in the body of any function, from when it is first to be had.
-/
theorem identities_apart (config : Config) (sink : Sink) (clock : Nat → Float)
    : (∀ first readings,
        ((Reading.readAll first readings).1.flatMap Tree.ids).Nodup
        ∧ ∀ tree ∈ (Reading.readAll first readings).1,
            tree.walk.distances.keys.Nodup ∧ ∀ id ∈ tree.walk.distances.keys, id ∈ tree.ids)
      ∧ ∀ past,
          let process := start config sink clock
          let session := process.takeAll past
          session.nextId = (Reading.readAll 0 (process.readingsAll past)).2
          ∧ session.distances.keys.Nodup
          ∧ (∀ more, ∀ tree ∈ process.trees past, ∀ id ∈ tree.ids,
              (session.takeAll more).distances.find? id = session.distances.find? id)
          ∧ (∀ more closure,
              session.machine.Carries closure
              → closure.FoundAlike session.distances (session.takeAll more).distances)
          ∧ ∀ request opened task,
              session.Begins request opened task
              → (∃ tree ∈ process.trees (past ++ [request]),
                  tree.task = task
                  ∧ opened.distances = session.distances.merge tree.walk.distances
                  ∧ ∀ id ∈ tree.walk.distances.keys, id ∉ session.distances.keys)
                ∧ ∀ moment closure more,
                    (opened.moment task).Reaches moment
                    → moment.Meets closure
                    → closure.FoundAlike moment.distances
                        ((session.take request).takeAll more).distances := by
  constructor
  · intro first readings
    refine ⟨(Reading.readAll_numbered readings first).2.1, fun tree member => ?_⟩
    exact Tree.keys_walk (Reading.nodup_of_mem_readAll member)
  · intro past
    dsimp only
    have numbers := (readingsAll_read (start config sink clock) past).1
    have keys := keys_takeAll config sink clock past
    refine ⟨numbers, keys.1, ?_, ?_, ?_⟩
    · intro more tree read id own
      exact (extends_takeAll _ more).find?_eq (lt_of_mem_trees read own)
    · intro more closure carries
      exact foundAlike_of_carries carries more
    · intro request opened task begins
      obtain ⟨tree, read, same, learned, unknown⟩ := begins.learns keys.2
      refine ⟨⟨tree, ?_, same, learned, unknown⟩, ?_⟩
      · rw [trees, readingsAll_append, Reading.readAll_append, ← numbers]
        exact List.mem_append_right _ read
      · intro moment closure more reaches meets
        exact foundAlike_of_meets begins reaches meets more

end Session

end Lox
