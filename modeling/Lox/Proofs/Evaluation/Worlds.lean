import Mathlib.Order.Defs.PartialOrder
import Lox.Plan
import Lox.Proofs.Evaluation.Classes
import Lox.Proofs.Scoping.Layers

/-! Worlds: for which scope each table of a store was made, and what is known of the program.
A chain of tables stands for scopes, innermost first, if each table was made for its scope inside
the tables after it and binds what the scope declares. Values fit into a world if the chains in
them stand for the scopes around their declarations; they go on doing so as the world grows. A
table for the scope of a receiver binds a value that receives the methods of the class.
-/

namespace Lox

-----------------------------------------------------------------------------------------
-- Tables of a store
-----------------------------------------------------------------------------------------

namespace Store

variable {α : Type} (store : Store α)

@[simp]
theorem size_setSlot (address : Nat) (name : String) (slot : Option α)
    : (store.setSlot address name slot).tables.size = store.tables.size :=
  Array.size_modify

@[simp]
theorem size_add (bindings : Bindings α)
    : (store.add bindings).tables.size = store.tables.size + 1 :=
  Array.size_push bindings

/-- Setting a slot changes one name of one table, if there is such a table. -/
theorem get?_setSlot (address : Nat) (name : String) (slot : Option α) (other : Nat)
    (key : String)
    : ((store.setSlot address name slot).table other).get? key
      = if other = address ∧ address < store.tables.size ∧ key = name then some slot
        else (store.table other).get? key := by
  simp only [table, setSlot, Array.getElem?_modify]
  by_cases same : address = other
  · subst same
    by_cases bound : address < store.tables.size
    · simp [bound, Table.get?_set]
    · simp [bound]
  · simp [same, Ne.symm same]

/-- An added table is at the next address. -/
theorem table_add (bindings : Bindings α) (address : Nat)
    : (store.add bindings).table address
      = if address = store.tables.size then bindings else store.table address := by
  simp only [table, add, Array.getElem?_push]
  split <;> rfl

/-- A name that is not found is in no table of the chain. -/
theorem eq_undefined_of_find {store : Store α} {environment : Environment} {name : String}
    {error : LookupError} (failed : store.find environment name = .error error)
    : error = .undefined := by
  unfold find at failed
  split at failed <;> cases failed
  rfl

/-- A name is found in a table that has it, by induction over the chain. -/
theorem has_of_find {store : Store α} {environment : Environment} {name : String} {address : Nat}
    (found : store.find environment name = .ok address)
    : (store.table address).has name = true := by
  unfold find at found
  split at found
  · next there =>
      cases found
      generalize environment.chain = chain at there
      induction chain with
      | nil => cases there
      | cons first outer ih =>
          unfold home? at there
          split at there
          · next has =>
              cases there
              exact has
          · exact ih there
  · cases found

/-- What is bound in a table can be read there. -/
theorem getHere_of_get? {store : Store α} {address : Nat} {name : String} {value : α}
    (found : (store.table address).get? name = some (some value))
    : store.getHere address name = .ok value := by
  simp [getHere, found]

/-- There is nothing in a table that is not there. -/
theorem get?_outside {address : Nat} (outside : store.tables.size ≤ address) (key : String)
    : (store.table address).get? key = none := by
  simp [table, Array.getElem?_eq_none outside]

end Store

/-- The table one link further out than others is the first around them. -/
theorem Environment.outer_of_ancestor? {environment inner outer : Environment} {distance : Nat}
    (walked : environment.ancestor? distance = some inner)
    (further : environment.ancestor? (distance + 1) = some outer)
    : inner.outer = outer.chain := by
  induction distance generalizing environment with
  | zero =>
      obtain ⟨table, _ | ⟨next, rest⟩⟩ := environment
      · cases further
      · cases walked
        cases further
        rfl
  | succ distance ih =>
      obtain ⟨table, _ | ⟨next, rest⟩⟩ := environment
      · cases walked
      · have inside : (Environment.mk next rest).ancestor? distance = some inner := walked
        exact ih inside further

/-- The table some links out is as far along the chain. -/
theorem Environment.map_ancestor? (environment : Environment) (distance : Nat)
    : (environment.ancestor? distance).map Environment.table = environment.chain[distance]? := by
  induction distance generalizing environment with
  | zero => rfl
  | succ distance ih =>
      obtain ⟨table, _ | ⟨next, outer⟩⟩ := environment
      · rfl
      · exact ih ⟨next, outer⟩

/-- An environment is its chain. -/
theorem Environment.eq_of_chain {environment other : Environment}
    (same : environment.chain = other.chain)
    : environment = other := by
  obtain ⟨table, outer⟩ := environment
  cases same
  rfl

-----------------------------------------------------------------------------------------
-- Worlds
-----------------------------------------------------------------------------------------

/-- A table was made for a scope, inside other tables. -/
structure Opening where
  region : Region
  outer : List Nat

/-- A scope may bind a name at some time. -/
def Region.Binds : Region → String → Prop
  | .program, name => ¬ Reserved name
  | .block body, name => ¬ Reserved name ∧ name ∈ (body.flatMap Stmt.declares).map Prod.fst
  | .function declaration, name =>
    ¬ Reserved name
    ∧ name ∈ (declaration.parameterNames ++ declaration.body.flatMap Stmt.declares).map Prod.fst
  | .receiver _ _, name => name = "this"
  | .superclass _, name => name = "super"

/-- A scope that binds variables binds no reserved name. -/
theorem Region.Binds.plain {region : Region} {name other : String} (h : region.Binds name)
    (free : ¬ Reserved name) (reserved : Reserved other)
    : ¬ region.Binds other := by
  intro binds
  cases region with
  | program => exact binds reserved
  | block body => exact binds.1 reserved
  | function declaration => exact binds.1 reserved
  | receiver definition isStatic => exact free (.inl h)
  | superclass definition => exact free (.inr h)

/-- The innermost scope may bind a name at some time. -/
def Surroundings.Binds (around : Surroundings) (name : String) : Prop :=
  ∃ frame, around.frames.head? = some frame ∧ frame.region.Binds name

/-- Declarations do not change which names may be bound. -/
theorem Surroundings.binds_declareAll {around : Surroundings} {name : String}
    (h : around.Binds name) (names : List (String × Binder))
    : (around.declareAll names).Binds name := by
  induction names generalizing around with
  | nil => exact h
  | cons entry rest ih =>
      refine ih ?_
      obtain ⟨_ | ⟨frame, outer⟩, setting⟩ := around
      · exact h
      · obtain ⟨_, ⟨⟩, binds⟩ := h
        exact ⟨_, rfl, binds⟩

/-- What is known of the tables of a store and of the program. -/
structure World where
  /-- What each table was made for, by address. -/
  openings : List Opening
  store : Store Value
  /-- The initializer of a name in a table has not been completed. -/
  pending : Nat → String → Prop
  /-- The place is in a program that has been accepted. -/
  known : Place → Prop
  /-- A declaration has made a class, and an environment closes its methods. -/
  declared : ClassDecl → Class → Environment → Prop

namespace World

/-- A name is bound in the table at an address. -/
def Bound (world : World) (address : Nat) (name : String) : Prop :=
  (world.store.table address).has name = true

/-- A world has come out of another. Bindings last, those of reserved names with their values, and
a pending one may have been completed.
-/
structure Grows (world later : World) : Prop where
  openings
    : ∀ (address : Nat) (opening : Opening),
        world.openings[address]? = some opening → later.openings[address]? = some opening
  bound : ∀ address name, world.Bound address name → later.Bound address name
  reserved
    : ∀ address name slot,
        Reserved name
        → (world.store.table address).get? name = some slot
        → (later.store.table address).get? name = some slot
  pending
    : ∀ address name,
        world.pending address name → later.Bound address name ∨ later.pending address name
  known : ∀ place, world.known place → later.known place
  declared
    : ∀ definition made closing,
        world.declared definition made closing → later.declared definition made closing

theorem Grows.refl (world : World) : world.Grows world :=
  ⟨fun _ _ => id, fun _ _ => id, fun _ _ _ _ => id, fun _ _ => .inr, fun _ => id,
    fun _ _ _ => id⟩

theorem Grows.trans {first second third : World} (h : first.Grows second)
    (next : second.Grows third)
    : first.Grows third where
  openings address opening found := next.openings address opening (h.openings address opening found)
  bound address name bound := next.bound address name (h.bound address name bound)
  reserved address name slot reserved found :=
    next.reserved address name slot reserved (h.reserved address name slot reserved found)
  pending address name waiting :=
    (h.pending address name waiting).elim (fun bound => .inl (next.bound address name bound))
      (next.pending address name)
  known place known := next.known place (h.known place known)
  declared definition made closing declared :=
    next.declared definition made closing (h.declared definition made closing declared)

instance : Preorder World where
  le := Grows
  le_refl := Grows.refl
  le_trans _ _ _ := Grows.trans

-----------------------------------------------------------------------------------------
-- Chains of tables for scopes
-----------------------------------------------------------------------------------------

/-- A name that a scope declares is bound in a table, unless its own initializer surrounds the
place.
-/
def Has (world : World) (address : Nat) (entry : String × Binder) : Prop :=
  world.Bound address entry.1 ∨ (entry.2 = .unfinished ∧ world.pending address entry.1)

/-- A chain of tables stands for scopes. -/
def Stands (world : World) : List Nat → List Frame → Prop
  | [], [] => True
  | address :: outer, frame :: frames =>
    world.openings[address]? = some ⟨frame.region, outer⟩
    ∧ (∀ entry ∈ frame.names, frame.region.Binds entry.1 ∧ world.Has address entry)
    ∧ world.Stands outer frames
  | _, _ => False

variable {world later : World}

theorem Has.mono {address : Nat} {entry : String × Binder} (h : world.Has address entry)
    (le : world ≤ later)
    : later.Has address entry := by
  rcases h with bound | ⟨unfinished, pending⟩
  · exact .inl (le.bound address _ bound)
  · exact (le.pending address _ pending).imp_right fun pending => ⟨unfinished, pending⟩

/-- Chains go on standing for their scopes, by induction over the scopes. -/
theorem Stands.mono {chain : List Nat} {frames : List Frame} (h : world.Stands chain frames)
    (le : world ≤ later)
    : later.Stands chain frames := by
  induction frames generalizing chain with
  | nil =>
      cases chain with
      | nil => trivial
      | cons => exact h.elim
  | cons frame frames ih =>
      cases chain with
      | nil => exact h.elim
      | cons address outer =>
          obtain ⟨opened, names, rest⟩ := h
          exact ⟨le.openings _ _ opened,
            fun entry member => (names entry member).imp_right (·.mono le), ih rest⟩

/-- The environment as many links out as a scope stands for what is from that scope outwards. By
induction over the scopes.
-/
theorem Stands.ancestor {environment : Environment} {frames : List Frame}
    (h : world.Stands environment.chain frames) {distance : Nat} {frame : Frame}
    (found : frames[distance]? = some frame)
    : ∃ target,
        environment.ancestor? distance = some target
        ∧ world.Stands target.chain (frame :: frames.drop (distance + 1)) := by
  induction frames generalizing environment distance with
  | nil => exact h.elim
  | cons first frames ih =>
      cases distance with
      | zero =>
          cases found
          exact ⟨environment, rfl, h⟩
      | succ distance =>
          obtain ⟨table, _ | ⟨next, outer⟩⟩ := environment
          · cases frames with
            | nil => cases found
            | cons => exact h.2.2.elim
          · have inside : world.Stands (Environment.mk next outer).chain frames := h.2.2
            exact ih inside found

/-- The current table was made for the innermost scope. -/
theorem Stands.head {environment : Environment} {around : Surroundings} {name : String}
    (h : world.Stands environment.chain around.frames) (binds : around.Binds name)
    : ∃ opening,
        world.openings[environment.table]? = some opening ∧ opening.region.Binds name := by
  obtain ⟨frame, first, binds⟩ := binds
  obtain ⟨_ | ⟨other, frames⟩, setting⟩ := around
  · cases first
  · cases first
    exact ⟨_, h.1, binds⟩

/-- A name is declared in the innermost scope and the current table has it. -/
theorem Stands.declare {environment : Environment} {around : Surroundings} {name : String}
    {binder : Binder} (h : world.Stands environment.chain around.frames)
    (binds : around.Binds name) (le : world ≤ later)
    (has : later.Has environment.table (name, binder))
    : later.Stands environment.chain (around.declare name binder).frames := by
  obtain ⟨frame, first, binds⟩ := binds
  obtain ⟨_ | ⟨other, frames⟩, setting⟩ := around
  · cases first
  · cases first
    obtain ⟨opened, names, rest⟩ := h.mono le
    exact ⟨opened, List.forall_mem_cons.2 ⟨⟨binds, has⟩, names⟩, rest⟩

theorem Stands.length_eq {chain : List Nat} {frames : List Frame}
    (h : world.Stands chain frames)
    : chain.length = frames.length := by
  induction frames generalizing chain with
  | nil =>
      cases chain with
      | nil => rfl
      | cons => exact h.elim
  | cons frame frames ih =>
      cases chain with
      | nil => exact h.elim
      | cons address outer => exact congrArg Nat.succ (ih h.2.2)

/-- A table binds the names that its scope has settled. -/
theorem bound_of_settles {address : Nat} {frame : Frame} {name : String}
    (names : ∀ entry ∈ frame.names, frame.region.Binds entry.1 ∧ world.Has address entry)
    (settles : frame.settles name = true)
    : world.Bound address name := by
  obtain ⟨entry, member, settles⟩ := List.any_eq_true.1 settles
  obtain ⟨same, done⟩ := Bool.and_eq_true_iff.1 settles
  have done := of_decide_eq_true done
  exact of_decide_eq_true same ▸ (names entry member).2.resolve_right fun waits => done waits.1

-----------------------------------------------------------------------------------------
-- Values that fit
-----------------------------------------------------------------------------------------

/-- A class has come of a declaration, and `super` is bound to its superclass around its methods. -/
structure Owns (world : World) (owner : Class) (definition : ClassDecl)
    (environment : Environment) : Prop where
  made : owner.MadeFrom definition environment
  declared : world.declared definition owner environment
  inherits
    : ∀ superclass,
        owner.superclass = some superclass
        → (world.store.table environment.table).get? "super" = some (some (.class superclass))
  base
    : owner.superclass = none
      → ∃ opening,
          world.openings[environment.table]? = some opening ∧ ¬ opening.region.Binds "super"

/-- A closure stands in the scopes around its declaration. If a call of it gives back the receiver,
there is one.
-/
def FitsClosure (world : World) (closure : Closure) : Prop :=
  ∃ around kind,
    world.Stands closure.environment.chain around.frames
    ∧ (∀ place ∈ Places.ofFunction kind closure.declaration around, world.known place)
    ∧ (closure.initializes = true → world.Bound closure.environment.table "this")

/-- A method stands in the scopes around the class that has declared it, and is known inside the
scope of its receiver too. The class that it was found in descends from that class.
-/
def FitsMethod (world : World) (holder : Class) (isStatic : Bool) (method : Closure) : Prop :=
  ∃ around definition owner kind,
    world.Stands method.environment.chain (Surroundings.atClass around definition).frames
    ∧ (∀ place ∈ Places.ofFunction kind method.declaration (around.atMethods definition isStatic),
        world.known place)
    ∧ (method.declaration ∈ if isStatic then definition.statics else definition.methods)
    ∧ world.Owns owner definition method.environment
    ∧ holder.Descends owner

/-- The methods of a class fit, also those that it inherits. The class and its ancestors have been
declared.
-/
structure FitsClass (world : World) (definition : Class) : Prop where
  methods
    : ∀ name method,
        definition.findMethod? name = some method → world.FitsMethod definition false method
  statics
    : ∀ name method,
        definition.findStatic? name = some method → world.FitsMethod definition true method
  declared
    : ∀ ancestor,
        definition.Descends ancestor
        → ∃ declaration closing, world.declared declaration ancestor closing

/-- What is reached from a value, other than through an instance, fits. -/
def FitsValue (world : World) : Value → Prop
  | .function callee => world.FitsClosure callee.closure
  | .class definition => world.FitsClass definition
  | .nil | .bool _ | .number _ | .string _ | .native _ | .instance _ => True

theorem Owns.mono {owner : Class} {definition : ClassDecl} {environment : Environment}
    (h : world.Owns owner definition environment) (le : world ≤ later)
    : later.Owns owner definition environment where
  made := h.made
  declared := le.declared _ _ _ h.declared
  inherits superclass same := le.reserved _ _ _ (.inr rfl) (h.inherits superclass same)
  base same := (h.base same).imp fun _ => And.imp_left (le.openings _ _)

theorem FitsClosure.mono {closure : Closure} (h : world.FitsClosure closure) (le : world ≤ later)
    : later.FitsClosure closure := by
  obtain ⟨around, kind, stands, places, receiver⟩ := h
  exact ⟨around, kind, stands.mono le, fun place member => le.known place (places place member),
    fun initializes => le.bound _ _ (receiver initializes)⟩

theorem FitsMethod.mono {holder : Class} {isStatic : Bool} {method : Closure}
    (h : world.FitsMethod holder isStatic method) (le : world ≤ later)
    : later.FitsMethod holder isStatic method := by
  obtain ⟨around, definition, owner, kind, stands, places, member, owns, descends⟩ := h
  exact ⟨around, definition, owner, kind, stands.mono le,
    fun place member => le.known place (places place member), member, owns.mono le, descends⟩

/-- A class that has a superclass inherits the methods that fit there. -/
theorem FitsMethod.inherit {holder superclass : Class} {isStatic : Bool} {method : Closure}
    (h : world.FitsMethod superclass isStatic method)
    (inherits : holder.superclass = some superclass)
    : world.FitsMethod holder isStatic method := by
  obtain ⟨around, definition, owner, kind, stands, places, member, owns, descends⟩ := h
  exact ⟨around, definition, owner, kind, stands, places, member, owns, .head inherits descends⟩

theorem FitsClass.mono {definition : Class} (h : world.FitsClass definition) (le : world ≤ later)
    : later.FitsClass definition where
  methods name method found := (h.methods name method found).mono le
  statics name method found := (h.statics name method found).mono le
  declared ancestor descends :=
    (h.declared ancestor descends).imp fun declaration =>
      Exists.imp fun closing => le.declared declaration ancestor closing

theorem FitsValue.mono {value : Value} (h : world.FitsValue value) (le : world ≤ later)
    : later.FitsValue value := by
  cases value with
  | function callee => exact FitsClosure.mono h le
  | «class» definition => exact FitsClass.mono h le
  | nil | bool _ | number _ | string _ | native _ | «instance» _ => trivial

-----------------------------------------------------------------------------------------
-- Worlds that fit
-----------------------------------------------------------------------------------------

/-- The bindings of a table for the scope of a receiver: the receiver is one for the class that
has declared the methods in the scope.
-/
def HasReceiver (world : World) (instances : Array Instance) (opening : Opening)
    (bindings : Bindings Value) : Prop :=
  ∀ definition isStatic,
    opening.region = .receiver definition isStatic
    → ∃ owner environment receiver,
        environment.chain = opening.outer
        ∧ world.Owns owner definition environment
        ∧ bindings.get? "this" = some (some receiver)
        ∧ receiver.Receives instances owner isStatic

/-- Everything in the tables and the instances fits into the world. -/
structure Fits (world : World) (instances : Array Instance) : Prop where
  size : world.openings.length = world.store.tables.size
  values
    : ∀ address name slot,
        (world.store.table address).get? name = some slot
        → ∃ value, slot = some value ∧ world.FitsValue value
  names
    : ∀ address name,
        world.Bound address name
        → ∃ opening, world.openings[address]? = some opening ∧ opening.region.Binds name
  objects
    : ∀ (address : Nat) (object : Instance),
        instances[address]? = some object
        → world.FitsClass object.definition
          ∧ ∀ name value, object.fields.get? name = some value → world.FitsValue value
  receivers
    : ∀ (address : Nat) (opening : Opening),
        world.openings[address]? = some opening
        → world.HasReceiver instances opening (world.store.table address)
  globals : world.openings[0]? = some ⟨.program, []⟩
  onlyGlobals
    : ∀ (address : Nat) (opening : Opening),
        world.openings[address]? = some opening → opening.region = .program → address = 0

/-- The world after a name is bound in the table at an address. -/
def define (world : World) (address : Nat) (name : String) (value : Value) : World :=
  { world with store := world.store.setSlot address name (some value) }

/-- The world after a table is made. -/
def «open» (world : World) (opening : Opening) (bindings : Bindings Value) : World :=
  { world with
    openings := world.openings ++ [opening]
    store := world.store.add bindings }

/-- The world with other bindings pending. -/
def awaiting (world : World) (pending : Nat → String → Prop) : World := { world with pending }

/-- The world after a class is declared. -/
def declaring (world : World) (definition : ClassDecl) (made : Class) (closing : Environment)
    : World :=
  { world with
    declared := fun declaration other environment =>
      world.declared declaration other environment
      ∨ (declaration = definition ∧ other = made ∧ environment = closing) }

variable {world later : World} {instances : Array Instance}

theorem HasReceiver.mono {opening : Opening} {bindings more : Bindings Value}
    {others : Array Instance} (h : world.HasReceiver instances opening bindings)
    (le : world ≤ later) (kept : KeepsClasses instances others)
    (this : ∀ slot, bindings.get? "this" = some slot → more.get? "this" = some slot)
    : later.HasReceiver others opening more := by
  intro definition isStatic same
  obtain ⟨owner, environment, receiver, outer, owns, bound, receives⟩ := h definition isStatic same
  exact ⟨owner, environment, receiver, outer, owns.mono le, this _ bound, receives.mono kept⟩

theorem bound_define (world : World) (address : Nat) (name : String) (value : Value)
    {other : Nat} {key : String}
    : (world.define address name value).Bound other key
      ↔ (other = address ∧ address < world.store.tables.size ∧ key = name)
        ∨ world.Bound other key := by
  simp only [Bound, Table.has, define, Store.get?_setSlot]
  split <;> simp_all

/-- A name that is bound in a table of the store is there from then on. -/
theorem bound_define_self (world : World) {address : Nat} (name : String) (value : Value)
    (inside : address < world.store.tables.size)
    : (world.define address name value).Bound address name :=
  (bound_define ..).2 (.inl ⟨rfl, inside, rfl⟩)

/-- Binding the name of a variable lets a world grow. -/
theorem le_define (world : World) (address : Nat) {name : String} (value : Value)
    (free : ¬ Reserved name)
    : world ≤ world.define address name value where
  openings _ _ := id
  bound _ _ bound := (bound_define ..).2 (.inr bound)
  reserved other key slot reserved found := by
    rw [define, Store.get?_setSlot, if_neg, found]
    intro same
    exact free (same.2.2 ▸ reserved)
  pending _ _ := .inr
  known _ := id
  declared _ _ _ := id

/-- A binding stops to be pending when it is there. -/
theorem le_awaiting {pending : Nat → String → Prop}
    (kept
      : ∀ address name,
          world.pending address name → world.Bound address name ∨ pending address name)
    : world ≤ world.awaiting pending where
  openings _ _ := id
  bound _ _ := id
  reserved _ _ _ _ := id
  pending := kept
  known _ := id
  declared _ _ _ := id

/-- A further table lets a world grow. -/
theorem le_open (world : World) (opening : Opening) (bindings : Bindings Value)
    : world ≤ world.open opening bindings where
  openings address found := by
    intro there
    rw [«open», List.getElem?_append_left (List.getElem?_eq_some_iff.1 there).1]
    exact there
  bound address name bound := by
    have inside : address ≠ world.store.tables.size := by
      rintro rfl
      simp [Bound, Table.has, Store.get?_outside _ (Nat.le_refl _)] at bound
    simpa [Bound, «open», Store.table_add, inside] using bound
  reserved address name slot _ found := by
    have inside : address ≠ world.store.tables.size := by
      rintro rfl
      simp [Store.get?_outside _ (Nat.le_refl _)] at found
    simpa [«open», Store.table_add, inside] using found
  pending _ _ := .inr
  known _ := id
  declared _ _ _ := id

/-- What was made is in the store. -/
theorem Fits.inside (h : world.Fits instances) {address : Nat} {opening : Opening}
    (opened : world.openings[address]? = some opening)
    : address < world.store.tables.size := by
  rw [← h.size]
  exact (List.getElem?_eq_some_iff.1 opened).1

/-- A name that its scope may bind is bound to a value that fits from then on. -/
theorem Fits.define (h : world.Fits instances) {address : Nat} {name : String} {value : Value}
    {opening : Opening} (free : ¬ Reserved name)
    (fits : (world.define address name value).FitsValue value)
    (opened : world.openings[address]? = some opening) (binds : opening.region.Binds name)
    : (world.define address name value).Fits instances := by
  have le := world.le_define address value free
  refine ⟨?_, ?_, ?_, ?_, ?_, h.globals, h.onlyGlobals⟩
  · rw [World.define, Store.size_setSlot]
    exact h.size
  · intro other key slot found
    rw [World.define, Store.get?_setSlot] at found
    split at found
    · cases found
      exact ⟨value, rfl, fits⟩
    · obtain ⟨old, rfl, fits⟩ := h.values other key slot found
      exact ⟨old, rfl, fits.mono le⟩
  · intro other key bound
    rcases (bound_define ..).1 bound with ⟨rfl, _, rfl⟩ | bound
    · exact ⟨opening, opened, binds⟩
    · exact h.names other key bound
  · intro object found there
    obtain ⟨fits, fields⟩ := h.objects object found there
    exact ⟨fits.mono le, fun field value given => (fields field value given).mono le⟩
  · intro other made there
    exact (h.receivers other made there).mono le (.refl instances) fun slot =>
      le.reserved other "this" slot (.inl rfl)

/-- What fits goes on to do so when more is known of the same tables. -/
theorem Fits.grown (h : world.Fits instances) (le : world ≤ later)
    (openings : later.openings = world.openings) (store : later.store = world.store)
    : later.Fits instances := by
  obtain ⟨size, values, names, objects, receivers, globals, onlyGlobals⟩ := h
  rw [← openings, ← store] at size
  simp only [Bound, ← openings, ← store] at values names receivers globals onlyGlobals
  refine ⟨size, ?_, names, ?_, ?_, globals, onlyGlobals⟩
  · intro address name slot found
    exact (values address name slot found).imp fun _ fits => fits.imp_right (·.mono le)
  · intro address object there
    obtain ⟨fits, fields⟩ := objects address object there
    exact ⟨fits.mono le, fun name value given => (fields name value given).mono le⟩
  · intro address opening there
    exact (receivers address opening there).mono le (.refl instances) fun _ => id

/-- What fits goes on to do so when fewer or more bindings are pending. -/
theorem Fits.awaiting (h : world.Fits instances) {pending : Nat → String → Prop}
    (le : world ≤ world.awaiting pending)
    : (world.awaiting pending).Fits instances :=
  h.grown le rfl rfl

/-- A declared class lets a world grow. -/
theorem le_declaring (world : World) (definition : ClassDecl) (made : Class)
    (closing : Environment)
    : world ≤ world.declaring definition made closing where
  openings _ _ := id
  bound _ _ := id
  reserved _ _ _ _ := id
  pending _ _ := .inr
  known _ := id
  declared _ _ _ := .inl

theorem Fits.declaring (h : world.Fits instances) (definition : ClassDecl) (made : Class)
    (closing : Environment)
    : (world.declaring definition made closing).Fits instances :=
  h.grown (world.le_declaring definition made closing) rfl rfl

/-- A table is made for a scope, with names that the scope may bind and values that fit. -/
theorem Fits.open (h : world.Fits instances) {opening : Opening} {bindings : Bindings Value}
    (inner : opening.region ≠ .program)
    (values
      : ∀ name slot,
          bindings.get? name = some slot → ∃ value, slot = some value ∧ world.FitsValue value)
    (names : ∀ name, bindings.has name = true → opening.region.Binds name)
    (receiver : world.HasReceiver instances opening bindings)
    : (world.open opening bindings).Fits instances := by
  have le := world.le_open opening bindings
  refine ⟨?_, ?_, ?_, ?_, ?_, le.openings _ _ h.globals, ?_⟩
  · simp [World.open, h.size]
  · intro address name slot found
    rw [World.open, Store.table_add] at found
    split at found
    · obtain ⟨value, rfl, fits⟩ := values name slot found
      exact ⟨value, rfl, fits.mono le⟩
    · obtain ⟨value, rfl, fits⟩ := h.values address name slot found
      exact ⟨value, rfl, fits.mono le⟩
  · intro address name bound
    simp only [Bound, World.open, Store.table_add] at bound
    split at bound
    · next last =>
        refine ⟨opening, ?_, names name bound⟩
        simp [World.open, last, ← h.size]
    · obtain ⟨old, there, binds⟩ := h.names address name bound
      exact ⟨old, le.openings _ _ there, binds⟩
  · intro object found there
    obtain ⟨fits, fields⟩ := h.objects object found there
    exact ⟨fits.mono le, fun field value given => (fields field value given).mono le⟩
  · intro address other there
    rw [World.open, Store.table_add]
    simp only [World.open, List.getElem?_append] at there
    split at there
    · next inside =>
        rw [if_neg (h.size ▸ Nat.ne_of_lt inside)]
        exact (h.receivers address other there).mono le (.refl instances) fun _ => id
    · obtain ⟨inside, rfl⟩ := List.getElem?_eq_some_iff.1 there
      have last : address = world.store.tables.size := by
        simp only [List.length_singleton] at inside
        have size := h.size
        omega
      rw [if_pos last, List.getElem_singleton]
      exact receiver.mono le (.refl instances) fun _ => id
  · intro address other there program
    simp only [World.open, List.getElem?_append] at there
    split at there
    · exact h.onlyGlobals address other there program
    · obtain ⟨_, rfl⟩ := List.getElem?_eq_some_iff.1 there
      simp only [List.getElem_singleton] at program
      exact absurd program inner

/-- A name that is found among the globals is one that a program may bind. -/
theorem Fits.find_globals (h : world.Fits instances) {name : String} {address : Nat}
    (found : world.store.find .globals name = .ok address)
    : ∃ opening, world.openings[address]? = some opening ∧ opening.region.Binds name := by
  unfold Store.find Environment.chain Environment.globals Store.home? at found
  by_cases bound : (world.store.table 0).has name = true
  · simp only [bound, if_true] at found
    cases found
    exact h.names 0 name bound
  · simp [bound, Store.home?] at found

/-- A new table stands for the scope that it was made for, inside the chain it was made in. -/
theorem Stands.open {chain : List Nat} {frames : List Frame} (h : world.Stands chain frames)
    (fits : world.Fits instances) (frame : Frame) {bindings : Bindings Value}
    (bound
      : ∀ entry ∈ frame.names, frame.region.Binds entry.1 ∧ bindings.has entry.1 = true)
    : (world.open ⟨frame.region, chain⟩ bindings).Stands (world.store.tables.size :: chain)
        (frame :: frames) := by
  refine ⟨?_, fun entry member => ⟨(bound entry member).1, .inl ?_⟩, h.mono (world.le_open _ _)⟩
  · simp [World.open, ← fits.size]
  · simpa [Bound, World.open, Store.table_add] using (bound entry member).2

end World
end Lox
