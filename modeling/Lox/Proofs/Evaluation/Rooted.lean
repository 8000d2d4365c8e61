import Lox.Proofs.Evaluation.Soundness

/-! Rooted machines: every instance that a value refers to is there, every function that gives back
its receiver is closed by a table that binds `this` to an instance, the methods of classes give back
their receivers just if they have the name of an initializer, and each `this` is bound to a receiver
for which its table was made.
-/

namespace Lox

/-- What is read in a table is the value there. -/
theorem Store.getHere_eq_ok {α : Type} {store : Store α} {address : Nat} {name : String}
    {value : α}
    : store.getHere address name = .ok value
      ↔ (store.table address).get? name = some (some value) := by
  unfold getHere
  split <;> simp_all

-----------------------------------------------------------------------------------------
-- Receivers that stay bound
-----------------------------------------------------------------------------------------

/-- The instance is there. -/
def Value.Lives (instances : Array Instance) (value : Value) : Prop :=
  ∃ (address : Nat) (object : Instance),
    value = .instance address ∧ instances[address]? = some object

/-- The table at an address binds `this` to the receiver. -/
def Machine.Hosts (machine : Machine) (address : Nat) (receiver : Value) : Prop :=
  (machine.store.table address).get? "this" = some (some receiver)

/-- What `this` is bound to in a table stays, and instances go on to be of their classes. -/
structure Machine.Retains (machine after : Machine) : Prop where
  this
    : ∀ address slot,
        (machine.store.table address).get? "this" = some slot
        → (after.store.table address).get? "this" = some slot
  instances : KeepsClasses machine.instances after.instances

theorem Machine.Hosts.of_eq {machine later : Machine} {address : Nat} {receiver : Value}
    (h : machine.Hosts address receiver) (store : later.store = machine.store)
    : later.Hosts address receiver := by
  rw [Machine.Hosts, store]
  exact h

/-- The table at an address was made to bind a method to the receiver. -/
def History.Binds (history : History) (address : Nat) (receiver : Value) : Prop :=
  ∃ moment method outer machine,
    history moment
    ∧ moment.Does (.enter (.receiver method) outer (Table.empty.set "this" (some receiver))) machine
    ∧ machine.store.tables.size = address

namespace Machine.Retains

variable {machine later further : Machine}

theorem refl (machine : Machine) : machine.Retains machine := ⟨fun _ _ => id, .refl _⟩

theorem trans (h : machine.Retains later) (next : later.Retains further)
    : machine.Retains further where
  this address slot found := next.this address slot (h.this address slot found)
  instances address object there := by
    obtain ⟨kept, found, same⟩ := h.instances address object there
    obtain ⟨last, there, again⟩ := next.instances address kept found
    exact ⟨last, there, again.trans same⟩

/-- Tables and instances that stay as they are. -/
theorem of_eq (store : later.store = machine.store)
    (instances : later.instances = machine.instances)
    : machine.Retains later where
  this := by
    rw [store]
    exact fun _ _ => id
  instances := by
    rw [instances]
    exact .refl _

theorem alike (alike : later.Alike machine) : machine.Retains later :=
  of_eq alike.store alike.instances

theorem before (machine : Machine) (manner : Manner) : machine.Retains (manner.before machine) := by
  cases manner <;> exact of_eq rfl rfl

theorem after (machine left : Machine) (manner : Manner)
    : left.Retains (manner.after machine left) := by
  cases manner <;> exact of_eq rfl rfl

/-- Another name gets a value. -/
theorem setSlot (machine : Machine) (address : Nat) {name : String} (slot : Option Value)
    (other : name ≠ "this")
    : machine.Retains { machine with store := machine.store.setSlot address name slot } where
  this target found there := by
    rw [Store.get?_setSlot, if_neg fun same => other same.2.2.symm]
    exact there
  instances := .refl _

/-- There is nothing yet where a table is added. -/
theorem add (machine : Machine) (bindings : Bindings Value)
    : machine.Retains { machine with store := machine.store.add bindings } where
  this address slot found := by
    rw [Store.table_add, if_neg]
    · exact found
    · rintro rfl
      rw [Store.get?_outside machine.store (Nat.le_refl _)] at found
      cases found
  instances := .refl _

end Machine.Retains

theorem Value.Lives.mono {value : Value} {instances later : Array Instance}
    (h : value.Lives instances) (kept : KeepsClasses instances later)
    : value.Lives later := by
  obtain ⟨address, object, rfl, there⟩ := h
  obtain ⟨other, found, _⟩ := kept address object there
  exact ⟨address, other, rfl, found⟩

-----------------------------------------------------------------------------------------
-- Rooted values
-----------------------------------------------------------------------------------------

/-- A closure that gives back its receiver is closed by a table that binds `this` to an instance. -/
def Closure.Rooted (machine : Machine) (closure : Closure) : Prop :=
  closure.initializes = true
  → ∃ receiver,
      receiver.Lives machine.instances ∧ machine.Hosts closure.environment.table receiver

/-- The methods with the name of an initializer give back their receivers, and no others do. This is
about all that a class or one of its ancestors finds by a name.
-/
structure Class.Rooted (definition : Class) : Prop where
  methods
    : ∀ ancestor name method,
        definition.Descends ancestor
        → ancestor.findMethod? name = some method
        → (method.initializes = true ↔ name = initializerName)
  statics
    : ∀ ancestor name method,
        definition.Descends ancestor
        → ancestor.findStatic? name = some method
        → method.initializes = false

/-- The closures of a value are rooted, and an instance is there. -/
def Value.Rooted (machine : Machine) : Value → Prop
  | .function callee => callee.closure.Rooted machine
  | .class definition => definition.Rooted
  | .instance address => (Value.instance address).Lives machine.instances
  | .nil | .bool _ | .number _ | .string _ | .native _ => True

/-- Methods may be bound to the value. -/
def Value.IsReceiver (machine : Machine) (value : Value) : Prop :=
  (∃ definition, value = .class definition ∧ definition.Rooted) ∨ value.Lives machine.instances

/-- What a machine holds is rooted. Each `this` is bound to a receiver for which its table was made.
-/
structure Machine.Rooted (history : History) (machine : Machine) : Prop where
  values
    : ∀ (address : Nat) (name : String) (value : Value),
        (machine.store.table address).get? name = some (some value) → value.Rooted machine
  objects
    : ∀ (address : Nat) (object : Instance),
        machine.instances[address]? = some object
        → object.definition.Rooted
          ∧ ∀ name value, object.fields.get? name = some value → value.Rooted machine
  receivers
    : ∀ address slot,
        (machine.store.table address).get? "this" = some slot
        → ∃ receiver,
            slot = some receiver ∧ history.Binds address receiver ∧ receiver.IsReceiver machine

section

variable {history : History} {machine later : Machine} {value : Value} {closure : Closure}

theorem Closure.Rooted.mono (h : closure.Rooted machine) (retains : machine.Retains later)
    : closure.Rooted later := by
  intro initializes
  obtain ⟨receiver, lives, hosts⟩ := h initializes
  exact ⟨receiver, lives.mono retains.instances, retains.this _ _ hosts⟩

theorem Value.Rooted.mono (h : value.Rooted machine) (retains : machine.Retains later)
    : value.Rooted later := by
  cases value with
  | function callee => exact Closure.Rooted.mono h retains
  | «class» definition => exact h
  | «instance» address => exact Value.Lives.mono h retains.instances
  | nil | bool _ | number _ | string _ | native _ => trivial

theorem Value.IsReceiver.mono (h : value.IsReceiver machine) (retains : machine.Retains later)
    : value.IsReceiver later :=
  h.imp_right fun lives => lives.mono retains.instances

theorem Value.IsReceiver.rooted (h : value.IsReceiver machine) : value.Rooted machine := by
  rcases h with ⟨definition, rfl, rooted⟩ | ⟨address, object, rfl, there⟩
  · exact rooted
  · exact ⟨address, object, rfl, there⟩

/-- The ancestors of a rooted class are rooted. -/
theorem Class.Rooted.inherit {definition ancestor : Class} (h : definition.Rooted)
    (descends : definition.Descends ancestor)
    : ancestor.Rooted where
  methods further name method below := h.methods further name method (descends.trans below)
  statics further name method below := h.statics further name method (descends.trans below)

/-- Values that refer to nothing are rooted. -/
theorem Step.IsPlain.rooted (h : IsPlain value) (machine : Machine) : value.Rooted machine := by
  cases value <;> trivial

/-- A closure that gives back no receiver is rooted. -/
theorem Closure.rooted_of_plain (plain : closure.initializes = false) : closure.Rooted machine := by
  intro initializes
  cases plain.symm.trans initializes

namespace Machine.Rooted

/-- Tables and instances that stay as they are stay rooted. -/
theorem of_eq (h : machine.Rooted history) (store : later.store = machine.store)
    (instances : later.instances = machine.instances)
    : later.Rooted history where
  values address name value found := by
    rw [store] at found
    exact (h.values address name value found).mono (.of_eq store instances)
  objects address object there := by
    rw [instances] at there
    exact (h.objects address object there).imp_right fun fields name value had =>
      (fields name value had).mono (.of_eq store instances)
  receivers address slot found := by
    rw [store] at found
    obtain ⟨receiver, same, binds, may⟩ := h.receivers address slot found
    exact ⟨receiver, same, binds, may.mono (.of_eq store instances)⟩

theorem before (h : machine.Rooted history) (manner : Manner)
    : (manner.before machine).Rooted history := by
  cases manner <;> exact h.of_eq rfl rfl

theorem after {left : Machine} (h : left.Rooted history) (manner : Manner)
    : (manner.after machine left).Rooted history := by
  cases manner <;> exact h.of_eq rfl rfl

/-- More may have happened. -/
theorem mono {more : History} (h : machine.Rooted history)
    (longer : ∀ moment, history moment → more moment)
    : machine.Rooted more where
  values := h.values
  objects := h.objects
  receivers address slot found := by
    obtain ⟨receiver, same, ⟨moment, method, outer, state, came, does⟩, may⟩ :=
      h.receivers address slot found
    exact ⟨receiver, same, ⟨moment, method, outer, state, longer moment came, does⟩, may⟩

/-- A name other than `this` gets a rooted value. -/
theorem setSlot (h : machine.Rooted history) (address : Nat) {name : String}
    (other : name ≠ "this") (rooted : value.Rooted machine)
    : Machine.Rooted history
        { machine with store := machine.store.setSlot address name (some value) } := by
  have retains := Retains.setSlot machine address (some value) other
  refine ⟨fun target key found there => ?_, fun target object there => ?_,
    fun target slot there => ?_⟩
  · rw [Store.get?_setSlot] at there
    split at there
    · cases there
      exact rooted.mono retains
    · exact (h.values target key found there).mono retains
  · exact (h.objects target object there).imp_right fun fields key given had =>
      (fields key given had).mono retains
  · rw [Store.get?_setSlot, if_neg fun same => other same.2.2.symm] at there
    obtain ⟨receiver, same, binds, may⟩ := h.receivers target slot there
    exact ⟨receiver, same, binds, may.mono retains⟩

/-- A table is made with rooted values, and with a receiver if it binds `this`. -/
theorem add {bindings : Bindings Value} (h : machine.Rooted history)
    (values : ∀ name value, bindings.get? name = some (some value) → value.Rooted machine)
    (receivers
      : ∀ slot,
          bindings.get? "this" = some slot
          → ∃ receiver,
              slot = some receiver
              ∧ history.Binds machine.store.tables.size receiver
              ∧ receiver.IsReceiver machine)
    : Machine.Rooted history { machine with store := machine.store.add bindings } := by
  have retains := Retains.add machine bindings
  refine ⟨fun address name value there => ?_, fun address object there => ?_,
    fun address slot there => ?_⟩
  · rw [Store.table_add] at there
    split at there
    · exact (values name value there).mono retains
    · exact (h.values address name value there).mono retains
  · exact (h.objects address object there).imp_right fun fields key given had =>
      (fields key given had).mono retains
  · rw [Store.table_add] at there
    split at there
    · next new =>
        obtain ⟨receiver, same, binds, may⟩ := receivers slot there
        exact ⟨receiver, same, new ▸ binds, may.mono retains⟩
    · obtain ⟨receiver, same, binds, may⟩ := h.receivers address slot there
      exact ⟨receiver, same, binds, may.mono retains⟩

/-- The instances change to others of the same classes that are rooted. -/
theorem objects_of {instances : Array Instance} (h : machine.Rooted history)
    (kept : KeepsClasses machine.instances instances)
    (rooted
      : ∀ (address : Nat) (object : Instance),
          instances[address]? = some object
          → object.definition.Rooted
            ∧ ∀ name value, object.fields.get? name = some value → value.Rooted machine)
    : Machine.Rooted history { machine with instances } := by
  have retains : machine.Retains { machine with instances } := ⟨fun _ _ => id, kept⟩
  refine ⟨fun address name value there => (h.values address name value there).mono retains, ?_, ?_⟩
  · exact fun address object there => (rooted address object there).imp_right
      fun fields name value had => (fields name value had).mono retains
  · intro address slot there
    obtain ⟨receiver, same, binds, may⟩ := h.receivers address slot there
    exact ⟨receiver, same, binds, may.mono retains⟩

end Machine.Rooted

end

end Lox
