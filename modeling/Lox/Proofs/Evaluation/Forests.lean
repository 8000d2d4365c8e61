import Lox.Proofs.Evaluation.Worlds

/-! Forests of environments: what may be made and changed step by step, with chains that share
their tails. A name is read and assigned in the first table of a chain that has it, and every
operation changes one slot of one table. A change is therefore seen through those chains on which
the changed table is the first that has the name, and through no other.
-/

namespace Lox

/-- What a lookup comes to, with its failure told at a token. -/
def LookupError.told {β : Type} (token : Token) : Except LookupError β → Except Interruption β
  | .ok value => .ok value
  | .error error => .error (error.interruption token)

theorem LookupError.told_undefined {β : Type} {token : Token} {found : Except LookupError β}
    : told token found = .error (.fault ⟨token, .undefinedVariable token.lexeme⟩)
      ↔ found = .error .undefined := by
  cases found with
  | ok value => simp [told]
  | error error => cases error <;> simp [told, interruption]

theorem LookupError.told_uninitialized {β : Type} {token : Token} {found : Except LookupError β}
    : told token found = .error (.fault ⟨token, .uninitializedVariable token.lexeme⟩)
      ↔ found = .error .uninitialized := by
  cases found with
  | ok value => simp [told]
  | error error => cases error <;> simp [told, interruption]

namespace Store

variable {α : Type}

-----------------------------------------------------------------------------------------
-- The first table of a chain that has a name
-----------------------------------------------------------------------------------------

/-- The table some links out on a chain has a name, and those nearer do not have it. -/
structure First (store : Store α) (name : String) (chain : List Nat) (distance address : Nat)
    : Prop where
  there : chain[distance]? = some address
  has : (store.table address).has name = true
  nearer
    : ∀ nearer other,
        nearer < distance → chain[nearer]? = some other → (store.table other).has name = false

variable {store later : Store α} {environment : Environment} {name : String} {chain : List Nat}
  {distance address : Nat} {slot : Option α}

theorem First.cons (h : store.First name chain distance address) {next : Nat}
    (absent : (store.table next).has name = false)
    : store.First name (next :: chain) (distance + 1) address where
  there := h.there
  has := h.has
  nearer nearer other below there := by
    cases nearer with
    | zero =>
        cases there
        exact absent
    | succ nearer => exact h.nearer nearer other (Nat.lt_of_succ_lt_succ below) there

/-- Walking the chain ends at the first table that has the name, by induction over the chain. -/
theorem home?_eq_some
    : store.home? name chain = some address
      ↔ ∃ distance, store.First name chain distance address := by
  induction chain with
  | nil =>
      constructor
      · intro found
        cases found
      · intro found
        obtain ⟨distance, first⟩ := found
        cases first.there
  | cons next outer ih =>
      cases has : (store.table next).has name with
      | true =>
          simp only [home?, has, if_true, Option.some.injEq]
          constructor
          · intro same
            subst same
            exact ⟨0, rfl, has, fun _ _ below => absurd below (Nat.not_lt_zero _)⟩
          · intro found
            obtain ⟨distance, first⟩ := found
            cases distance with
            | zero => exact Option.some.inj first.there
            | succ distance => simp [first.nearer 0 next (Nat.succ_pos distance) rfl] at has
      | false =>
          simp only [home?, has, Bool.false_eq_true, if_false, ih]
          constructor
          · intro found
            obtain ⟨distance, first⟩ := found
            exact ⟨distance + 1, first.cons has⟩
          · intro found
            obtain ⟨distance, first⟩ := found
            cases distance with
            | zero =>
                cases first.there
                simp [first.has] at has
            | succ distance =>
                exact ⟨distance, first.there, first.has, fun nearer other below =>
                  first.nearer (nearer + 1) other (Nat.succ_lt_succ below)⟩

theorem home?_eq_none
    : store.home? name chain = none
      ↔ ∀ address ∈ chain, (store.table address).has name = false := by
  induction chain with
  | nil => simp [home?]
  | cons next outer ih => cases has : (store.table next).has name <;> simp [home?, has, ih]

/-- Some table of a chain has a name, or none of them. -/
theorem home?_isSome
    : (∃ address, store.home? name chain = some address)
      ↔ ∃ address ∈ chain, (store.table address).has name = true := by
  rw [← Option.ne_none_iff_exists', Ne, home?_eq_none]
  simp

theorem First.home? (h : store.First name chain distance address)
    : store.home? name chain = some address :=
  home?_eq_some.2 ⟨distance, h⟩

theorem First.find (h : store.First name environment.chain distance address)
    : store.find environment name = .ok address := by
  simp only [Store.find, h.home?]

theorem First.get (h : store.First name environment.chain distance address)
    : store.get environment name = store.getHere address name := by
  simp only [Store.get, h.find]

/-- A table that has a name has a slot for it. -/
theorem First.exists_slot (h : store.First name chain distance address)
    : ∃ slot, (store.table address).get? name = some slot :=
  Option.isSome_iff_exists.1 h.has

/-- What is read in a slot: its value, if it has one. -/
def answer : Option α → Except LookupError α
  | some value => .ok value
  | none => .error .uninitialized

theorem getHere_slot (found : (store.table address).get? name = some slot)
    : store.getHere address name = answer slot := by
  cases slot <;> simp only [getHere, found, answer]

theorem answer_inj {other : Option α}
    : answer slot = answer other ↔ slot = other := by
  cases slot <;> cases other <;> simp [answer]

/-- A name is undefined exactly if no table of the chain has it. -/
theorem get_eq_undefined
    : store.get environment name = .error .undefined
      ↔ ∀ address ∈ environment.chain, (store.table address).has name = false := by
  rw [← home?_eq_none]
  constructor
  · intro failed
    cases home : store.home? name environment.chain with
    | none => rfl
    | some address =>
        obtain ⟨distance, first⟩ := home?_eq_some.1 home
        obtain ⟨slot, found⟩ := first.exists_slot
        rw [first.get, getHere_slot found] at failed
        cases slot <;> cases failed
  · intro absent
    simp only [get, find, absent]

/-- What is read of a name is in the slot of the first table that has it. -/
theorem get_eq_answer (slot : Option α)
    : store.get environment name = answer slot
      ↔ ∃ distance address,
          store.First name environment.chain distance address
          ∧ (store.table address).get? name = some slot := by
  constructor
  · intro read
    cases home : store.home? name environment.chain with
    | none =>
        rw [get_eq_undefined.2 (home?_eq_none.1 home)] at read
        cases slot <;> cases read
    | some address =>
        obtain ⟨distance, first⟩ := home?_eq_some.1 home
        obtain ⟨there, found⟩ := first.exists_slot
        rw [first.get, getHere_slot found, answer_inj] at read
        exact ⟨distance, address, first, read ▸ found⟩
  · intro holds
    obtain ⟨distance, address, first, found⟩ := holds
    rw [first.get, getHere_slot found]

-----------------------------------------------------------------------------------------
-- Setting one slot
-----------------------------------------------------------------------------------------

/-- A store has come out of another by setting one slot of one table. -/
structure Sets (store later : Store α) (address : Nat) (name : String) (slot : Option α)
    : Prop where
  inside : address < store.tables.size
  size : later.tables.size = store.tables.size
  changed : (later.table address).get? name = some slot
  kept
    : ∀ other key,
        ¬ (other = address ∧ key = name)
        → (later.table other).get? key = (store.table other).get? key

theorem sets_setSlot (inside : address < store.tables.size) (name : String) (slot : Option α)
    : store.Sets (store.setSlot address name slot) address name slot where
  inside := inside
  size := store.size_setSlot address name slot
  changed := by rw [get?_setSlot, if_pos ⟨rfl, inside, rfl⟩]
  kept other key apart := by
    rw [get?_setSlot, if_neg fun same => apart ⟨same.1, same.2.2⟩]

namespace Sets

variable (h : store.Sets later address name slot)
include h

theorem has_changed
    : (later.table address).has name = true := by
  rw [Table.has, h.changed, Option.isSome_some]

theorem has_kept {other : Nat} {key : String} (apart : ¬ (other = address ∧ key = name))
    : (later.table other).has key = (store.table other).has key := by
  rw [Table.has, h.kept other key apart, Table.has]

theorem getHere_kept {other : Nat} {key : String} (apart : ¬ (other = address ∧ key = name))
    : later.getHere other key = store.getHere other key := by
  simp only [getHere, h.kept other key apart]

/-- A name that is not found in the changed table is found where it was, by induction over the
chain.
-/
theorem home?_kept {key : String} {chain : List Nat}
    (elsewhere : ¬ (later.home? key chain = some address ∧ key = name))
    : later.home? key chain = store.home? key chain := by
  induction chain with
  | nil => rfl
  | cons next outer ih =>
      have apart : ¬ (next = address ∧ key = name) := by
        intro both
        obtain ⟨nextSame, keySame⟩ := both
        subst nextSame keySame
        exact elsewhere ⟨by rw [home?, if_pos h.has_changed], rfl⟩
      rw [home?, home?, h.has_kept apart]
      split
      · rfl
      · next absent =>
          rw [home?, h.has_kept apart, if_neg absent] at elsewhere
          exact ih elsewhere

/-- A change is not seen where the name is not found in the changed table. -/
theorem get_kept {environment : Environment} {key : String}
    (elsewhere : ¬ (later.home? key environment.chain = some address ∧ key = name))
    : later.get environment key = store.get environment key := by
  have home := h.home?_kept elsewhere
  simp only [get, find, ← home]
  cases found : later.home? key environment.chain with
  | none => rfl
  | some other =>
      refine h.getHere_kept fun same => elsewhere ?_
      rw [found, same.1]
      exact ⟨rfl, same.2⟩

/-- A change is seen where the changed table is the first that has the name. -/
theorem get_changed {environment : Environment} {distance : Nat}
    (first : later.First name environment.chain distance address)
    : later.get environment name = answer slot :=
  first.get.trans (getHere_slot h.changed)

end Sets

-----------------------------------------------------------------------------------------
-- The laws of one environment
-----------------------------------------------------------------------------------------

theorem tableAt_eq_ok
    : environment.tableAt distance = .ok address ↔ environment.chain[distance]? = some address := by
  rw [← environment.map_ancestor? distance, Environment.tableAt]
  cases environment.ancestor? distance <;> simp

theorem First.getAt (h : store.First name environment.chain distance address)
    : store.getAt environment distance name = store.get environment name := by
  simp only [Store.getAt, tableAt_eq_ok.2 h.there, h.get]

theorem First.assign (h : store.First name environment.chain distance address) (value : α)
    : store.assign environment name value = .ok (store.setSlot address name (some value)) := by
  simp only [Store.assign, h.find]

theorem First.assignAt (h : store.First name environment.chain distance address) (value : α)
    : store.assignAt environment distance name value = store.assign environment name value := by
  simp only [Store.assignAt, tableAt_eq_ok.2 h.there, h.assign]

/-- Assigning is setting the slot of the first table that has the name. -/
theorem assign_eq_ok {value : α}
    : store.assign environment name value = .ok later
      ↔ ∃ distance address,
          store.First name environment.chain distance address
          ∧ later = store.setSlot address name (some value) := by
  constructor
  · intro done
    cases home : store.home? name environment.chain with
    | none =>
        simp only [assign, find, home] at done
        cases done
    | some address =>
        obtain ⟨distance, first⟩ := home?_eq_some.1 home
        rw [first.assign] at done
        exact ⟨distance, address, first, (Except.ok.inj done).symm⟩
  · intro holds
    obtain ⟨distance, address, first, same⟩ := holds
    rw [first.assign, same]

/-- Assigning at a distance is setting the slot of the table that is so far out. -/
theorem assignAt_eq_ok {value : α}
    : store.assignAt environment distance name value = .ok later
      ↔ ∃ address,
          environment.chain[distance]? = some address
          ∧ later = store.setSlot address name (some value) := by
  simp only [← tableAt_eq_ok, assignAt]
  cases environment.tableAt distance <;> simp [eq_comm]

theorem assign_eq_undefined {value : α}
    : store.assign environment name value = .error .undefined
      ↔ ∀ address ∈ environment.chain, (store.table address).has name = false := by
  rw [← home?_eq_none]
  simp only [assign, find]
  cases store.home? name environment.chain <;> simp

/-- What the operations of a store do through an environment. -/
structure Obeys (store : Store α) (environment : Environment) : Prop where
  /-- A value is read exactly if the first table with the name has it there. -/
  get_value
    : ∀ name value,
        store.get environment name = .ok value
        ↔ ∃ distance address,
            store.First name environment.chain distance address
            ∧ (store.table address).get? name = some (some value)
  /-- A name is told to be uninitialized exactly if it is only reserved there. -/
  get_reserved
    : ∀ token : Token,
        LookupError.told token (store.get environment token.lexeme)
          = .error (.fault ⟨token, .uninitializedVariable token.lexeme⟩)
        ↔ ∃ distance address,
            store.First token.lexeme environment.chain distance address
            ∧ (store.table address).get? token.lexeme = some none
  /-- A name is told to be undefined exactly if no table has it. -/
  get_undefined
    : ∀ token : Token,
        LookupError.told token (store.get environment token.lexeme)
          = .error (.fault ⟨token, .undefinedVariable token.lexeme⟩)
        ↔ ∀ address ∈ environment.chain, (store.table address).has token.lexeme = false
  /-- Assigning succeeds exactly if some table has the name. -/
  assign_succeeds
    : ∀ name value,
        (∃ later, store.assign environment name value = .ok later)
        ↔ ∃ address ∈ environment.chain, (store.table address).has name = true
  /-- Assigning sets the slot of the first table with the name, and no other. -/
  assign_sets
    : ∀ name value later,
        store.assign environment name value = .ok later
        → ∃ distance address,
            store.First name environment.chain distance address
            ∧ store.Sets later address name (some value)
  /-- Assigning fails with the same words as reading. -/
  assign_undefined
    : ∀ (token : Token) value,
        LookupError.told token (store.assign environment token.lexeme value)
          = .error (.fault ⟨token, .undefinedVariable token.lexeme⟩)
        ↔ ∀ address ∈ environment.chain, (store.table address).has token.lexeme = false
  define_sets
    : ∀ name value,
        store.Sets (store.define environment name value) environment.table name (some value)
  reserve_sets
    : ∀ name, store.Sets (store.reserve environment name) environment.table name none
  /-- Assigning at a distance succeeds exactly if it is within the chain. -/
  assignAt_succeeds
    : ∀ distance name value,
        (∃ later, store.assignAt environment distance name value = .ok later)
        ↔ distance < environment.chain.length
  /-- Assigning at a distance sets a slot of the table that is so far out. -/
  assignAt_sets
    : ∀ distance name value later,
        store.assignAt environment distance name value = .ok later
        → ∃ address,
            environment.chain[distance]? = some address
            ∧ store.Sets later address name (some value)
  getAt_first
    : ∀ name distance address,
        store.First name environment.chain distance address
        → store.getAt environment distance name = store.get environment name
  assignAt_first
    : ∀ name distance address value,
        store.First name environment.chain distance address
        → store.assignAt environment distance name value = store.assign environment name value

/-- The laws hold of an environment whose tables are all there. -/
theorem obeys (inside : ∀ address ∈ environment.chain, address < store.tables.size)
    : store.Obeys environment where
  get_value name value := get_eq_answer (some value)
  get_reserved token := LookupError.told_uninitialized.trans (get_eq_answer none)
  get_undefined token := LookupError.told_undefined.trans get_eq_undefined
  assign_succeeds name value := by
    rw [← home?_isSome]
    constructor
    · intro succeeds
      obtain ⟨later, done⟩ := succeeds
      obtain ⟨distance, address, first, _⟩ := assign_eq_ok.1 done
      exact ⟨address, first.home?⟩
    · intro holds
      obtain ⟨address, home⟩ := holds
      obtain ⟨distance, first⟩ := home?_eq_some.1 home
      exact ⟨_, first.assign value⟩
  assign_sets name value later done := by
    obtain ⟨distance, address, first, same⟩ := assign_eq_ok.1 done
    subst same
    exact ⟨distance, address, first,
      sets_setSlot (inside address (List.mem_of_getElem? first.there)) name _⟩
  assign_undefined token value := LookupError.told_undefined.trans assign_eq_undefined
  define_sets name value := sets_setSlot (inside environment.table List.mem_cons_self) name _
  reserve_sets name := sets_setSlot (inside environment.table List.mem_cons_self) name _
  assignAt_succeeds distance name value := by
    constructor
    · intro succeeds
      obtain ⟨later, done⟩ := succeeds
      obtain ⟨address, there, _⟩ := assignAt_eq_ok.1 done
      exact (List.getElem?_eq_some_iff.1 there).1
    · intro within
      exact ⟨_, assignAt_eq_ok.2 ⟨_, List.getElem?_eq_getElem within, rfl⟩⟩
  assignAt_sets distance name value later done := by
    obtain ⟨address, there, same⟩ := assignAt_eq_ok.1 done
    subst same
    exact ⟨address, there, sets_setSlot (inside address (List.mem_of_getElem? there)) name _⟩
  getAt_first _ _ _ first := first.getAt
  assignAt_first _ _ _ value first := first.assignAt value

end Store

-----------------------------------------------------------------------------------------
-- Forests and their steps
-----------------------------------------------------------------------------------------

/-- A change of a store that is asked for through an environment. -/
inductive Change (α : Type) where
  | define (name : String) (value : α)
  | reserve (name : String)
  | assign (name : String) (value : α)
  | assignAt (distance : Nat) (name : String) (value : α)

/-- The name that is to be changed. -/
def Change.name {α : Type} : Change α → String
  | .define name _ | .reserve name | .assign name _ | .assignAt _ name _ => name

/-- Makes a change through an environment. -/
def Change.run {α : Type} (store : Store α) (environment : Environment)
    : Change α → Except LookupError (Store α)
  | .define name value => .ok (store.define environment name value)
  | .reserve name => .ok (store.reserve environment name)
  | .assign name value => store.assign environment name value
  | .assignAt distance name value => store.assignAt environment distance name value

/-- A change that is made sets one slot of one table of the chain. -/
theorem Store.Obeys.exists_sets {α : Type} {store later : Store α} {environment : Environment}
    {change : Change α} (h : store.Obeys environment)
    (done : change.run store environment = .ok later)
    : ∃ address ∈ environment.chain, ∃ slot, store.Sets later address change.name slot := by
  cases change with
  | define name value =>
      cases done
      exact ⟨environment.table, List.mem_cons_self, some value, h.define_sets name value⟩
  | reserve name =>
      cases done
      exact ⟨environment.table, List.mem_cons_self, none, h.reserve_sets name⟩
  | assign name value =>
      obtain ⟨distance, address, first, sets⟩ := h.assign_sets name value later done
      exact ⟨address, List.mem_of_getElem? first.there, some value, sets⟩
  | assignAt distance name value =>
      obtain ⟨address, there, sets⟩ := h.assignAt_sets distance name value later done
      exact ⟨address, List.mem_of_getElem? there, some value, sets⟩

/-- A step on a forest. An environment is called by the number of those made before it. -/
inductive ForestStep (α : Type) where
  | new
  | child (outer : Nat)
  | change (environment : Nat) (change : Change α)

/-- Environments in the order in which they were made, and the store of their tables. -/
structure Forest (α : Type) where
  environments : List Environment
  store : Store α

namespace Forest

variable {α : Type}

/-- The forest without environments. -/
def empty : Forest α := ⟨[], .empty⟩

/-- Adds an environment and an empty table of its own. -/
def grow (forest : Forest α) (added : Environment) : Forest α :=
  ⟨forest.environments ++ [added], forest.store.add .empty⟩

/-- Takes a step. A step fails without effect if there is no such environment, or if the change
cannot be made through it.
-/
def take (forest : Forest α) : ForestStep α → Forest α
  | .new => forest.grow forest.store.nextRoot
  | .child outer =>
    match forest.environments[outer]? with
    | some environment => forest.grow (forest.store.nextInside environment)
    | none => forest
  | .change number change =>
    match forest.environments[number]? with
    | some environment =>
      match change.run forest.store environment with
      | .ok store => { forest with store }
      | .error _ => forest
    | none => forest

/-- The forest after some steps. -/
def build (steps : List (ForestStep α)) : Forest α := steps.foldl take empty

/-- An environment with a number: it has the table of that number, and the tables around it are
those of an earlier environment, or there are none.
-/
def Linked (forest : Forest α) (number : Nat) (environment : Environment) : Prop :=
  environment.table = number
  ∧ (environment.outer = []
    ∨ ∃ earlier enclosing,
        earlier < number
        ∧ forest.environments[earlier]? = some enclosing
        ∧ environment.outer = enclosing.chain)

/-- There are as many tables as environments, and chains lead from an environment to earlier
ones.
-/
structure Sound (forest : Forest α) : Prop where
  size : forest.store.tables.size = forest.environments.length
  linked
    : ∀ number environment,
        forest.environments[number]? = some environment → forest.Linked number environment

variable {forest : Forest α}

/-- Chains lead to earlier tables, by induction over the number of the environment. -/
theorem Sound.le_number (h : forest.Sound) {number : Nat} {environment : Environment}
    (there : forest.environments[number]? = some environment)
    : ∀ address ∈ environment.chain, address ≤ number := by
  induction number using Nat.strongRecOn generalizing environment with
  | ind number ih =>
      obtain ⟨own, around⟩ := h.linked number environment there
      intro address member
      obtain same | further := List.mem_cons.1 member
      · exact Nat.le_of_eq (same.trans own)
      · obtain none | ⟨earlier, enclosing, below, thereToo, same⟩ := around
        · rw [none] at further
          cases further
        · rw [same] at further
          exact Nat.le_trans (ih earlier below thereToo address further) (Nat.le_of_lt below)

theorem Sound.inside (h : forest.Sound) {environment : Environment}
    (member : environment ∈ forest.environments)
    : ∀ address ∈ environment.chain, address < forest.store.tables.size := by
  intro address further
  obtain ⟨number, there⟩ := List.mem_iff_getElem?.1 member
  have within : number < forest.environments.length := (List.getElem?_eq_some_iff.1 there).1
  exact h.size ▸ Nat.lt_of_le_of_lt (h.le_number there address further) within

theorem sound_empty
    : (empty : Forest α).Sound where
  size := rfl
  linked _ _ there := by cases there

/-- Links last when an environment is added. -/
theorem Linked.grow {number : Nat} {environment : Environment}
    (h : forest.Linked number environment) (added : Environment)
    : (forest.grow added).Linked number environment := by
  obtain ⟨own, none | ⟨earlier, enclosing, below, there, same⟩⟩ := h
  · exact ⟨own, .inl none⟩
  · have within := (List.getElem?_eq_some_iff.1 there).1
    exact ⟨own, .inr ⟨earlier, enclosing, below, (List.getElem?_append_left within).trans there,
      same⟩⟩

/-- A forest stays sound when an environment is added that is linked to what there was. -/
theorem Sound.grow (h : forest.Sound) {added : Environment}
    (linked : forest.Linked forest.environments.length added)
    : (forest.grow added).Sound where
  size := by
    rw [Forest.grow, Store.size_add, h.size, List.length_append, List.length_singleton]
  linked number environment there := by
    refine Linked.grow ?_ added
    obtain within | last := Nat.lt_or_ge number forest.environments.length
    · rw [Forest.grow, List.getElem?_append_left within] at there
      exact h.linked number environment there
    · rw [Forest.grow, List.getElem?_append_right last, List.getElem?_singleton] at there
      split at there
      · next zero =>
          cases there
          rwa [Nat.le_antisymm (Nat.sub_eq_zero_iff_le.1 zero) last]
      · cases there

/-- The laws hold of every environment of a sound forest. -/
theorem Sound.obeys (h : forest.Sound) {environment : Environment}
    (member : environment ∈ forest.environments)
    : forest.store.Obeys environment :=
  Store.obeys (h.inside member)

/-- A forest stays sound when its tables change. -/
theorem Sound.put (h : forest.Sound) {store : Store α}
    (size : store.tables.size = forest.store.tables.size)
    : Sound { forest with store } where
  size := size.trans h.size
  linked := h.linked

/-- A step keeps a forest sound. -/
theorem Sound.take (h : forest.Sound) (step : ForestStep α)
    : (forest.take step).Sound := by
  cases step with
  | new => exact h.grow ⟨h.size, .inl rfl⟩
  | child outer =>
      simp only [Forest.take]
      cases there : forest.environments[outer]? with
      | none => exact h
      | some environment =>
          have within := (List.getElem?_eq_some_iff.1 there).1
          exact h.grow ⟨h.size, .inr ⟨outer, environment, within, there, rfl⟩⟩
  | change number change =>
      simp only [Forest.take]
      split
      · next environment there =>
          split
          · next later done =>
              have member := List.mem_of_getElem? there
              obtain ⟨_, _, _, sets⟩ := (h.obeys member).exists_sets done
              exact h.put sets.size
          · exact h
      · exact h

/-- Every forest that is built is sound, by induction over the steps. -/
theorem sound_build (steps : List (ForestStep α))
    : (build steps).Sound := by
  have along (forest : Forest α) (h : forest.Sound) : (steps.foldl Forest.take forest).Sound := by
    induction steps generalizing forest with
    | nil => exact h
    | cons step rest ih => exact ih (forest.take step) (h.take step)
  exact along empty sound_empty

-----------------------------------------------------------------------------------------
-- The laws of a forest
-----------------------------------------------------------------------------------------

/-- The laws of the environments of a forest, which share tables. -/
structure Lawful (forest : Forest α) : Prop where
  /-- What each operation does through one environment. -/
  obeys : ∀ environment ∈ forest.environments, forest.store.Obeys environment
  /-- A change that can be made sets one slot of one table of the chain. -/
  made
    : ∀ number environment change later,
        forest.environments[number]? = some environment
        → Change.run forest.store environment change = .ok later
        → forest.take (.change number change) = { forest with store := later }
          ∧ ∃ address ∈ environment.chain, ∃ slot,
              forest.store.Sets later address change.name slot
  /-- A change that fails leaves the forest as it is. -/
  failed
    : ∀ number environment change error,
        forest.environments[number]? = some environment
        → Change.run forest.store environment change = .error error
        → forest.take (.change number change) = forest
  /-- A change is seen through an environment if the changed table is then the first with the
  name on its chain.
  -/
  seen
    : ∀ later address name slot,
        forest.store.Sets later address name slot
        → ∀ environment ∈ forest.environments, ∀ distance,
            later.First name environment.chain distance address
            → later.get environment name = Store.answer slot
  /-- Through other environments, and for other names, it is not seen. -/
  unseen
    : ∀ later address name slot,
        forest.store.Sets later address name slot
        → ∀ environment ∈ forest.environments, ∀ key,
            ¬ (key = name ∧ ∃ distance, later.First name environment.chain distance address)
            → later.get environment key = forest.store.get environment key

theorem take_change {number : Nat} {environment : Environment} {change : Change α}
    (there : forest.environments[number]? = some environment)
    : forest.take (.change number change)
      = match change.run forest.store environment with
        | .ok store => { forest with store }
        | .error _ => forest := by
  simp only [take, there]

/-- Sound forests obey the laws. -/
theorem Sound.lawful (h : forest.Sound)
    : forest.Lawful where
  obeys environment member := h.obeys member
  made number environment change later there done := by
    have member := List.mem_of_getElem? there
    exact ⟨by rw [take_change there, done], (h.obeys member).exists_sets done⟩
  failed number environment change error there failed := by
    rw [take_change there, failed]
  seen later address name slot sets environment _ distance first := sets.get_changed first
  unseen later address name slot sets environment _ key elsewhere := by
    refine sets.get_kept ?_
    intro both
    obtain ⟨home, same⟩ := both
    subst same
    exact elsewhere ⟨rfl, Store.home?_eq_some.1 home⟩

/-- Whatever steps a forest is built by, reading and changing names in it obeys the laws. -/
theorem build_lawful (steps : List (ForestStep α))
    : (build steps).Lawful :=
  (sound_build steps).lawful

/-- What is assigned through one child is seen through the other, unless it has the name itself. -/
example
    : let forest := build
        [.new, .child 0, .child 0, .child 1, .change 0 (.define "a" 1), .change 2 (.reserve "a"),
          .change 3 (.assign "a" 2)]
      forest.environments.map (forest.store.get · "a")
      = [.ok 2, .ok 2, .error .uninitialized, .ok 2] := rfl

end Forest

end Lox
