import Lox.Table

/-!
Environments: chains of tables that bind names to values. Chains share tables, so tables live
in a store and an environment is the addresses of its own table and of those around it.
-/

namespace Lox

/-- Why the value of a name cannot be had. -/
inductive LookupError where
  /-- No table that may have the name has it. -/
  | undefined
  /-- The name is reserved, and has no value yet. -/
  | uninitialized
  /-- The chain ends before the distance is walked. -/
  | beyondChain
  /-- The name is found by its distance only, and has none. -/
  | unresolved
  deriving DecidableEq, Repr

/-- A chain of tables, by their addresses. -/
structure Environment where
  /-- The innermost table. -/
  table : Nat
  /-- The tables around it, from the inside out. -/
  outer : List Nat
  deriving DecidableEq, Repr

namespace Environment

/-- The addresses of the chain, the innermost first. -/
def chain (environment : Environment) : List Nat := environment.table :: environment.outer

/-- The environment some links further out, if the chain goes that far. -/
def ancestor? (environment : Environment) : (distance : Nat) → Option Environment
  | 0 => some environment
  | distance + 1 =>
    match environment.outer with
    | [] => none
    | table :: outer => ancestor? ⟨table, outer⟩ distance

/-- The address of the table that is some links out. -/
def tableAt (environment : Environment) (distance : Nat) : Except LookupError Nat :=
  match environment.ancestor? distance with
  | some target => .ok target.table
  | none => .error .beyondChain

end Environment

/-- The names of one table. A name without a value is reserved. -/
abbrev Bindings (α : Type) := Table String (Option α)

/-- All tables, by address. -/
structure Store (α : Type) where
  tables : Array (Bindings α)

namespace Store

variable {α : Type}

/-- The store without tables. -/
def empty : Store α := ⟨#[]⟩

/-- The table at an address. -/
def table (store : Store α) (address : Nat) : Bindings α := store.tables[address]?.getD .empty

/-- Adds a table; its address is the number of tables before it. -/
def add (store : Store α) (bindings : Bindings α) : Store α := ⟨store.tables.push bindings⟩

/-- The environment that an added table makes by itself. -/
def nextRoot (store : Store α) : Environment := ⟨store.tables.size, []⟩

/-- The environment that an added table makes inside another. -/
def nextInside (store : Store α) (outer : Environment) : Environment :=
  ⟨store.tables.size, outer.chain⟩

/-- Sets a slot of the table at an address. -/
def setSlot (store : Store α) (address : Nat) (name : String) (slot : Option α) : Store α :=
  ⟨store.tables.modify address (·.set name slot)⟩

/-- Binds a name in the innermost table. -/
def define (store : Store α) (environment : Environment) (name : String) (value : α) : Store α :=
  store.setSlot environment.table name (some value)

/-- Reserves a name in the innermost table. -/
def reserve (store : Store α) (environment : Environment) (name : String) : Store α :=
  store.setSlot environment.table name none

/-- The value of a name in one table. -/
def getHere (store : Store α) (address : Nat) (name : String) : Except LookupError α :=
  match (store.table address).get? name with
  | some (some value) => .ok value
  | some none => .error .uninitialized
  | none => .error .undefined

/-- The first table of a chain that has a name. -/
def home? (store : Store α) (name : String) : List Nat → Option Nat
  | [] => none
  | address :: outer =>
    if (store.table address).has name then some address else home? store name outer

/-- The address of the first table of the chain that has a name. -/
def find (store : Store α) (environment : Environment) (name : String) :
    Except LookupError Nat :=
  match store.home? name environment.chain with
  | some address => .ok address
  | none => .error .undefined

/-- The value of a name in the first table of the chain that has it. -/
def get (store : Store α) (environment : Environment) (name : String) : Except LookupError α :=
  match store.find environment name with
  | .ok address => store.getHere address name
  | .error error => .error error

/-- Overwrites a name in the first table of the chain that has it. -/
def assign (store : Store α) (environment : Environment) (name : String) (value : α) :
    Except LookupError (Store α) :=
  match store.find environment name with
  | .ok address => .ok (store.setSlot address name (some value))
  | .error error => .error error

/-- The value of a name in the table that is some links out. -/
def getAt (store : Store α) (environment : Environment) (distance : Nat) (name : String) :
    Except LookupError α :=
  match environment.tableAt distance with
  | .ok address => store.getHere address name
  | .error error => .error error

/-- Binds a name in the table that is some links out. -/
def assignAt (store : Store α) (environment : Environment) (distance : Nat) (name : String)
    (value : α) : Except LookupError (Store α) :=
  match environment.tableAt distance with
  | .ok address => .ok (store.setSlot address name (some value))
  | .error error => .error error

end Store

end Lox
