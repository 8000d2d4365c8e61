import Mathlib.Data.List.Induction
import Lox.Machine

/-! Histories of instances. Instances are only made and assigned to, so what is in a field is the
value that was last assigned to it.
-/

namespace Lox

-----------------------------------------------------------------------------------------
-- Changes of instances
-----------------------------------------------------------------------------------------

/-- A field of the instance at an address is given a value. -/
structure Assignment where
  address : Nat
  name : String
  value : Value

/-- The instances after an assignment. -/
def Assignment.apply (assignment : Assignment) (instances : Array Instance) : Array Instance :=
  instances.modify assignment.address fun object =>
    { object with fields := object.fields.set assignment.name assignment.value }

/-- What can happen to instances. -/
inductive InstanceChange where
  /-- An instance without fields is added. -/
  | make (definition : Class)
  | assign (assignment : Assignment)

namespace InstanceChange

/-- The instances after a change. -/
def apply : InstanceChange → Array Instance → Array Instance
  | make definition, instances => instances.push ⟨definition, .empty⟩
  | assign assignment, instances => assignment.apply instances

/-- The instances after changes in order. -/
def applyAll (changes : List InstanceChange) (instances : Array Instance) : Array Instance :=
  changes.foldl (fun instances change => change.apply instances) instances

theorem applyAll_append (changes more : List InstanceChange) (instances : Array Instance)
    : applyAll (changes ++ more) instances = applyAll more (applyAll changes instances) :=
  List.foldl_append

/-- The instances that there are after some changes, where there were none before. -/
def build (history : List InstanceChange) : Array Instance := applyAll history #[]

theorem build_append (history more : List InstanceChange)
    : build (history ++ more) = applyAll more (build history) :=
  applyAll_append history more #[]

theorem build_concat (history : List InstanceChange) (change : InstanceChange)
    : build (history ++ [change]) = change.apply (build history) :=
  build_append history [change]

/-- A value is the last that was assigned to a field of an instance since it was there. -/
def Last (history : List InstanceChange) (address : Nat) (name : String) (value : Value) : Prop :=
  ∃ before after,
    history = before ++ assign ⟨address, name, value⟩ :: after
    ∧ address < (build before).size
    ∧ ∀ other, assign ⟨address, name, other⟩ ∉ after

end InstanceChange

namespace Step

/-- A field is set as by an assignment. -/
theorem setField_eq (assignment : Assignment) (machine : Machine)
    : setField assignment.address assignment.name assignment.value machine
      = .ok () { machine with instances := assignment.apply machine.instances } := rfl

/-- Sets fields in order. -/
def assignAll : List Assignment → Step Unit
  | [] => return
  | first :: rest => do
    setField first.address first.name first.value
    assignAll rest

/-- By induction over the assignments. -/
theorem assignAll_eq (assignments : List Assignment) (machine : Machine)
    : assignAll assignments machine
      = .ok ()
          { machine with
            instances :=
              InstanceChange.applyAll (assignments.map .assign) machine.instances } := by
  induction assignments generalizing machine with
  | nil => rfl
  | cons first rest ih =>
      simp only [assignAll, Bind.bind, EStateM.bind, setField_eq, ih]
      rfl

end Step

-----------------------------------------------------------------------------------------
-- Fields after a change
-----------------------------------------------------------------------------------------

/-- The value of a field of the instance at an address. -/
def fieldAt (instances : Array Instance) (address : Nat) (name : String) : Option Value :=
  instances[address]?.bind fun object => object.fields.get? name

theorem fieldAt_outside {instances : Array Instance} {address : Nat}
    (outside : instances.size ≤ address) (name : String)
    : fieldAt instances address name = none := by
  rw [fieldAt, Array.getElem?_eq_none outside, Option.bind_none]

/-- A new instance has no fields. -/
theorem fieldAt_make (instances : Array Instance) (definition : Class) (address : Nat)
    (name : String)
    : fieldAt ((InstanceChange.make definition).apply instances) address name
      = fieldAt instances address name := by
  simp only [fieldAt, InstanceChange.apply, Array.getElem?_push]
  split
  · next last => simp [last]
  · rfl

namespace Assignment

variable (assignment : Assignment) (instances : Array Instance)

theorem getElem?_apply (address : Nat)
    : (assignment.apply instances)[address]?
      = if assignment.address = address then
          instances[address]?.map fun object =>
            { object with fields := object.fields.set assignment.name assignment.value }
        else instances[address]? :=
  Array.getElem?_modify

/-- An assignment changes one field, if the instance is there. -/
theorem fieldAt_apply (address : Nat) (name : String)
    : fieldAt (assignment.apply instances) address name
      = if address = assignment.address ∧ address < instances.size ∧ name = assignment.name then
          some assignment.value
        else fieldAt instances address name := by
  obtain ⟨changed, key, value⟩ := assignment
  simp only [fieldAt, getElem?_apply]
  by_cases same : changed = address
  · subst same
    by_cases inside : changed < instances.size
    · simp [inside, Table.get?_set]
    · simp [inside]
  · simp [same, Ne.symm same]

end Assignment

namespace InstanceChange

/-- The last assignment is the last change, or it was the last before another change. -/
theorem last_concat {history : List InstanceChange} {change : InstanceChange} {address : Nat}
    {name : String} {value : Value}
    : Last (history ++ [change]) address name value
      ↔ (change = assign ⟨address, name, value⟩ ∧ address < (build history).size)
        ∨ ((∀ other, change ≠ assign ⟨address, name, other⟩)
          ∧ Last history address name value) := by
  constructor
  · intro last
    obtain ⟨before, after, same, inside, later⟩ := last
    obtain none | ⟨front, last, more⟩ := List.eq_nil_or_concat after
    · subst none
      obtain ⟨sameBefore, sameLast⟩ := List.append_inj' same rfl
      subst sameBefore
      exact .inl ⟨List.head_eq_of_cons_eq sameLast, inside⟩
    · subst more
      rw [List.concat_eq_append] at same later
      rw [← List.cons_append, ← List.append_assoc] at same
      obtain ⟨sameFront, sameLast⟩ := List.append_inj' same rfl
      cases sameLast
      refine .inr ⟨?_, before, front, sameFront, inside, ?_⟩
      · intro other changed
        exact later other (List.mem_append_right _ (List.mem_singleton.2 changed.symm))
      · intro other member
        exact later other (List.mem_append_left _ member)
  · intro last
    obtain ⟨same, inside⟩ | ⟨apart, before, after, same, inside, later⟩ := last
    · subst same
      exact ⟨history, [], rfl, inside, fun _ => List.not_mem_nil⟩
    · subst same
      refine ⟨before, after ++ [change], by simp, inside, ?_⟩
      intro other member
      obtain earlier | last := List.mem_append.1 member
      · exact later other earlier
      · exact apart other (List.mem_singleton.1 last).symm

/-- The value of a field is the last that was assigned to it, by induction over the history. -/
theorem fieldAt_build {history : List InstanceChange} {address : Nat} {name : String}
    {value : Value}
    : fieldAt (build history) address name = some value ↔ Last history address name value := by
  induction history using List.reverseRecOn with
  | nil =>
      constructor
      · intro found
        cases found
      · intro last
        obtain ⟨before, after, same, _⟩ := last
        cases before <;> cases same
  | append_singleton history change ih =>
      rw [build_concat, last_concat]
      cases change with
      | make definition => simp [fieldAt_make, ih]
      | assign assignment =>
          obtain ⟨changed, key, given⟩ := assignment
          rw [apply, Assignment.fieldAt_apply]
          dsimp only
          split
          · next here =>
              obtain ⟨same, inside, sameKey⟩ := here
              subst same sameKey
              simp [inside]
          · next apart =>
              rw [ih]
              constructor
              · intro last
                refine .inr ⟨?_, last⟩
                intro other same
                cases same
                have outside : (build history).size ≤ address :=
                  Nat.not_lt.1 fun inside => apart ⟨rfl, inside, rfl⟩
                have found := ih.2 last
                rw [fieldAt_outside outside] at found
                cases found
              · intro last
                obtain ⟨same, inside⟩ | ⟨_, last⟩ := last
                · cases same
                  exact absurd ⟨rfl, inside, rfl⟩ apart
                · exact last

end InstanceChange

end Lox
