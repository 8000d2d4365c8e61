import Mathlib.Data.List.Nodup
import Lox.Proofs.Evaluation.Instances
import Lox.Proofs.Text.Order

/-! The text of an instance. Its fields are listed once each in the order of the bytes of their
names, so the text depends on nothing but the name of the class, the values of the fields and the
names of the classes of instances among them.
-/

namespace Lox

-----------------------------------------------------------------------------------------
-- Entries in the order of their names
-----------------------------------------------------------------------------------------

variable {α : Type}

/-- The bytes of the names of entries increase. -/
def Ascends (entries : List (String × α)) : Prop :=
  entries.Pairwise fun first second => Text.encode first.1 < Text.encode second.1

theorem perm_insertByName (entry : String × α) (entries : List (String × α))
    : (insertByName entry entries).Perm (entry :: entries) := by
  induction entries with
  | nil => exact .refl _
  | cons first rest ih =>
      rw [insertByName]
      split
      · exact .refl _
      · exact (ih.cons first).trans (.swap ..)

theorem perm_sortByName (entries : List (String × α))
    : (sortByName entries).Perm entries := by
  induction entries with
  | nil => exact .refl _
  | cons entry rest ih => exact (perm_insertByName entry _).trans (ih.cons entry)

/-- An entry with a new name is put at its place. -/
theorem Ascends.insertByName {entry : String × α} {entries : List (String × α)}
    (h : Ascends entries) (fresh : entry.1 ∉ entries.map Prod.fst)
    : Ascends (insertByName entry entries) := by
  induction entries with
  | nil => exact List.pairwise_singleton _ _
  | cons first rest ih =>
      obtain ⟨least, more⟩ := List.pairwise_cons.1 h
      rw [List.map_cons, List.mem_cons, not_or] at fresh
      rw [Lox.insertByName]
      split
      · next below =>
          have less := Text.encode_lt_encode.2 below
          refine List.pairwise_cons.2 ⟨?_, h⟩
          intro other member
          obtain same | further := List.mem_cons.1 member
          · exact same ▸ less
          · exact List.lt_trans less (least other further)
      · next notBelow =>
          have above : first.1 < entry.1 := by
            obtain below | same | above := Std.lt_trichotomy entry.1 first.1
            · exact absurd below notBelow
            · exact absurd same fresh.1
            · exact above
          refine List.pairwise_cons.2 ⟨?_, ih more fresh.2⟩
          intro other member
          obtain same | further := List.mem_cons.1 ((perm_insertByName entry rest).mem_iff.1 member)
          · exact same ▸ Text.encode_lt_encode.2 above
          · exact least other further

/-- Sorting entries with different names makes their names increase, by induction over them. -/
theorem ascends_sortByName {entries : List (String × α)} (distinct : (entries.map Prod.fst).Nodup)
    : Ascends (sortByName entries) := by
  induction entries with
  | nil => exact .nil
  | cons entry rest ih =>
      obtain ⟨fresh, more⟩ := List.nodup_cons.1 distinct
      refine (ih more).insertByName fun member => fresh ?_
      exact ((perm_sortByName rest).map Prod.fst).mem_iff.1 member

/-- The members of a list determine it, if the names increase. -/
theorem Ascends.eq_of_mem_iff {first second : List (String × α)} (h : Ascends first)
    (more : Ascends second) (same : ∀ entry, entry ∈ first ↔ entry ∈ second)
    : first = second := by
  have distinct {entries : List (String × α)} (h : Ascends entries) : entries.Nodup := by
    refine List.Pairwise.imp ?_ h
    intro entry other less same
    exact List.lt_irrefl _ (same ▸ less)
  refine ((List.perm_ext_iff_of_nodup (distinct h) (distinct more)).2 same).eq_of_pairwise ?_ h more
  intro entry other _ _ less greater
  exact absurd greater (List.lt_asymm less)

namespace Table

theorem mem_entries {table : Table String α} {name : String} {value : α}
    : (name, value) ∈ table.entries ↔ table.get? name = some value := by
  refine ⟨fun member => ?_, mem_of_lookup?⟩
  obtain ⟨entries, distinct⟩ := table
  unfold get?
  induction entries with
  | nil => cases member
  | cons entry rest ih =>
      obtain ⟨fresh, more⟩ := List.nodup_cons.1 distinct
      obtain same | further := List.mem_cons.1 member
      · subst same
        exact if_pos rfl
      · have apart : entry.1 ≠ name := by
          intro same
          exact fresh (same ▸ List.mem_map_of_mem further)
        rw [lookup?, if_neg apart]
        exact ih more further

/-- The entries of a table in the order of their names. -/
def listing (table : Table String α) : List (String × α) := sortByName table.entries

theorem ascends_listing (table : Table String α) : Ascends table.listing :=
  ascends_sortByName table.distinct

theorem mem_listing {table : Table String α} {name : String} {value : α}
    : (name, value) ∈ table.listing ↔ table.get? name = some value :=
  (perm_sortByName table.entries).mem_iff.trans mem_entries

/-- Tables with the same answers have the same listing. -/
theorem listing_congr {first second : Table String α}
    (same : ∀ name, first.get? name = second.get? name)
    : first.listing = second.listing := by
  refine first.ascends_listing.eq_of_mem_iff second.ascends_listing ?_
  intro field
  obtain ⟨name, value⟩ := field
  rw [mem_listing, mem_listing, same]

end Table

-----------------------------------------------------------------------------------------
-- Texts of instances
-----------------------------------------------------------------------------------------

/-- The text of an instance from the name of its class and the texts of its fields. -/
def instanceText (className : String) (fields : List String) : String :=
  "<" ++ className ++ " instance \x7b" ++ String.intercalate ", " fields ++ "\x7d>"

namespace Value

variable {instances later : Array Instance} {address : Nat} {object : Instance}

theorem className_eq (there : instances[address]? = some object)
    : className instances address = object.definition.name := by
  simp only [className, there]

theorem text_instance (there : instances[address]? = some object)
    : (Value.instance address).text instances
      = instanceText object.definition.name (object.fields.listing.map (fieldText instances)) := by
  simp only [text, className_eq there, there, instanceText, Table.listing]

/-- Instances with the same fields, of classes with the same name, have the same text, if classes
of instances in the fields have the same names too.
-/
theorem text_congr {other : Nat} {twin : Instance} (there : instances[address]? = some object)
    (thereToo : later[other]? = some twin)
    (sameName : twin.definition.name = object.definition.name)
    (sameFields : ∀ name, twin.fields.get? name = object.fields.get? name)
    (sameInside
      : ∀ name inside,
          object.fields.get? name = some (.instance inside)
          → className later inside = className instances inside)
    : (Value.instance other).text later = (Value.instance address).text instances := by
  have shown
      : object.fields.listing.map (fieldText later)
        = object.fields.listing.map (fieldText instances) := by
    refine List.map_congr_left ?_
    intro field member
    obtain ⟨name, value⟩ := field
    have found := Table.mem_listing.1 member
    cases value with
    | «instance» inside => simp only [fieldText, shallowText, sameInside name inside found]
    | _ => rfl
  rw [text_instance there, text_instance thereToo, sameName, Table.listing_congr sameFields, shown]

end Value

-----------------------------------------------------------------------------------------
-- Two printers that call each other
-----------------------------------------------------------------------------------------

/-- How much of an instance is shown. -/
inductive Form where
  /-- Its fields. -/
  | full
  /-- Its class. -/
  | shallow

/-- The text of a value, where fields are shown in the shallow form, and in that form all but
instances are shown in full. Nothing comes of calls that are nested deeper than the limit.
-/
def render? (instances : Array Instance) : (limit : Nat) → Form → Value → Option String
  | 0, _, _ => none
  | limit + 1, .full, .instance address => do
    let listing :=
      match instances[address]? with
      | some object => object.fields.listing
      | none => []
    let fields ← listing.mapM fun field => do
      let text ← render? instances limit .shallow field.2
      return field.1 ++ "=" ++ text
    return instanceText (Value.className instances address) fields
  | _ + 1, .full, .nil => some "null"
  | _ + 1, .full, .bool value => some (if value then "true" else "false")
  | _ + 1, .full, .number value => some (Decimal.plain value)
  | _ + 1, .full, .string content => some content
  | _ + 1, .full, .native callee => some s!"<native fn {callee.name}>"
  | _ + 1, .full, .function callee => some s!"<fn {callee.closure.declaration.displayName}>"
  | _ + 1, .full, .class definition => some s!"<class {definition.name}>"
  | _ + 1, .shallow, .instance address => some s!"<{Value.className instances address} instance>"
  | limit + 1, .shallow, value => render? instances limit .full value

theorem render?_shallow (instances : Array Instance) (limit : Nat) (value : Value)
    : render? instances (limit + 2) .shallow value = some (value.shallowText instances) := by
  cases value <;> rfl

/-- Calls are nested three deep at most, whatever instances there are. -/
theorem render?_full (instances : Array Instance) (limit : Nat) (value : Value)
    : render? instances (limit + 3) .full value = some (value.text instances) := by
  cases value with
  | «instance» address =>
      have fields (listing : List (String × Value))
          : (listing.mapM fun field => do
              let text ← render? instances (limit + 2) .shallow field.2
              return field.1 ++ "=" ++ text)
            = some (listing.map (Value.fieldText instances)) := by
        simp only [render?_shallow]
        exact List.mapM_pure
      rw [render?, fields]
      rfl
  | _ => rfl

-----------------------------------------------------------------------------------------
-- Instances that change
-----------------------------------------------------------------------------------------

theorem Assignment.className_apply (assignment : Assignment) (instances : Array Instance)
    (address : Nat)
    : Value.className (assignment.apply instances) address
      = Value.className instances address := by
  simp only [Value.className, getElem?_apply]
  by_cases same : assignment.address = address
  · rw [if_pos same]
    cases instances[address]? <;> rfl
  · rw [if_neg same]

namespace InstanceChange

variable {instances : Array Instance} {address : Nat}

/-- Assignments do not change the class of any instance, by induction over them. -/
theorem className_assignments (assignments : List Assignment) (instances : Array Instance)
    (address : Nat)
    : Value.className (applyAll (assignments.map .assign) instances) address
      = Value.className instances address := by
  induction assignments generalizing instances with
  | nil => rfl
  | cons first rest ih => exact (ih _).trans (first.className_apply instances address)

/-- Instances stay where they are. -/
theorem lt_size_apply (change : InstanceChange) (inside : address < instances.size)
    : address < (change.apply instances).size := by
  cases change with
  | make definition =>
      rw [apply, Array.size_push]
      exact Nat.lt_succ_of_lt inside
  | assign assignment =>
      rw [apply, Assignment.apply, Array.size_modify]
      exact inside

/-- An instance that is there keeps its class, by induction over the changes. -/
theorem className_applyAll (changes : List InstanceChange) (inside : address < instances.size)
    : Value.className (applyAll changes instances) address
      = Value.className instances address := by
  induction changes generalizing instances with
  | nil => rfl
  | cons change rest ih =>
      refine (ih (change.lt_size_apply inside)).trans ?_
      cases change with
      | make definition =>
          rw [Value.className, apply, Array.getElem?_push_lt inside, Value.className,
            Array.getElem?_eq_getElem inside]
      | assign assignment => exact assignment.className_apply instances address

/-- An instance that is there stays as it is if it is not assigned to. By induction over the
changes.
-/
theorem getElem?_applyAll {changes : List InstanceChange} (inside : address < instances.size)
    (apart : ∀ name value, assign ⟨address, name, value⟩ ∉ changes)
    : (applyAll changes instances)[address]? = instances[address]? := by
  induction changes generalizing instances with
  | nil => rfl
  | cons change rest ih =>
      have later name value : assign ⟨address, name, value⟩ ∉ rest :=
        fun member => apart name value (List.mem_cons_of_mem _ member)
      refine (ih (change.lt_size_apply inside) later).trans ?_
      cases change with
      | make definition =>
          rw [apply, Array.getElem?_push_lt inside, Array.getElem?_eq_getElem inside]
      | assign assignment =>
          obtain ⟨changed, name, value⟩ := assignment
          rw [apply, Assignment.getElem?_apply]
          apply if_neg
          intro same
          subst same
          exact apart name value List.mem_cons_self

end InstanceChange

/-- The texts of the values on a machine are finite and canonical, when its instances have gone
through a history.
-/
structure Machine.Canonical (machine : Machine) (history : List InstanceChange) : Prop where
  /-- Rendering a value ends, with calls nested three deep at most. -/
  finite
    : ∀ value limit,
        render? machine.instances (limit + 3) .full value = some (value.text machine.instances)
  /-- What is shown of a value in a field ends with calls nested two deep at most. -/
  shallow
    : ∀ value limit,
        render? machine.instances (limit + 2) .shallow value
        = some (value.shallowText machine.instances)
  /-- The text of an instance lists its fields by the bytes of their names, with what was last
  assigned to them.
  -/
  listed
    : ∀ address object,
        machine.instances[address]? = some object
        → ∃ listing : List (String × Value),
            Ascends listing
            ∧ (∀ name value,
                (name, value) ∈ listing ↔ object.fields.get? name = some value)
            ∧ (∀ name value,
                object.fields.get? name = some value
                ↔ InstanceChange.Last history address name value)
            ∧ (Value.instance address).text machine.instances
              = instanceText object.definition.name
                  (listing.map (Value.fieldText machine.instances))
  /-- Assignments that end in the same fields end in the same text, whichever instances of classes
  with the same name they are made to.
  -/
  assigned
    : ∀ (first second : List Assignment) (after last : Machine) (address other : Nat)
          (object twin : Instance),
        Step.assignAll first machine = .ok () after
        → Step.assignAll second machine = .ok () last
        → after.instances[address]? = some object
        → last.instances[other]? = some twin
        → twin.definition.name = object.definition.name
        → (∀ name, twin.fields.get? name = object.fields.get? name)
        → (Value.instance other).text last.instances
          = (Value.instance address).text after.instances
  /-- Assignments to other instances do not matter. -/
  apart
    : ∀ (assignments : List Assignment) (address : Nat) (object : Instance),
        machine.instances[address]? = some object
        → (∀ assignment ∈ assignments, assignment.address ≠ address)
        → ∃ after,
            Step.assignAll assignments machine = .ok () after
            ∧ (Value.instance address).text after.instances
              = (Value.instance address).text machine.instances

/-- Whatever instances have gone through, their texts are finite and canonical. -/
theorem Machine.canonical {machine : Machine} {history : List InstanceChange}
    (built : machine.instances = InstanceChange.build history)
    : machine.Canonical history where
  finite value limit := render?_full _ limit value
  shallow value limit := render?_shallow _ limit value
  listed address object there := by
    refine ⟨object.fields.listing, object.fields.ascends_listing, fun _ _ => Table.mem_listing, ?_,
      Value.text_instance there⟩
    intro name value
    rw [← InstanceChange.fieldAt_build, ← built, fieldAt, there, Option.bind_some]
  assigned first second after last address other object twin ran ranToo there thereToo sameName
      sameFields := by
    rw [Step.assignAll_eq] at ran ranToo
    cases ran
    cases ranToo
    refine Value.text_congr there thereToo sameName sameFields ?_
    intro _ inside _
    exact (InstanceChange.className_assignments second _ inside).trans
      (InstanceChange.className_assignments first _ inside).symm
  apart assignments address object there apart := by
    refine ⟨_, Step.assignAll_eq assignments machine, ?_⟩
    have inside := (Array.getElem?_eq_some_iff.1 there).1
    have kept
        : (InstanceChange.applyAll (assignments.map .assign) machine.instances)[address]?
          = machine.instances[address]? := by
      apply InstanceChange.getElem?_applyAll inside
      intro name value member
      obtain ⟨assignment, given, same⟩ := List.mem_map.1 member
      cases same
      exact apart _ given rfl
    exact Value.text_congr there (kept.trans there) rfl (fun _ => rfl) fun _ other _ =>
      InstanceChange.className_assignments assignments _ other

/-- Instances that refer to each other show each other's class. -/
example
    : let of (name : String) : Class := ⟨0, name, none, .empty, .empty⟩
      let history : List InstanceChange :=
        [.make (of "A"), .make (of "B"), .assign ⟨0, "z", .nil⟩, .assign ⟨0, "b", .instance 1⟩,
          .assign ⟨1, "a", .instance 0⟩]
      (Value.instance 0).text (InstanceChange.build history)
      = "<A instance \x7bb=<B instance>, z=null\x7d>" := by
  decide +kernel

end Lox
