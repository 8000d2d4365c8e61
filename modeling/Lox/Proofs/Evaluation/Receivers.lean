import Lox.Proofs.Evaluation.Worlds

/-! What `this` and `super` are bound to in a world that fits. The first table around the code of a
method that binds `this` is that of a receiver for the class that has declared the method, and one
table further out is the superclass, if the class has one.
-/

namespace Lox

namespace World

/-- An environment was made for a receiver, inside the one that closes the methods of a class. -/
structure Hosts (world : World) (instances : Array Instance) (target : Environment)
    (definition : ClassDecl) (isStatic : Bool) (closing : Environment) (owner : Class)
    (receiver : Value) : Prop where
  opened : world.openings[target.table]? = some ⟨.receiver definition isStatic, target.outer⟩
  inside : target.outer = closing.chain
  owns : world.Owns owner definition closing
  bound : (world.store.table target.table).get? "this" = some (some receiver)
  receives : receiver.Receives instances owner isStatic

namespace Fits

variable {world : World} {instances : Array Instance} {environment target : Environment}
  {around : Surroundings} {definition : ClassDecl} {isStatic : Bool}

/-- An environment that was made for a receiver has one. -/
theorem hosts (fits : world.Fits instances)
    (opened : world.openings[target.table]? = some ⟨.receiver definition isStatic, target.outer⟩)
    : ∃ closing owner receiver,
        world.Hosts instances target definition isStatic closing owner receiver := by
  obtain ⟨owner, closing, receiver, inside, owns, bound, receives⟩ :=
    fits.receivers target.table _ opened definition isStatic rfl
  exact ⟨closing, owner, receiver, opened, inside.symm, owns, bound, receives⟩

/-- Only the table for a receiver binds `this`. -/
theorem not_has_this (fits : world.Fits instances) {address : Nat} {opening : Opening}
    (opened : world.openings[address]? = some opening) (other : opening.region.receiver? = none)
    : (world.store.table address).has "this" = false := by
  refine Bool.eq_false_iff.2 fun bound => ?_
  obtain ⟨same, there, binds⟩ := fits.names address "this" bound
  cases Option.some.inj (opened.symm.trans there)
  cases region : opening.region <;> simp_all [Region.receiver?, Region.Binds, Reserved]

/-- The first `this` around the code of a method is in the table that was made for its receiver. By
induction over the scopes: those inside that of the receiver do not bind `this`.
-/
theorem find_receiver (fits : world.Fits instances)
    (stands : world.Stands environment.chain around.frames)
    (inside : around.method? = some (definition, isStatic))
    : ∃ distance target,
        environment.ancestor? distance = some target
        ∧ world.store.find environment "this" = .ok target.table
        ∧ world.openings[target.table]? = some ⟨.receiver definition isStatic, target.outer⟩ := by
  obtain ⟨frames, setting⟩ := around
  simp only [Surroundings.method?] at inside
  simp only [Store.find]
  induction frames generalizing environment with
  | nil => cases inside
  | cons frame frames ih =>
      obtain ⟨table, outer⟩ := environment
      obtain ⟨opened, _, rest⟩ := stands
      cases method : frame.region.receiver? with
      | some found =>
          rw [List.findSome?_cons, method] at inside
          cases inside
          have region : frame.region = .receiver definition isStatic := by
            cases region : frame.region <;> simp_all [Region.receiver?]
          have opened : world.openings[(Environment.mk table outer).table]?
              = some ⟨.receiver definition isStatic, (Environment.mk table outer).outer⟩ :=
            region ▸ opened
          obtain ⟨_, _, _, hosts⟩ := fits.hosts opened
          have has : (world.store.table table).has "this" = true := by
            simp [Table.has, hosts.bound]
          exact ⟨0, ⟨table, outer⟩, rfl, by simp [Environment.chain, Store.home?, has], opened⟩
      | none =>
          rw [List.findSome?_cons, method] at inside
          have absent := fits.not_has_this opened method
          obtain _ | ⟨next, outer⟩ := outer
          · cases frames with
            | nil => cases inside
            | cons => exact rest.elim
          · have rest : world.Stands (Environment.mk next outer).chain frames := rest
            obtain ⟨distance, target, walked, found, there⟩ := ih rest inside
            refine ⟨distance + 1, target, walked, ?_, there⟩
            simpa [Environment.chain, Store.home?, absent] using found

/-- Outside of methods there is no `this`, by induction over the scopes. -/
theorem find_this_outside (fits : world.Fits instances)
    (stands : world.Stands environment.chain around.frames) (outside : around.method? = none)
    : world.store.find environment "this" = .error .undefined := by
  obtain ⟨frames, setting⟩ := around
  simp only [Surroundings.method?, List.findSome?_eq_none_iff] at outside
  have nowhere : world.store.home? "this" environment.chain = none := by
    generalize environment.chain = chain at stands
    induction frames generalizing chain with
    | nil =>
        cases chain with
        | nil => rfl
        | cons => exact stands.elim
    | cons frame frames ih =>
        obtain _ | ⟨address, outer⟩ := chain
        · exact stands.elim
        obtain ⟨opened, _, rest⟩ := stands
        rw [List.forall_mem_cons] at outside
        have absent := fits.not_has_this opened outside.1
        simpa [Store.home?, absent] using ih outside.2 outer rest
  simp only [Store.find, nowhere]

/-- Around the code of a method of a derived class, the first `super` is the superclass, one link
outside the first `this`.
-/
theorem superclass (fits : world.Fits instances) (layered : Layered around.frames .derived)
    (stands : world.Stands environment.chain around.frames)
    (inside : around.method? = some (definition, isStatic))
    : ∃ distance target outer owner superclass receiver,
        around.distance? "this" = some distance
        ∧ around.distance? "super" = some (distance + 1)
        ∧ environment.ancestor? distance = some target
        ∧ environment.ancestor? (distance + 1) = some outer
        ∧ world.Hosts instances target definition isStatic outer owner receiver
        ∧ owner.superclass = some superclass
        ∧ (world.store.table outer.table).get? "super" = some (some (.class superclass)) := by
  obtain ⟨distance, away, there⟩ := layered.receiver inside
  obtain ⟨target, walked, opened, _⟩ := stands.ancestor there
  obtain ⟨closing, owner, receiver, hosts⟩ := fits.hosts opened
  obtain ⟨found, _, _, outside, further, _, nearest⟩ := layered.super_receiver
  cases Option.some.inj (away.symm.trans nearest)
  obtain ⟨outer, walkedOut, openedOut, _⟩ := stands.ancestor further
  -- the methods are closed by the environment around the receiver, which is that of `super`
  cases Environment.eq_of_chain
    (hosts.inside.symm.trans (Environment.outer_of_ancestor? walked walkedOut))
  cases inherits : owner.superclass with
  | some superclass =>
      exact ⟨distance, target, closing, owner, superclass, receiver, away, outside, walked,
        walkedOut, hosts, inherits, hosts.owns.inherits superclass inherits⟩
  | none =>
      obtain ⟨opening, same, free⟩ := hosts.owns.base inherits
      cases Option.some.inj (openedOut.symm.trans same)
      exact absurd rfl free

end Fits

end World
end Lox
