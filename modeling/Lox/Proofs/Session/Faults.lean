import Lox.Proofs.Session.Control

/-! Faults that no session runs into. Bindings are as their scopes have them and operators are those
of the grammar, in every moment of every evaluation; so the faults that tell otherwise never come
up, the receiver of an initializer is always there and a class can always be given its name.
-/

namespace Lox

-----------------------------------------------------------------------------------------
-- The receiver of an initializer
-----------------------------------------------------------------------------------------

/-- A receiver that is not found would be a fault of its binding. -/
theorem Step.exists_receiver {method : Closure} {machine : Machine}
    (avoids
      : ∀ interruption after,
          Step.receiver method machine = .error interruption after
          → interruption ≠ .beyondChain ∧ interruption.Avoids FaultCause.OfBinding)
    : ∃ value, Step.receiver method machine = .ok value machine := by
  unfold receiver getAt lookup at avoids ⊢
  cases found : machine.store.getAt method.environment 0
      (receiverToken method.declaration.keyword.line).lexeme with
  | ok value => exact ⟨value, by simp only [found]⟩
  | error error =>
      simp only [found] at avoids
      obtain ⟨inside, avoided⟩ := avoids _ _ rfl
      cases error with
      | beyondChain => exact absurd rfl inside
      | undefined => exact absurd (.inl rfl) avoided
      | uninitialized => exact absurd trivial avoided
      | unresolved => exact absurd trivial avoided

/-- After its body, the call of an initializer looks its receiver up. -/
theorem Moment.ending_initializer {distances : Distances} {budget less : Nat} {closure : Closure}
    {arguments : List Value} {machine inside left : Machine} {flow : Flow}
    (leads
      : Leads ⟨distances, budget, .invoke closure arguments, machine⟩
          ⟨distances, less, .executeAll closure.declaration.body, inside⟩)
    (initializes : closure.initializes = true)
    (ended
      : Moment.ending ⟨distances, less, .executeAll closure.declaration.body, inside⟩
        = .ok flow left)
    : Moment.ending ⟨distances, budget, .invoke closure arguments, machine⟩
      = Step.receiver closure { left with environment := machine.environment } := by
  obtain ⟨rest, same, passes⟩ := leads
  dsimp only at same passes
  subst same
  change Plan.Passes distances rest (.act _ fun environment => .hand _ _ _) machine _ at passes
  cases passes with
  | act entered passes =>
      cases entered
      cases passes with
      | handing =>
          refine (Plan.run_act ..).trans ((Plan.run_hand ..).trans ?_)
          refine
            (congrArg (fun ending => Ending.andThen (Manner.afterAll _ _ ending) _) ended).trans ?_
          simp only [Manner.afterAll, Ending.andThen, initializes, if_true]
          exact Plan.run_last ..
      | hand _ passes =>
          simp only [initializes, if_true] at passes
          cases passes with
          | step _ passes => cases passes

-----------------------------------------------------------------------------------------
-- The name of a class
-----------------------------------------------------------------------------------------

/-- A name is found in the current table if this has it. -/
theorem Store.find_here {α : Type} {store : Store α} {environment : Environment} {name : String}
    (has : (store.table environment.table).has name = true)
    : store.find environment name = .ok environment.table := by
  simp [find, Environment.chain, home?, has]

/-- A name that the current table has can be overwritten. -/
theorem Step.overwrite_here {machine : Machine} {name : Token} {value : Value}
    (has : (machine.store.table machine.environment.table).has name.lexeme = true)
    : Step.overwrite name value machine
      = .ok ()
          { machine with
            store :=
              machine.store.setSlot machine.environment.table name.lexeme (some value) } := by
  have found
      : Step.lookup name (fun machine => machine.store.find machine.environment name.lexeme) machine
        = .ok machine.environment.table machine := by
    simp only [lookup, Store.find_here has]
  simp only [overwrite, Bind.bind, EStateM.bind, found]
  rfl

/-- A name that was bound is there, also when a table has been added. -/
theorem Store.has_define {α : Type} (store : Store α) {environment : Environment} (name : String)
    (value : α) (inside : environment.table < store.tables.size)
    : ((store.define environment name value).table environment.table).has name = true := by
  simp [Table.has, define, get?_setSlot, inside]

theorem Store.has_add {α : Type} (store : Store α) (bindings : Bindings α) {address : Nat}
    {name : String} (has : (store.table address).has name = true)
    : ((store.add bindings).table address).has name = true := by
  rw [table_add, if_neg]
  · exact has
  · intro last
    simp [Table.has, get?_outside _ (Nat.le_of_eq last.symm)] at has

/-- A lookup that succeeds leaves the machine as it is. -/
theorem Step.eq_of_lookup {α : Type} {token : Token} {find : Machine → Except LookupError α}
    {machine after : Machine} {value : α} (found : Step.lookup token find machine = .ok value after)
    : after = machine := by
  unfold lookup at found
  split at found
  · cases found
    rfl
  · cases found

section

variable {access : Access} {perform : (task : Task) → Step task.Result} {machine : Machine}

/-- Reading an occurrence changes nothing. -/
theorem Plan.eq_of_read {use : Use} {occurrence : Occurrence} {value : Value} {after : Machine}
    (ran : (Plan.read use occurrence).run access perform machine = .ok value after)
    : after = machine := by
  have ran := (Plan.run_act ..).symm.trans ran
  cases home : Action.perform access (.locate use occurrence) machine with
  | error interruption left => simp [home, Ending.andThen] at ran
  | ok address left =>
      cases Step.eq_of_lookup home
      simp only [home, Ending.andThen] at ran
      exact Step.eq_of_lookup ((Plan.run_last ..).symm.trans ran)

/-- The clause for a superclass changes nothing. -/
theorem Plan.eq_of_superclassOf {clause : Option Occurrence} {superclass : Option Class}
    {found : Machine}
    (ran : (Plan.superclassOf clause).run access perform machine = .ok superclass found)
    : found = machine := by
  cases clause with
  | none =>
      cases ran
      rfl
  | some occurrence =>
      have ran := (Plan.run_bind ..).symm.trans ran
      cases read : (Plan.read .variable occurrence).run access perform machine with
      | error interruption left => simp [read, Ending.andThen] at ran
      | ok value left =>
          cases Plan.eq_of_read read
          simp only [read, Ending.andThen] at ran
          cases value <;> cases ran
          rfl

/-- When a class has got its superclass, it gets its name too: this was bound before. -/
theorem Plan.run_ofClass {definition : ClassDecl} {superclass : Option Class}
    (clause
      : (Plan.superclassOf definition.superclass).run access perform machine
        = .ok superclass machine)
    (inside : machine.environment.table < machine.store.tables.size)
    : ∃ after, (Plan.ofClass definition).run access perform machine = .ok () after := by
  have named := machine.store.has_define definition.name.lexeme Value.nil inside
  have start
      : (Plan.ofClass definition).run access perform machine
        = Ending.andThen ((Plan.superclassOf definition.superclass).run access perform machine) _ :=
    Plan.run_bind ..
  rw [clause] at start
  let bound := machine.store.define machine.environment definition.name.lexeme Value.nil
  let made (environment : Environment) : Class :=
    ⟨machine.nextIdentity, definition.name.lexeme, superclass,
      Step.methodTable environment FunctionDecl.initializes definition.methods,
      Step.methodTable environment (fun _ => false) definition.statics⟩
  have finish (environment : Environment) {store : Store Value}
      (has : (store.table machine.environment.table).has definition.name.lexeme = true)
      : ∃ after,
          (Plan.step (Step.overwrite definition.name (.class (made environment))) .done).run access
              perform { machine with store, nextIdentity := machine.nextIdentity + 1 }
            = .ok () after :=
    ⟨_, (Plan.run_last ..).trans (Step.overwrite_here has)⟩
  rw [start]
  cases superclass with
  | none => exact finish machine.environment named
  | some superclass => exact finish (bound.nextInside machine.environment) (bound.has_add _ named)

end

namespace Session

variable {config : Config} {sink : Sink} {clock : Nat → Float} {requests : List Request}
  {request : Request} {opened : Session} {task : Task} {moment : Moment}

-----------------------------------------------------------------------------------------
-- Endings of moments
-----------------------------------------------------------------------------------------

/-- No binding is other than scopes have it, wherever an evaluation is interrupted. -/
theorem avoids_ofBinding
    (begins : ((start config sink clock).takeAll requests).Begins request opened task)
    (reaches : (opened.moment task).Reaches moment) {interruption : Interruption} {after : Machine}
    (ended : moment.ending = .error interruption after)
    : interruption ≠ .beyondChain ∧ interruption.Avoids FaultCause.OfBinding := by
  obtain ⟨ghost, required⟩ := required_of_reaches begins reaches
  have closed := (start config sink clock).closed_course requests request
  obtain ⟨inside, avoids, _⟩ := ((scopeContract_sound closed).honours required).of_error ended
  exact ⟨inside, avoids⟩

/-- No operator is other than those of the grammar. -/
theorem avoids_ofOperator
    (begins : ((start config sink clock).takeAll requests).Begins request opened task)
    (reaches : (opened.moment task).Reaches moment) {interruption : Interruption} {after : Machine}
    (ended : moment.ending = .error interruption after)
    : interruption.Avoids FaultCause.OfOperator := by
  obtain ⟨context, legal⟩ := legal_of_reaches begins reaches
  exact ((controlContract_sound.honours legal).of_error ended).2

/-- The table that a class declaration binds its name in is there. -/
theorem inside_of_required {course : Course} {ghost : Ghost} {distances : Distances}
    {budget : Nat} {definition : ClassDecl} {machine : Machine}
    (required
      : Moment.Required course ghost ⟨distances, budget, .execute (.class definition), machine⟩)
    : machine.environment.table < machine.store.tables.size := by
  obtain ⟨name, superclass, methods, statics⟩ := definition
  obtain ⟨stands, _, binds⟩ := required.admits
  obtain ⟨opening, opened, _⟩ := stands.head (binds _ (List.mem_singleton.2 rfl))
  exact required.describes.store ▸ required.describes.fits.inside opened

/-- In any evaluation of a session, no fault is one of a binding that is other than its scope has
it, nor of an operator that the grammar has not. When the body of an initializer has run through,
the receiver is found, and when the superclass of a declaration is a class, the class gets its
name.
-/
theorem internal_faults_unreachable
    (begins : ((start config sink clock).takeAll requests).Begins request opened task)
    : (∀ moment fault after,
        (opened.moment task).Reaches moment
        → moment.ending = .error (.fault fault) after
        → ¬ fault.cause.OfBinding ∧ ¬ fault.cause.OfOperator)
      ∧ (∀ distances budget closure arguments machine less inside flow left,
          (opened.moment task).Reaches ⟨distances, budget, .invoke closure arguments, machine⟩
          → Moment.Leads ⟨distances, budget, .invoke closure arguments, machine⟩
              ⟨distances, less, .executeAll closure.declaration.body, inside⟩
          → closure.initializes = true
          → Moment.ending ⟨distances, less, .executeAll closure.declaration.body, inside⟩
            = .ok flow left
          → ∃ receiver,
              Moment.ending ⟨distances, budget, .invoke closure arguments, machine⟩
              = .ok receiver { left with environment := machine.environment })
      ∧ ∀ distances budget definition machine superclass found,
          (opened.moment task).Reaches
              ⟨distances, budget + 1, .execute (.class definition), machine⟩
          → (Plan.superclassOf definition.superclass).run (.byDistance distances)
              (Task.perform (.byDistance distances) budget) machine
            = .ok superclass found
          → ∃ after,
              Moment.ending ⟨distances, budget + 1, .execute (.class definition), machine⟩
              = .ok .normal after := by
  refine ⟨?_, ?_, ?_⟩
  · intro moment fault after reaches ended
    exact ⟨(avoids_ofBinding begins reaches ended).2, avoids_ofOperator begins reaches ended⟩
  · intro distances budget closure arguments machine less inside flow left reaches leads
      initializes ended
    have looksUp := Moment.ending_initializer leads initializes ended
    obtain ⟨receiver, found⟩ := Step.exists_receiver fun interruption after failed =>
      avoids_ofBinding begins reaches (looksUp.trans failed)
    exact ⟨receiver, looksUp.trans found⟩
  · intro distances budget definition machine superclass found reaches clause
    obtain ⟨ghost, required⟩ := required_of_reaches begins reaches
    cases Plan.eq_of_superclassOf clause
    obtain ⟨after, ran⟩ := Plan.run_ofClass clause (inside_of_required required)
    have whole
        : Moment.ending ⟨distances, budget + 1, .execute (.class definition), machine⟩
          = Ending.andThen
              ((Plan.ofClass definition).run (.byDistance distances)
                (Task.perform (.byDistance distances) budget) machine)
              _ :=
      Plan.run_bind ..
    rw [ran] at whole
    exact ⟨after, whole⟩

/-- An initializer that runs through gives its receiver. -/
theorem internal_faults_unreachable_in_initializer
    : ∃ distances budget closure machine less inside flow left receiver,
        Moment.Leads ⟨distances, budget, .invoke closure [], machine⟩
          ⟨distances, less, .executeAll closure.declaration.body, inside⟩
        ∧ closure.initializes = true
        ∧ Moment.ending ⟨distances, less, .executeAll closure.declaration.body, inside⟩
          = .ok flow left
        ∧ Moment.ending ⟨distances, budget, .invoke closure [], machine⟩
          = .ok receiver { left with environment := machine.environment } := by
  obtain ⟨opened, task, distances, budget, closure, machine, less, inside, _, _, _, begins, reaches,
    leads, initializes, ⟨flow, left, ended⟩, _⟩ := exists_this_in_initializer
  obtain ⟨receiver, given⟩ :=
    (internal_faults_unreachable begins).2.1 _ _ _ _ _ _ _ _ _ reaches leads initializes ended
  exact ⟨distances, budget, closure, machine, less, inside, flow, left, receiver, leads,
    initializes, ended, given⟩

end Session
end Lox
