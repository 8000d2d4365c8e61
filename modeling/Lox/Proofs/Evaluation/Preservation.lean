import Lox.Proofs.Evaluation.Receivers
import Lox.Proofs.Evaluation.Upholding

/-! The plan of every task upholds the contract between scopes and environments.
-/

namespace Lox

variable {course : Course} {ghost : Ghost} {moment : Moment} {budget : Nat} {world : World}
  {machine : Machine}

namespace Upholds

variable {α : Type}

-----------------------------------------------------------------------------------------
-- Occurrences
-----------------------------------------------------------------------------------------

/-- What an occurrence is bound to fits, and is read. -/
theorem read {use : Use} {occurrence : Occurrence} {around : Surroundings}
    {goal : Value → Machine → Prop} (run : Underway course ghost moment budget)
    (h : moment.Later course ghost world machine)
    (known : world.known ⟨around, .use use occurrence⟩)
    (stands : world.Stands moment.machine.environment.chain around.frames)
    (rest
      : ∀ value,
          world.FitsValue value
          → (Plan.read use occurrence).run (.byDistance moment.distances)
              (Task.perform (.byDistance moment.distances) budget) machine
            = .ok value machine
          → goal value machine)
    : Upholds course ghost moment budget (Plan.read use occurrence) machine goal := by
  refine locate run h known stands fun _ _ home _ _ bound => getHere h bound ?_
  intro value there fits
  rw [← h.describes.store] at there
  exact rest value fits (Plan.run_read home (Store.getHere_of_get? there) .done)

/-- An occurrence gets another value. -/
theorem write {occurrence : Occurrence} {value : Value} {around : Surroundings}
    {goal : Unit → Machine → Prop} (run : Underway course ghost moment budget)
    (h : moment.Later course ghost world machine)
    (known : world.known ⟨around, .use .assign occurrence⟩)
    (stands : world.Stands moment.machine.environment.chain around.frames)
    (fits : world.FitsValue value)
    (rest : ∀ later after, world ≤ later → moment.Later course ghost later after → goal () after)
    : Upholds course ghost moment budget (Plan.write occurrence value) machine goal := by
  have settled := run.required.settled _ (h.known ▸ known)
  exact locate run h known stands fun _ _ _ opened binds _ =>
    setSlot h settled.proper fits opened binds rest

-----------------------------------------------------------------------------------------
-- Methods
-----------------------------------------------------------------------------------------

section

variable {holder : Class} {isStatic : Bool} {receiver : Value}

/-- A method is bound in a table for the scope of its receiver. -/
theorem bindMethod {method : Closure} {goal : Closure → Machine → Prop}
    (run : Underway course ghost moment budget) (h : moment.Later course ghost world machine)
    (fits : world.FitsMethod holder isStatic method) (object : world.FitsValue receiver)
    (receives : receiver.Receives machine.instances holder isStatic)
    (rest
      : ∀ environment later after,
          world ≤ later
          → moment.Later course ghost later after
          → later.FitsClosure { method with environment }
          → goal { method with environment } after)
    : Upholds course ghost moment budget (Plan.bindMethod method receiver) machine goal := by
  obtain ⟨around, definition, owner, kind, stands, places, member, owns, descends⟩ := fits
  refine enter run h (.ofReceiver definition isStatic) stands member
    (by simp [Frame.ofReceiver]) ?_ ?_ ?_ ?_ ?_
  · intro name slot found
    obtain ⟨rfl, ⟨⟩⟩ := Table.get?_single.1 found
    exact ⟨receiver, rfl, object⟩
  · intro name bound
    exact ((Table.has_set ..).1 bound).resolve_right fun empty => by cases empty
  · exact List.forall_mem_singleton.2 ((Table.has_set ..).2 (.inl rfl))
  · intro _ _ same
    cases same
    refine ⟨owner, method.environment, receiver, rfl, owns, ?_, receives.trans descends⟩
    rw [Table.get?_set, if_pos rfl]
  · intro environment later after le h stands _ _
    have settled : (Frame.ofReceiver definition isStatic).settles "this" = true := rfl
    exact rest environment later after le h ⟨around.atMethods definition isStatic, kind, stands,
      fun place member => le.known place (places place member),
      fun _ => World.bound_of_settles stands.2.1 settled⟩

/-- A bound method is a function. -/
theorem boundMethod {method : Closure} {goal : Value → Machine → Prop}
    (run : Underway course ghost moment budget) (h : moment.Later course ghost world machine)
    (fits : world.FitsMethod holder isStatic method) (object : world.FitsValue receiver)
    (receives : receiver.Receives machine.instances holder isStatic)
    (rest
      : ∀ value later after,
          world ≤ later
          → moment.Later course ghost later after
          → later.FitsValue value
          → goal value after)
    : Upholds course ghost moment budget (Plan.boundMethod method receiver) machine goal := by
  refine .bind (bindMethod run h fits object receives fun environment later after le h fits => ?_)
  refine quiet h (Step.quiet_functionOf after _) (.of_ok rfl) fun value last h made => ?_
  obtain ⟨identity, rfl⟩ := made
  exact rest _ later last le h fits

/-- A method that was found is bound, and one that was not is a fault. -/
theorem foundMethod {found : Option Closure} {name : Token}
    {goal : Value → Machine → Prop} (run : Underway course ghost moment budget)
    (h : moment.Later course ghost world machine)
    (fits : ∀ method, found = some method → world.FitsMethod holder isStatic method)
    (object : world.FitsValue receiver)
    (receives : receiver.Receives machine.instances holder isStatic)
    (rest
      : ∀ value later after,
          world ≤ later
          → moment.Later course ghost later after
          → later.FitsValue value
          → goal value after)
    : Upholds course ghost moment budget (Plan.foundMethod found receiver name) machine
        goal := by
  cases found with
  | none => exact fault h id
  | some method => exact boundMethod run h (fits method rfl) object receives rest

end

/-- A property of a value that fits does so too. -/
theorem property {object : Value} {name : Token} {goal : Value → Machine → Prop}
    (run : Underway course ghost moment budget) (h : moment.Later course ghost world machine)
    (fits : world.FitsValue object)
    (rest
      : ∀ value later after,
          world ≤ later
          → moment.Later course ghost later after
          → later.FitsValue value
          → goal value after)
    : Upholds course ghost moment budget (Plan.property object name) machine goal := by
  cases object with
  | «instance» address =>
      refine look ?_
      rw [Plan.bind]
      split
      · next object there =>
          obtain ⟨methods, fields⟩ := h.describes.fits.objects address object there
          split
          · next value had => exact rest value world machine (le_refl _) h (fields _ _ had)
          · exact foundMethod run h (methods.methods name.lexeme) fits (.instance there .refl) rest
      · exact fault h id
  | «class» definition =>
      exact foundMethod run h (fits.statics name.lexeme) fits (.class .refl) rest
  | nil | bool _ | number _ | string _ | native _ | function _ => exact fault h id

/-- A method of the superclass fits, and so does the receiver that it is bound to. -/
theorem superMethod {occurrence : Occurrence} {method : Token} {around : Surroundings}
    {goal : Value → Machine → Prop} (run : Underway course ghost moment budget)
    (h : moment.Later course ghost world machine)
    (known : world.known ⟨around, .use .super occurrence⟩)
    (stands : world.Stands moment.machine.environment.chain around.frames)
    (rest
      : ∀ value later after,
          world ≤ later
          → moment.Later course ghost later after
          → later.FitsValue value
          → goal value after)
    : Upholds course ghost moment budget (Plan.superMethod occurrence method) machine goal := by
  have settled := run.required.settled _ (h.known ▸ known)
  have name : occurrence.name = "super" := settled.proper
  obtain ⟨definition, isStatic, inside⟩ := settled.exists_method (.inr name)
  obtain ⟨distance, target, outer, owner, superclass, receiver, _, away, walked, walkedOut, hosts,
    inherits, inherited⟩ :=
    h.describes.fits.superclass settled.derived (h.environment ▸ stands) inside
  have found : moment.distances.find? occurrence.id = some (distance + 1) := by
    rw [settled.find?_eq, name, away]
  refine .bind (locate run h known stands fun address _ home _ _ bound => getHere h bound ?_)
  intro value read fits
  simp only [Access.byDistance, found, Environment.tableAt, walkedOut, Except.ok.injEq] at home
  rw [← home, show occurrence.token.lexeme = "super" from name, inherited] at read
  cases read
  refine locateReceiver run h known stands fun address home => ?_
  simp only [Access.byDistance, found, Nat.add_sub_cancel, Environment.tableAt, walked,
    Except.ok.injEq] at home
  subst home
  refine getHere h (fun _ => Option.isSome_iff_exists.2 ⟨_, hosts.bound⟩)
    fun value read object => ?_
  cases hosts.bound.symm.trans read
  have receives := hosts.receives.trans (.single inherits)
  refine foundMethod run h (fun found same => ?_) object receives rest
  cases receives with
  | «class» _ => exact fits.statics method.lexeme found same
  | «instance» _ _ => exact fits.methods method.lexeme found same

-----------------------------------------------------------------------------------------
-- Expressions
-----------------------------------------------------------------------------------------

/-- The value of an expression in the scopes that the current chain stands for. -/
theorem evaluate {expr : Expr} {around : Surroundings} {goal : Value → Machine → Prop}
    (run : Underway course ghost moment budget) (h : moment.Later course ghost world machine)
    (stands : ghost.world.Stands moment.machine.environment.chain around.frames)
    (known : ∀ place ∈ Places.ofExpr expr around, ghost.world.known place)
    (rest
      : ∀ value later after,
          world ≤ later
          → moment.Later course ghost later after
          → later.FitsValue value
          → goal value after)
    : Upholds course ghost moment budget (Plan.evaluate expr) machine goal :=
  hand run h h.environment around
    ⟨stands.mono h.grows, fun place member => h.grows.known place (known place member)⟩ rest

/-- By cases over the expression. -/
theorem ofExpr (run : Underway course ghost moment budget) (expr : Expr)
    (stands : ghost.world.Stands moment.machine.environment.chain ghost.around.frames)
    (known : ∀ place ∈ Places.ofExpr expr ghost.around, ghost.world.known place)
    : Upholds course ghost moment budget (Plan.ofExpr expr) moment.machine
        (Gives course ghost moment World.FitsValue) := by
  have start := run.required.start
  cases expr with
  | literal value => exact ⟨_, start, by cases value <;> trivial⟩
  | grouping inner =>
      exact evaluate run start stands known fun _ later _ _ h fits => ⟨later, h, fits⟩
  | unary operator operand =>
      refine .bind (evaluate run start stands known fun operand later after _ h _ => ?_)
      exact quiet h (Step.quiet_unary after operator operand)
        (Step.avoids_unary after id nofun) fun value _ h plain =>
        ⟨later, h, plain.fits later⟩
  | binary operator left right =>
      rw [Places.ofExpr, List.forall_mem_append] at known
      refine .bind (evaluate run start stands known.1 fun left _ _ _ h _ => ?_)
      refine .bind (evaluate run h stands known.2 fun right later after _ h _ => ?_)
      exact quiet h (Step.quiet_binary after operator left right)
        (Step.avoids_binary after id id nofun) fun value _ h plain =>
        ⟨later, h, plain.fits later⟩
  | logical operator left right =>
      rw [Places.ofExpr, List.forall_mem_append] at known
      refine .bind (evaluate run start stands known.1 fun left later _ _ h fits => ?_)
      split
      · exact ⟨later, h, fits⟩
      · exact evaluate run h stands known.2 fun _ last _ _ h fits => ⟨last, h, fits⟩
  | conditional condition positive negative =>
      rw [Places.ofExpr, List.forall_mem_append, List.forall_mem_append] at known
      refine .bind (evaluate run start stands known.1 fun condition _ _ _ h _ => ?_)
      split
      · exact evaluate run h stands known.2.1 fun _ last _ _ h fits => ⟨last, h, fits⟩
      · exact evaluate run h stands known.2.2 fun _ last _ _ h fits => ⟨last, h, fits⟩
  | «variable» occurrence =>
      exact read run start (known _ (List.mem_singleton.2 rfl)) stands fun _ fits _ =>
        ⟨_, start, fits⟩
  | assign target value =>
      rw [Places.ofExpr, List.forall_mem_append, List.forall_mem_singleton] at known
      refine .bind (evaluate run start stands known.1 fun value _ _ _ h fits => ?_)
      refine .bind (write run h (h.grows.known _ known.2) (stands.mono h.grows) fits ?_)
      exact fun later _ le h => ⟨later, h, fits.mono le⟩
  | call callee closing arguments =>
      rw [Places.ofExpr, List.forall_mem_append] at known
      refine .bind (evaluate run start stands known.1 fun callee _ _ _ h fits => ?_)
      refine hand run h h.environment ghost.around
        ⟨stands.mono h.grows, fun place member => h.grows.known place (known.2 place member)⟩
        fun arguments _ _ le h given => ?_
      exact hand run h h.environment ghost.around ⟨fits.mono le, given⟩ fun _ later _ _ h fits =>
        ⟨later, h, fits⟩
  | get object name =>
      refine .bind (evaluate run start stands known fun object _ _ _ h fits => ?_)
      exact property run h fits fun _ later _ _ h fits => ⟨later, h, fits⟩
  | set object name value =>
      rw [Places.ofExpr, List.forall_mem_append] at known
      refine .bind (evaluate run start stands known.2 fun object _ _ _ h _ => ?_)
      cases object with
      | «instance» address =>
          refine .bind (evaluate run h stands known.1 fun value later _ _ h fits => ?_)
          exact setField h fits fun _ h => ⟨later, h, fits⟩
      | nil | bool _ | number _ | string _ | native _ | function _ | «class» _ =>
          exact fault h id
  | this occurrence =>
      exact read run start (known _ (List.mem_singleton.2 rfl)) stands fun _ fits _ =>
        ⟨_, start, fits⟩
  | super occurrence method =>
      exact superMethod run start (known _ (List.mem_singleton.2 rfl)) stands
        fun _ later _ _ h fits => ⟨later, h, fits⟩
  | lambda declaration =>
      refine quiet start (Step.quiet_functionHere _ declaration) (.of_ok rfl)
        fun value _ h made => ?_
      obtain ⟨identity, rfl⟩ := made
      exact ⟨_, h, ghost.around, .function, stands, known, by simp⟩

/-- By cases over the expressions. -/
theorem ofExprs (run : Underway course ghost moment budget) (exprs : List Expr)
    (stands : ghost.world.Stands moment.machine.environment.chain ghost.around.frames)
    (known : ∀ place ∈ Places.ofExprs exprs ghost.around, ghost.world.known place)
    : Upholds course ghost moment budget (Plan.ofExprs exprs) moment.machine
        (Gives course ghost moment fun world values =>
          ∀ value ∈ values, world.FitsValue value) := by
  have start := run.required.start
  cases exprs with
  | nil => exact ⟨_, start, List.forall_mem_nil _⟩
  | cons first rest =>
      rw [Places.ofExprs, List.forall_mem_append] at known
      refine .bind (evaluate run start stands known.1 fun value _ _ _ h fits => ?_)
      refine hand run h h.environment ghost.around
        ⟨stands.mono h.grows, fun place member => h.grows.known place (known.2 place member)⟩
        fun values later _ le h given => ?_
      exact ⟨later, h, List.forall_mem_cons.2 ⟨fits.mono le, given⟩⟩

-----------------------------------------------------------------------------------------
-- Calls
-----------------------------------------------------------------------------------------

/-- By cases over what is called. A function is called with as many arguments as it takes. -/
theorem ofCall (run : Underway course ghost moment budget) (callee : Value) (closing : Token)
    (arguments : List Value) (fits : ghost.world.FitsValue callee)
    (given : ∀ value ∈ arguments, ghost.world.FitsValue value)
    : Upholds course ghost moment budget (Plan.ofCall callee closing arguments) moment.machine
        (Gives course ghost moment World.FitsValue) := by
  have start := run.required.start
  cases callee with
  | native callee =>
      refine quiet start (Step.quiet_checkCall ..) (Step.avoids_checkCall _ (fun _ => id) id)
        fun _ after h _ => ?_
      exact quiet h (Step.quiet_deeper _ (Step.quiet_callNative _ callee arguments))
        (.deeper (Step.avoids_callNative _ callee arguments))
        fun value _ h plain => ⟨_, h, plain.fits _⟩
  | function callee =>
      refine quiet start (Step.quiet_checkCall ..) (Step.avoids_checkCall _ (fun _ => id) id)
        fun _ after h same => ?_
      exact hand run h h.environment ghost.around ⟨fits, given, same⟩ fun _ later _ _ h fits =>
        ⟨later, h, fits⟩
  | «class» definition =>
      refine quiet start (Step.quiet_checkCall ..) (Step.avoids_checkCall _ (fun _ => id) id)
        fun _ after h same => ?_
      exact hand run h h.environment ghost.around ⟨fits, given, same⟩ fun _ later _ _ h fits =>
        ⟨later, h, fits⟩
  | nil | bool _ | number _ | string _ | «instance» _ => exact fault start id

/-- The initializer of a class takes as many arguments as the class. -/
theorem ofConstruction (run : Underway course ghost moment budget) (definition : Class)
    (arguments : List Value) (fits : ghost.world.FitsClass definition)
    (given : ∀ value ∈ arguments, ghost.world.FitsValue value)
    (same : arguments.length = definition.arity)
    : Upholds course ghost moment budget (Plan.ofConstruction definition arguments)
        moment.machine (Gives course ghost moment World.FitsValue) := by
  refine newInstance run.required.start fits fun address after h receives => ?_
  have object : ghost.world.FitsValue (.instance address) := trivial
  rw [Plan.bind]
  unfold Class.arity at same
  cases found : definition.initializer? with
  | none => exact ⟨_, h, object⟩
  | some initializer =>
      rw [found] at same
      have method := fits.methods _ initializer found
      refine .bind (bindMethod run h method object receives fun environment _ _ le h fits => ?_)
      exact hand run h h.environment ghost.around
        ⟨fits, fun value member => (given value member).mono h.grows, same⟩
        fun _ later _ _ h _ => ⟨later, h, trivial⟩

/-- The receiver of a method fits. -/
theorem receiver {method : Closure} {next : Value → Plan α} {goal : α → Machine → Prop}
    (h : moment.Later course ghost world machine)
    (bound : world.Bound method.environment.table "this")
    (rest
      : ∀ value,
          world.FitsValue value → Upholds course ghost moment budget (next value) machine goal)
    : Upholds course ghost moment budget (.step (Step.receiver method) next) machine goal := by
  have found : Step.receiver method
      = Step.getHere method.environment.table
          (Step.receiverToken method.declaration.keyword.line) := rfl
  rw [found]
  exact getHere h (fun _ => bound) fun value _ => rest value

end Upholds

/-- With an argument for every parameter, a table for a call has exactly the parameters. -/
theorem Plan.has_parameterBindings {parameters : List Token} {arguments : List Value}
    (same : arguments.length = parameters.length) (name : String)
    : (Plan.parameterBindings parameters arguments).has name = true
      ↔ name ∈ parameters.map Token.lexeme := by
  have keys
      : ((parameters.zip arguments).map fun entry => (entry.1.lexeme, some entry.2)).map Prod.fst
        = parameters.map Token.lexeme := by
    have zipped : (parameters.zip arguments).map Prod.fst = parameters :=
      List.map_fst_zip (Nat.le_of_eq same.symm)
    have composed := congrArg (List.map Token.lexeme) zipped
    rw [List.map_map] at composed ⊢
    exact composed
  rw [← keys]
  exact Table.has_ofList ..

/-- A table for a call has arguments as values. -/
theorem Plan.get?_parameterBindings {parameters : List Token} {arguments : List Value}
    {name : String} {slot : Option Value}
    (found : (Plan.parameterBindings parameters arguments).get? name = some slot)
    : ∃ value ∈ arguments, slot = some value := by
  obtain ⟨⟨parameter, value⟩, member, same⟩ := List.mem_map.1 (Table.mem_of_get?_ofList found)
  cases same
  exact ⟨value, (List.of_mem_zip member).2, rfl⟩

/-- The scope of a call has all its parameters. -/
theorem FunctionDecl.frames_inside (declaration : FunctionDecl) (kind : BodyKind)
    (around : Surroundings)
    : ((around.atFunction kind declaration).declareAll declaration.parameterNames).frames
      = ⟨.function declaration, declaration.parameterNames.reverse⟩ :: around.frames := by
  rw [Surroundings.atFunction, Surroundings.frames_declareAll_enter, List.append_nil]
  rfl

namespace Upholds

/-- A body runs in a table for its parameters, which are all bound. -/
theorem ofInvocation (run : Underway course ghost moment budget) (closure : Closure)
    (arguments : List Value) (fits : ghost.world.FitsClosure closure)
    (given : ∀ value ∈ arguments, ghost.world.FitsValue value)
    (same : arguments.length = closure.declaration.arity)
    : Upholds course ghost moment budget (Plan.ofInvocation closure arguments) moment.machine
        (Gives course ghost moment World.FitsValue) := by
  obtain ⟨around, kind, stands, known, bound⟩ := fits
  rw [Places.ofFunction_eq, List.forall_mem_append] at known
  have proper (place) (known : ghost.world.known place) := (run.required.settled place known).proper
  have parameters :=
    Places.free_ofParameters fun place member => proper place (known.1 place member)
  have body := Stmt.free_flatMap_declares _ fun place member => proper place (known.2 place member)
  have frames := closure.declaration.frames_inside kind around
  refine enter run run.required.start
    ⟨.function closure.declaration, closure.declaration.parameterNames.reverse⟩ stands rfl
    (by simp) ?_ ?_ ?_ (fun _ _ same => by cases same) ?_
  · intro name slot found
    obtain ⟨value, member, rfl⟩ := Plan.get?_parameterBindings found
    exact ⟨value, rfl, given value member⟩
  · intro name has
    obtain ⟨parameter, member, rfl⟩ := List.mem_map.1 ((Plan.has_parameterBindings same name).1 has)
    refine ⟨parameters parameter member, ?_⟩
    rw [List.map_append, List.mem_append, FunctionDecl.parameterNames, List.map_map]
    exact .inl (List.mem_map.2 ⟨parameter, member, rfl⟩)
  · intro entry member
    obtain ⟨parameter, given, rfl⟩ := List.mem_map.1 (List.mem_reverse.1 member)
    exact (Plan.has_parameterBindings same _).2 (List.mem_map.2 ⟨parameter, given, rfl⟩)
  · intro environment later after le h stands _ _
    rw [← frames] at stands
    refine hand run h rfl _ ⟨stands, fun place member => le.known place (known.2 place member), ?_⟩
      fun flow last left more h follows => ?_
    · intro entry member
      refine ⟨⟨.function closure.declaration, _⟩, congrArg List.head? frames, body entry member, ?_⟩
      rw [List.map_append, List.mem_append]
      exact .inr (List.mem_map.2 ⟨entry, member, rfl⟩)
    · rw [Plan.bind]
      split
      · next initializes =>
          exact receiver h (h.grows.bound _ _ (bound initializes)) fun value fits => ⟨last, h, fits⟩
      · cases flow with
        | normal => exact ⟨last, h, trivial⟩
        | «break» => exact ⟨last, h, trivial⟩
        | «return» value => exact ⟨last, h, follows.1⟩

-----------------------------------------------------------------------------------------
-- Classes
-----------------------------------------------------------------------------------------

/-- The superclass of a declaration is a class that fits: the value of the name in the clause. -/
theorem superclassOf {name : Token} {superclass : Option Occurrence} {around : Surroundings}
    {goal : Option Class → Machine → Prop} (run : Underway course ghost moment budget)
    (h : moment.Later course ghost world machine)
    (known : ∀ place ∈ Places.ofClause name superclass around, world.known place)
    (stands : world.Stands moment.machine.environment.chain around.frames)
    (rest
      : ∀ found,
          found.isSome = superclass.isSome
          → (∀ inherited, found = some inherited → world.FitsClass inherited)
          → (∀ occurrence,
              superclass = some occurrence
              → ∃ inherited,
                  found = some inherited
                  ∧ (Plan.read .variable occurrence).run (.byDistance moment.distances)
                      (Task.perform (.byDistance moment.distances) budget) machine
                    = .ok (.class inherited) machine)
          → goal found machine)
    : Upholds course ghost moment budget (Plan.superclassOf superclass) machine goal := by
  cases superclass with
  | none => exact rest none rfl nofun nofun
  | some occurrence =>
      rw [Places.ofClause] at known
      split at known
      · have settled :=
          run.required.settled _ (h.known ▸ known _ (List.mem_singleton.2 rfl))
        exact absurd settled.lawful (List.cons_ne_nil _ _)
      · refine .bind
          (read run h (known _ (List.mem_singleton.2 rfl)) stands fun value fits given => ?_)
        cases value with
        | «class» inherited =>
            refine rest (some inherited) rfl ?_ ?_
            · rintro _ ⟨⟩
              exact fits
            · rintro _ ⟨⟩
              exact ⟨inherited, rfl, given⟩
        | nil | bool _ | number _ | string _ | native _ | function _ | «instance» _ =>
            exact fault h id

/-- The methods of a class are closed by an environment for the scopes around them, which binds
`super` if the class has a superclass.
-/
theorem methodEnvironment {definition : ClassDecl} {found : Option Class}
    {around : Surroundings} {goal : Environment → Machine → Prop}
    (run : Underway course ghost moment budget) (h : moment.Later course ghost world machine)
    (stands
      : world.Stands moment.machine.environment.chain
          (around.declare definition.name.lexeme .class).frames)
    (free : ¬ Reserved definition.name.lexeme) (binds : around.Binds definition.name.lexeme)
    (same : found.isSome = definition.superclass.isSome)
    (fits : ∀ inherited, found = some inherited → world.FitsClass inherited)
    (rest
      : ∀ environment later after,
          world ≤ later
          → moment.Later course ghost later after
          → later.Stands environment.chain (around.atClass definition).frames
          → (∀ owner last,
              owner.MadeFrom definition environment
              → owner.superclass = found
              → later ≤ last
              → last.declared definition owner environment
              → last.Owns owner definition environment)
          → after.nextIdentity = machine.nextIdentity
          → goal environment after)
    : Upholds course ghost moment budget (Plan.methodEnvironment definition found) machine
        goal := by
  rw [← h.environment] at stands
  refine look ?_
  rw [Plan.bind]
  unfold Surroundings.atClass at rest
  cases found with
  | none =>
      cases inherited : definition.superclass with
      | some _ => simp [inherited] at same
      | none =>
          simp only [inherited] at rest
          refine rest _ world machine (le_refl _) h stands ?_ rfl
          intro owner last made none le declared
          refine ⟨made, declared, ?_, ?_⟩
          · intro superclass some
            cases none.symm.trans some
          · intro _
            obtain ⟨opening, opened, may⟩ :=
              stands.head (Surroundings.binds_declareAll binds [(_, .class)])
            exact ⟨opening, le.openings _ _ opened, may.plain free (.inr rfl)⟩
  | some superclass =>
      cases inherited : definition.superclass with
      | none => simp [inherited] at same
      | some _ =>
          simp only [inherited] at rest
          refine enter run h (.ofSuperclass definition) stands rfl
            (by simp [Frame.ofSuperclass]) ?_ ?_ ?_ (fun _ _ same => by cases same) ?_
          · intro name slot found
            obtain ⟨rfl, ⟨⟩⟩ := Table.get?_single.1 found
            exact ⟨_, rfl, fits superclass rfl⟩
          · intro name bound
            exact ((Table.has_set ..).1 bound).resolve_right fun empty => by cases empty
          · exact List.forall_mem_singleton.2 ((Table.has_set ..).2 (.inl rfl))
          · intro environment later after le h stands held same
            refine rest environment later after le h stands ?_ same
            intro owner last made some more declared
            refine ⟨made, declared, ?_, ?_⟩
            · intro other same
              cases some.symm.trans same
              exact more.reserved _ _ _ (.inr rfl) (held _ _ (by rw [Table.get?_set, if_pos rfl]))
            · intro none
              cases none.symm.trans some

end Upholds
end Lox
