import Lox.Proofs.Evaluation.Faults
import Lox.Proofs.Evaluation.Moments
import Lox.Proofs.Evaluation.Worlds

/-! The contract between scopes and environments. Before a task, the current chain of tables
stands for the scopes around the part of the program that the task is about; after it, the world
may have grown and the chain stands for the scopes with what the part declares. An occurrence is
looked up only where the chain stands for the scopes around its place, so no binding is other than
scopes have it.
-/

namespace Lox

-----------------------------------------------------------------------------------------
-- Places and distances
-----------------------------------------------------------------------------------------

/-- A place is lawful, and distances tell where its occurrence is declared. -/
structure Place.Settled (place : Place) (distances : Distances) : Prop where
  proper : place.act.Proper
  lawful : place.errors = []
  layered : Layered.Around place.around
  found : ∀ id, place.id? = some id → distances.find? id = place.distance?

-----------------------------------------------------------------------------------------
-- What has happened
-----------------------------------------------------------------------------------------

/-- A moment begins with a `var` statement that initializes a name in the table at an address. -/
def Moment.Initializes (moment : Moment) (address : Nat) (name : String) : Prop :=
  ∃ token initializer,
    moment.task = .execute (.var token (some initializer))
    ∧ token.lexeme = name
    ∧ moment.machine.environment.table = address

/-- The declaration that a moment is about makes a class with the next identity, and an environment
closes its methods. Its superclass is the value that the name in the clause has at this moment.
-/
structure Moment.Declares (moment : Moment) (definition : ClassDecl) (made : Class)
    (closing : Environment) : Prop where
  task : moment.task = .execute (.class definition)
  identity : made.identity = moment.machine.nextIdentity
  clause
    : ∀ occurrence,
        definition.superclass = some occurrence
        → ∃ superclass,
            made.superclass = some superclass
            ∧ Moment.ending { moment with task := .evaluate (.variable occurrence) }
              = .ok (.class superclass) moment.machine
  made : made.MadeFrom definition closing

/-- A table is made for a scope. A receiver is bound for a method of the class. -/
def Layer.IsFor : Layer → Region → Prop
  | .block body, .block other => body = other
  | .function declaration, .function other => declaration = other
  | .receiver method, .receiver definition isStatic =>
    method ∈ if isStatic then definition.statics else definition.methods
  | .superclass definition, .superclass other => definition = other
  | _, _ => False

/-- Moments that have come up. -/
abbrev History : Type := Moment → Prop

namespace History

/-- With a moment, all that it leads to has come up. -/
def Closed (history : History) : Prop :=
  ∀ moment next, history moment → moment.Leads next → history next

/-- The initializer of a name in a table has been interrupted. -/
def Abandoned (history : History) (address : Nat) (name : String) : Prop :=
  ∃ moment next interruption machine,
    history moment
    ∧ moment.Initializes address name
    ∧ moment.Leads next
    ∧ next.ending = .error interruption machine

/-- The table at an address was made for a scope, inside an environment. The first table is there
from the start.
-/
def Made (history : History) (address : Nat) (opening : Opening) : Prop :=
  (address = 0 ∧ opening = ⟨.program, []⟩)
  ∨ ∃ moment layer outer bindings machine,
      history moment
      ∧ moment.Does (.enter layer outer bindings) machine
      ∧ machine.store.tables.size = address
      ∧ outer.chain = opening.outer
      ∧ layer.IsFor opening.region

/-- A declaration has made a class, and an environment closes its methods. -/
def Declared (history : History) (definition : ClassDecl) (made : Class) (closing : Environment)
    : Prop :=
  ∃ moment, history moment ∧ moment.Declares definition made closing

end History

/-- A machine is as a world has it, and the tables and classes of the world have been made. -/
structure World.Describes (world : World) (history : History) (machine : Machine) : Prop where
  fits : world.Fits machine.instances
  store : machine.store = world.store
  made
    : ∀ (address : Nat) (opening : Opening),
        world.openings[address]? = some opening → history.Made address opening
  declared
    : ∀ definition made closing,
        world.declared definition made closing → history.Declared definition made closing

-----------------------------------------------------------------------------------------
-- The contract
-----------------------------------------------------------------------------------------

/-- What the contract refers to beside the moment. -/
structure Ghost where
  world : World
  /-- The surroundings of the part of the program that the task is about. -/
  around : Surroundings

namespace Ghost

/-- What a task needs. -/
def Admits (ghost : Ghost) (environment : Environment) : Task → Prop
  | .evaluate expr =>
    ghost.world.Stands environment.chain ghost.around.frames
    ∧ ∀ place ∈ Places.ofExpr expr ghost.around, ghost.world.known place
  | .evaluateAll exprs =>
    ghost.world.Stands environment.chain ghost.around.frames
    ∧ ∀ place ∈ Places.ofExprs exprs ghost.around, ghost.world.known place
  | .call callee _ arguments =>
    ghost.world.FitsValue callee ∧ ∀ value ∈ arguments, ghost.world.FitsValue value
  | .invoke closure arguments =>
    ghost.world.FitsClosure closure
    ∧ (∀ value ∈ arguments, ghost.world.FitsValue value)
    ∧ arguments.length = closure.declaration.arity
  | .construct definition arguments =>
    ghost.world.FitsClass definition
    ∧ (∀ value ∈ arguments, ghost.world.FitsValue value)
    ∧ arguments.length = definition.arity
  | .execute stmt =>
    ghost.world.Stands environment.chain ghost.around.frames
    ∧ (∀ place ∈ Places.ofStmt stmt ghost.around, ghost.world.known place)
    ∧ ∀ entry ∈ stmt.declares, ghost.around.Binds entry.1
  | .executeAll stmts =>
    ghost.world.Stands environment.chain ghost.around.frames
    ∧ (∀ place ∈ Places.ofStmts stmts ghost.around, ghost.world.known place)
    ∧ ∀ entry ∈ stmts.flatMap Stmt.declares, ghost.around.Binds entry.1
  | .loop condition body =>
    ghost.world.Stands environment.chain ghost.around.frames
    ∧ (∀ place ∈ Places.ofExpr condition ghost.around, ghost.world.known place)
    ∧ (∀ place ∈ Places.ofStmt body ghost.around, ghost.world.known place)
    ∧ body.declares = []

/-- A statement ends in a way that its setting allows, in the end with its names declared. -/
def Follows (ghost : Ghost) (world : World) (environment : Environment)
    (names : List (String × Binder)) : Flow → Prop
  | .normal => world.Stands environment.chain (ghost.around.declareAll names).frames
  | .break => ghost.around.setting.loops ≠ 0
  | .return value => world.FitsValue value ∧ ghost.around.setting.body ≠ .program

/-- What a task gives. -/
def Grants (ghost : Ghost) (world : World) (environment : Environment) :
    (task : Task) → task.Result → Prop
  | .evaluate _, value => world.FitsValue value
  | .evaluateAll _, values => ∀ value ∈ values, world.FitsValue value
  | .call _ _ _, value => world.FitsValue value
  | .invoke _ _, value => world.FitsValue value
  | .construct _ _, value => world.FitsValue value
  | .execute stmt, flow => ghost.Follows world environment stmt.declares flow
  | .executeAll stmts, flow =>
    ghost.Follows world environment (stmts.flatMap Stmt.declares) flow
  | .loop _ _, flow =>
    match flow with
    | .normal => True
    | .break => False
    | .return value => world.FitsValue value ∧ ghost.around.setting.body ≠ .program

end Ghost

/-- What the runs of a session have come to, with the run that is under way. -/
structure Course where
  /-- The moments of the runs before. -/
  past : History
  /-- These and the moments of the run that is under way. -/
  history : History
  /-- The places of the programs that have been accepted. -/
  listed : Place → Prop

/-- What is required of a moment. A binding is pending if its initializer was interrupted in a run
before, or is what the run is at.
-/
structure Moment.Required (course : Course) (ghost : Ghost) (moment : Moment) : Prop where
  came : course.history moment
  describes : ghost.world.Describes course.history moment.machine
  listed : ∀ place, ghost.world.known place → course.listed place
  settled : ∀ place, ghost.world.known place → place.Settled moment.distances
  pending
    : ∀ address name,
        ghost.world.pending address name
        → course.past.Abandoned address name
          ∨ ∃ earlier,
              course.history earlier ∧ earlier.Initializes address name ∧ earlier.Reaches moment
  admits : ghost.Admits moment.machine.environment moment.task

/-- A machine in the run of a moment, and the world by then. -/
structure Moment.Later (course : Course) (ghost : Ghost) (moment : Moment) (world : World)
    (machine : Machine) : Prop where
  grows : ghost.world ≤ world
  describes : world.Describes course.history machine
  pending : world.pending = ghost.world.pending
  known : world.known = ghost.world.known
  environment : machine.environment = moment.machine.environment

/-- A machine that an interrupted run has left. The run may have abandoned initializers. -/
structure Moment.Left (course : Course) (ghost : Ghost) (moment : Moment) (world : World)
    (machine : Machine) : Prop where
  grows : ghost.world ≤ world
  describes : world.Describes course.history machine
  pending
    : ∀ address name,
        world.pending address name
        → ghost.world.pending address name ∨ course.history.Abandoned address name
  known : world.known = ghost.world.known
  environment : machine.environment = moment.machine.environment

/-- What an action relies on: an occurrence is looked up where the scopes around its place are. -/
def Action.Relies (world : World) (environment : Environment) : Action → Prop
  | .locate use occurrence =>
    ∃ around,
      world.known ⟨around, .use use occurrence⟩ ∧ world.Stands environment.chain around.frames
  | .locateReceiver occurrence =>
    ∃ around,
      world.known ⟨around, .use .super occurrence⟩ ∧ world.Stands environment.chain around.frames
  | .enter _ _ _ => True

/-- The contract between scopes and environments. -/
def scopeContract (course : Course) : Contract Ghost where
  before := Moment.Required course
  after ghost moment value machine :=
    ∃ world,
      moment.Later course ghost world machine
      ∧ ghost.Grants world moment.machine.environment moment.task value
  abort ghost moment interruption machine :=
    interruption ≠ .beyondChain
    ∧ interruption.Avoids FaultCause.OfBinding
    ∧ ∃ world, moment.Left course ghost world machine
  allows ghost moment action machine :=
    ∃ world,
      moment.Later course ghost world machine
      ∧ action.Relies world machine.environment

end Lox
