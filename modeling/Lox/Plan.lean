import Lox.Machine

/-!
Plans: what evaluation does by itself for one part of a program, and the tasks that it hands on
in between. A plan fixes neither how the bindings of occurrences are found nor how the tasks are
performed, so that both can be chosen when it runs.
-/

namespace Lox

/-- How the tables that occurrences refer to are found on a machine. -/
structure Access where
  /-- The address of the table that binds an occurrence. -/
  home : Use → Occurrence → Machine → Except LookupError Nat
  /-- The address of the table that binds the receiver belonging to a `super`. -/
  receiverHome : Occurrence → Machine → Except LookupError Nat

/-- An occurrence is looked up at its distance, or among the globals if it has none. The
receiver that belongs to a `super` is bound one link inside it. -/
def Access.byDistance (distances : Distances) : Access where
  home use occurrence machine :=
    match distances.find? occurrence.id with
    | some distance => machine.environment.tableAt distance
    | none =>
      if use = .super then .error .unresolved
      else machine.store.find .globals occurrence.name
  receiverHome occurrence machine :=
    match distances.find? occurrence.id with
    | some distance => machine.environment.tableAt (distance - 1)
    | none => .error .unresolved

/-- What a new table is made for. -/
inductive Layer where
  | block (body : List Stmt)
  /-- The parameters and the body of a function. -/
  | function (declaration : FunctionDecl)
  /-- The receiver that a method is bound to. -/
  | receiver (method : FunctionDecl)
  /-- The superclass of a class. -/
  | superclass (definition : ClassDecl)

/-- What a plan does in the environment chain. -/
inductive Action where
  /-- Finds the table that binds an occurrence. -/
  | locate (use : Use) (occurrence : Occurrence)
  /-- Finds the table that binds the receiver belonging to a `super`. -/
  | locateReceiver (occurrence : Occurrence)
  /-- Makes a table inside an environment. -/
  | enter (layer : Layer) (outer : Environment) (bindings : Bindings Value)

/-- What an action gives. -/
abbrev Action.Result : Action → Type
  | .locate _ _ => Nat
  | .locateReceiver _ => Nat
  | .enter _ _ _ => Environment

/-- The action as a step. -/
def Action.perform (access : Access) : (action : Action) → Step action.Result
  | .locate use occurrence => Step.lookup occurrence.token (access.home use occurrence)
  | .locateReceiver occurrence =>
    Step.lookup (Step.receiverToken occurrence.token.line) (access.receiverHome occurrence)
  | .enter _ outer bindings => Step.enter outer bindings

/-- What evaluation can be asked for. -/
inductive Task where
  /-- The value of an expression. -/
  | evaluate (expr : Expr)
  /-- The values of some expressions, from left to right. -/
  | evaluateAll (exprs : List Expr)
  /-- A call of a value, located at the closing parenthesis of the call. -/
  | call (callee : Value) (closing : Token) (arguments : List Value)
  /-- A run of the body of a function. -/
  | invoke (closure : Closure) (arguments : List Value)
  /-- A new instance of a class, initialized if the class can do so. -/
  | construct (definition : Class) (arguments : List Value)
  /-- A run of a statement. -/
  | execute (stmt : Stmt)
  /-- A run of statements in order, up to the first that does not end normally. -/
  | executeAll (stmts : List Stmt)
  /-- Runs of a body as long as a condition is true, up to a `break` or `return` in it. -/
  | loop (condition : Expr) (body : Stmt)

/-- What a task gives. -/
abbrev Task.Result : Task → Type
  | .evaluate _ => Value
  | .evaluateAll _ => List Value
  | .call _ _ _ => Value
  | .invoke _ _ => Value
  | .construct _ _ => Value
  | .execute _ => Flow
  | .executeAll _ => Flow
  | .loop _ _ => Flow

/-- In which surroundings a task is handed on. -/
inductive Manner where
  | plain
  /-- In another environment. -/
  | within (environment : Environment)
  /-- One call deeper. -/
  | deeper

/-- A step in these surroundings. -/
def Manner.around {α : Type} (manner : Manner) (step : Step α) : Step α :=
  match manner with
  | plain => step
  | within environment => Step.within environment step
  | deeper => Step.deeper step

/-- What is done for one task. -/
inductive Plan (α : Type) : Type 1 where
  | done (value : α)
  | step {β : Type} (step : Step β) (next : β → Plan α)
  | act (action : Action) (next : action.Result → Plan α)
  /-- Hands a task on. -/
  | hand (manner : Manner) (task : Task) (next : task.Result → Plan α)

namespace Plan

variable {α β : Type}

/-- A plan and what follows from its result. -/
def bind : Plan α → (α → Plan β) → Plan β
  | done value, more => more value
  | step first next, more => step first fun value => bind (next value) more
  | act action next, more => act action fun value => bind (next value) more
  | hand manner task next, more => hand manner task fun value => bind (next value) more

instance : Monad Plan where
  pure := done
  bind := bind

instance : MonadLift Step Plan where
  monadLift first := step first done

/-- Performs an action. -/
def doing (action : Action) : Plan action.Result := act action done

/-- Hands a task on. -/
def asking (task : Task) : Plan task.Result := hand .plain task done

/-- Hands a task on in other surroundings. -/
def askingIn (manner : Manner) (task : Task) : Plan task.Result := hand manner task done

/-- Carries a plan out, where bindings are found and tasks are performed in a given way. -/
def run (access : Access) (perform : (task : Task) → Step task.Result) : Plan α → Step α
  | done value => pure value
  | step first next => do
    let value ← first
    run access perform (next value)
  | act action next => do
    let value ← action.perform access
    run access perform (next value)
  | hand manner task next => do
    let value ← manner.around (perform task)
    run access perform (next value)

end Plan

end Lox
