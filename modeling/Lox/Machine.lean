import Lox.Diagnostic
import Lox.Scope
import Lox.Sink
import Lox.Value.Text

/-!
The state of a running program, and the steps of evaluation that descend into no part of the
program: looking names up, making tables and values, printing and reporting. A step ends with a
value or an interruption, and keeps the state in both cases.
-/

namespace Lox

/-- Why a program cannot go on. -/
inductive FaultCause where
  | undefinedVariable (name : String)
  | uninitializedVariable (name : String)
  | operandNotNumber
  | operandsNotNumbers
  | operandsNotAddable
  | unknownUnary
  | unknownBinary
  | notCallable
  | argumentCount (expected given : Nat)
  | stackOverflow
  | noProperties
  | noFields
  | undefinedProperty (name : String)
  /-- The superclass clause of a declaration names no class. -/
  | superclassNotClass
  /-- The binding of `super` holds no class. -/
  | superNotClass
  | superUnresolved
  | output (error : SinkError)
  deriving DecidableEq, Repr

/-- The wording of the cause. -/
def FaultCause.message : FaultCause → String
  | .undefinedVariable name => s!"Undefined variable '{name}'."
  | .uninitializedVariable name => s!"Uninitialized variable '{name}'."
  | .operandNotNumber => "Operand must be a number."
  | .operandsNotNumbers => "Operands must be numbers."
  | .operandsNotAddable => "Operands must be two numbers or two strings."
  | .unknownUnary => "Unknown unary operator."
  | .unknownBinary => "Unknown binary operator."
  | .notCallable => "Can only call functions and classes."
  | .argumentCount expected given => s!"Expected {expected} arguments but got {given}."
  | .stackOverflow => "Stack overflow."
  | .noProperties => "Only instances have properties."
  | .noFields => "Only instances have fields."
  | .undefinedProperty name => s!"Undefined property '{name}'."
  | .superclassNotClass => "Superclass must be a class."
  | .superNotClass => "Superclass must be a class."
  | .superUnresolved => "Unresolved 'super'."
  | .output error => s!"Failed to write output: {error.message}"

/-- A fault at a token. -/
structure Fault where
  token : Token
  cause : FaultCause

/-- The fault as a diagnostic. -/
def Fault.diagnostic (fault : Fault) : Diagnostic :=
  .atToken .running fault.token fault.cause.message

/-- Why a step ended without a value. -/
inductive Interruption where
  | fault (fault : Fault)
  /-- A distance led past the end of a chain of environments. -/
  | beyondChain
  /-- The budget of the evaluation ran out. -/
  | budget

/-- The failure of a lookup at the token that asked for it. -/
def LookupError.interruption (error : LookupError) (token : Token) : Interruption :=
  match error with
  | .undefined => .fault ⟨token, .undefinedVariable token.lexeme⟩
  | .uninitialized => .fault ⟨token, .uninitializedVariable token.lexeme⟩
  | .beyondChain => .beyondChain
  | .unresolved => .fault ⟨token, .superUnresolved⟩

/-- How a statement that ran through ended. -/
inductive Flow where
  | normal
  | break
  | return (value : Value)

/-- A diagnostic, and the number of bytes that were printed before it. -/
structure Report where
  diagnostic : Diagnostic
  offset : Nat

/-- The state of a running program. -/
structure Machine where
  /-- The innermost environment. -/
  environment : Environment
  store : Store Value
  instances : Array Instance
  /-- The identity of the next function or class. -/
  nextIdentity : Nat
  callDepth : Nat
  maxDepth : Nat
  sink : Sink
  reports : Array Report
  /-- The time in seconds at each reading of the clock. -/
  clock : Nat → Float
  /-- The number of readings so far. -/
  readings : Nat

/-- The environment of the global names. -/
def Environment.globals : Environment := ⟨0, []⟩

/-- The names that are bound before a program starts. -/
def Machine.initialBindings : Bindings Value :=
  .ofList ([Native.clock, Native.str].map fun callee => (callee.name, some (.native callee)))

/-- A machine on which nothing has run. -/
def Machine.start (maxDepth : Nat) (sink : Sink) (clock : Nat → Float) : Machine where
  environment := .globals
  store := Store.empty.add Machine.initialBindings
  instances := #[]
  nextIdentity := 0
  callDepth := 0
  maxDepth
  sink
  reports := #[]
  clock
  readings := 0

/-- A computation on the machine. -/
abbrev Step := EStateM Interruption Machine

namespace Step

variable {α : Type}

/-- Ends with a fault. -/
def fault (token : Token) (cause : FaultCause) : Step α := throw (.fault ⟨token, cause⟩)

/-- Tells a diagnostic without ending. -/
def report (diagnostic : Diagnostic) : Step Unit := fun machine =>
  .ok () { machine with reports := machine.reports.push ⟨diagnostic, machine.sink.size⟩ }

/-- Runs a step in another environment. The current one is back when the step has ended,
whatever its ending. -/
def within (environment : Environment) (step : Step α) : Step α := fun machine =>
  let outside := machine.environment
  match step { machine with environment := environment } with
  | .ok value after => .ok value { after with environment := outside }
  | .error interruption after => .error interruption { after with environment := outside }

/-- Runs a step one call deeper. -/
def deeper (step : Step α) : Step α := fun machine =>
  match step { machine with callDepth := machine.callDepth + 1 } with
  | .ok value after => .ok value { after with callDepth := after.callDepth - 1 }
  | .error interruption after =>
    .error interruption { after with callDepth := after.callDepth - 1 }

/-- A new table around the given environment: the environment that it makes. -/
def enter (outer : Environment) (bindings : Bindings Value) : Step Environment := fun machine =>
  .ok (machine.store.nextInside outer) { machine with store := machine.store.add bindings }

/-- Sets the value of a name in the table at an address. -/
def setSlot (address : Nat) (name : String) (value : Value) : Step Unit := fun machine =>
  .ok () { machine with store := machine.store.setSlot address name (some value) }

/-- Binds a name in the current environment. -/
def define (name : String) (value : Value) : Step Unit := fun machine =>
  .ok () { machine with store := machine.store.define machine.environment name value }

/-- A lookup, whose failure is located at a token. -/
def lookup (token : Token) (find : Machine → Except LookupError α) : Step α := fun machine =>
  match find machine with
  | .ok value => .ok value machine
  | .error error => .error (error.interruption token) machine

/-- The value of a name a known distance out. -/
def getAt (environment : Environment) (distance : Nat) (token : Token) : Step Value :=
  lookup token fun machine => machine.store.getAt environment distance token.lexeme

/-- The value of a name in the table at an address. -/
def getHere (address : Nat) (token : Token) : Step Value :=
  lookup token fun machine => machine.store.getHere address token.lexeme

/-- Overwrites a name in the first table of the current chain that has it. -/
def overwrite (name : Token) (value : Value) : Step Unit := do
  let address ← lookup name fun machine => machine.store.find machine.environment name.lexeme
  setSlot address name.lexeme value

/-- An identity that no function or class has. -/
def freshIdentity : Step Nat := fun machine =>
  .ok machine.nextIdentity { machine with nextIdentity := machine.nextIdentity + 1 }

/-- The function value of a closure. -/
def functionOf (closure : Closure) : Step Value := do
  let identity ← freshIdentity
  return .function ⟨identity, closure⟩

/-- The function value of a declaration in the current environment. -/
def functionHere (declaration : FunctionDecl) : Step Value := do
  let machine ← get
  functionOf ⟨declaration, machine.environment, false⟩

/-- A new instance of a class, without fields. -/
def newInstance (definition : Class) : Step Value := fun machine =>
  .ok (.instance machine.instances.size)
    { machine with instances := machine.instances.push ⟨definition, .empty⟩ }

/-- The implicit `this` at the end of an initializer. -/
def receiverToken (line : Nat) : Token := ⟨.keyword .this, "this", line⟩

/-- The receiver that a method is bound to. -/
def receiver (method : Closure) : Step Value :=
  getAt method.environment 0 (receiverToken method.declaration.keyword.line)

/-- Sets a field of the instance at an address. -/
def setField (address : Nat) (name : String) (value : Value) : Step Unit := fun machine =>
  .ok ()
    { machine with
      instances := machine.instances.modify address fun object =>
        { object with fields := object.fields.set name value } }

/-- The value of a prefix operator. -/
def unary (operator : Token) (operand : Value) : Step Value :=
  match operator.kind, operand with
  | .mark .minus, .number value => return .number (-value)
  | .mark .minus, _ => fault operator .operandNotNumber
  | .mark .bang, value => return .bool (!value.truthy)
  | _, _ => fault operator .unknownUnary

/-- The quotient of two numbers. Dividing by zero is told and gives zero. -/
def divide (operator : Token) (a b : Float) : Step Value := do
  if b == 0 then
    report (.atToken .running operator "Division by zero; result is 0.")
    return .number 0
  else
    return .number (a / b)

/-- The value of an operator between two numbers. -/
def arithmetic (operator : Token) (a b : Float) : Step Value :=
  match operator.kind with
  | .mark .plus => return .number (a + b)
  | .mark .minus => return .number (a - b)
  | .mark .star => return .number (a * b)
  | .mark .slash => divide operator a b
  | .mark .greater => return .bool (a > b)
  | .mark .greaterEqual => return .bool (a ≥ b)
  | .mark .less => return .bool (a < b)
  | .mark .lessEqual => return .bool (a ≤ b)
  | _ => fault operator .unknownBinary

/-- The value of an operator between two values. -/
def binary (operator : Token) (left right : Value) : Step Value :=
  match operator.kind, left, right with
  | .mark .equalEqual, a, b => return .bool (a.equal b)
  | .mark .bangEqual, a, b => return .bool (!a.equal b)
  | .mark .plus, .string a, .string b => return .string (a ++ b)
  | _, .number a, .number b => arithmetic operator a b
  | .mark .plus, _, _ => fault operator .operandsNotAddable
  | .mark .minus, _, _ | .mark .star, _, _ | .mark .slash, _, _ | .mark .greater, _, _
  | .mark .greaterEqual, _, _ | .mark .less, _, _ | .mark .lessEqual, _, _ =>
    fault operator .operandsNotNumbers
  | _, _, _ => fault operator .unknownBinary

/-- The left operand of `and` or `or` decides the result by itself. -/
def decides (operator : Token) (left : Value) : Bool :=
  match operator.kind with
  | .keyword .or => left.truthy
  | _ => !left.truthy

/-- Writes a line to the sink; the error if it was not written. -/
def writeLine (text : String) : Step (Option SinkError) := fun machine =>
  let (error, sink) := machine.sink.writeLine text
  .ok error { machine with sink }

/-- The text of a value. -/
def textOf (value : Value) : Step String := fun machine =>
  .ok (value.text machine.instances) machine

/-- Prints the text of a value; the error if it was not written. -/
def print (value : Value) : Step (Option SinkError) := do
  let text ← textOf value
  writeLine text

/-- Calls a native function. -/
def callNative (callee : Native) (arguments : List Value) : Step Value :=
  match callee with
  | .clock => fun machine =>
    .ok (.number (machine.clock machine.readings)) { machine with readings := machine.readings + 1 }
  | .str =>
    match arguments with
    | [] => return .string ""
    | first :: _ => do
      let text ← textOf first
      return .string text

/-- The table of some methods, in which the last one of a name counts. -/
def methodTable (environment : Environment) (initializes : FunctionDecl → Bool)
    (declarations : List FunctionDecl) : Table String Closure :=
  .ofList (declarations.map fun declaration =>
    (declaration.displayName, ⟨declaration, environment, initializes declaration⟩))

end Step

end Lox
