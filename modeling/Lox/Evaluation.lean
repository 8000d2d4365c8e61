import Lox.Plan

/-!
Evaluation of expressions and execution of statements: the plan of every task, and how tasks are
performed. Each task is performed on a budget that is smaller for those it hands on, which also
pays for the rounds of a loop; a program that ends needs a certain budget and gives the same
result with any greater one.
-/

namespace Lox

namespace Plan

/-- The value of an expression. -/
def evaluate (expr : Expr) : Plan Value := asking (.evaluate expr)

/-- The value of an occurrence. -/
def read (use : Use) (occurrence : Occurrence) : Plan Value := do
  let address ← doing (.locate use occurrence)
  Step.getHere address occurrence.token

/-- Overwrites the binding of an occurrence. The table that it is found in by its distance need
not bind the name yet. -/
def write (occurrence : Occurrence) (value : Value) : Plan Unit := do
  let address ← doing (.locate .assign occurrence)
  Step.setSlot address occurrence.name value

/-- A method whose environment binds `this` to a receiver. -/
def bindMethod (method : Closure) (receiver : Value) : Plan Closure := do
  let environment ←
    doing (.enter (.receiver method.declaration) method.environment
      (Table.empty.set "this" (some receiver)))
  return { method with environment }

/-- The function value of a bound method. -/
def boundMethod (method : Closure) (receiver : Value) : Plan Value := do
  let bound ← bindMethod method receiver
  Step.functionOf bound

/-- A method that was looked for by its name, bound to a receiver. -/
def foundMethod (found : Option Closure) (receiver : Value) (name : Token) : Plan Value :=
  match found with
  | some method => boundMethod method receiver
  | none => Step.fault name (.undefinedProperty name.lexeme)

/-- A property of a value: a field of an instance before a method of its class, or a static
method of a class. -/
def property (object : Value) (name : Token) : Plan Value := do
  match object with
  | .instance address =>
    let machine ← (get : Step Machine)
    match machine.instances[address]? with
    | some entry =>
      match entry.fields.get? name.lexeme with
      | some value => return value
      | none => foundMethod (entry.definition.findMethod? name.lexeme) object name
    | none => Step.fault name (.undefinedProperty name.lexeme)
  | .class definition => foundMethod (definition.findStatic? name.lexeme) object name
  | _ => Step.fault name .noProperties

/-- A method of the superclass, bound to the current receiver, which is a class in a static
method. -/
def superMethod (occurrence : Occurrence) (method : Token) : Plan Value := do
  match ← read .super occurrence with
  | .class superclass =>
    let address ← doing (.locateReceiver occurrence)
    let receiver ← Step.getHere address (Step.receiverToken occurrence.token.line)
    let found :=
      match receiver with
      | .class _ => superclass.findStatic? method.lexeme
      | _ => superclass.findMethod? method.lexeme
    foundMethod found receiver method
  | _ => Step.fault occurrence.token .superNotClass

/-- The plan for an expression. -/
def ofExpr : Expr → Plan Value
  | .literal value => return .ofLiteral value
  | .grouping inner => evaluate inner
  | .unary operator operand => do
    let operand ← evaluate operand
    Step.unary operator operand
  | .binary operator left right => do
    let left ← evaluate left
    let right ← evaluate right
    Step.binary operator left right
  | .logical operator left right => do
    let left ← evaluate left
    if Step.decides operator left then return left else evaluate right
  | .conditional condition positive negative => do
    let condition ← evaluate condition
    if condition.truthy then evaluate positive else evaluate negative
  | .variable occurrence => read .variable occurrence
  | .assign target value => do
    let value ← evaluate value
    write target value
    return value
  | .call callee closing arguments => do
    let callee ← evaluate callee
    let arguments ← asking (.evaluateAll arguments)
    asking (.call callee closing arguments)
  | .get object name => do
    let object ← evaluate object
    property object name
  | .set object name value => do
    match ← evaluate object with
    | .instance address =>
      let value ← evaluate value
      Step.setField address name.lexeme value
      return value
    | _ => Step.fault name .noFields
  | .this occurrence => read .this occurrence
  | .super occurrence method => superMethod occurrence method
  | .lambda declaration => Step.functionHere declaration

/-- The plan for some expressions. -/
def ofExprs : List Expr → Plan (List Value)
  | [] => return []
  | first :: rest => do
    let value ← evaluate first
    let values ← asking (.evaluateAll rest)
    return value :: values

/-- Fails unless a call has the right number of arguments and is not too deep. -/
def checkCall (closing : Token) (arity given : Nat) : Step Unit := do
  if given ≠ arity then Step.fault closing (.argumentCount arity given)
  let machine ← get
  if machine.maxDepth ≤ machine.callDepth then Step.fault closing .stackOverflow

/-- The plan for a call. -/
def ofCall (callee : Value) (closing : Token) (arguments : List Value) : Plan Value :=
  match callee with
  | .native callee => do
    checkCall closing callee.arity arguments.length
    Step.deeper (Step.callNative callee arguments)
  | .function callee => do
    checkCall closing callee.closure.declaration.arity arguments.length
    askingIn .deeper (.invoke callee.closure arguments)
  | .class definition => do
    checkCall closing definition.arity arguments.length
    askingIn .deeper (.construct definition arguments)
  | _ => Step.fault closing .notCallable

/-- The bindings of the parameters of a call. -/
def parameterBindings (parameters : List Token) (arguments : List Value) : Bindings Value :=
  .ofList ((parameters.zip arguments).map fun (parameter, value) =>
    (parameter.lexeme, some value))

/-- The plan for a run of a function body: in a new environment inside that of the closure. -/
def ofInvocation (closure : Closure) (arguments : List Value) : Plan Value := do
  let environment ←
    doing (.enter (.function closure.declaration) closure.environment
      (parameterBindings closure.declaration.parameters arguments))
  let flow ← askingIn (.within environment) (.executeAll closure.declaration.body)
  if closure.initializes then Step.receiver closure
  else
    match flow with
    | .return value => return value
    | .normal | .break => return .nil

/-- The plan for a new instance. -/
def ofConstruction (definition : Class) (arguments : List Value) : Plan Value := do
  let object ← Step.newInstance definition
  match definition.initializer? with
  | none => return object
  | some initializer =>
    let bound ← bindMethod initializer object
    let _ ← asking (.invoke bound arguments)
    return object

/-- The class that the superclass clause of a declaration names. -/
def superclassOf : Option Occurrence → Plan (Option Class)
  | none => return none
  | some occurrence => do
    match ← read .variable occurrence with
    | .class superclass => return some superclass
    | _ => Step.fault occurrence.token .superclassNotClass

/-- The environment of the methods of a class: one that binds `super`, if there is a
superclass. -/
def methodEnvironment (definition : ClassDecl) (superclass : Option Class) :
    Plan Environment := do
  let machine ← (get : Step Machine)
  match superclass with
  | none => return machine.environment
  | some superclass =>
    doing (.enter (.superclass definition) machine.environment
      (Table.empty.set "super" (some (.class superclass))))

/-- The plan for the declaration of a class. Its name is bound before its methods are made, and
gets the class as its value after that. -/
def ofClass (definition : ClassDecl) : Plan Unit := do
  let superclass ← superclassOf definition.superclass
  Step.define definition.name.lexeme .nil
  let environment ← methodEnvironment definition superclass
  let identity ← Step.freshIdentity
  let made : Class :=
    ⟨identity, definition.name.lexeme, superclass,
      Step.methodTable environment FunctionDecl.initializes definition.methods,
      Step.methodTable environment (fun _ => false) definition.statics⟩
  Step.overwrite definition.name (.class made)

/-- The plan for a statement. -/
def ofStmt : Stmt → Plan Flow
  | .expression value => do
    let _ ← evaluate value
    return .normal
  | .print keyword value => do
    let value ← evaluate value
    match ← Step.print value with
    | none => return .normal
    | some error => Step.fault keyword (.output error)
  | .var name none => do
    Step.define name.lexeme .nil
    return .normal
  | .var name (some initializer) => do
    let value ← evaluate initializer
    Step.define name.lexeme value
    return .normal
  | .block body => do
    let machine ← (get : Step Machine)
    let environment ← doing (.enter (.block body) machine.environment .empty)
    askingIn (.within environment) (.executeAll body)
  | .if condition positive negative => do
    let condition ← evaluate condition
    if condition.truthy then asking (.execute positive)
    else
      match negative with
      | some negative => asking (.execute negative)
      | none => return .normal
  | .while condition body => asking (.loop condition body)
  | .break _ => return .break
  | .function declaration => do
    let value ← Step.functionHere declaration
    Step.define declaration.displayName value
    return .normal
  | .return _ none => return .return .nil
  | .return _ (some value) => do
    let value ← evaluate value
    return .return value
  | .class definition => do
    ofClass definition
    return .normal

/-- The plan for statements in order. -/
def ofStmts : List Stmt → Plan Flow
  | [] => return .normal
  | first :: rest => do
    match ← asking (.execute first) with
    | .normal => asking (.executeAll rest)
    | flow => return flow

/-- The plan for a round of a loop and those after it. -/
def ofLoop (condition : Expr) (body : Stmt) : Plan Flow := do
  let holds ← evaluate condition
  if holds.truthy then
    match ← asking (.execute body) with
    | .normal => asking (.loop condition body)
    | .break => return .normal
    | .return value => return .return value
  else
    return .normal

end Plan

namespace Task

/-- The plan of a task. -/
def plan : (task : Task) → Plan task.Result
  | .evaluate expr => Plan.ofExpr expr
  | .evaluateAll exprs => Plan.ofExprs exprs
  | .call callee closing arguments => Plan.ofCall callee closing arguments
  | .invoke closure arguments => Plan.ofInvocation closure arguments
  | .construct definition arguments => Plan.ofConstruction definition arguments
  | .execute stmt => Plan.ofStmt stmt
  | .executeAll stmts => Plan.ofStmts stmts
  | .loop condition body => Plan.ofLoop condition body

/-- Performs a task by its plan. -/
def perform (access : Access) : (budget : Nat) → (task : Task) → Step task.Result
  | 0, _ => throw .budget
  | budget + 1, task => task.plan.run access (perform access budget)

end Task

end Lox
