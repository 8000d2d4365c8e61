import Lox.Environment
import Lox.Syntax

/-!
Values of Lox. Functions, classes and instances have an identity; functions and classes never
change after they are made, and instances live in a list of their own, by address.
-/

namespace Lox

/-- Functions that every program has. -/
inductive Native where
  /-- The time in seconds. -/
  | clock
  /-- The text of a value. -/
  | str
  deriving DecidableEq, Repr

/-- The name of a native function. -/
def Native.name : Native → String
  | .clock => "clock"
  | .str => "str"

/-- The number of arguments of a native function. -/
def Native.arity : Native → Nat
  | .clock => 0
  | .str => 1

/-- A declaration with the environment it was made in. -/
structure Closure where
  declaration : FunctionDecl
  environment : Environment
  /-- A call of it gives back the receiver. -/
  initializes : Bool

/-- A function value. -/
structure Function where
  identity : Nat
  closure : Closure

/-- A class value. Its methods are not bound to a receiver yet. -/
structure Class where
  identity : Nat
  name : String
  superclass : Option Class
  methods : Table String Closure
  statics : Table String Closure

/-- The instance method of a name: the class's own, or the one that it inherits. -/
def Class.findMethod? : Class → String → Option Closure
  | ⟨_, _, none, methods, _⟩, name => methods.get? name
  | ⟨_, _, some superclass, methods, _⟩, name =>
    match methods.get? name with
    | some method => some method
    | none => superclass.findMethod? name

/-- The static method of a name: the class's own, or the one that it inherits. -/
def Class.findStatic? : Class → String → Option Closure
  | ⟨_, _, none, _, statics⟩, name => statics.get? name
  | ⟨_, _, some superclass, _, statics⟩, name =>
    match statics.get? name with
    | some method => some method
    | none => superclass.findStatic? name

/-- The method that initializes an instance of the class. -/
def Class.initializer? (owner : Class) : Option Closure := owner.findMethod? initializerName

/-- The number of arguments that make an instance. -/
def Class.arity (owner : Class) : Nat :=
  match owner.initializer? with
  | some method => method.declaration.arity
  | none => 0

/-- A value of the language. -/
inductive Value where
  | nil
  | bool (value : Bool)
  | number (value : Float)
  | string (content : String)
  | native (function : Native)
  | function (function : Function)
  | class (definition : Class)
  | instance (address : Nat)

/-- An object of a class, with the fields it was given so far. -/
structure Instance where
  definition : Class
  fields : Table String Value

namespace Value

/-- Everything but `nil` and `false` counts as true. -/
def truthy : Value → Bool
  | nil => false
  | bool value => value
  | _ => true

/-- Equality of the language: never across kinds, of numbers as numbers, and of functions,
classes and instances by identity. -/
def equal : Value → Value → Bool
  | nil, nil => true
  | bool a, bool b => a == b
  | number a, number b => a == b
  | string a, string b => a == b
  | native a, native b => a = b
  | function a, function b => a.identity = b.identity
  | .class a, .class b => a.identity = b.identity
  | .instance a, .instance b => a = b
  | _, _ => false

/-- The name of a value's kind. -/
def kindName : Value → String
  | nil => "nil"
  | bool _ => "boolean"
  | number _ => "number"
  | string _ => "string"
  | native _ | function _ => "function"
  | .class _ => "class"
  | .instance _ => "instance"

/-- The number of arguments of a value that can be called. -/
def arity? : Value → Option Nat
  | native callee => some callee.arity
  | function callee => some callee.closure.declaration.arity
  | .class callee => some callee.arity
  | _ => none

/-- The value of a constant. -/
def ofLiteral : Literal → Value
  | .nil => nil
  | .bool value => bool value
  | .number value => number value
  | .string content => string content

end Value

end Lox
