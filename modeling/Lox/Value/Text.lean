import Lox.Decimal.Notation
import Lox.Value

/-!
The text of a value, as it is printed. An instance lists its fields in the order of their
names, and an instance in a field shows its class only, so the text is finite whatever refers
to what.
-/

namespace Lox

/-- Puts an entry before the first one with a greater name. -/
def insertByName {α : Type} (entry : String × α) : List (String × α) → List (String × α)
  | [] => [entry]
  | first :: rest =>
    if entry.1 < first.1 then entry :: first :: rest else first :: insertByName entry rest

/-- Entries in the order of their names, which is that of the bytes of the names. -/
def sortByName {α : Type} (entries : List (String × α)) : List (String × α) :=
  entries.foldr insertByName []

namespace Value

variable (instances : Array Instance)

/-- The name of the class of the instance at an address. -/
def className (address : Nat) : String :=
  match instances[address]? with
  | some object => object.definition.name
  | none => ""

/-- The text of a value that shows no fields. -/
def shallowText : Value → String
  | nil => "null"
  | bool value => if value then "true" else "false"
  | number value => Decimal.plain value
  | string content => content
  | native callee => s!"<native fn {callee.name}>"
  | function callee => s!"<fn {callee.closure.declaration.displayName}>"
  | .class definition => s!"<class {definition.name}>"
  | .instance address => s!"<{className instances address} instance>"

/-- A field with the shallow text of its value. -/
def fieldText (field : String × Value) : String :=
  field.1 ++ "=" ++ shallowText instances field.2

/-- The text of a value. -/
def text : Value → String
  | .instance address =>
    let fields :=
      match instances[address]? with
      | some object => sortByName object.fields.entries
      | none => []
    "<" ++ className instances address ++ " instance \x7b" ++
      String.intercalate ", " (fields.map (fieldText instances)) ++ "\x7d>"
  | value => shallowText instances value

end Value

end Lox
