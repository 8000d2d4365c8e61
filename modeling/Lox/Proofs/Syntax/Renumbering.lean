import Lox.Syntax.Parser

/-! Syntax trees whose occurrences are given other numbers. Nothing else of a tree changes, and
trees are made of their parts alike.
-/

namespace Lox

-----------------------------------------------------------------------------------------
-- Trees under other numbers
-----------------------------------------------------------------------------------------

section

variable (number : Nat → Nat)

/-- The occurrence under another number. -/
def Occurrence.renumber (occurrence : Occurrence) : Occurrence :=
  ⟨number occurrence.id, occurrence.token⟩

mutual

/-- The expression, its occurrences under other numbers. -/
def Expr.renumber : Expr → Expr
  | .literal value => .literal value
  | .grouping inner => .grouping inner.renumber
  | .unary operator operand => .unary operator operand.renumber
  | .binary operator left right => .binary operator left.renumber right.renumber
  | .logical operator left right => .logical operator left.renumber right.renumber
  | .conditional condition positive negative =>
    .conditional condition.renumber positive.renumber negative.renumber
  | .variable occurrence => .variable (occurrence.renumber number)
  | .assign target value => .assign (target.renumber number) value.renumber
  | .call callee closing arguments => .call callee.renumber closing (Exprs.renumber arguments)
  | .get object property => .get object.renumber property
  | .set object property value => .set object.renumber property value.renumber
  | .this occurrence => .this (occurrence.renumber number)
  | .super occurrence method => .super (occurrence.renumber number) method
  | .lambda function => .lambda function.renumber

def Exprs.renumber : List Expr → List Expr
  | [] => []
  | expr :: rest => expr.renumber :: Exprs.renumber rest

def FunctionDecl.renumber : FunctionDecl → FunctionDecl
  | ⟨name, keyword, parameters, body⟩ => ⟨name, keyword, parameters, Stmts.renumber body⟩

def Functions.renumber : List FunctionDecl → List FunctionDecl
  | [] => []
  | function :: rest => function.renumber :: Functions.renumber rest

def ClassDecl.renumber : ClassDecl → ClassDecl
  | ⟨name, superclass, methods, statics⟩ =>
    ⟨name, superclass.map (Occurrence.renumber number), Functions.renumber methods,
      Functions.renumber statics⟩

/-- The statement, its occurrences under other numbers. -/
def Stmt.renumber : Stmt → Stmt
  | .expression value => .expression value.renumber
  | .print keyword value => .print keyword value.renumber
  | .var name none => .var name none
  | .var name (some initializer) => .var name (some initializer.renumber)
  | .block body => .block (Stmts.renumber body)
  | .if condition positive none => .if condition.renumber positive.renumber none
  | .if condition positive (some negative) =>
    .if condition.renumber positive.renumber (some negative.renumber)
  | .while condition body => .while condition.renumber body.renumber
  | .break keyword => .break keyword
  | .function declaration => .function declaration.renumber
  | .return keyword none => .return keyword none
  | .return keyword (some value) => .return keyword (some value.renumber)
  | .class declaration => .class declaration.renumber

/-- The program, its occurrences under other numbers. -/
def Stmts.renumber : List Stmt → List Stmt
  | [] => []
  | stmt :: rest => stmt.renumber :: Stmts.renumber rest

end

end

-----------------------------------------------------------------------------------------
-- The same numbers
-----------------------------------------------------------------------------------------

mutual

theorem Expr.renumber_id (expr : Expr) : expr.renumber id = expr := by
  cases expr with
  | literal | «variable» | this | super => rfl
  | grouping inner => simp only [Expr.renumber, Expr.renumber_id inner]
  | unary operator operand => simp only [Expr.renumber, Expr.renumber_id operand]
  | binary operator left right | logical operator left right =>
      simp only [Expr.renumber, Expr.renumber_id left, Expr.renumber_id right]
  | conditional condition positive negative =>
      simp only [Expr.renumber, Expr.renumber_id condition, Expr.renumber_id positive,
        Expr.renumber_id negative]
  | assign target value =>
      simp only [Expr.renumber, Expr.renumber_id value, Occurrence.renumber, id]
  | call callee closing arguments =>
      simp only [Expr.renumber, Expr.renumber_id callee, Exprs.renumber_id arguments]
  | get object property => simp only [Expr.renumber, Expr.renumber_id object]
  | set object property value =>
      simp only [Expr.renumber, Expr.renumber_id object, Expr.renumber_id value]
  | lambda function => simp only [Expr.renumber, FunctionDecl.renumber_id function]

theorem Exprs.renumber_id (exprs : List Expr) : Exprs.renumber id exprs = exprs := by
  cases exprs with
  | nil => rfl
  | cons expr rest => simp only [Exprs.renumber, Expr.renumber_id expr, Exprs.renumber_id rest]

theorem FunctionDecl.renumber_id (function : FunctionDecl) : function.renumber id = function := by
  cases function with
  | mk name keyword parameters body => simp only [FunctionDecl.renumber, Stmts.renumber_id body]

theorem Functions.renumber_id (functions : List FunctionDecl)
    : Functions.renumber id functions = functions := by
  cases functions with
  | nil => rfl
  | cons function rest =>
      simp only [Functions.renumber, FunctionDecl.renumber_id function, Functions.renumber_id rest]

theorem ClassDecl.renumber_id (definition : ClassDecl) : definition.renumber id = definition := by
  cases definition with
  | mk name superclass methods statics =>
      have clause : superclass.map (Occurrence.renumber id) = superclass := by
        cases superclass <;> rfl
      simp only [ClassDecl.renumber, clause, Functions.renumber_id methods,
        Functions.renumber_id statics]

theorem Stmt.renumber_id (stmt : Stmt) : stmt.renumber id = stmt := by
  cases stmt with
  | «break» => rfl
  | expression value | print keyword value => simp only [Stmt.renumber, Expr.renumber_id value]
  | var name initializer =>
      cases initializer with
      | none => rfl
      | some value => simp only [Stmt.renumber, Expr.renumber_id value]
  | block body => simp only [Stmt.renumber, Stmts.renumber_id body]
  | «if» condition positive negative =>
      cases negative with
      | none => simp only [Stmt.renumber, Expr.renumber_id condition, Stmt.renumber_id positive]
      | some other =>
          simp only [Stmt.renumber, Expr.renumber_id condition, Stmt.renumber_id positive,
            Stmt.renumber_id other]
  | «while» condition body =>
      simp only [Stmt.renumber, Expr.renumber_id condition, Stmt.renumber_id body]
  | function declaration => simp only [Stmt.renumber, FunctionDecl.renumber_id declaration]
  | «return» keyword value =>
      cases value with
      | none => rfl
      | some value => simp only [Stmt.renumber, Expr.renumber_id value]
  | «class» declaration => simp only [Stmt.renumber, ClassDecl.renumber_id declaration]

theorem Stmts.renumber_id (stmts : List Stmt) : Stmts.renumber id stmts = stmts := by
  cases stmts with
  | nil => rfl
  | cons stmt rest => simp only [Stmts.renumber, Stmt.renumber_id stmt, Stmts.renumber_id rest]

end

-----------------------------------------------------------------------------------------
-- Trees made of parts
-----------------------------------------------------------------------------------------

section

variable (number : Nat → Nat)

theorem Tier.join_renumber (tier : Tier) (operator : Token) (left right : Expr)
    : (tier.join operator left right).renumber number
      = tier.join operator (left.renumber number) (right.renumber number) := by
  cases tier <;> rfl

theorem Stmt.ofFor_renumber (initializer : Option Stmt) (condition increment : Option Expr)
    (body : Stmt)
    : (Stmt.ofFor initializer condition increment body).renumber number
      = Stmt.ofFor (initializer.map (Stmt.renumber number))
          (condition.map (Expr.renumber number)) (increment.map (Expr.renumber number))
          (body.renumber number) := by
  cases initializer <;> cases condition <;> cases increment <;> rfl

end

end Lox
