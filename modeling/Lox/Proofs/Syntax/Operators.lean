import Lox.Proofs.Syntax.Soundness

/-! The operators of a program that was read: each one stands where a rule of the grammar has it,
in all expressions of the program, also those in its functions and classes.
-/

namespace Lox

open Grammar (UnaryOperator BinaryOperator LogicalOperator)

mutual

/-- The operators of an expression are those of the grammar. -/
def Expr.Grammatical : Expr → Prop
  | .literal _ => True
  | .grouping inner => inner.Grammatical
  | .unary operator operand => UnaryOperator operator.kind ∧ operand.Grammatical
  | .binary operator left right =>
    (∃ tier, BinaryOperator tier operator.kind) ∧ left.Grammatical ∧ right.Grammatical
  | .logical operator left right =>
    (∃ tier, LogicalOperator tier operator.kind) ∧ left.Grammatical ∧ right.Grammatical
  | .conditional condition positive negative =>
    condition.Grammatical ∧ positive.Grammatical ∧ negative.Grammatical
  | .variable _ => True
  | .assign _ value => value.Grammatical
  | .call callee _ arguments => callee.Grammatical ∧ Exprs.Grammatical arguments
  | .get object _ => object.Grammatical
  | .set object _ value => object.Grammatical ∧ value.Grammatical
  | .this _ => True
  | .super _ _ => True
  | .lambda declaration => declaration.Grammatical

def Exprs.Grammatical : List Expr → Prop
  | [] => True
  | first :: rest => first.Grammatical ∧ Exprs.Grammatical rest

def FunctionDecl.Grammatical : FunctionDecl → Prop
  | ⟨_, _, _, body⟩ => Stmts.Grammatical body

def Functions.Grammatical : List FunctionDecl → Prop
  | [] => True
  | first :: rest => first.Grammatical ∧ Functions.Grammatical rest

def ClassDecl.Grammatical : ClassDecl → Prop
  | ⟨_, _, methods, statics⟩ =>
    Functions.Grammatical methods ∧ Functions.Grammatical statics

/-- The operators of a statement are those of the grammar. -/
def Stmt.Grammatical : Stmt → Prop
  | .expression value => value.Grammatical
  | .print _ value => value.Grammatical
  | .var _ none => True
  | .var _ (some initializer) => initializer.Grammatical
  | .block body => Stmts.Grammatical body
  | .if condition positive none => condition.Grammatical ∧ positive.Grammatical
  | .if condition positive (some negative) =>
    condition.Grammatical ∧ positive.Grammatical ∧ negative.Grammatical
  | .while condition body => condition.Grammatical ∧ body.Grammatical
  | .break _ => True
  | .function declaration => declaration.Grammatical
  | .return _ none => True
  | .return _ (some value) => value.Grammatical
  | .class definition => definition.Grammatical

def Stmts.Grammatical : List Stmt → Prop
  | [] => True
  | first :: rest => first.Grammatical ∧ Stmts.Grammatical rest

end

theorem FunctionDecl.Grammatical.body {declaration : FunctionDecl} (h : declaration.Grammatical)
    : Stmts.Grammatical declaration.body := by
  obtain ⟨_, _, _, _⟩ := declaration
  exact h

/-- Each of some functions has the operators of the grammar, by induction over them. -/
theorem Functions.Grammatical.of_mem {functions : List FunctionDecl}
    (h : Functions.Grammatical functions)
    : ∀ declaration ∈ functions, declaration.Grammatical := by
  induction functions with
  | nil => exact List.forall_mem_nil _
  | cons first rest ih => exact List.forall_mem_cons.2 ⟨h.1, ih h.2⟩

theorem ClassDecl.Grammatical.methods {definition : ClassDecl} (h : definition.Grammatical)
    : ∀ declaration ∈ definition.methods, declaration.Grammatical := by
  obtain ⟨_, _, methods, _⟩ := definition
  exact Functions.Grammatical.of_mem h.1

theorem ClassDecl.Grammatical.statics {definition : ClassDecl} (h : definition.Grammatical)
    : ∀ declaration ∈ definition.statics, declaration.Grammatical := by
  obtain ⟨_, _, _, statics⟩ := definition
  exact Functions.Grammatical.of_mem h.2

-----------------------------------------------------------------------------------------
-- Trees without numbers
-----------------------------------------------------------------------------------------

mutual

/-- Numbers of occurrences do not matter. -/
theorem Expr.grammatical_of_unnumbered (expr : Expr) (h : expr.unnumbered.Grammatical)
    : expr.Grammatical := by
  cases expr with
  | literal _ | «variable» _ | this _ | super _ _ => trivial
  | grouping inner => exact Expr.grammatical_of_unnumbered inner h
  | unary operator operand => exact ⟨h.1, Expr.grammatical_of_unnumbered operand h.2⟩
  | binary operator left right =>
      exact ⟨h.1, Expr.grammatical_of_unnumbered left h.2.1,
        Expr.grammatical_of_unnumbered right h.2.2⟩
  | logical operator left right =>
      exact ⟨h.1, Expr.grammatical_of_unnumbered left h.2.1,
        Expr.grammatical_of_unnumbered right h.2.2⟩
  | conditional condition positive negative =>
      exact ⟨Expr.grammatical_of_unnumbered condition h.1,
        Expr.grammatical_of_unnumbered positive h.2.1,
        Expr.grammatical_of_unnumbered negative h.2.2⟩
  | assign target value => exact Expr.grammatical_of_unnumbered value h
  | call callee closing arguments =>
      exact ⟨Expr.grammatical_of_unnumbered callee h.1,
        Exprs.grammatical_of_unnumbered arguments h.2⟩
  | get object property => exact Expr.grammatical_of_unnumbered object h
  | set object property value =>
      exact ⟨Expr.grammatical_of_unnumbered object h.1, Expr.grammatical_of_unnumbered value h.2⟩
  | lambda declaration => exact FunctionDecl.grammatical_of_unnumbered declaration h

theorem Exprs.grammatical_of_unnumbered (exprs : List Expr)
    (h : Exprs.Grammatical (Exprs.unnumbered exprs))
    : Exprs.Grammatical exprs := by
  cases exprs with
  | nil => trivial
  | cons first rest =>
      exact ⟨Expr.grammatical_of_unnumbered first h.1, Exprs.grammatical_of_unnumbered rest h.2⟩

theorem FunctionDecl.grammatical_of_unnumbered (declaration : FunctionDecl)
    (h : declaration.unnumbered.Grammatical)
    : declaration.Grammatical := by
  obtain ⟨name, keyword, parameters, body⟩ := declaration
  exact Stmts.grammatical_of_unnumbered body h

theorem Functions.grammatical_of_unnumbered (functions : List FunctionDecl)
    (h : Functions.Grammatical (Functions.unnumbered functions))
    : Functions.Grammatical functions := by
  cases functions with
  | nil => trivial
  | cons first rest =>
      exact ⟨FunctionDecl.grammatical_of_unnumbered first h.1,
        Functions.grammatical_of_unnumbered rest h.2⟩

theorem ClassDecl.grammatical_of_unnumbered (definition : ClassDecl)
    (h : definition.unnumbered.Grammatical)
    : definition.Grammatical := by
  obtain ⟨name, superclass, methods, statics⟩ := definition
  exact ⟨Functions.grammatical_of_unnumbered methods h.1,
    Functions.grammatical_of_unnumbered statics h.2⟩

theorem Stmt.grammatical_of_unnumbered (stmt : Stmt) (h : stmt.unnumbered.Grammatical)
    : stmt.Grammatical := by
  cases stmt with
  | expression value => exact Expr.grammatical_of_unnumbered value h
  | print keyword value => exact Expr.grammatical_of_unnumbered value h
  | var name initializer =>
      cases initializer with
      | none => trivial
      | some initializer => exact Expr.grammatical_of_unnumbered initializer h
  | block body => exact Stmts.grammatical_of_unnumbered body h
  | «if» condition positive negative =>
      cases negative with
      | none =>
          exact ⟨Expr.grammatical_of_unnumbered condition h.1,
            Stmt.grammatical_of_unnumbered positive h.2⟩
      | some negative =>
          exact ⟨Expr.grammatical_of_unnumbered condition h.1,
            Stmt.grammatical_of_unnumbered positive h.2.1,
            Stmt.grammatical_of_unnumbered negative h.2.2⟩
  | «while» condition body =>
      exact ⟨Expr.grammatical_of_unnumbered condition h.1, Stmt.grammatical_of_unnumbered body h.2⟩
  | «break» keyword => trivial
  | function declaration => exact FunctionDecl.grammatical_of_unnumbered declaration h
  | «return» keyword value =>
      cases value with
      | none => trivial
      | some value => exact Expr.grammatical_of_unnumbered value h
  | «class» definition => exact ClassDecl.grammatical_of_unnumbered definition h

theorem Stmts.grammatical_of_unnumbered (stmts : List Stmt)
    (h : Stmts.Grammatical (Stmts.unnumbered stmts))
    : Stmts.Grammatical stmts := by
  cases stmts with
  | nil => trivial
  | cons first rest =>
      exact ⟨Stmt.grammatical_of_unnumbered first h.1, Stmts.grammatical_of_unnumbered rest h.2⟩

end

-----------------------------------------------------------------------------------------
-- Programs that were read
-----------------------------------------------------------------------------------------

namespace Grammar

/-- The operators in the tree of a nonterminal are those of the grammar. -/
def Nonterminal.Grammatical : (symbol : Nonterminal) → symbol.Tree → Prop
  | .declarations, stmts => Stmts.Grammatical stmts
  | .block, stmts => Stmts.Grammatical stmts
  | .declaration, stmt => stmt.Grammatical
  | .varDecl, stmt => stmt.Grammatical
  | .statement _, stmt => stmt.Grammatical
  | .exprStmt, stmt => stmt.Grammatical
  | .members, (methods, statics) =>
    Functions.Grammatical methods ∧ Functions.Grammatical statics
  | .function, made => made.Grammatical
  | .forInitializer, initializer => ∀ stmt ∈ initializer, stmt.Grammatical
  | .optional, value => ∀ expr ∈ value, expr.Grammatical
  | .expression, expr => expr.Grammatical
  | .ternary, expr => expr.Grammatical
  | .chain _, expr => expr.Grammatical
  | .operand _, expr => expr.Grammatical
  | .unary, expr => expr.Grammatical
  | .call, expr => expr.Grammatical
  | .primary, expr => expr.Grammatical
  | .arguments, exprs => Exprs.Grammatical exprs

/-- A loop has the operators of its parts. -/
theorem grammatical_whileForm {initializer : Option Stmt} {condition increment : Option Expr}
    {body : Stmt} (start : ∀ stmt ∈ initializer, stmt.Grammatical)
    (test : ∀ expr ∈ condition, expr.Grammatical) (step : ∀ expr ∈ increment, expr.Grammatical)
    (round : body.Grammatical)
    : (whileForm initializer condition increment body).Grammatical := by
  have guard : (condition.getD (.literal (.bool true))).Grammatical := by
    cases condition with
    | none => trivial
    | some condition => exact test condition rfl
  have inside : (increment.elim body fun step => .block [body, .expression step]).Grammatical := by
    cases increment with
    | none => exact round
    | some increment => exact ⟨round, step increment rfl, trivial⟩
  cases initializer with
  | none => exact ⟨guard, inside⟩
  | some initializer => exact ⟨start initializer rfl, ⟨guard, inside⟩, trivial⟩

/-- What is derived has the operators of the grammar. By induction on the derivation. -/
theorem Derives.grammatical {attachment : Attachment} {symbol : Nonterminal}
    {tokens rest : List Token} {tree : symbol.Tree}
    (h : Derives attachment symbol tokens tree rest)
    : symbol.Grammatical tree := by
  induction h with
  | «for» _ _ _ _ _ _ _ _ start test step body => exact grammatical_whileForm start test step body
  | @«return» _ _ _ _ returned _ _ _ value =>
      cases returned with
      | none => trivial
      | some expr => exact value expr rfl
  | unary sign _ operand => exact ⟨sign, operand⟩
  | binary _ sign _ left right => exact ⟨⟨_, sign⟩, left, right⟩
  | logical _ sign _ left right => exact ⟨⟨_, sign⟩, left, right⟩
  | _ =>
      simp_all [Nonterminal.Grammatical, Expr.Grammatical, Exprs.Grammatical,
        FunctionDecl.Grammatical, Functions.Grammatical, ClassDecl.Grammatical, Stmt.Grammatical,
        Stmts.Grammatical]

end Grammar

/-- The operators of a program that was read are those of the grammar. -/
theorem Program.grammatical_of_parse {tokens : List Token} {stop : Token} {first next : Nat}
    {program : Program} (h : Program.parse tokens stop first = (.ok program, next))
    : Stmts.Grammatical program :=
  Stmts.grammatical_of_unnumbered program (Program.derives_of_parse .any h).grammatical

theorem Expr.grammatical_of_parse? {tokens : List Token} {stop : Token} {first next : Nat}
    {expr : Expr} (h : Expr.parse? tokens stop first = (some expr, next))
    : expr.Grammatical :=
  grammatical_of_unnumbered expr (Expr.derives_of_parse? .any h).grammatical

end Lox
