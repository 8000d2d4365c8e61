import Lox.Proofs.Scanning.Steps
import Lox.Proofs.Scoping.Unused
import Lox.Proofs.Syntax.Soundness

/-! The order in which unused variables are reported. A walk over a program comes to its `var`
statements one after the other and takes down the name of each when the initializer is over, so a
statement may lose its turn only to those in its own initializer. A walk goes by the source except
that the static methods of a class come before the others, the value of a property assignment
before its object, and the body of a `for` loop before its increment.
-/

namespace Lox

-----------------------------------------------------------------------------------------
-- The statements that a walk comes to
-----------------------------------------------------------------------------------------

/-- A `var` statement. -/
structure VarStatement where
  name : Token
  initializer : Option Expr

namespace VarStatements

mutual

/-- The `var` statements in an expression in the order in which a walk comes to them, each before
those in its initializer.
-/
def ofExpr : Expr → List VarStatement
  | .literal _ | .variable _ | .this _ | .super _ _ => []
  | .grouping inner => ofExpr inner
  | .unary _ operand => ofExpr operand
  | .binary _ left right => ofExpr left ++ ofExpr right
  | .logical _ left right => ofExpr left ++ ofExpr right
  | .conditional condition positive negative =>
    ofExpr condition ++ (ofExpr positive ++ ofExpr negative)
  | .assign _ value => ofExpr value
  | .call callee _ arguments => ofExpr callee ++ ofExprs arguments
  | .get object _ => ofExpr object
  | .set object _ value => ofExpr value ++ ofExpr object
  | .lambda declaration => ofFunction declaration

def ofExprs : List Expr → List VarStatement
  | [] => []
  | first :: rest => ofExpr first ++ ofExprs rest

def ofFunction : FunctionDecl → List VarStatement
  | ⟨_, _, _, body⟩ => ofStmts body

def ofFunctions : List FunctionDecl → List VarStatement
  | [] => []
  | first :: rest => ofFunction first ++ ofFunctions rest

def ofClass : ClassDecl → List VarStatement
  | ⟨_, _, methods, statics⟩ => ofFunctions statics ++ ofFunctions methods

/-- The `var` statements in a statement, itself among them. -/
def ofStmt : Stmt → List VarStatement
  | .expression value => ofExpr value
  | .print _ value => ofExpr value
  | .var name none => [⟨name, none⟩]
  | .var name (some initializer) => ⟨name, some initializer⟩ :: ofExpr initializer
  | .block body => ofStmts body
  | .if condition positive none => ofExpr condition ++ ofStmt positive
  | .if condition positive (some negative) =>
    ofExpr condition ++ (ofStmt positive ++ ofStmt negative)
  | .while condition body => ofExpr condition ++ ofStmt body
  | .break _ => []
  | .function declaration => ofFunction declaration
  | .return _ none => []
  | .return _ (some value) => ofExpr value
  | .class declaration => ofClass declaration

def ofStmts : List Stmt → List VarStatement
  | [] => []
  | first :: rest => ofStmt first ++ ofStmts rest

end

end VarStatements

/-- The `var` statements in the initializer. -/
def VarStatement.inner : VarStatement → List VarStatement
  | ⟨_, none⟩ => []
  | ⟨_, some initializer⟩ => VarStatements.ofExpr initializer

/-- The `var` statements of a program in the order in which a walk comes to them. -/
def Program.varStatements (program : Program) : List VarStatement := VarStatements.ofStmts program

/-- A `var` statement is the first of its name that a walk comes to, with the given ones before it
and after it.
-/
structure Program.Introduces (program : Program) (before : List VarStatement)
    (statement : VarStatement) (after : List VarStatement) : Prop where
  listed : program.varStatements = before ++ statement :: after
  first : ∀ earlier ∈ before, earlier.name.lexeme ≠ statement.name.lexeme

-----------------------------------------------------------------------------------------
-- Names are taken down at the end of their initializers
-----------------------------------------------------------------------------------------

/-- The order in which the names of some `var` statements are taken down. -/
inductive Settles : List VarStatement → List Token → Prop
  | nil : Settles [] []
  | append {first second : List VarStatement} {names more : List Token}
      (h : Settles first names) (next : Settles second more)
    : Settles (first ++ second) (names ++ more)
  | var {statement : VarStatement} {names : List Token} (inside : Settles statement.inner names)
    : Settles (statement :: statement.inner) (names ++ [statement.name])

namespace Settles

/-- The same names are taken down, by induction on the order. -/
theorem perm {statements : List VarStatement} {names : List Token} (h : Settles statements names)
    : names.Perm (statements.map VarStatement.name) := by
  induction h with
  | nil => exact .nil
  | append _ _ ih next =>
      rw [List.map_append]
      exact ih.append next
  | var _ ih => exact List.perm_append_comm.trans (ih.cons _)

/-- The names taken down before that of a statement belong to earlier statements or to those in its
initializer, which come right after it. By induction on the order; where the statement is
the outermost one, nothing comes before it.
-/
theorem split {statements : List VarStatement} {names : List Token} (h : Settles statements names)
    {before after : List VarStatement} {statement : VarStatement}
    (listed : statements = before ++ statement :: after)
    : ∃ beyond earlier inside later,
        after = statement.inner ++ beyond
        ∧ names = earlier ++ (inside ++ statement.name :: later)
        ∧ earlier ⊆ before.map VarStatement.name
        ∧ inside ⊆ statement.inner.map VarStatement.name := by
  induction h generalizing before after with
  | nil => exact absurd listed (by simp)
  | @append first second names more h next ih ihNext =>
      have behind (shared : List VarStatement) (front : before = first ++ shared)
          (rest : second = shared ++ statement :: after)
          : ∃ beyond earlier inside later,
              after = statement.inner ++ beyond
              ∧ names ++ more = earlier ++ (inside ++ statement.name :: later)
              ∧ earlier ⊆ before.map VarStatement.name
              ∧ inside ⊆ statement.inner.map VarStatement.name := by
        obtain ⟨beyond, earlier, inside, later, rfl, rfl, among, within⟩ := ihNext rest
        refine ⟨beyond, names ++ earlier, inside, later, rfl, by simp, ?_, within⟩
        rw [front, List.map_append]
        exact List.append_subset.2 ⟨List.subset_append_of_subset_left _ h.perm.subset,
          List.subset_append_of_subset_right _ among⟩
      rcases List.append_eq_append_iff.1 listed with ⟨shared, front, rest⟩ | ⟨shared, whole, rest⟩
      · exact behind shared front rest
      · cases shared with
        | nil => exact behind [] (by rw [whole, List.append_nil, List.append_nil]) rest.symm
        | cons head shared =>
            obtain ⟨rfl, rfl⟩ := List.cons.inj rest
            obtain ⟨beyond, earlier, inside, later, rfl, rfl, among, within⟩ := ih whole
            exact ⟨beyond ++ second, earlier, inside, later ++ more, by simp, by simp, among,
              within⟩
  | @var outer names h ih =>
      cases before with
      | nil =>
          obtain ⟨rfl, rfl⟩ := List.cons.inj listed
          exact ⟨[], [], names, [], by simp, by simp, by simp, h.perm.subset⟩
      | cons head before =>
          obtain ⟨rfl, rest⟩ := List.cons.inj listed
          obtain ⟨beyond, earlier, inside, later, rfl, rfl, among, within⟩ := ih rest
          exact ⟨beyond, earlier, inside, later ++ [outer.name], rfl, by simp,
            List.subset_cons_of_subset _ among, within⟩

end Settles

namespace VarStatements

mutual

/-- The walk takes down the names of an expression, by induction over the tree. -/
theorem settles_expr (expr : Expr) : Settles (ofExpr expr) (Variables.ofExpr expr) := by
  cases expr with
  | literal | «variable» | this | super => exact .nil
  | grouping inner => exact settles_expr inner
  | unary operator operand => exact settles_expr operand
  | binary operator left right => exact .append (settles_expr left) (settles_expr right)
  | logical operator left right => exact .append (settles_expr left) (settles_expr right)
  | conditional condition positive negative =>
      exact .append (settles_expr condition)
        (.append (settles_expr positive) (settles_expr negative))
  | assign target value => exact settles_expr value
  | call callee closing arguments => exact .append (settles_expr callee) (settles_exprs arguments)
  | get object property => exact settles_expr object
  | set object property value => exact .append (settles_expr value) (settles_expr object)
  | lambda declaration => exact settles_function declaration

theorem settles_exprs (exprs : List Expr) : Settles (ofExprs exprs) (Variables.ofExprs exprs) := by
  cases exprs with
  | nil => exact .nil
  | cons first rest => exact .append (settles_expr first) (settles_exprs rest)

theorem settles_function (declaration : FunctionDecl)
    : Settles (ofFunction declaration) (Variables.ofFunction declaration) := by
  cases declaration with
  | mk name keyword parameters body => exact settles_stmts body

theorem settles_functions (declarations : List FunctionDecl)
    : Settles (ofFunctions declarations) (Variables.ofFunctions declarations) := by
  cases declarations with
  | nil => exact .nil
  | cons first rest => exact .append (settles_function first) (settles_functions rest)

theorem settles_class (definition : ClassDecl)
    : Settles (ofClass definition) (Variables.ofClass definition) := by
  cases definition with
  | mk name superclass methods statics =>
      exact .append (settles_functions statics) (settles_functions methods)

theorem settles_stmt (stmt : Stmt) : Settles (ofStmt stmt) (Variables.ofStmt stmt) := by
  cases stmt with
  | expression value => exact settles_expr value
  | print keyword value => exact settles_expr value
  | var name initializer =>
      cases initializer with
      | none => exact @Settles.var ⟨name, none⟩ [] .nil
      | some initializer =>
          exact @Settles.var ⟨name, some initializer⟩ _ (settles_expr initializer)
  | block body => exact settles_stmts body
  | «if» condition positive negative =>
      cases negative with
      | none => exact .append (settles_expr condition) (settles_stmt positive)
      | some negative =>
          exact .append (settles_expr condition)
            (.append (settles_stmt positive) (settles_stmt negative))
  | «while» condition body => exact .append (settles_expr condition) (settles_stmt body)
  | «break» => exact .nil
  | function declaration => exact settles_function declaration
  | «return» keyword value =>
      cases value with
      | none => exact .nil
      | some value => exact settles_expr value
  | «class» definition => exact settles_class definition

theorem settles_stmts (stmts : List Stmt) : Settles (ofStmts stmts) (Variables.ofStmts stmts) := by
  cases stmts with
  | nil => exact .nil
  | cons first rest => exact .append (settles_stmt first) (settles_stmts rest)

end

end VarStatements

-----------------------------------------------------------------------------------------
-- The order of the source
-----------------------------------------------------------------------------------------

namespace VarStatements

/-- The names of some `var` statements. -/
def names (statements : List VarStatement) : List Token := statements.map VarStatement.name

@[simp]
theorem names_append (first second : List VarStatement)
    : names (first ++ second) = names first ++ names second := List.map_append

mutual

/-- The names do not depend on the numbers of occurrences, by induction over the tree. -/
theorem names_expr (expr : Expr) : names (ofExpr expr.unnumbered) = names (ofExpr expr) := by
  cases expr with
  | literal | «variable» | this | super => rfl
  | grouping inner => exact names_expr inner
  | unary operator operand => exact names_expr operand
  | binary operator left right | logical operator left right =>
      simp only [Expr.unnumbered, ofExpr, names_append, names_expr left, names_expr right]
  | conditional condition positive negative =>
      simp only [Expr.unnumbered, ofExpr, names_append, names_expr condition, names_expr positive,
        names_expr negative]
  | assign target value => exact names_expr value
  | call callee closing arguments =>
      simp only [Expr.unnumbered, ofExpr, names_append, names_expr callee, names_exprs arguments]
  | get object property => exact names_expr object
  | set object property value =>
      simp only [Expr.unnumbered, ofExpr, names_append, names_expr value, names_expr object]
  | lambda declaration => exact names_function declaration

theorem names_exprs (exprs : List Expr)
    : names (ofExprs (Exprs.unnumbered exprs)) = names (ofExprs exprs) := by
  cases exprs with
  | nil => rfl
  | cons first rest =>
      simp only [Exprs.unnumbered, ofExprs, names_append, names_expr first, names_exprs rest]

theorem names_function (declaration : FunctionDecl)
    : names (ofFunction declaration.unnumbered) = names (ofFunction declaration) := by
  cases declaration with
  | mk name keyword parameters body => exact names_stmts body

theorem names_functions (declarations : List FunctionDecl)
    : names (ofFunctions (Functions.unnumbered declarations))
      = names (ofFunctions declarations) := by
  cases declarations with
  | nil => rfl
  | cons first rest =>
      simp only [Functions.unnumbered, ofFunctions, names_append, names_function first,
        names_functions rest]

theorem names_class (definition : ClassDecl)
    : names (ofClass definition.unnumbered) = names (ofClass definition) := by
  cases definition with
  | mk name superclass methods statics =>
      simp only [ClassDecl.unnumbered, ofClass, names_append, names_functions methods,
        names_functions statics]

theorem names_stmt (stmt : Stmt) : names (ofStmt stmt.unnumbered) = names (ofStmt stmt) := by
  cases stmt with
  | expression value => exact names_expr value
  | print keyword value => exact names_expr value
  | var name initializer =>
      cases initializer with
      | none => rfl
      | some initializer => exact congrArg (name :: ·) (names_expr initializer)
  | block body => exact names_stmts body
  | «if» condition positive negative =>
      cases negative with
      | none =>
          simp only [Stmt.unnumbered, ofStmt, names_append, names_expr condition,
            names_stmt positive]
      | some negative =>
          simp only [Stmt.unnumbered, ofStmt, names_append, names_expr condition,
            names_stmt positive, names_stmt negative]
  | «while» condition body =>
      simp only [Stmt.unnumbered, ofStmt, names_append, names_expr condition, names_stmt body]
  | «break» => rfl
  | function declaration => exact names_function declaration
  | «return» keyword value =>
      cases value with
      | none => rfl
      | some value => exact names_expr value
  | «class» definition => exact names_class definition

theorem names_stmts (stmts : List Stmt)
    : names (ofStmts (Stmts.unnumbered stmts)) = names (ofStmts stmts) := by
  cases stmts with
  | nil => rfl
  | cons first rest =>
      simp only [Stmts.unnumbered, ofStmts, names_append, names_stmt first, names_stmts rest]

end

end VarStatements

namespace Grammar

/-- The tokens that follow the word `var`, in order. -/
def varNames : List Token → List Token
  | [] => []
  | word :: rest =>
    if word.isKeyword .var then rest.head?.toList ++ varNames rest else varNames rest

/-- A source that is walked in the order in which it is written: it has no static methods, no `for`
loops and no assignments to properties.
-/
structure Straight (tokens : List Token) : Prop where
  noStatic : ∀ word ∈ tokens, word.kind ≠ .keyword .static
  noFor : ∀ word ∈ tokens, word.kind ≠ .keyword .for
  noSet
    : ∀ dot name equal, dot.kind = .mark .dot → name.kind = .identifier → equal.kind = .mark .equal
      → ¬ [dot, name, equal] <:+: tokens

theorem Straight.of_suffix {tokens rest : List Token} (h : Straight tokens)
    (suffix : rest <:+ tokens)
    : Straight rest where
  noStatic word member := h.noStatic word (suffix.subset member)
  noFor word member := h.noFor word (suffix.subset member)
  noSet dot name equal dotted named sign within :=
    h.noSet dot name equal dotted named sign (within.trans suffix.isInfix)

/-- The tokens up to `rest` hold `var` statements of the given names, listed in the order of the
source if it is straight.
-/
def Spells (tokens names rest : List Token) : Prop :=
  ∃ order,
    varNames tokens = order ++ varNames rest
    ∧ order.Perm names
    ∧ (Straight tokens → order = names)

namespace Spells

variable {tokens names rest : List Token} {word : Token} {kind : TokenKind}

theorem varNames_cons (is : word.kind = kind) (other : kind ≠ .keyword .var)
    : varNames (word :: rest) = varNames rest := by
  have different : ¬ word.isKeyword .var := fun h => other (is ▸ (word.isKeyword_iff .var).1 h)
  rw [varNames, if_neg different]

theorem refl (tokens : List Token) : Spells tokens [] tokens :=
  ⟨[], rfl, .nil, fun _ => rfl⟩

/-- Another word before the tokens. -/
theorem skip (h : Spells tokens names rest) (is : word.kind = kind) (other : kind ≠ .keyword .var)
    : Spells (word :: tokens) names rest := by
  obtain ⟨order, written, same, ordered⟩ := h
  refine ⟨order, (varNames_cons is other).trans written, same, fun straight => ?_⟩
  exact ordered (straight.of_suffix (List.suffix_cons _ _))

/-- Another word after the tokens. -/
theorem close (h : Spells tokens names (word :: rest)) (is : word.kind = kind)
    (other : kind ≠ .keyword .var)
    : Spells tokens names rest := by
  obtain ⟨order, written, same, ordered⟩ := h
  exact ⟨order, written.trans (by rw [varNames_cons is other]), same, ordered⟩

theorem trans {middle more : List Token} (h : Spells tokens names middle)
    (next : Spells middle more rest) (suffix : middle <:+ tokens)
    : Spells tokens (names ++ more) rest := by
  obtain ⟨order, written, same, ordered⟩ := h
  obtain ⟨later, continued, sameNext, orderedNext⟩ := next
  refine ⟨order ++ later, ?_, same.append sameNext, fun straight => ?_⟩
  · rw [written, continued, List.append_assoc]
  · rw [ordered straight, orderedNext (straight.of_suffix suffix)]

/-- Another word between two parts. -/
theorem past {middle more : List Token} (h : Spells tokens names (word :: middle))
    (is : word.kind = kind) (other : kind ≠ .keyword .var) (next : Spells middle more rest)
    (suffix : word :: middle <:+ tokens)
    : Spells tokens (names ++ more) rest :=
  (h.close is other).trans next ((List.suffix_cons _ _).trans suffix)

/-- The same names in another order, which is not that of a straight source. -/
theorem reorder {others : List Token} (h : Spells tokens names rest) (same : names.Perm others)
    (ordered : Straight tokens → names = others)
    : Spells tokens others rest := by
  obtain ⟨order, written, perm, inOrder⟩ := h
  exact ⟨order, written, perm.trans same, fun straight =>
    (inOrder straight).trans (ordered straight)⟩

/-- The name that follows the word `var` comes before all others. -/
theorem var {name : Token} (h : Spells tokens names rest) (keyword : word.kind = .keyword .var)
    (named : name.kind = .identifier)
    : Spells (word :: name :: tokens) (name :: names) rest := by
  obtain ⟨order, written, same, ordered⟩ := h
  have declares : word.isKeyword .var := (word.isKeyword_iff .var).2 keyword
  refine ⟨name :: order, ?_, same.cons name, fun straight => ?_⟩
  · rw [varNames, if_pos declares, varNames_cons named nofun, written]
    rfl
  · rw [ordered (straight.of_suffix ((List.suffix_cons _ _).trans (List.suffix_cons _ _)))]

end Spells

theorem ParameterList.spells {tokens names rest : List Token} (h : ParameterList tokens names rest)
    : Spells tokens [] rest := by
  induction h with
  | one named => exact (Spells.refl _).skip named nofun
  | more named separated _ ih => exact (ih.skip separated nofun).skip named nofun

theorem Parameters.spells {tokens names rest : List Token} (h : Parameters tokens names rest)
    : Spells tokens [] rest := by
  cases h with
  | none opened closed => exact ((Spells.refl _).skip closed nofun).skip opened nofun
  | some opened list few closed => exact (list.spells.close closed nofun).skip opened nofun

theorem Clause.spells {tokens rest : List Token} {superclass : Option Occurrence}
    (h : Clause tokens superclass rest)
    : Spells tokens [] rest := by
  cases h with
  | none => exact .refl _
  | some sign named => exact ((Spells.refl _).skip named nofun).skip sign nofun

/-- The `var` statements in a tree in the order in which a walk comes to them. -/
def Nonterminal.varStatements : (symbol : Nonterminal) → symbol.Tree → List VarStatement
  | .declarations, tree | .block, tree => VarStatements.ofStmts tree
  | .declaration, tree | .varDecl, tree | .statement _, tree | .exprStmt, tree =>
    VarStatements.ofStmt tree
  | .members, (methods, statics) =>
    VarStatements.ofFunctions statics ++ VarStatements.ofFunctions methods
  | .function, tree => VarStatements.ofFunction tree
  | .forInitializer, tree => tree.elim [] VarStatements.ofStmt
  | .optional, tree => tree.elim [] VarStatements.ofExpr
  | .expression, tree | .ternary, tree | .chain _, tree | .operand _, tree | .unary, tree
  | .call, tree | .primary, tree => VarStatements.ofExpr tree
  | .arguments, tree => VarStatements.ofExprs tree

/-- The members of a class have no static method among them. -/
def Nonterminal.Ordinary : (symbol : Nonterminal) → symbol.Tree → Prop
  | .members, tree => tree.2 = []
  | _, _ => True

theorem Straight.ordinary {attachment : Attachment} {symbol : Nonterminal}
    {tokens rest : List Token} {tree : symbol.Tree} (straight : Straight tokens)
    (h : Derives attachment symbol tokens tree rest)
    : symbol.Ordinary tree := by
  induction h with
  | noMember => rfl
  | staticMember keyword => exact absurd keyword (straight.noStatic _ List.mem_cons_self)
  | member first _ _ ih => exact ih (straight.of_suffix first.suffix)
  | _ => trivial

theorem varStatements_whileForm (initializer : Option Stmt) (condition increment : Option Expr)
    (body : Stmt)
    : VarStatements.ofStmt (whileForm initializer condition increment body)
      = initializer.elim [] VarStatements.ofStmt
        ++ (condition.elim [] VarStatements.ofExpr
          ++ (VarStatements.ofStmt body ++ increment.elim [] VarStatements.ofExpr)) := by
  cases initializer <;> cases condition <;> cases increment
    <;> simp [whileForm, VarStatements.ofStmt, VarStatements.ofStmts, VarStatements.ofExpr]

/-- A derivation holds the `var` statements of its tree, by induction on the derivation. Only where
a walk turns back in the source are there more names to be put in order.
-/
theorem Derives.spells {attachment : Attachment} {symbol : Nonterminal} {tokens rest : List Token}
    {tree : symbol.Tree} (h : Derives attachment symbol tokens tree rest)
    : Spells tokens (VarStatements.names (symbol.varStatements tree)) rest := by
  induction h with
  | noDeclaration | noMember | absent => exact .refl _
  | moreDeclarations first _ ih ihOthers =>
      rw [Nonterminal.varStatements, VarStatements.ofStmts, VarStatements.names_append]
      exact ih.trans ihOthers first.suffix
  | «class» keyword named clause opened members closed ih =>
      have inside := (clause.spells.close opened nofun).trans (ih.close closed nofun)
        ((List.suffix_cons _ _).trans clause.suffix)
      exact (inside.skip named nofun).skip keyword nofun
  | named keyword declared ih => exact ih.skip keyword nofun
  | var _ ih | statement _ ih | expressionStatement _ ih | blockStatement _ ih
  | initializerVar _ ih | initializerExpr _ ih | present _ ih | expression _ ih | ternary _ ih
  | chain _ ih | operand _ _ ih | factor _ ih | unaryCall _ ih | primary _ ih => exact ih
  | staticMember keyword first _ ih ihOthers =>
      rw [Nonterminal.varStatements, VarStatements.ofFunctions, List.append_assoc,
        VarStatements.names_append]
      exact (ih.trans ihOthers first.suffix).skip keyword nofun
  | @member _ _ _ _ _ statics first others ih ihOthers =>
      simp only [Nonterminal.varStatements, VarStatements.ofFunctions, VarStatements.names_append]
        at ih ihOthers ⊢
      apply (ih.trans ihOthers first.suffix).reorder
      · exact List.perm_append_comm_assoc _ _ _
      · intro straight
        have none : statics = [] := (straight.of_suffix first.suffix).ordinary others
        rw [none]
        rfl
  | function named listed body ih =>
      exact (listed.spells.trans ih listed.suffix).skip named nofun
  | uninitialized keyword named ended =>
      exact ((Spells.refl _).skip ended nofun).var keyword named
  | initialized keyword named sign _ ended ih =>
      exact ((ih.close ended nofun).skip sign nofun).var keyword named
  | block opened body closed ih => exact (ih.close closed nofun).skip opened nofun
  | «for» keyword opened start test ended step closed body ih ihTest ihStep ihBody =>
      rw [Nonterminal.varStatements, varStatements_whileForm]
      simp only [VarStatements.names_append]
      have afterTest := ihStep.past closed nofun ihBody step.suffix
      have inside := ih.trans (ihTest.past ended nofun afterTest test.suffix) start.suffix
      apply ((inside.skip opened nofun).skip keyword nofun).reorder
      · exact (List.perm_append_comm.append_left _).append_left _
      · intro straight
        exact absurd keyword (straight.noFor _ List.mem_cons_self)
  | «if» keyword opened test closed _ ih ihTaken =>
      rw [Nonterminal.varStatements, VarStatements.ofStmt, VarStatements.names_append]
      exact ((ih.past closed nofun ihTaken test.suffix).skip opened nofun).skip keyword nofun
  | ifElse keyword opened test closed taken _ keywordElse _ ih ihTaken ihLeft =>
      simp only [Nonterminal.varStatements, VarStatements.ofStmt, VarStatements.names_append]
      have branches := ihTaken.past keywordElse nofun ihLeft taken.suffix
      exact ((ih.past closed nofun branches test.suffix).skip opened nofun).skip keyword nofun
  | print keyword _ ended ih => exact (ih.close ended nofun).skip keyword nofun
  | @«return» _ _ _ _ returned keyword _ ended ih =>
      cases returned <;> exact (ih.close ended nofun).skip keyword nofun
  | «while» keyword opened test closed _ ih ihBody =>
      rw [Nonterminal.varStatements, VarStatements.ofStmt, VarStatements.names_append]
      exact ((ih.past closed nofun ihBody test.suffix).skip opened nofun).skip keyword nofun
  | «break» keyword ended => exact ((Spells.refl _).skip ended nofun).skip keyword nofun
  | exprStmt _ ended ih => exact ih.close ended nofun
  | noInitializer ended => exact (Spells.refl _).skip ended nofun
  | assign named sign _ ih => exact (ih.skip sign nofun).skip named nofun
  | @set dot name equal _ next _ _ _ object dotted named sign _ ih ihValue =>
      rw [Nonterminal.varStatements, VarStatements.ofExpr, VarStatements.names_append]
      have dropped : equal :: next <:+ dot :: name :: equal :: next :=
        (List.suffix_cons _ _).trans (List.suffix_cons _ _)
      have inside := ((ih.close dotted nofun).close named nofun).past sign nofun ihValue
        (dropped.trans object.suffix)
      apply inside.reorder List.perm_append_comm
      intro straight
      have prefixed : [dot, name, equal] <+: dot :: name :: equal :: next := ⟨next, rfl⟩
      exact absurd (prefixed.isInfix.trans object.suffix.isInfix)
        (straight.noSet dot name equal dotted named sign)
  | conditional test asked taken separated _ ih ihTaken ihLeft =>
      simp only [Nonterminal.varStatements, VarStatements.ofExpr, VarStatements.names_append]
      have branches := ihTaken.past separated nofun ihLeft taken.suffix
      exact ih.past asked nofun branches test.suffix
  | logical before sign _ ih ihOperand =>
      rw [Nonterminal.varStatements, VarStatements.ofExpr, VarStatements.names_append]
      exact ih.past rfl (fun is => by rw [is] at sign; cases sign) ihOperand before.suffix
  | binary before sign _ ih ihOperand =>
      rw [Nonterminal.varStatements, VarStatements.ofExpr, VarStatements.names_append]
      exact ih.past rfl (fun is => by rw [is] at sign; cases sign) ihOperand before.suffix
  | unary sign _ ih => exact ih.skip rfl fun is => by rw [is] at sign; cases sign
  | callNone _ opened closed ih =>
      rw [Nonterminal.varStatements, VarStatements.ofExpr, VarStatements.ofExprs, List.append_nil]
      exact (ih.close opened nofun).close closed nofun
  | call callee opened _ _ closed ih ihGiven =>
      rw [Nonterminal.varStatements, VarStatements.ofExpr, VarStatements.names_append]
      exact ih.past opened nofun (ihGiven.close closed nofun) callee.suffix
  | get _ dotted named ih => exact (ih.close dotted nofun).close named nofun
  | argument _ ih =>
      rw [Nonterminal.varStatements, VarStatements.ofExprs, VarStatements.ofExprs, List.append_nil]
      exact ih
  | moreArguments first separated _ ih ihOthers =>
      rw [Nonterminal.varStatements, VarStatements.ofExprs, VarStatements.names_append]
      exact ih.past separated nofun ihOthers first.suffix
  | literal constant =>
      exact (Spells.refl _).skip rfl fun is => by rw [is] at constant; cases constant
  | this keyword => exact (Spells.refl _).skip keyword nofun
  | name named => exact (Spells.refl _).skip named nofun
  | grouping opened _ closed ih => exact (ih.close closed nofun).skip opened nofun
  | super keyword dotted named =>
      exact (((Spells.refl _).skip named nofun).skip dotted nofun).skip keyword nofun
  | lambda keyword listed _ ih =>
      exact (listed.spells.trans ih listed.suffix).skip keyword nofun

end Grammar

/-- The `var` statements that a walk comes to are those of the source, in the order of a straight
source.
-/
theorem Program.names_varStatements {tokens : List Token} {stop : Token} {first next : Nat}
    {program : Program} (parsed : Program.parse tokens stop first = (.ok program, next))
    : (Grammar.varNames tokens).Perm (program.varStatements.map VarStatement.name)
      ∧ (Grammar.Straight tokens
        → Grammar.varNames tokens = program.varStatements.map VarStatement.name) := by
  obtain ⟨order, written, same, ordered⟩ := (Program.derives_of_parse .any parsed).spells
  rw [Grammar.varNames, List.append_nil] at written
  change order.Perm (VarStatements.names (VarStatements.ofStmts (Stmts.unnumbered program))) at same
  change Grammar.Straight tokens
    → order = VarStatements.names (VarStatements.ofStmts (Stmts.unnumbered program)) at ordered
  rw [VarStatements.names_stmts] at same ordered
  exact written ▸ ⟨same, ordered⟩

-----------------------------------------------------------------------------------------
-- The order of the reports
-----------------------------------------------------------------------------------------

namespace Tally

/-- What is kept stays, and more comes after it. -/
theorem foldl_keep_extends (known names : List Token)
    : ∃ more, names.foldl keep known = known ++ more := by
  induction names generalizing known with
  | nil => exact ⟨[], (List.append_nil known).symm⟩
  | cons first rest ih =>
      obtain ⟨more, extended⟩ := ih (keep known first)
      rw [List.foldl_cons, extended]
      unfold keep
      split
      · exact ⟨more, rfl⟩
      · exact ⟨first :: more, by rw [List.append_assoc, List.singleton_append]⟩

/-- The first token of a lexeme is kept. -/
theorem mem_foldl_keep_first {earlier later : List Token} {name : Token}
    (first : ∀ token ∈ earlier, token.lexeme ≠ name.lexeme)
    : name ∈ (earlier ++ name :: later).foldl keep [] := by
  have new : ¬ (earlier.foldl keep []).any (·.lexeme = name.lexeme) := by
    intro present
    obtain ⟨token, member, same⟩ := List.any_eq_true.1 present
    have among := (mem_foldl_keep member).resolve_left List.not_mem_nil
    exact first token among (of_decide_eq_true same)
  have kept : keep (earlier.foldl keep []) name = earlier.foldl keep [] ++ [name] := by
    rw [keep, if_neg new]
  obtain ⟨more, extended⟩ := foldl_keep_extends (earlier.foldl keep [] ++ [name]) later
  rw [List.foldl_append, List.foldl_cons, kept, extended]
  simp

end Tally

/-- The reports of unused variables among some errors. -/
def ScopeError.unusedAmong (errors : List ScopeError) : List ScopeError :=
  errors.filter fun error =>
    match error.cause with
    | .unused _ => true
    | _ => false

/-- The rules for single places say nothing of unused variables. -/
theorem Place.unusedAmong_errors (place : Place) : ScopeError.unusedAmong place.errors = [] := by
  rcases place with ⟨around, act⟩
  cases act with
  | use kind occurrence =>
      cases kind <;> simp only [errors]
      all_goals first | rfl | split <;> rfl
  | function _ | branch _ | inheritItself _ => rfl
  | declare _ | «break» _ =>
      simp only [errors]
      split <;> rfl
  | «return» keyword givesValue =>
      simp only [errors]
      split <;> split <;> rfl

namespace Program

variable {program : Program}

/-- A rejected program is told of its unused variables after everything else. -/
theorem unusedAmong_errors {errors : List ScopeError}
    (rejected : program.resolve true = .error errors)
    : ScopeError.unusedAmong errors = program.unusedErrors := by
  have walked := (Analysis.visited_stmts program Analysis.fits_start).errors
  have others : ScopeError.unusedAmong (Analysis.stmts program .start).errors = [] := by
    rw [walked]
    change List.filter _ ([] ++ _) = []
    rw [List.nil_append, List.filter_flatMap]
    exact List.flatMap_eq_nil_iff.2 fun place _ => place.unusedAmong_errors
  have own : ScopeError.unusedAmong program.unusedErrors = program.unusedErrors := by
    refine List.filter_eq_self.2 fun report member => ?_
    obtain ⟨name, _, rfl⟩ := List.mem_map.1 member
    rfl
  have all : errors = (Analysis.stmts program .start).errors ++ program.unusedErrors := by
    rw [← program.errors_checkUnused]
    change (Analysis.stmts program .start).checkUnused.result = .error errors at rejected
    unfold Analysis.result at rejected
    split at rejected <;> cases rejected
    rfl
  rw [all, ScopeError.unusedAmong, List.filter_append]
  change ScopeError.unusedAmong _ ++ ScopeError.unusedAmong _ = _
  rw [others, own, List.nil_append]

/-- A name that is declared is introduced somewhere. -/
theorem exists_introduces {name : Token} (member : name ∈ program.varNames)
    : ∃ before statement after,
        program.Introduces before statement after ∧ statement.name.lexeme = name.lexeme := by
  have settled := VarStatements.settles_stmts program
  obtain ⟨found, listed, rfl⟩ := List.mem_map.1 (settled.perm.subset member)
  have spoken : found.name.lexeme ∈ program.varStatements.map (·.name.lexeme) :=
    List.mem_map.2 ⟨found, listed, rfl⟩
  obtain ⟨_, _, divided, new⟩ := List.eq_append_cons_of_mem spoken
  obtain ⟨before, _, whole, rfl, onward⟩ := List.map_eq_append_iff.1 divided
  obtain ⟨statement, after, rfl, same, rfl⟩ := List.map_eq_cons_iff.1 onward
  refine ⟨before, statement, after, ⟨whole, fun earlier among equal => ?_⟩, same⟩
  exact new (List.mem_map.2 ⟨earlier, among, equal.trans same⟩)

/-- A name is taken down after those in its initializer and some that came before. -/
theorem Introduces.settled {before after : List VarStatement} {statement : VarStatement}
    (h : program.Introduces before statement after)
    : ∃ beyond earlier later,
        after = statement.inner ++ beyond
        ∧ program.varNames = earlier ++ statement.name :: later
        ∧ ∀ token ∈ earlier, ∃ other ∈ before ++ statement.inner, other.name = token := by
  obtain ⟨beyond, earlier, inside, later, rest, names, among, within⟩ :=
    (VarStatements.settles_stmts program).split h.listed
  refine ⟨beyond, earlier ++ inside, later, rest, ?_, fun token member => ?_⟩
  · rw [List.append_assoc]
    exact names
  · rw [← List.mem_map, List.map_append]
    exact List.append_subset.2 ⟨List.subset_append_of_subset_left _ among,
      List.subset_append_of_subset_right _ within⟩ member

/-- The report of a name is at the statement that introduces it, unless the initializer declares the
name as well.
-/
theorem Introduces.report {before after : List VarStatement} {statement : VarStatement}
    (h : program.Introduces before statement after)
    (once : ∀ inner ∈ statement.inner, inner.name.lexeme ≠ statement.name.lexeme) {name : Token}
    (unused : name ∈ program.unused) (same : statement.name.lexeme = name.lexeme)
    : name = statement.name := by
  obtain ⟨_, earlier, later, -, names, among⟩ := h.settled
  have first : ∀ token ∈ earlier, token.lexeme ≠ statement.name.lexeme := by
    intro token member
    obtain ⟨other, listed, rfl⟩ := among token member
    rcases List.mem_append.1 listed with listed | listed
    · exact h.first other listed
    · exact once other listed
  have kept : statement.name ∈ program.varNames.foldl Tally.keep [] :=
    names ▸ Tally.mem_foldl_keep_first first
  have distinct : ((program.varNames.foldl Tally.keep []).map Token.lexeme).Nodup :=
    Tally.nodup_foldl_keep program.varNames List.nodup_nil
  exact List.inj_on_of_nodup_map distinct (List.mem_of_mem_filter unused) kept same.symm

/-- Two names are reported in the order in which they are introduced, unless the initializer of one
introduces the other.
-/
theorem Introduces.ordered {before between after : List VarStatement}
    {statement other : VarStatement}
    (h : program.Introduces before statement (statement.inner ++ (between ++ other :: after)))
    (next
      : program.Introduces (before ++ statement :: (statement.inner ++ between)) other after)
    (unused : statement.name.lexeme ∈ program.unused.map Token.lexeme)
    (unusedNext : other.name.lexeme ∈ program.unused.map Token.lexeme)
    : List.Sublist [statement.name.lexeme, other.name.lexeme]
        (program.unused.map Token.lexeme) := by
  obtain ⟨_, earlier, later, -, names, among⟩ := h.settled
  let unread (name : Token) : Bool :=
    !(program.places.filterMap Place.read?).contains name.lexeme
  let known := (earlier ++ [statement.name]).foldl Tally.keep []
  obtain ⟨more, extended⟩ := Tally.foldl_keep_extends known later
  have divided : program.unused = known.filter unread ++ more.filter unread := by
    rw [← List.filter_append, ← extended, ← List.foldl_append, ← List.append_cons, ← names]
    rfl
  obtain ⟨name, member, same⟩ := List.mem_map.1 unused
  obtain ⟨nameNext, memberNext, sameNext⟩ := List.mem_map.1 unusedNext
  have here : statement.name.lexeme ∈ (known.filter unread).map Token.lexeme := by
    have present : statement.name.lexeme ∈ known.map Token.lexeme :=
      (Tally.mem_map_foldl_keep _ _ _).2 (.inr (List.mem_map.2 ⟨statement.name, by simp, rfl⟩))
    obtain ⟨token, listed, alike⟩ := List.mem_map.1 present
    refine List.mem_map.2 ⟨token, List.mem_filter.2 ⟨listed, ?_⟩, alike⟩
    have silent := (List.mem_filter.1 member).2
    rwa [same, ← alike] at silent
  have there : other.name.lexeme ∈ (more.filter unread).map Token.lexeme := by
    refine List.mem_map.2 ⟨nameNext, ?_, sameNext⟩
    refine (List.mem_append.1 (divided ▸ memberNext)).resolve_left fun listed => ?_
    have passed := (Tally.mem_foldl_keep (List.mem_of_mem_filter listed)).resolve_left
      List.not_mem_nil
    obtain ⟨earlier, came, rfl⟩ : ∃ earlier ∈ before ++ statement :: (statement.inner ++ between),
        earlier.name = nameNext := by
      rcases List.mem_append.1 passed with early | last
      · obtain ⟨found, listed, rfl⟩ := among nameNext early
        exact ⟨found, by grind, rfl⟩
      · exact ⟨statement, by simp, (List.mem_singleton.1 last).symm⟩
    exact next.first earlier came sameNext
  rw [divided, List.map_append]
  exact (List.singleton_sublist.2 here).append (List.singleton_sublist.2 there)

/-- The reports of unused variables come in the order in which a walk comes to the first `var`
statements of their names, each at the name token of its statement. That order is the order of
the source but for static methods, `for` loops and assignments to properties. It is left
open how a statement and those in its own initializer are ordered, and which of them is reported if
they declare the same name.
-/
theorem unusedAmong_inOrder {tokens : List Token} {stop : Token} {first next : Nat}
    (parsed : Program.parse tokens stop first = (.ok program, next)) {errors : List ScopeError}
    (rejected : program.resolve true = .error errors)
    : ((Grammar.varNames tokens).Perm (program.varStatements.map VarStatement.name)
        ∧ (Grammar.Straight tokens
          → Grammar.varNames tokens = program.varStatements.map VarStatement.name))
      ∧ ((ScopeError.unusedAmong errors).map (·.token.lexeme)).Nodup
      ∧ (∀ report ∈ ScopeError.unusedAmong errors,
          report.cause = .unused report.token.lexeme
          ∧ ∃ before statement beyond,
              program.Introduces before statement (statement.inner ++ beyond)
              ∧ statement.name.lexeme = report.token.lexeme
              ∧ ((∀ inner ∈ statement.inner, inner.name.lexeme ≠ statement.name.lexeme)
                → report.token = statement.name))
      ∧ ∀ before statement between other after,
          program.Introduces before statement (statement.inner ++ (between ++ other :: after))
          → program.Introduces (before ++ statement :: (statement.inner ++ between)) other after
          → statement.name.lexeme ∈ (ScopeError.unusedAmong errors).map (·.token.lexeme)
          → other.name.lexeme ∈ (ScopeError.unusedAmong errors).map (·.token.lexeme)
          → List.Sublist [statement.name.lexeme, other.name.lexeme]
              ((ScopeError.unusedAmong errors).map (·.token.lexeme)) := by
  rw [unusedAmong_errors rejected, lexemes_unusedErrors]
  refine ⟨names_varStatements parsed, program.nodup_unused, ?_, ?_⟩
  · intro report member
    obtain ⟨name, unused, rfl⟩ := List.mem_map.1 member
    obtain ⟨before, statement, after, introduced, same⟩ :=
      exists_introduces (mem_varNames_of_mem_unused unused)
    obtain ⟨beyond, _, _, rfl, -⟩ := introduced.settled
    exact ⟨rfl, before, statement, beyond, introduced, same,
      fun once => introduced.report once unused same⟩
  · intro before statement between other after introduced later unused unusedNext
    exact introduced.ordered later unused unusedNext

/-- The variable of a function is reported before one that follows the function. -/
theorem unusedAmong_inOrder_function
    : ∃ program next errors,
        Program.parse (Scan.ofText "fun f()\x7bvar b;\x7dvar a;").tokens
            (Scan.ofText "fun f()\x7bvar b;\x7dvar a;").stop 0
          = (.ok program, next)
        ∧ program.resolve true = .error errors
        ∧ List.Sublist ["b", "a"] ((ScopeError.unusedAmong errors).map (·.token.lexeme)) := by
  have scan
      : Scan.ofText "fun f()\x7bvar b;\x7dvar a;"
        = ⟨[.token ⟨.keyword .fun, "fun", 1⟩, .token ⟨.identifier, "f", 1⟩,
            .token ⟨.mark .leftParen, "(", 1⟩, .token ⟨.mark .rightParen, ")", 1⟩,
            .token ⟨.mark .leftBrace, "\x7b", 1⟩, .token ⟨.keyword .var, "var", 1⟩,
            .token ⟨.identifier, "b", 1⟩, .token ⟨.mark .semicolon, ";", 1⟩,
            .token ⟨.mark .rightBrace, "\x7d", 1⟩, .token ⟨.keyword .var, "var", 1⟩,
            .token ⟨.identifier, "a", 1⟩, .token ⟨.mark .semicolon, ";", 1⟩],
          Token.endOfInput 1⟩ := by
    rw [Scan.ofText_eq]
    rfl
  let f : Token := ⟨.identifier, "f", 1⟩
  let a : Token := ⟨.identifier, "a", 1⟩
  let b : Token := ⟨.identifier, "b", 1⟩
  let program : Program := [.function ⟨some f, f, [], [.var b none]⟩, .var a none]
  have parsed
      : Program.parse (Scan.ofText "fun f()\x7bvar b;\x7dvar a;").tokens
            (Scan.ofText "fun f()\x7bvar b;\x7dvar a;").stop 0
          = (.ok program, 0) := by
    rw [scan]
    rfl
  have rejected : program.resolve true = .error [⟨b, .unused "b"⟩, ⟨a, .unused "a"⟩] := rfl
  obtain ⟨-, -, -, ordered⟩ := unusedAmong_inOrder parsed rejected
  have listed : program.varStatements = [⟨b, none⟩, ⟨a, none⟩] := rfl
  have apart : ∀ earlier ∈ [(⟨b, none⟩ : VarStatement)], earlier.name.lexeme ≠ a.lexeme := by
    decide
  exact ⟨program, 0, _, parsed, rejected,
    ordered [] ⟨b, none⟩ [] ⟨a, none⟩ [] ⟨listed, List.forall_mem_nil _⟩ ⟨listed, apart⟩
      (by decide) (by decide)⟩

/-- The variable of a static method is reported before that of a method that precedes it in the
source.
-/
theorem unused_static_first
    : ∃ scan program next,
        Scan.ofText "class A\x7bm()\x7bvar x;\x7dstatic s()\x7bvar y;\x7d\x7d" = scan
        ∧ Program.parse scan.tokens scan.stop 0 = (.ok program, next)
        ∧ Grammar.varNames scan.tokens = [⟨.identifier, "x", 1⟩, ⟨.identifier, "y", 1⟩]
        ∧ program.resolve true
          = .error
              [⟨⟨.identifier, "y", 1⟩, .unused "y"⟩,
                ⟨⟨.identifier, "x", 1⟩, .unused "x"⟩] := by
  have scan
      : Scan.ofText "class A\x7bm()\x7bvar x;\x7dstatic s()\x7bvar y;\x7d\x7d"
        = ⟨[.token ⟨.keyword .class, "class", 1⟩, .token ⟨.identifier, "A", 1⟩,
            .token ⟨.mark .leftBrace, "\x7b", 1⟩, .token ⟨.identifier, "m", 1⟩,
            .token ⟨.mark .leftParen, "(", 1⟩, .token ⟨.mark .rightParen, ")", 1⟩,
            .token ⟨.mark .leftBrace, "\x7b", 1⟩, .token ⟨.keyword .var, "var", 1⟩,
            .token ⟨.identifier, "x", 1⟩, .token ⟨.mark .semicolon, ";", 1⟩,
            .token ⟨.mark .rightBrace, "\x7d", 1⟩, .token ⟨.keyword .static, "static", 1⟩,
            .token ⟨.identifier, "s", 1⟩, .token ⟨.mark .leftParen, "(", 1⟩,
            .token ⟨.mark .rightParen, ")", 1⟩, .token ⟨.mark .leftBrace, "\x7b", 1⟩,
            .token ⟨.keyword .var, "var", 1⟩, .token ⟨.identifier, "y", 1⟩,
            .token ⟨.mark .semicolon, ";", 1⟩, .token ⟨.mark .rightBrace, "\x7d", 1⟩,
            .token ⟨.mark .rightBrace, "\x7d", 1⟩],
          Token.endOfInput 1⟩ := by
    rw [Scan.ofText_eq]
    rfl
  let name (lexeme : String) : Token := ⟨.identifier, lexeme, 1⟩
  let method (called declared : String) : FunctionDecl :=
    ⟨some (name called), name called, [], [.var (name declared) none]⟩
  refine ⟨_, [.class ⟨name "A", none, [method "m" "x"], [method "s" "y"]⟩], 0, scan, ?_, rfl, ?_⟩
  · cbv
  · rfl

end Program
end Lox
