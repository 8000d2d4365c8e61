import Lox.Proofs.Scoping.Walk
import Lox.Proofs.Syntax.Renumbering

/-! Scope analysis of a program under other numbers. The analysis looks at no number, so that it
finds the same distances for the occurrences and the same errors.
-/

namespace Lox

namespace Distances

variable (number : Nat → Nat)

/-- The distances of occurrences under other numbers. -/
def renumber (distances : Distances) : Distances :=
  ⟨distances.entries.map fun entry => (number entry.1, entry.2)⟩

theorem renumber_merge (earlier later : Distances)
    : (earlier.merge later).renumber number
      = (earlier.renumber number).merge (later.renumber number) := by
  simp only [renumber, merge, List.map_append]

variable {number}

/-- Different occurrences stay so under numbers that are different. -/
theorem find?_renumber (injective : number.Injective) (distances : Distances) (id : Nat)
    : (distances.renumber number).find? (number id) = distances.find? id := by
  obtain ⟨entries⟩ := distances
  simp only [find?, renumber]
  induction entries with
  | nil => rfl
  | cons entry rest ih => simp only [List.map_cons, Table.lookup?, injective.eq_iff, ih]

end Distances

namespace Analysis

variable (number : Nat → Nat)

/-- The analysis when the occurrences have other numbers. -/
def renumber (analysis : Analysis) : Analysis :=
  { analysis with distances := analysis.distances.renumber number }

variable (analysis : Analysis)

-----------------------------------------------------------------------------------------
-- Steps of the analysis
-----------------------------------------------------------------------------------------

@[simp]
theorem setting_renumber : (analysis.renumber number).setting = analysis.setting := rfl

@[simp]
theorem fail_renumber (token : Token) (cause : ScopeCause)
    : (analysis.renumber number).fail token cause = (analysis.fail token cause).renumber number :=
  rfl

@[simp]
theorem failIf_renumber (condition : Bool) (token : Token) (cause : ScopeCause)
    : (analysis.renumber number).failIf condition token cause
      = (analysis.failIf condition token cause).renumber number := by
  cases condition <;> rfl

@[simp]
theorem openScope_renumber
    : (analysis.renumber number).openScope = analysis.openScope.renumber number :=
  rfl

@[simp]
theorem closeScope_renumber
    : (analysis.renumber number).closeScope = analysis.closeScope.renumber number :=
  rfl

@[simp]
theorem bind_renumber (name : String) (binding : Binding)
    : (analysis.renumber number).bind name binding
      = (analysis.bind name binding).renumber number := by
  obtain ⟨scopes, _, _, _, _, _⟩ := analysis
  cases scopes <;> rfl

@[simp]
theorem innermost?_renumber (name : String)
    : (analysis.renumber number).innermost? name = analysis.innermost? name :=
  rfl

@[simp]
theorem declare_renumber (name : Token)
    : (analysis.renumber number).declare name = (analysis.declare name).renumber number := by
  simp only [declare, innermost?_renumber, fail_renumber, bind_renumber]
  split <;> rfl

@[simp]
theorem define_renumber (name : Token)
    : (analysis.renumber number).define name = (analysis.define name).renumber number :=
  bind_renumber number analysis name.lexeme .defined

@[simp]
theorem introduce_renumber (name : Token)
    : (analysis.renumber number).introduce name = (analysis.introduce name).renumber number := by
  simp only [introduce, declare_renumber, define_renumber]

@[simp]
theorem introduceAll_renumber (names : List Token)
    : names.foldl introduce (analysis.renumber number)
      = (names.foldl introduce analysis).renumber number := by
  induction names generalizing analysis with
  | nil => rfl
  | cons name rest ih => simp only [List.foldl_cons, introduce_renumber, ih]

@[simp]
theorem locate_renumber (occurrence : Occurrence)
    : (analysis.renumber number).locate (occurrence.renumber number)
      = (analysis.locate occurrence).renumber number := by
  have scopes
      : (analysis.renumber number).scopes.findIdx? (·.has (occurrence.renumber number).name)
        = analysis.scopes.findIdx? (·.has occurrence.name) :=
    rfl
  simp only [locate, scopes]
  split <;> rfl

@[simp]
theorem readVariable_renumber (occurrence : Occurrence)
    : (analysis.renumber number).readVariable (occurrence.renumber number)
      = (analysis.readVariable occurrence).renumber number := by
  let checked := analysis.failIf (analysis.innermost? occurrence.name = some .declared)
    occurrence.token .readInInitializer
  have same
      : (analysis.renumber number).failIf (analysis.innermost? occurrence.name = some .declared)
          occurrence.token .readInInitializer
        = checked.renumber number :=
    failIf_renumber ..
  have read := locate_renumber number
    { checked with read := occurrence.name :: checked.read } occurrence
  refine Eq.trans ?_ read
  exact congrArg
    (fun checked : Analysis =>
      locate { checked with read := occurrence.name :: checked.read } (occurrence.renumber number))
    same

@[simp]
theorem readThis_renumber (occurrence : Occurrence)
    : (analysis.renumber number).readThis (occurrence.renumber number)
      = (analysis.readThis occurrence).renumber number := by
  simp only [readThis, setting_renumber]
  cases analysis.setting.classBody with
  | none => rfl
  | base | derived => exact locate_renumber number analysis occurrence

@[simp]
theorem readSuper_renumber (occurrence : Occurrence)
    : (analysis.renumber number).readSuper (occurrence.renumber number)
      = (analysis.readSuper occurrence).renumber number := by
  simp only [readSuper, setting_renumber]
  cases analysis.setting.classBody with
  | none | base => rfl
  | derived => exact locate_renumber number analysis occurrence

@[simp]
theorem trackVariable_renumber (name : Token)
    : (analysis.renumber number).trackVariable name
      = (analysis.trackVariable name).renumber number := by
  have known : (analysis.renumber number).declared = analysis.declared := rfl
  simp only [trackVariable, known]
  split <;> rfl

@[simp]
theorem inClass_renumber (kind : ClassKind)
    : (analysis.renumber number).inClass kind = (analysis.inClass kind).renumber number :=
  rfl

@[simp]
theorem inBody_renumber (kind : BodyKind) (loops : Nat)
    : (analysis.renumber number).inBody kind loops
      = (analysis.inBody kind loops).renumber number :=
  rfl

@[simp]
theorem inLoops_renumber (loops : Nat)
    : (analysis.renumber number).inLoops loops = (analysis.inLoops loops).renumber number :=
  rfl

@[simp]
theorem openSuperclass_renumber (name : Token) (superclass : Occurrence)
    : (analysis.renumber number).openSuperclass name (superclass.renumber number)
      = (analysis.openSuperclass name superclass).renumber number := by
  have same : (superclass.renumber number).name = superclass.name := rfl
  simp only [openSuperclass, same]
  split
  · exact bind_renumber number
      ((analysis.fail superclass.token .inheritsItself).inClass .derived).openScope "super" .defined
  · simp only [readVariable_renumber, inClass_renumber, openScope_renumber, bind_renumber]

@[simp]
theorem openReceiver_renumber
    : (analysis.renumber number).openReceiver = analysis.openReceiver.renumber number := by
  simp only [openReceiver, openScope_renumber, bind_renumber]

-----------------------------------------------------------------------------------------
-- The walk
-----------------------------------------------------------------------------------------

mutual

/-- By induction over the program. -/
theorem expr_renumber (tree : Expr) (analysis : Analysis)
    : expr (tree.renumber number) (analysis.renumber number)
      = (expr tree analysis).renumber number := by
  cases tree with
  | literal value => rfl
  | grouping inner => exact expr_renumber inner analysis
  | unary operator operand => exact expr_renumber operand analysis
  | binary operator left right | logical operator left right =>
      simp only [Expr.renumber, expr, expr_renumber left, expr_renumber right]
  | conditional condition positive negative =>
      simp only [Expr.renumber, expr, expr_renumber condition, expr_renumber positive,
        expr_renumber negative]
  | «variable» occurrence => exact readVariable_renumber number analysis occurrence
  | assign target value => simp only [Expr.renumber, expr, expr_renumber value, locate_renumber]
  | call callee closing arguments =>
      simp only [Expr.renumber, expr, expr_renumber callee, exprs_renumber arguments]
  | get object property => exact expr_renumber object analysis
  | set object property value =>
      simp only [Expr.renumber, expr, expr_renumber value, expr_renumber object]
  | this occurrence => exact readThis_renumber number analysis occurrence
  | super occurrence method => exact readSuper_renumber number analysis occurrence
  | lambda declaration => exact function_renumber .function declaration analysis

theorem exprs_renumber (trees : List Expr) (analysis : Analysis)
    : exprs (Exprs.renumber number trees) (analysis.renumber number)
      = (exprs trees analysis).renumber number := by
  cases trees with
  | nil => rfl
  | cons first rest => simp only [Exprs.renumber, exprs, expr_renumber first, exprs_renumber rest]

theorem function_renumber (kind : BodyKind) (declaration : FunctionDecl) (analysis : Analysis)
    : function kind (declaration.renumber number) (analysis.renumber number)
      = (function kind declaration analysis).renumber number := by
  cases declaration with
  | mk name keyword parameters body =>
      simp only [FunctionDecl.renumber, function, setting_renumber, inBody_renumber,
        openScope_renumber, introduceAll_renumber, stmts_renumber body, closeScope_renumber]

theorem staticMethods_renumber (methods : List FunctionDecl) (analysis : Analysis)
    : staticMethods (Functions.renumber number methods) (analysis.renumber number)
      = (staticMethods methods analysis).renumber number := by
  cases methods with
  | nil => rfl
  | cons first rest =>
      simp only [Functions.renumber, staticMethods, function_renumber .staticMethod first,
        staticMethods_renumber rest]

theorem instanceMethods_renumber (methods : List FunctionDecl) (analysis : Analysis)
    : instanceMethods (Functions.renumber number methods) (analysis.renumber number)
      = (instanceMethods methods analysis).renumber number := by
  cases methods with
  | nil => rfl
  | cons first rest =>
      have kind : methodKind (first.renumber number) = methodKind first := by
        cases first
        rfl
      simp only [Functions.renumber, instanceMethods, kind,
        function_renumber (methodKind first) first, instanceMethods_renumber rest]

theorem classDecl_renumber (definition : ClassDecl) (analysis : Analysis)
    : classDecl (definition.renumber number) (analysis.renumber number)
      = (classDecl definition analysis).renumber number := by
  cases definition with
  | mk name superclass methods statics =>
      cases superclass <;>
        simp only [ClassDecl.renumber, Option.map_none, Option.map_some, Option.isSome_none,
          Option.isSome_some, Bool.false_eq_true, if_true, if_false, classDecl, setting_renumber,
          inClass_renumber, declare_renumber, openSuperclass_renumber, openReceiver_renumber,
          closeScope_renumber, define_renumber, staticMethods_renumber statics,
          instanceMethods_renumber methods]

theorem stmt_renumber (tree : Stmt) (analysis : Analysis)
    : stmt (tree.renumber number) (analysis.renumber number)
      = (stmt tree analysis).renumber number := by
  cases tree with
  | expression value | print keyword value => exact expr_renumber value analysis
  | var name initializer =>
      cases initializer with
      | none => simp only [Stmt.renumber, stmt, introduce_renumber, trackVariable_renumber]
      | some value =>
          simp only [Stmt.renumber, stmt, declare_renumber, expr_renumber value, define_renumber,
            trackVariable_renumber]
  | block body =>
      simp only [Stmt.renumber, stmt, openScope_renumber, stmts_renumber body, closeScope_renumber]
  | «if» condition positive negative =>
      cases negative with
      | none => simp only [Stmt.renumber, stmt, expr_renumber condition, stmt_renumber positive]
      | some other =>
          simp only [Stmt.renumber, stmt, expr_renumber condition, stmt_renumber positive,
            stmt_renumber other]
  | «while» condition body =>
      simp only [Stmt.renumber, stmt, setting_renumber, inLoops_renumber, expr_renumber condition,
        stmt_renumber body]
  | «break» keyword => exact failIf_renumber number analysis _ keyword .breakOutside
  | function declaration =>
      have walked := function_renumber .function declaration
      cases declaration with
      | mk name keyword parameters body =>
          cases name with
          | none => exact walked analysis
          | some name =>
              simp only [FunctionDecl.renumber] at walked
              simp only [Stmt.renumber, FunctionDecl.renumber, stmt, introduce_renumber, walked]
  | «return» keyword value =>
      cases value with
      | none => exact failIf_renumber number analysis _ keyword .returnOutside
      | some value =>
          let fromInitializer (placed : Analysis) : Analysis :=
            placed.failIf (placed.setting.body = .initializer) keyword .returnFromInitializer
          have placed := failIf_renumber number analysis (analysis.setting.body = .program) keyword
            .returnOutside
          have checked := (congrArg fromInitializer placed).trans
            (failIf_renumber number _ _ keyword .returnFromInitializer)
          exact (congrArg (expr (value.renumber number)) checked).trans (expr_renumber value _)
  | «class» declaration => exact classDecl_renumber declaration analysis

theorem stmts_renumber (trees : List Stmt) (analysis : Analysis)
    : stmts (Stmts.renumber number trees) (analysis.renumber number)
      = (stmts trees analysis).renumber number := by
  cases trees with
  | nil => rfl
  | cons first rest => simp only [Stmts.renumber, stmts, stmt_renumber first, stmts_renumber rest]

end

theorem result_renumber
    : (analysis.renumber number).result = analysis.result.map (Distances.renumber number) := by
  have errors : (analysis.renumber number).errors = analysis.errors := rfl
  simp only [result, errors]
  split <;> rfl

end Analysis

variable (number : Nat → Nat)

/-- A program under other numbers has the same errors, and else the same distances. -/
theorem Program.resolve_renumber (program : Program) (reportUnused : Bool)
    : Program.resolve (Stmts.renumber number program) reportUnused
      = (Program.resolve program reportUnused).map (Distances.renumber number) := by
  have walked
      : Analysis.stmts (Stmts.renumber number program) .start
        = (Analysis.stmts program .start).renumber number :=
    Analysis.stmts_renumber number program .start
  unfold Program.resolve
  rw [walked]
  cases reportUnused with
  | false => exact Analysis.result_renumber number _
  | true => exact Analysis.result_renumber number (Analysis.stmts program .start).checkUnused

/-- An expression under other numbers has the same errors, and else the same distances. -/
theorem Expr.resolve_renumber (expr : Expr)
    : (expr.renumber number).resolve = expr.resolve.map (Distances.renumber number) := by
  have walked
      : Analysis.expr (expr.renumber number) .start = (Analysis.expr expr .start).renumber number :=
    Analysis.expr_renumber number expr .start
  unfold Expr.resolve
  rw [walked]
  exact Analysis.result_renumber number _

-----------------------------------------------------------------------------------------
-- Numbers that are kept
-----------------------------------------------------------------------------------------

/-- A place is lawful, and the number of its occurrence stays as it is. -/
def Place.Keeps (place : Place) : Prop :=
  place.errors = [] ∧ ∀ id, place.id? = some id → number id = id

variable {number}

/-- A lawful occurrence keeps its number. -/
theorem Place.Keeps.renumber {around : Surroundings} {kind : Use} {occurrence : Occurrence}
    (h : Place.Keeps number ⟨around, .use kind occurrence⟩)
    : occurrence.renumber number = occurrence :=
  congrArg (Occurrence.mk · occurrence.token) (h.2 occurrence.id rfl)

/-- Occurrences that keep their numbers are recorded under them. -/
theorem Distances.renumber_noteAll (distances : Distances) {places : List Place}
    (h : ∀ place ∈ places, place.Keeps number)
    : (distances.noteAll places).renumber number = (distances.renumber number).noteAll places := by
  induction places generalizing distances with
  | nil => rfl
  | cons place rest ih =>
      obtain ⟨first, later⟩ := List.forall_mem_cons.1 h
      have noted
          : (distances.note place).renumber number
            = (distances.renumber number).note place := by
        unfold note
        split
        · next id distance given found =>
            simp only [record, renumber, List.map_cons, first.2 id given]
        · rfl
      exact (ih (distances.note place) later).trans (congrArg (noteAll · rest) noted)

namespace Places

/-- A superclass clause that names another class keeps its number. -/
theorem renumber_clause {name : Token} {superclass : Option Occurrence} {around : Surroundings}
    (h : ∀ place ∈ ofClause name superclass around, place.Keeps number)
    : superclass.map (Occurrence.renumber number) = superclass := by
  cases superclass with
  | none => rfl
  | some occurrence =>
      unfold ofClause at h
      dsimp only at h
      split at h
      · cases (List.forall_mem_singleton.1 h).1
      · exact congrArg some (List.forall_mem_singleton.1 h).renumber

mutual

/-- Lawful code whose occurrences keep their numbers stays as it is. By induction over the listing.
-/
theorem renumber_expr (expr : Expr) {around : Surroundings}
    (h : ∀ place ∈ ofExpr expr around, place.Keeps number)
    : expr.renumber number = expr := by
  cases expr with
  | literal value => rfl
  | grouping inner => exact congrArg Expr.grouping (renumber_expr inner h)
  | unary operator operand => exact congrArg (Expr.unary operator) (renumber_expr operand h)
  | binary operator left right | logical operator left right =>
      obtain ⟨hl, hr⟩ := List.forall_mem_append.1 h
      simp only [Expr.renumber, renumber_expr left hl, renumber_expr right hr]
  | conditional condition positive negative =>
      obtain ⟨hc, rest⟩ := List.forall_mem_append.1 h
      obtain ⟨hp, hn⟩ := List.forall_mem_append.1 rest
      simp only [Expr.renumber, renumber_expr condition hc, renumber_expr positive hp,
        renumber_expr negative hn]
  | «variable» occurrence =>
      exact congrArg Expr.variable (List.forall_mem_singleton.1 h).renumber
  | assign target value =>
      obtain ⟨hv, ht⟩ := List.forall_mem_append.1 h
      simp only [Expr.renumber, renumber_expr value hv, (List.forall_mem_singleton.1 ht).renumber]
  | call callee closing arguments =>
      obtain ⟨hc, ha⟩ := List.forall_mem_append.1 h
      simp only [Expr.renumber, renumber_expr callee hc, renumber_exprs arguments ha]
  | get object property =>
      exact congrArg (Expr.get · property) (renumber_expr object h)
  | set object property value =>
      obtain ⟨hv, ho⟩ := List.forall_mem_append.1 h
      simp only [Expr.renumber, renumber_expr value hv, renumber_expr object ho]
  | this occurrence => exact congrArg Expr.this (List.forall_mem_singleton.1 h).renumber
  | super occurrence method =>
      exact congrArg (Expr.super · method) (List.forall_mem_singleton.1 h).renumber
  | lambda declaration => exact congrArg Expr.lambda (renumber_function declaration h)

theorem renumber_exprs (exprs : List Expr) {around : Surroundings}
    (h : ∀ place ∈ ofExprs exprs around, place.Keeps number)
    : Exprs.renumber number exprs = exprs := by
  cases exprs with
  | nil => rfl
  | cons first rest =>
      obtain ⟨hf, hr⟩ := List.forall_mem_append.1 h
      simp only [Exprs.renumber, renumber_expr first hf, renumber_exprs rest hr]

theorem renumber_function (declaration : FunctionDecl) {kind : BodyKind} {around : Surroundings}
    (h : ∀ place ∈ ofFunction kind declaration around, place.Keeps number)
    : declaration.renumber number = declaration := by
  cases declaration with
  | mk name keyword parameters body =>
      obtain ⟨_, hb⟩ := List.forall_mem_append.1 h
      simp only [FunctionDecl.renumber, renumber_stmts body hb]

theorem renumber_statics (declarations : List FunctionDecl) {around : Surroundings}
    (h : ∀ place ∈ ofStatics declarations around, place.Keeps number)
    : Functions.renumber number declarations = declarations := by
  cases declarations with
  | nil => rfl
  | cons first rest =>
      obtain ⟨hf, hr⟩ := List.forall_mem_append.1 h
      simp only [Functions.renumber, renumber_function first hf, renumber_statics rest hr]

theorem renumber_methods (declarations : List FunctionDecl) {around : Surroundings}
    (h : ∀ place ∈ ofMethods declarations around, place.Keeps number)
    : Functions.renumber number declarations = declarations := by
  cases declarations with
  | nil => rfl
  | cons first rest =>
      obtain ⟨hf, hr⟩ := List.forall_mem_append.1 h
      simp only [Functions.renumber, renumber_function first hf, renumber_methods rest hr]

theorem renumber_class (definition : ClassDecl) {around : Surroundings}
    (h : ∀ place ∈ ofClass definition around, place.Keeps number)
    : definition.renumber number = definition := by
  cases definition with
  | mk name superclass methods statics =>
      obtain ⟨hc, members⟩ := List.forall_mem_append.1 (List.forall_mem_cons.1 h).2
      obtain ⟨hs, hm⟩ := List.forall_mem_append.1 members
      simp only [ClassDecl.renumber, renumber_clause hc, renumber_methods methods hm,
        renumber_statics statics hs]

theorem renumber_stmt (stmt : Stmt) {around : Surroundings}
    (h : ∀ place ∈ ofStmt stmt around, place.Keeps number)
    : stmt.renumber number = stmt := by
  cases stmt with
  | expression value => exact congrArg Stmt.expression (renumber_expr value h)
  | print keyword value => exact congrArg (Stmt.print keyword) (renumber_expr value h)
  | var name initializer =>
      cases initializer with
      | none => rfl
      | some value =>
          simp only [Stmt.renumber, renumber_expr value (List.forall_mem_cons.1 h).2]
  | block body => exact congrArg Stmt.block (renumber_stmts body h)
  | «if» condition positive negative =>
      cases negative with
      | none =>
          obtain ⟨hc, branch⟩ := List.forall_mem_append.1 h
          simp only [Stmt.renumber, renumber_expr condition hc,
            renumber_stmt positive (List.forall_mem_cons.1 branch).2]
      | some negative =>
          obtain ⟨hc, branches⟩ := List.forall_mem_append.1 h
          obtain ⟨hp, hn⟩ := List.forall_mem_append.1 (List.forall_mem_cons.1 branches).2
          simp only [Stmt.renumber, renumber_expr condition hc, renumber_stmt positive hp,
            renumber_stmt negative (List.forall_mem_cons.1 hn).2]
  | «while» condition body =>
      obtain ⟨hc, branch⟩ := List.forall_mem_append.1 h
      simp only [Stmt.renumber, renumber_expr condition hc,
        renumber_stmt body (List.forall_mem_cons.1 branch).2]
  | «break» keyword => rfl
  | function declaration =>
      obtain ⟨_, inside⟩ := List.forall_mem_append.1 (List.forall_mem_cons.1 h).2
      exact congrArg Stmt.function (renumber_function declaration inside)
  | «return» keyword value =>
      cases value with
      | none => rfl
      | some value =>
          simp only [Stmt.renumber, renumber_expr value (List.forall_mem_cons.1 h).2]
  | «class» definition => exact congrArg Stmt.class (renumber_class definition h)

theorem renumber_stmts (stmts : List Stmt) {around : Surroundings}
    (h : ∀ place ∈ ofStmts stmts around, place.Keeps number)
    : Stmts.renumber number stmts = stmts := by
  cases stmts with
  | nil => rfl
  | cons first rest =>
      obtain ⟨hf, hr⟩ := List.forall_mem_append.1 h
      simp only [Stmts.renumber, renumber_stmt first hf, renumber_stmts rest hr]

end

end Places

end Lox
