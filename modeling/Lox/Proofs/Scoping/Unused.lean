import Mathlib.Data.List.Nodup
import Lox.Proofs.Scoping.Walk

/-! Variables that are declared and never read. The names of the `var` statements and the reads
of a program are listed from its tree; the scope analysis remembers exactly these, whatever
scopes come and go, and reports each name of the first listing that is missing in the second.
-/

namespace Lox

-----------------------------------------------------------------------------------------
-- Listings
-----------------------------------------------------------------------------------------

namespace Variables

mutual

/-- The names of the `var` statements in an expression, each after those in its initializer. -/
def ofExpr : Expr → List Token
  | .literal _ | .variable _ | .this _ | .super _ _ => []
  | .grouping inner => ofExpr inner
  | .unary _ operand => ofExpr operand
  | .binary _ left right => ofExpr left ++ ofExpr right
  | .logical _ left right => ofExpr left ++ ofExpr right
  | .conditional condition positive negative =>
    ofExpr condition ++ (ofExpr positive ++ ofExpr negative)
  | .assign _ value => ofExpr value
  | .call callee _ arguments => ofExpr callee ++ ofExprs arguments
  | .get object _ => ofExpr object
  | .set object _ value => ofExpr value ++ ofExpr object
  | .lambda declaration => ofFunction declaration

def ofExprs : List Expr → List Token
  | [] => []
  | first :: rest => ofExpr first ++ ofExprs rest

def ofFunction : FunctionDecl → List Token
  | ⟨_, _, _, body⟩ => ofStmts body

def ofFunctions : List FunctionDecl → List Token
  | [] => []
  | first :: rest => ofFunction first ++ ofFunctions rest

def ofClass : ClassDecl → List Token
  | ⟨_, _, methods, statics⟩ => ofFunctions statics ++ ofFunctions methods

/-- The names of the `var` statements in a statement. -/
def ofStmt : Stmt → List Token
  | .expression value => ofExpr value
  | .print _ value => ofExpr value
  | .var name none => [name]
  | .var name (some initializer) => ofExpr initializer ++ [name]
  | .block body => ofStmts body
  | .if condition positive none => ofExpr condition ++ ofStmt positive
  | .if condition positive (some negative) =>
    ofExpr condition ++ (ofStmt positive ++ ofStmt negative)
  | .while condition body => ofExpr condition ++ ofStmt body
  | .break _ => []
  | .function declaration => ofFunction declaration
  | .return _ none => []
  | .return _ (some value) => ofExpr value
  | .class declaration => ofClass declaration

def ofStmts : List Stmt → List Token
  | [] => []
  | first :: rest => ofStmt first ++ ofStmts rest

end

end Variables

/-- The names of all `var` statements of a program. -/
def Program.varNames (program : Program) : List Token := Variables.ofStmts program

/-- The variable that a place reads. The target of an assignment is not read, nor is the name of
a class that names itself as its superclass.
-/
def Place.read? (place : Place) : Option String :=
  match place.act with
  | .use .variable occurrence => some occurrence.name
  | _ => none

/-- Some `var` statement of the program declares the name. -/
def Program.Declares (program : Program) (name : String) : Prop :=
  ∃ token ∈ program.varNames, token.lexeme = name

/-- Some place of the program reads a variable of the name. -/
def Program.Reads (program : Program) (name : String) : Prop :=
  ∃ place ∈ program.places, place.read? = some name

-----------------------------------------------------------------------------------------
-- Tallies
-----------------------------------------------------------------------------------------

/-- What a walk remembers about variables. -/
structure Tally where
  declared : List Token
  read : List String

namespace Tally

/-- A name is kept if it is the first of its lexeme. -/
def keep (known : List Token) (name : Token) : List Token :=
  if known.any (·.lexeme = name.lexeme) then known else known ++ [name]

/-- Variables are declared and places are visited. -/
def add (tally : Tally) (names : List Token) (places : List Place) : Tally :=
  ⟨names.foldl keep tally.declared, (places.filterMap Place.read?).reverse ++ tally.read⟩

@[simp]
theorem add_add (tally : Tally) (names more : List Token) (places others : List Place)
    : (tally.add names places).add more others
      = tally.add (names ++ more) (places ++ others) := by
  simp only [add, List.foldl_append, List.filterMap_append, List.reverse_append,
    List.append_assoc]

/-- A place that reads nothing does not count. -/
theorem add_cons (place : Place) (silent : place.read? = none) (tally : Tally)
    (names : List Token) (places : List Place)
    : tally.add names (place :: places) = tally.add names places := by
  simp only [add, List.filterMap_cons_none silent]

theorem mem_keep {known : List Token} {name token : Token} (member : token ∈ keep known name)
    : token ∈ known ∨ token = name := by
  unfold keep at member
  split at member
  · exact .inl member
  · simpa using member

theorem mem_map_keep (known : List Token) (name : Token) (lexeme : String)
    : lexeme ∈ (keep known name).map Token.lexeme
      ↔ lexeme ∈ known.map Token.lexeme ∨ lexeme = name.lexeme := by
  unfold keep
  split
  · next present =>
      obtain ⟨token, member, same⟩ := List.any_eq_true.1 present
      have there : name.lexeme ∈ known.map Token.lexeme :=
        List.mem_map.2 ⟨token, member, of_decide_eq_true same⟩
      exact ⟨.inl, fun h => h.elim id fun equal => equal ▸ there⟩
  · simp

theorem nodup_keep {known : List Token} (distinct : (known.map Token.lexeme).Nodup)
    (name : Token)
    : ((keep known name).map Token.lexeme).Nodup := by
  unfold keep
  split
  · exact distinct
  · next absent =>
      rw [List.map_append, List.nodup_append]
      refine ⟨distinct, List.nodup_singleton _, ?_⟩
      intro lexeme member other single same
      obtain ⟨token, known, rfl⟩ := List.mem_map.1 member
      refine absent (List.any_eq_true.2 ⟨token, known, decide_eq_true ?_⟩)
      rw [same, List.mem_singleton.1 single]

/-- Only tokens that come by are kept, by induction over them. -/
theorem mem_foldl_keep {names known : List Token} {token : Token}
    (member : token ∈ names.foldl keep known)
    : token ∈ known ∨ token ∈ names := by
  induction names generalizing known with
  | nil => exact .inl member
  | cons first rest ih =>
      rcases ih member with earlier | later
      · exact (mem_keep earlier).imp_right fun same => List.mem_cons.2 (.inl same)
      · exact .inr (List.mem_cons_of_mem first later)

/-- The lexeme of every token that comes by is kept. -/
theorem mem_map_foldl_keep (names known : List Token) (lexeme : String)
    : lexeme ∈ (names.foldl keep known).map Token.lexeme
      ↔ lexeme ∈ known.map Token.lexeme ∨ lexeme ∈ names.map Token.lexeme := by
  induction names generalizing known with
  | nil => simp
  | cons first rest ih =>
      rw [List.foldl_cons, ih, mem_map_keep, List.map_cons, List.mem_cons, or_assoc]

/-- No two tokens with one lexeme are kept. -/
theorem nodup_foldl_keep (names : List Token) {known : List Token}
    (distinct : (known.map Token.lexeme).Nodup)
    : ((names.foldl keep known).map Token.lexeme).Nodup := by
  induction names generalizing known with
  | nil => exact distinct
  | cons first rest ih => exact ih (nodup_keep distinct first)

end Tally

-----------------------------------------------------------------------------------------
-- The walk keeps the tally of the listings
-----------------------------------------------------------------------------------------

namespace Analysis

/-- What the walk has remembered about variables. -/
def tally (analysis : Analysis) : Tally := ⟨analysis.declared, analysis.read⟩

variable (analysis : Analysis)

theorem tally_trackVariable (name : Token)
    : (analysis.trackVariable name).tally = analysis.tally.add [name] [] := by
  unfold trackVariable tally Tally.add
  simp only [List.foldl_cons, List.foldl_nil, List.filterMap_nil, List.reverse_nil,
    List.nil_append, Tally.keep]
  split <;> rfl

@[simp]
theorem tally_openScope
    : analysis.openScope.tally = analysis.tally := rfl

@[simp]
theorem tally_closeScope
    : analysis.closeScope.tally = analysis.tally := rfl

@[simp]
theorem tally_inClass (kind : ClassKind)
    : (analysis.inClass kind).tally = analysis.tally := rfl

@[simp]
theorem tally_inBody (kind : BodyKind) (loops : Nat)
    : (analysis.inBody kind loops).tally = analysis.tally := rfl

@[simp]
theorem tally_inLoops (loops : Nat)
    : (analysis.inLoops loops).tally = analysis.tally := rfl

@[simp]
theorem tally_failIf (condition : Bool) (token : Token) (cause : ScopeCause)
    : (analysis.failIf condition token cause).tally = analysis.tally := by
  unfold failIf
  split <;> rfl

@[simp]
theorem tally_bind (name : String) (binding : Binding)
    : (analysis.bind name binding).tally = analysis.tally := by
  unfold bind
  split <;> rfl

@[simp]
theorem tally_declare (name : Token)
    : (analysis.declare name).tally = analysis.tally := by
  unfold declare
  split
  · rfl
  · exact tally_bind ..

@[simp]
theorem tally_define (name : Token)
    : (analysis.define name).tally = analysis.tally := tally_bind ..

@[simp]
theorem tally_introduce (name : Token)
    : (analysis.introduce name).tally = analysis.tally :=
  (tally_define ..).trans (tally_declare ..)

@[simp]
theorem tally_openReceiver
    : analysis.openReceiver.tally = analysis.tally := tally_bind ..

@[simp]
theorem tally_locate (occurrence : Occurrence)
    : (analysis.locate occurrence).tally = analysis.tally := by
  unfold locate
  split <;> rfl

@[simp]
theorem tally_readThis (occurrence : Occurrence)
    : (analysis.readThis occurrence).tally = analysis.tally := by
  unfold readThis
  split
  · rfl
  · exact tally_locate ..
  · exact tally_locate ..

@[simp]
theorem tally_readSuper (occurrence : Occurrence)
    : (analysis.readSuper occurrence).tally = analysis.tally := by
  unfold readSuper
  split
  · rfl
  · rfl
  · exact tally_locate ..

theorem tally_readVariable (occurrence : Occurrence) (around : Surroundings)
    : (analysis.readVariable occurrence).tally
      = analysis.tally.add [] [⟨around, .use .variable occurrence⟩] := by
  unfold readVariable
  rw [tally_locate]
  have checked := analysis.tally_failIf
    (analysis.innermost? occurrence.name = some .declared) occurrence.token .readInInitializer
  exact congrArg (fun tally : Tally => Tally.mk tally.declared (occurrence.name :: tally.read))
    checked

/-- A class that names itself reads nothing. -/
theorem tally_openSuperclass (name : Token) (occurrence : Occurrence) (around : Surroundings)
    : (analysis.openSuperclass name occurrence).tally
      = analysis.tally.add [] (Places.ofClause name (some occurrence) around) := by
  unfold openSuperclass
  simp only [tally_bind, tally_openScope, tally_inClass, Places.ofClause]
  split
  · rfl
  · exact tally_readVariable ..

/-- Parameters are no variables, and declaring them reads nothing. -/
theorem tally_parameters (parameters : List Token) (around : Surroundings)
    : (parameters.foldl introduce analysis).tally
      = analysis.tally.add [] (Places.ofParameters parameters around) := by
  induction parameters generalizing analysis around with
  | nil => rfl
  | cons name rest ih =>
      rw [List.foldl_cons, ih _ (around.declare name.lexeme .parameter), tally_introduce,
        Places.ofParameters, Tally.add_cons _ rfl]

mutual

/-- The walk over an expression tallies its listings, by induction over the tree. The scopes that
the listing of places carries along play no part.
-/
theorem tally_expr (expr : Expr) (analysis : Analysis) (around : Surroundings)
    : (Analysis.expr expr analysis).tally
      = analysis.tally.add (Variables.ofExpr expr) (Places.ofExpr expr around) := by
  cases expr with
  | literal value => rfl
  | grouping inner => exact tally_expr inner analysis around
  | unary operator operand => exact tally_expr operand analysis around
  | binary operator left right =>
      rw [Analysis.expr, tally_expr right _ around, tally_expr left _ around, Tally.add_add]
      rfl
  | logical operator left right =>
      rw [Analysis.expr, tally_expr right _ around, tally_expr left _ around, Tally.add_add]
      rfl
  | conditional condition positive negative =>
      rw [Analysis.expr, tally_expr negative _ around, tally_expr positive _ around,
        tally_expr condition _ around, Tally.add_add, Tally.add_add]
      rfl
  | «variable» occurrence => exact tally_readVariable ..
  | assign target value =>
      rw [Analysis.expr, tally_locate, tally_expr value _ around, Variables.ofExpr, Places.ofExpr,
        ← List.append_nil (Variables.ofExpr value), ← Tally.add_add, Tally.add_cons _ rfl,
        Tally.add_add]
      simp only [List.append_nil]
  | call callee closing arguments =>
      rw [Analysis.expr, tally_exprs arguments _ around, tally_expr callee _ around, Tally.add_add]
      rfl
  | get object property => exact tally_expr object analysis around
  | set object property value =>
      rw [Analysis.expr, tally_expr object _ around, tally_expr value _ around, Tally.add_add]
      rfl
  | this occurrence =>
      rw [Analysis.expr, tally_readThis]
      rfl
  | super occurrence method =>
      rw [Analysis.expr, tally_readSuper]
      rfl
  | lambda declaration => exact tally_function .function declaration analysis around

theorem tally_exprs (exprs : List Expr) (analysis : Analysis) (around : Surroundings)
    : (Analysis.exprs exprs analysis).tally
      = analysis.tally.add (Variables.ofExprs exprs) (Places.ofExprs exprs around) := by
  cases exprs with
  | nil => rfl
  | cons first rest =>
      rw [Analysis.exprs, tally_exprs rest _ around, tally_expr first _ around, Tally.add_add]
      rfl

theorem tally_function (kind : BodyKind) (declaration : FunctionDecl) (analysis : Analysis)
    (around : Surroundings)
    : (Analysis.function kind declaration analysis).tally
      = analysis.tally.add (Variables.ofFunction declaration)
          (Places.ofFunction kind declaration around) := by
  obtain ⟨name, keyword, parameters, body⟩ := declaration
  rw [Analysis.function, tally_inBody, tally_closeScope, tally_stmts body _ _, tally_parameters,
    Tally.add_add]
  rfl

theorem tally_statics (declarations : List FunctionDecl) (analysis : Analysis)
    (around : Surroundings)
    : (staticMethods declarations analysis).tally
      = analysis.tally.add (Variables.ofFunctions declarations)
          (Places.ofStatics declarations around) := by
  cases declarations with
  | nil => rfl
  | cons first rest =>
      rw [staticMethods, tally_statics rest _ around, tally_function _ first _ around,
        Tally.add_add]
      rfl

theorem tally_methods (declarations : List FunctionDecl) (analysis : Analysis)
    (around : Surroundings)
    : (instanceMethods declarations analysis).tally
      = analysis.tally.add (Variables.ofFunctions declarations)
          (Places.ofMethods declarations around) := by
  cases declarations with
  | nil => rfl
  | cons first rest =>
      rw [instanceMethods, tally_methods rest _ around, tally_function _ first _ around,
        Tally.add_add]
      rfl

theorem tally_class (definition : ClassDecl) (analysis : Analysis) (around : Surroundings)
    : (classDecl definition analysis).tally
      = analysis.tally.add (Variables.ofClass definition) (Places.ofClass definition around) := by
  obtain ⟨name, superclass, methods, statics⟩ := definition
  let definition : ClassDecl := ⟨name, superclass, methods, statics⟩
  have members (inside : Analysis)
      : ((instanceMethods methods
            (staticMethods statics inside.openReceiver).closeScope.openReceiver).closeScope).tally
        = inside.tally.add (Variables.ofClass definition)
            (Places.ofStatics statics (around.atMethods definition true)
              ++ Places.ofMethods methods (around.atMethods definition false)) := by
    rw [tally_closeScope, tally_methods methods _ (around.atMethods definition false),
      tally_openReceiver, tally_closeScope,
      tally_statics statics _ (around.atMethods definition true), tally_openReceiver,
      Tally.add_add]
    rfl
  rw [Places.ofClass, Tally.add_cons _ rfl, classDecl.eq_def, tally_inClass, tally_define]
  cases superclass with
  | none =>
      refine (members _).trans ?_
      rw [tally_declare, tally_inClass]
      rfl
  | some occurrence =>
      refine (members _).trans ?_
      rw [tally_openSuperclass _ _ _ around, tally_declare, tally_inClass, Tally.add_add]
      rfl

theorem tally_stmt (stmt : Stmt) (analysis : Analysis) (around : Surroundings)
    : (Analysis.stmt stmt analysis).tally
      = analysis.tally.add (Variables.ofStmt stmt) (Places.ofStmt stmt around) := by
  cases stmt with
  | expression value => exact tally_expr value analysis around
  | print keyword value => exact tally_expr value analysis around
  | var name initializer =>
      cases initializer with
      | none =>
          rw [Analysis.stmt, tally_trackVariable, tally_introduce]
          rfl
      | some initializer =>
          rw [Analysis.stmt, tally_trackVariable, tally_define, tally_expr initializer _ _,
            tally_declare, Tally.add_add, List.append_nil, Places.ofStmt, Tally.add_cons _ rfl]
          rfl
  | block body => exact tally_stmts body analysis.openScope _
  | «if» condition positive negative =>
      cases negative with
      | none =>
          rw [Analysis.stmt, tally_stmt positive _ around, tally_expr condition _ around,
            Variables.ofStmt, Places.ofStmt, ← Tally.add_add, Tally.add_cons _ rfl]
      | some negative =>
          rw [Analysis.stmt, tally_stmt negative _ (around.declareAll positive.declares),
            tally_stmt positive _ around, tally_expr condition _ around, Variables.ofStmt,
            Places.ofStmt, ← Tally.add_add, ← Tally.add_add, Tally.add_cons _ rfl,
            Tally.add_cons _ rfl]
  | «while» condition body =>
      let inside := around.inBody around.setting.body (around.setting.loops + 1)
      rw [Analysis.stmt, tally_inLoops, tally_stmt body _ inside, tally_expr condition _ inside,
        tally_inLoops, Variables.ofStmt, Places.ofStmt, ← Tally.add_add, Tally.add_cons _ rfl]
  | «break» keyword =>
      rw [Analysis.stmt, tally_failIf]
      rfl
  | function declaration =>
      obtain ⟨name, keyword, parameters, body⟩ := declaration
      cases name with
      | none => exact tally_function .function ⟨none, keyword, parameters, body⟩ analysis around
      | some name =>
          refine (tally_function .function _ _ (around.declare name.lexeme .function)).trans ?_
          rw [tally_introduce]
          rfl
  | «return» keyword value =>
      cases value with
      | none =>
          rw [Analysis.stmt, tally_failIf]
          rfl
      | some value =>
          rw [Analysis.stmt, tally_expr value _ around, tally_failIf, tally_failIf, Places.ofStmt,
            Tally.add_cons _ rfl]
          rfl
  | «class» definition => exact tally_class definition analysis around

theorem tally_stmts (stmts : List Stmt) (analysis : Analysis) (around : Surroundings)
    : (Analysis.stmts stmts analysis).tally
      = analysis.tally.add (Variables.ofStmts stmts) (Places.ofStmts stmts around) := by
  cases stmts with
  | nil => rfl
  | cons first rest =>
      rw [Analysis.stmts, tally_stmts rest _ _, tally_stmt first _ around, Tally.add_add]
      rfl

end

end Analysis

-----------------------------------------------------------------------------------------
-- Reports
-----------------------------------------------------------------------------------------

namespace Program

/-- The variables that no place of the program reads, one for each name. -/
def unused (program : Program) : List Token :=
  (program.varNames.foldl Tally.keep []).filter fun name =>
    !(program.places.filterMap Place.read?).contains name.lexeme

/-- The reports of the unused variables. -/
def unusedErrors (program : Program) : List ScopeError :=
  program.unused.map fun name => ⟨name, .unused name.lexeme⟩

theorem lexemes_unusedErrors (program : Program)
    : program.unusedErrors.map (·.token.lexeme) = program.unused.map Token.lexeme := by
  rw [unusedErrors, List.map_map]
  rfl

/-- No two unused variables have one name. -/
theorem nodup_unused (program : Program)
    : (program.unused.map Token.lexeme).Nodup := by
  have nothing : (([] : List Token).map Token.lexeme).Nodup := List.nodup_nil
  exact (Tally.nodup_foldl_keep program.varNames nothing).sublist (List.filter_sublist.map _)

/-- The names of the unused variables are declared and not read. -/
theorem mem_map_unused (program : Program) (name : String)
    : name ∈ program.unused.map Token.lexeme ↔ program.Declares name ∧ ¬ program.Reads name := by
  have declared
      : name ∈ (program.varNames.foldl Tally.keep []).map Token.lexeme ↔ program.Declares name := by
    rw [Tally.mem_map_foldl_keep]
    simp [Declares]
  have read : name ∈ program.places.filterMap Place.read? ↔ program.Reads name :=
    List.mem_filterMap
  rw [← declared, ← read]
  simp only [unused, List.mem_map, List.mem_filter, Bool.not_eq_true', List.contains_eq_mem,
    decide_eq_false_iff_not]
  constructor
  · rintro ⟨token, ⟨member, unread⟩, rfl⟩
    exact ⟨⟨token, member, rfl⟩, unread⟩
  · rintro ⟨⟨token, member, rfl⟩, unread⟩
    exact ⟨token, ⟨member, unread⟩, rfl⟩

/-- An unused variable is the name of a `var` statement. -/
theorem mem_varNames_of_mem_unused {program : Program} {token : Token}
    (member : token ∈ program.unused)
    : token ∈ program.varNames :=
  (Tally.mem_foldl_keep (List.mem_of_mem_filter member)).resolve_left (List.not_mem_nil)

/-- The walk over a program keeps the first name of each lexeme, and all that is read. -/
theorem tally_walk (program : Program)
    : (Analysis.stmts program .start).tally
      = ⟨program.varNames.foldl Tally.keep [], (program.places.filterMap Place.read?).reverse⟩ := by
  rw [Analysis.tally_stmts program .start .top, Tally.add, Analysis.tally, varNames, places]
  exact congrArg _ (List.append_nil _)

/-- The check at the end of the walk reports the unused variables. -/
theorem errors_checkUnused (program : Program)
    : (Analysis.stmts program .start).checkUnused.errors
      = (Analysis.stmts program .start).errors ++ program.unusedErrors := by
  have declared := congrArg Tally.declared program.tally_walk
  have read := congrArg Tally.read program.tally_walk
  change (Analysis.stmts program .start).declared = _ at declared
  change (Analysis.stmts program .start).read = _ at read
  rw [Analysis.checkUnused, declared, read, unusedErrors, unused]
  simp only [List.contains_eq_mem, List.mem_reverse]

/-- Asking for unused variables leaves everything else as it was, and reports once each name that
some `var` statement declares and no place reads.
-/
theorem resolve_reportUnused (program : Program)
    : ∃ reports : List ScopeError,
        (reports.map (·.token.lexeme)).Nodup
        ∧ (∀ name,
            name ∈ reports.map (·.token.lexeme) ↔ program.Declares name ∧ ¬ program.Reads name)
        ∧ (∀ report ∈ reports,
            report.token ∈ program.varNames
            ∧ report.diagnostic
              = .atToken .scoping report.token
                  ("Variable '" ++ report.token.lexeme ++ "' declared but never used."))
        ∧ (∀ errors,
            program.resolve false = .error errors
            → program.resolve true = .error (errors ++ reports))
        ∧ ∀ distances,
            program.resolve false = .ok distances
            → program.resolve true
              = if reports.isEmpty then .ok distances else .error reports := by
  have silent : program.resolve false = (Analysis.stmts program .start).result := rfl
  have reporting : program.resolve true = (Analysis.stmts program .start).checkUnused.result := rfl
  have distances
      : (Analysis.stmts program .start).checkUnused.distances
        = (Analysis.stmts program .start).distances := rfl
  rw [silent, reporting, Analysis.result, Analysis.result, program.errors_checkUnused, distances]
  refine ⟨program.unusedErrors, ?_, ?_, ?_, ?_, ?_⟩
  · rw [lexemes_unusedErrors]
    exact program.nodup_unused
  · rw [lexemes_unusedErrors]
    exact program.mem_map_unused
  · intro report member
    obtain ⟨token, unused, rfl⟩ := List.mem_map.1 member
    exact ⟨mem_varNames_of_mem_unused unused, rfl⟩
  · intro errors rejected
    cases found : (Analysis.stmts program .start).errors with
    | nil =>
        rw [found] at rejected
        cases rejected
    | cons first rest =>
        rw [found] at rejected
        cases rejected
        rfl
  · intro distances accepted
    cases found : (Analysis.stmts program .start).errors with
    | nil =>
        rw [found] at accepted
        cases accepted
        rfl
    | cons first rest =>
        rw [found] at accepted
        cases accepted

end Program
end Lox
