import Lox.Proofs.Scoping.Occurrences

/-! The walk of the scope analysis is well bracketed. In whatever state it comes to a part of a
program, it leaves that part within the same scopes and in the same setting, and what it records
there are distances to scopes around the occurrences of that part.
-/

namespace Lox

-----------------------------------------------------------------------------------------
-- How many scopes an occurrence stands in
-----------------------------------------------------------------------------------------

mutual

/-- The occurrences of an expression with the number of the scopes around each, where so many
scopes are around the expression. In the order in which a walk comes to them.
-/
def Expr.heights : Expr → Nat → List (Occurrence × Nat)
  | .literal _, _ => []
  | .grouping inner, height => inner.heights height
  | .unary _ operand, height => operand.heights height
  | .binary _ left right, height => left.heights height ++ right.heights height
  | .logical _ left right, height => left.heights height ++ right.heights height
  | .conditional condition positive negative, height =>
    condition.heights height ++ (positive.heights height ++ negative.heights height)
  | .variable occurrence, height => [(occurrence, height)]
  | .assign target value, height => value.heights height ++ [(target, height)]
  | .call callee _ arguments, height => callee.heights height ++ Exprs.heights arguments height
  | .get object _, height => object.heights height
  | .set object _ value, height => value.heights height ++ object.heights height
  | .this occurrence, height => [(occurrence, height)]
  | .super occurrence _, height => [(occurrence, height)]
  | .lambda declaration, height => declaration.heights height

def Exprs.heights : List Expr → Nat → List (Occurrence × Nat)
  | [], _ => []
  | first :: rest, height => first.heights height ++ Exprs.heights rest height

/-- The parameters and the body of a function are in one scope. -/
def FunctionDecl.heights : FunctionDecl → Nat → List (Occurrence × Nat)
  | ⟨_, _, _, body⟩, height => Stmts.heights body (height + 1)

def Functions.heights : List FunctionDecl → Nat → List (Occurrence × Nat)
  | [], _ => []
  | first :: rest, height => first.heights height ++ Functions.heights rest height

/-- The methods of a class are in the scope of their receiver, which that of `super` is around if
there is a superclass. The superclass itself is in neither.
-/
def ClassDecl.heights : ClassDecl → Nat → List (Occurrence × Nat)
  | ⟨_, none, methods, statics⟩, height =>
    Functions.heights statics (height + 1) ++ Functions.heights methods (height + 1)
  | ⟨_, some superclass, methods, statics⟩, height =>
    (superclass, height)
    :: (Functions.heights statics (height + 2) ++ Functions.heights methods (height + 2))

/-- The occurrences of a statement with the number of the scopes around each. -/
def Stmt.heights : Stmt → Nat → List (Occurrence × Nat)
  | .expression value, height => value.heights height
  | .print _ value, height => value.heights height
  | .var _ none, _ => []
  | .var _ (some initializer), height => initializer.heights height
  | .block body, height => Stmts.heights body (height + 1)
  | .if condition positive none, height => condition.heights height ++ positive.heights height
  | .if condition positive (some negative), height =>
    condition.heights height ++ (positive.heights height ++ negative.heights height)
  | .while condition body, height => condition.heights height ++ body.heights height
  | .break _, _ => []
  | .function declaration, height => declaration.heights height
  | .return _ none, _ => []
  | .return _ (some value), height => value.heights height
  | .class definition, height => definition.heights height

def Stmts.heights : List Stmt → Nat → List (Occurrence × Nat)
  | [], _ => []
  | first :: rest, height => first.heights height ++ Stmts.heights rest height

end

-----------------------------------------------------------------------------------------
-- Heights of the listing of places
-----------------------------------------------------------------------------------------

namespace Surroundings

/-- The number of the scopes around a place. -/
def height (around : Surroundings) : Nat := around.frames.length

@[simp]
theorem height_declare (around : Surroundings) (name : String) (binder : Binder)
    : (around.declare name binder).height = around.height := by
  obtain ⟨_ | ⟨frame, outer⟩, setting⟩ := around <;> rfl

@[simp]
theorem height_declareAll (around : Surroundings) (names : List (String × Binder))
    : (around.declareAll names).height = around.height := by
  induction names generalizing around with
  | nil => rfl
  | cons entry rest ih => rw [declareAll_cons, ih, height_declare]

@[simp]
theorem height_enter (around : Surroundings) (region : Region) (names : List (String × Binder))
    : (around.enter region names).height = around.height + 1 := rfl

@[simp]
theorem height_within (around : Surroundings) (setting : Setting)
    : (around.within setting).height = around.height := rfl

/-- The methods of a class are in one scope, or in two if there is a superclass. -/
theorem height_atMethods (around : Surroundings) (definition : ClassDecl) (isStatic : Bool)
    : (around.atMethods definition isStatic).height
      = around.height + if definition.superclass.isSome then 2 else 1 := by
  obtain ⟨name, superclass, methods, statics⟩ := definition
  cases superclass <;> simp [atMethods, atClass, inClass]

/-- A distance leads to one of the scopes around. -/
theorem distance?_lt_height {around : Surroundings} {name : String} {distance : Nat}
    (found : around.distance? name = some distance)
    : distance < around.height :=
  (List.findIdx?_eq_some_iff_getElem.1 found).1

end Surroundings

/-- The distance of a place leads to one of the scopes around it. -/
theorem Place.distance?_lt_height {place : Place} {distance : Nat}
    (found : place.distance? = some distance)
    : distance < place.around.height := by
  unfold distance? at found
  split at found
  · split at found
    · split at found
      · exact Surroundings.distance?_lt_height found
      · cases found
    · exact Surroundings.distance?_lt_height found
  · cases found

namespace Places

/-- The occurrences of some places with the number of the scopes around each. -/
def heights (places : List Place) : List (Occurrence × Nat) :=
  places.filterMap fun place => place.occurrence?.map (·, place.around.height)

@[simp]
theorem heights_append (places more : List Place)
    : heights (places ++ more) = heights places ++ heights more :=
  List.filterMap_append

/-- A place without an occurrence does not count. -/
theorem heights_cons {place : Place} (none : place.occurrence? = none) (rest : List Place)
    : heights (place :: rest) = heights rest :=
  List.filterMap_cons_none (by rw [none, Option.map_none])

theorem heights_parameters (names : List Token) (around : Surroundings)
    : heights (ofParameters names around) = [] := by
  induction names generalizing around with
  | nil => rfl
  | cons name rest ih => exact ih _

theorem heights_clause (name : Token) (superclass : Occurrence) (around : Surroundings)
    : heights (ofClause name (some superclass) around) = [(superclass, around.height)] := by
  simp only [ofClause]
  split <;> rfl

mutual

/-- The places of an expression have the heights of its occurrences, by induction over the tree. -/
theorem heights_expr (expr : Expr) (around : Surroundings)
    : heights (ofExpr expr around) = expr.heights around.height := by
  cases expr with
  | literal | «variable» | this | super => rfl
  | grouping inner => exact heights_expr inner around
  | unary operator operand => exact heights_expr operand around
  | binary operator left right | logical operator left right =>
      simp only [ofExpr, Expr.heights, heights_append, heights_expr left, heights_expr right]
  | conditional condition positive negative =>
      simp only [ofExpr, Expr.heights, heights_append, heights_expr condition,
        heights_expr positive, heights_expr negative]
  | assign target value =>
      simp only [ofExpr, Expr.heights, heights_append, heights_expr value]
      rfl
  | call callee closing arguments =>
      simp only [ofExpr, Expr.heights, heights_append, heights_expr callee,
        heights_exprs arguments]
  | get object property => exact heights_expr object around
  | set object property value =>
      simp only [ofExpr, Expr.heights, heights_append, heights_expr value, heights_expr object]
  | lambda declaration => exact heights_function .function declaration around

theorem heights_exprs (exprs : List Expr) (around : Surroundings)
    : heights (ofExprs exprs around) = Exprs.heights exprs around.height := by
  cases exprs with
  | nil => rfl
  | cons first rest =>
      simp only [ofExprs, Exprs.heights, heights_append, heights_expr first, heights_exprs rest]

theorem heights_function (kind : BodyKind) (declaration : FunctionDecl) (around : Surroundings)
    : heights (ofFunction kind declaration around) = declaration.heights around.height := by
  obtain ⟨name, keyword, parameters, body⟩ := declaration
  simp only [ofFunction, FunctionDecl.heights, heights_append, heights_parameters,
    heights_stmts body, List.nil_append, Surroundings.height_declareAll]
  rfl

theorem heights_statics (declarations : List FunctionDecl) (around : Surroundings)
    : heights (ofStatics declarations around)
      = Functions.heights declarations around.height := by
  cases declarations with
  | nil => rfl
  | cons first rest =>
      simp only [ofStatics, Functions.heights, heights_append, heights_function _ first,
        heights_statics rest]

theorem heights_methods (declarations : List FunctionDecl) (around : Surroundings)
    : heights (ofMethods declarations around)
      = Functions.heights declarations around.height := by
  cases declarations with
  | nil => rfl
  | cons first rest =>
      simp only [ofMethods, Functions.heights, heights_append, heights_function _ first,
        heights_methods rest]

theorem heights_class (definition : ClassDecl) (around : Surroundings)
    : heights (ofClass definition around) = definition.heights around.height := by
  obtain ⟨name, superclass, methods, statics⟩ := definition
  rw [ofClass, heights_cons rfl, heights_append, heights_append, heights_statics statics,
    heights_methods methods, Surroundings.height_atMethods, Surroundings.height_atMethods]
  cases superclass with
  | none => rfl
  | some superclass =>
      rw [heights_clause]
      rfl

theorem heights_stmt (stmt : Stmt) (around : Surroundings)
    : heights (ofStmt stmt around) = stmt.heights around.height := by
  cases stmt with
  | expression value => exact heights_expr value around
  | print keyword value => exact heights_expr value around
  | var name initializer =>
      cases initializer with
      | none => rfl
      | some initializer =>
          rw [ofStmt, heights_cons rfl, heights_expr initializer, Surroundings.height_declare]
          rfl
  | block body => exact heights_stmts body _
  | «if» condition positive negative =>
      cases negative with
      | none =>
          rw [ofStmt, heights_append, heights_cons rfl, heights_expr condition,
            heights_stmt positive]
          rfl
      | some negative =>
          rw [ofStmt, heights_append, heights_append, heights_cons rfl, heights_cons rfl,
            heights_expr condition, heights_stmt positive, heights_stmt negative,
            Surroundings.height_declareAll]
          rfl
  | «while» condition body =>
      rw [ofStmt, heights_append, heights_cons rfl, heights_expr condition, heights_stmt body]
      rfl
  | «break» keyword => rfl
  | function declaration =>
      rw [ofStmt, heights_cons rfl, heights_append, heights_function _ declaration,
        Surroundings.height_declareAll]
      cases declaration.name <;> rfl
  | «return» keyword value =>
      cases value with
      | none => rfl
      | some value =>
          rw [ofStmt, heights_cons rfl]
          exact heights_expr value around
  | «class» definition => exact heights_class definition around

theorem heights_stmts (stmts : List Stmt) (around : Surroundings)
    : heights (ofStmts stmts around) = Stmts.heights stmts around.height := by
  cases stmts with
  | nil => rfl
  | cons first rest =>
      simp only [ofStmts, Stmts.heights, heights_append, heights_stmt first, heights_stmts rest,
        Surroundings.height_declareAll]

end

end Places

-----------------------------------------------------------------------------------------
-- What recording places adds
-----------------------------------------------------------------------------------------

namespace Distances

/-- A finding is for this occurrence and leads to one of the scopes around it. -/
def LeadsWithin (finding : Nat × Nat) (node : Occurrence × Nat) : Prop :=
  finding.1 = node.1.id ∧ finding.2 < node.2

/-- Recording places adds findings for some of their occurrences in turn, each of which leads to a
scope around its occurrence. By induction over the places.
-/
theorem exists_noteAll_eq_merge (distances : Distances) (places : List Place)
    : ∃ found : Distances,
        distances.noteAll places = distances.merge found
        ∧ List.SublistForall₂ LeadsWithin found.entries.reverse (Places.heights places) := by
  induction places generalizing distances with
  | nil => exact ⟨empty, rfl, .nil⟩
  | cons place rest ih =>
      obtain ⟨found, recorded, within⟩ := ih (distances.note place)
      change distances.noteAll (place :: rest) = _ at recorded
      rw [recorded]
      obtain ⟨around, act⟩ := place
      unfold note
      split
      · next id distance known located =>
          -- the finding of this place is older than those of the rest
          refine ⟨⟨found.entries ++ [(id, distance)]⟩, by simp [merge, record], ?_⟩
          rw [List.reverse_concat]
          cases act with
          | use kind occurrence =>
              cases known
              exact .cons ⟨rfl, Place.distance?_lt_height located⟩ within
          | _ => cases known
      · refine ⟨found, rfl, ?_⟩
        cases act with
        | use kind occurrence | inheritItself occurrence => exact .cons_right within
        | _ => exact within

end Distances

-----------------------------------------------------------------------------------------
-- What an innermost scope gains
-----------------------------------------------------------------------------------------

/-- What a scope has for a name stays as it is, or the name is gained, or its declaration is
completed.
-/
inductive Binding.Grows : Option Binding → Option Binding → Prop
  | kept (binding : Option Binding) : Grows binding binding
  | gained (binding : Binding) : Grows none (some binding)
  | completed : Grows (some .declared) (some .defined)

namespace Binding.Grows

theorem trans {first second third : Option Binding} (h : Grows first second)
    (next : Grows second third)
    : Grows first third := by
  cases h with
  | kept => exact next
  | gained binding => cases next <;> exact .gained _
  | completed =>
      cases next
      exact .completed

/-- A name can always come to be defined. -/
theorem to_defined (binding : Option Binding) : Grows binding (some .defined) :=
  match binding with
  | none => .gained .defined
  | some .declared => .completed
  | some .defined => .kept _

/-- A defined name stays defined. -/
theorem of_defined {binding : Option Binding} (h : Grows (some .defined) binding)
    : binding = some .defined := by
  cases h
  rfl

end Binding.Grows

namespace Surroundings

/-- The innermost scope has a declared name at once, unless the declaration is under way. -/
theorem innermost?_declare (around : Surroundings) {name : String} {binder : Binder}
    (settled : binder ≠ .unfinished) (inside : 0 < around.height)
    : (around.declare name binder).innermost? name = some .defined := by
  obtain ⟨_ | ⟨frame, outer⟩, setting⟩ := around
  · cases inside
  · simp [declare, innermost?, Frame.status?, settled]

theorem grows_declare (around : Surroundings) (name : String) {binder : Binder}
    (settled : binder ≠ .unfinished) (other : String)
    : Binding.Grows (around.innermost? other)
        ((around.declare name binder).innermost? other) := by
  by_cases same : other = name
  · subst same
    obtain ⟨_ | ⟨frame, outer⟩, setting⟩ := around
    · exact .kept _
    · have inside : 0 < height ⟨frame :: outer, setting⟩ := Nat.succ_pos _
      rw [innermost?_declare _ settled inside]
      exact .to_defined _
  · rw [innermost?_declare_ne around binder same]
    exact .kept _

variable {names : List (String × Binder)}

/-- Declarations that are over make the innermost scope grow, by induction over them. -/
theorem grows_declareAll (around : Surroundings) (finished : ∀ entry ∈ names, entry.2 ≠ .unfinished)
    (name : String)
    : Binding.Grows (around.innermost? name) ((around.declareAll names).innermost? name) := by
  induction names generalizing around with
  | nil => exact .kept _
  | cons entry rest ih =>
      obtain ⟨settled, others⟩ := List.forall_mem_cons.1 finished
      exact (around.grows_declare entry.1 settled name).trans (ih _ others)

/-- Declarations that are over leave their names defined. By induction over them: those after one
only make the scope grow, and a defined name stays defined.
-/
theorem innermost?_declareAll (around : Surroundings)
    (finished : ∀ entry ∈ names, entry.2 ≠ .unfinished) (inside : 0 < around.height)
    : ∀ entry ∈ names, (around.declareAll names).innermost? entry.1 = some .defined := by
  induction names generalizing around with
  | nil => exact List.forall_mem_nil _
  | cons entry rest ih =>
      obtain ⟨settled, others⟩ := List.forall_mem_cons.1 finished
      refine List.forall_mem_cons.2 ⟨?_, ih _ others (by rwa [height_declare])⟩
      have begun : (around.declare entry.1 entry.2).innermost? entry.1 = some .defined :=
        around.innermost?_declare settled inside
      have grown := grows_declareAll (around.declare entry.1 entry.2) others entry.1
      rw [begun] at grown
      exact grown.of_defined

end Surroundings

-----------------------------------------------------------------------------------------
-- Every state stands in some surroundings
-----------------------------------------------------------------------------------------

/-- A name without a status is not settled. -/
theorem Frame.settles_of_status?_none {frame : Frame} {name : String}
    (absent : frame.status? name = none)
    : frame.settles name = false := by
  unfold status? at absent
  split at absent
  · cases absent
  · next unsettled => exact Bool.eq_false_iff.2 unsettled

/-- A binder of a name whose declaration has come so far. -/
def Binding.binder : Binding → Binder
  | .declared => .unfinished
  | .defined => .variable

@[simp]
theorem Binding.binder_eq_unfinished (binding : Binding)
    : binding.binder = .unfinished ↔ binding = .declared := by
  cases binding <;> decide

/-- A frame that declares the names of a scope. -/
def Scope.frame (scope : Scope) : Frame :=
  ⟨.program, scope.entries.map fun entry => (entry.1, entry.2.binder)⟩

/-- The frame has the names of the scope, each as far as it has come there. By induction over the
entries, of which no two have the same name.
-/
theorem Scope.status?_frame (scope : Scope) (name : String)
    : scope.frame.status? name = Table.get? scope name := by
  obtain ⟨entries, distinct⟩ := scope
  simp only [frame, Table.get?]
  induction entries with
  | nil => rfl
  | cons entry rest ih =>
      obtain ⟨key, binding⟩ := entry
      obtain ⟨new, distinct⟩ := List.nodup_cons.1 distinct
      have known := ih distinct
      -- a name under way could be settled by a later entry only, and it has none
      rw [Table.lookup?]
      by_cases same : key = name
      · subst same
        have absent : Table.lookup? key rest = none :=
          Option.not_isSome_iff_eq_none.1 fun found => new ((Table.isSome_lookup? key rest).1 found)
        cases binding with
        | defined => simp [Frame.status?]
        | declared =>
            have unsettled := Frame.settles_of_status?_none (known.trans absent)
            simp [Frame.status?, unsettled]
      · simpa [Frame.status?, same] using known

namespace Analysis

/-- Every state of the walk fits surroundings that declare the names of its scopes. -/
theorem exists_fits (analysis : Analysis) : ∃ around : Surroundings, analysis.Fits around := by
  let around : Surroundings := ⟨analysis.scopes.map Scope.frame, analysis.setting⟩
  refine ⟨around, ⟨rfl, ?_⟩, fun name => ?_⟩
  · refine List.forall₂_map_right_iff.2 (List.forall₂_same.2 fun scope _ name => ?_)
    rw [← Frame.isSome_status?, Scope.status?_frame, Table.has]
  · rw [innermost?, Surroundings.innermost?, List.head?_map, Option.bind_map]
    congr
    funext scope
    exact (scope.status?_frame name).symm

theorem Under.height {analysis : Analysis} {around : Surroundings} (h : analysis.Under around)
    : around.height = analysis.scopes.length :=
  h.scopes.length_eq.symm

-----------------------------------------------------------------------------------------
-- The walk is well bracketed
-----------------------------------------------------------------------------------------

/-- The walk has come from one state to another through a part of a program with these occurrences,
each with the number of the scopes around it. The innermost scope may have grown; the other scopes
and the setting are as they were. Errors have been added at the end, and findings for some of the
occurrences, each of a scope around it.
-/
structure Bracketed (before after : Analysis) (part : List (Occurrence × Nat)) : Prop where
  height : after.scopes.length = before.scopes.length
  outer : after.scopes.tail = before.scopes.tail
  innermost : ∀ name, Binding.Grows (before.innermost? name) (after.innermost? name)
  setting : after.setting = before.setting
  errors : before.errors <+: after.errors
  distances
    : ∃ found : Distances,
        after.distances = before.distances.merge found
        ∧ List.SublistForall₂ Distances.LeadsWithin found.entries.reverse part

section

variable {before after : Analysis} {around : Surroundings} {names : List (String × Binder)}
  {places : List Place}

/-- A visit to places is well bracketed if the declarations that it leaves behind are over. -/
theorem Visited.bracketed (visited : Visited before after (around.declareAll names) places)
    (h : before.Fits around) (finished : ∀ entry ∈ names, entry.2 ≠ .unfinished)
    : before.Bracketed after (Places.heights places) where
  height := by rw [← visited.fits.height, ← h.height, Surroundings.height_declareAll]
  outer := visited.outer
  innermost name := by
    rw [visited.fits.innermost, h.innermost]
    exact around.grows_declareAll finished name
  setting := by rw [visited.fits.setting, h.setting, Surroundings.declareAll_setting]
  errors := ⟨_, visited.errors.symm⟩
  distances := by
    rw [visited.distances]
    exact before.distances.exists_noteAll_eq_merge places

/-- A visit within a scope leaves the names of these declarations defined. -/
theorem Visited.defines (visited : Visited before after (around.declareAll names) places)
    (h : before.Fits around) (finished : ∀ entry ∈ names, entry.2 ≠ .unfinished)
    (inside : before.scopes ≠ [])
    : ∀ entry ∈ names, after.innermost? entry.1 = some .defined := by
  intro entry member
  have within : 0 < around.height := by
    rw [h.height]
    exact List.length_pos_iff.2 inside
  rw [visited.fits.innermost]
  exact around.innermost?_declareAll finished within entry member

/-- To pass by places is to visit them without a declaration. -/
theorem Passed.bracketed (passed : Passed before after places) (h : before.Fits around)
    : before.Bracketed after (Places.heights places) := by
  have visited : Visited before after (around.declareAll []) places := passed.visited h
  exact visited.bracketed h (List.forall_mem_nil _)

end

variable {analysis : Analysis}

theorem bracketed_expr (analysis : Analysis) (expr : Expr)
    : analysis.Bracketed (Analysis.expr expr analysis) (expr.heights analysis.scopes.length)
      ∧ (Analysis.expr expr analysis).scopes = analysis.scopes := by
  obtain ⟨around, h⟩ := analysis.exists_fits
  have passed := passed_expr expr h
  have bracketed := passed.bracketed h
  rw [Places.heights_expr, h.height] at bracketed
  exact ⟨bracketed, passed.scopes⟩

theorem bracketed_function (analysis : Analysis) (kind : BodyKind) (declaration : FunctionDecl)
    : analysis.Bracketed (function kind declaration analysis)
          (declaration.heights analysis.scopes.length)
      ∧ (function kind declaration analysis).scopes = analysis.scopes := by
  obtain ⟨around, h⟩ := analysis.exists_fits
  have passed := passed_function kind declaration h.toUnder
  have bracketed := passed.bracketed h
  rw [Places.heights_function, h.height] at bracketed
  exact ⟨bracketed, passed.scopes⟩

theorem bracketed_class (inside : analysis.scopes ≠ []) (definition : ClassDecl)
    : analysis.Bracketed (classDecl definition analysis)
          (definition.heights analysis.scopes.length)
      ∧ (classDecl definition analysis).innermost? definition.name.lexeme = some .defined := by
  obtain ⟨around, h⟩ := analysis.exists_fits
  have visited
      : Visited analysis (classDecl definition analysis)
          (around.declareAll [(definition.name.lexeme, .class)])
          (Places.ofClass definition around) :=
    visited_class definition h
  have finished : ∀ entry ∈ [(definition.name.lexeme, Binder.class)], entry.2 ≠ .unfinished :=
    List.forall_mem_singleton.2 nofun
  have bracketed := visited.bracketed h finished
  rw [Places.heights_class, h.height] at bracketed
  exact ⟨bracketed, visited.defines h finished inside _ (List.mem_singleton_self _)⟩

theorem bracketed_stmt (inside : analysis.scopes ≠ []) (stmt : Stmt)
    : analysis.Bracketed (Analysis.stmt stmt analysis) (stmt.heights analysis.scopes.length)
      ∧ ∀ entry ∈ stmt.declares,
          (Analysis.stmt stmt analysis).innermost? entry.1 = some .defined := by
  obtain ⟨around, h⟩ := analysis.exists_fits
  have visited := visited_stmt stmt h
  have bracketed := visited.bracketed h stmt.finished_declares
  rw [Places.heights_stmt, h.height] at bracketed
  exact ⟨bracketed, visited.defines h stmt.finished_declares inside⟩

/-- A walk over any statement, expression, class or function is well bracketed, from any state
within a scope and whatever it finds wrong. Statements and classes leave the names that they declare
defined; expressions and functions leave all scopes as they were.
-/
theorem walk_bracketed (inside : analysis.scopes ≠ [])
    : (∀ stmt : Stmt,
        analysis.Bracketed (Analysis.stmt stmt analysis) (stmt.heights analysis.scopes.length)
        ∧ ∀ entry ∈ stmt.declares,
            (Analysis.stmt stmt analysis).innermost? entry.1 = some .defined)
      ∧ (∀ expr : Expr,
        analysis.Bracketed (Analysis.expr expr analysis) (expr.heights analysis.scopes.length)
        ∧ (Analysis.expr expr analysis).scopes = analysis.scopes)
      ∧ (∀ definition : ClassDecl,
        analysis.Bracketed (classDecl definition analysis)
            (definition.heights analysis.scopes.length)
        ∧ (classDecl definition analysis).innermost? definition.name.lexeme = some .defined)
      ∧ ∀ (kind : BodyKind) (declaration : FunctionDecl),
          analysis.Bracketed (function kind declaration analysis)
              (declaration.heights analysis.scopes.length)
          ∧ (function kind declaration analysis).scopes = analysis.scopes :=
  ⟨bracketed_stmt inside, analysis.bracketed_expr, bracketed_class inside,
    analysis.bracketed_function⟩

/-- Where the name of a subclass is being declared already, the walk over the class reports that and
completes the declaration. The distances in a block of its method stay below the five scopes there.
-/
theorem walk_bracketed_subclass
    : let name : Token := ⟨.identifier, "A", 1⟩
      let superclass : Occurrence := ⟨0, ⟨.identifier, "B", 1⟩⟩
      let receiver : Occurrence := ⟨1, ⟨.keyword .this, "this", 1⟩⟩
      let target : Occurrence := ⟨2, ⟨.identifier, "p", 1⟩⟩
      let method : FunctionDecl :=
        ⟨some ⟨.identifier, "m", 1⟩, ⟨.identifier, "m", 1⟩, [target.token],
          [.block [.expression (.assign target (.this receiver))]]⟩
      let before := Analysis.start.declare name
      let after := stmt (.class ⟨name, some superclass, [method], []⟩) before
      before.scopes ≠ []
      ∧ before.Bracketed after [(superclass, 1), (receiver, 5), (target, 5)]
      ∧ before.innermost? "A" = some .declared
      ∧ after.innermost? "A" = some .defined
      ∧ after.errors = [⟨name, .alreadyDeclared⟩]
      ∧ after.distances.entries = [(2, 1), (1, 2)] := by
  intro name superclass receiver target method before after
  have inside : before.scopes ≠ [] := List.cons_ne_nil _ _
  obtain ⟨bracketed, defined⟩ :=
    (walk_bracketed inside).1 (.class ⟨name, some superclass, [method], []⟩)
  exact ⟨inside, bracketed, rfl, defined ("A", .class) (List.mem_singleton_self _), rfl, rfl⟩

end Analysis
end Lox
