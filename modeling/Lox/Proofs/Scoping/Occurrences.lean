import Mathlib.Data.List.Nodup
import Lox.Proofs.Scoping.Walk

/-! The occurrences of a syntax tree: all its nodes that carry a number, read off the tree alone.
The listing of places has the same ones in the same order, and a walk records the distances of
some of them, each in its turn.
-/

namespace Lox

-----------------------------------------------------------------------------------------
-- The occurrences of a tree
-----------------------------------------------------------------------------------------

mutual

/-- The variables, assignments, `this` and `super` of an expression in the order in which a walk
comes to them.
-/
def Expr.occurrences : Expr → List Occurrence
  | .literal _ => []
  | .grouping inner => inner.occurrences
  | .unary _ operand => operand.occurrences
  | .binary _ left right => left.occurrences ++ right.occurrences
  | .logical _ left right => left.occurrences ++ right.occurrences
  | .conditional condition positive negative =>
    condition.occurrences ++ (positive.occurrences ++ negative.occurrences)
  | .variable occurrence => [occurrence]
  | .assign target value => value.occurrences ++ [target]
  | .call callee _ arguments => callee.occurrences ++ Exprs.occurrences arguments
  | .get object _ => object.occurrences
  | .set object _ value => value.occurrences ++ object.occurrences
  | .this occurrence => [occurrence]
  | .super occurrence _ => [occurrence]
  | .lambda declaration => declaration.occurrences

def Exprs.occurrences : List Expr → List Occurrence
  | [] => []
  | first :: rest => first.occurrences ++ Exprs.occurrences rest

def FunctionDecl.occurrences : FunctionDecl → List Occurrence
  | ⟨_, _, _, body⟩ => Stmts.occurrences body

def Functions.occurrences : List FunctionDecl → List Occurrence
  | [] => []
  | first :: rest => first.occurrences ++ Functions.occurrences rest

/-- The occurrences of a class, its superclass among them. -/
def ClassDecl.occurrences : ClassDecl → List Occurrence
  | ⟨_, superclass, methods, statics⟩ =>
    superclass.toList ++ (Functions.occurrences statics ++ Functions.occurrences methods)

/-- The occurrences of a statement. -/
def Stmt.occurrences : Stmt → List Occurrence
  | .expression value => value.occurrences
  | .print _ value => value.occurrences
  | .var _ none => []
  | .var _ (some initializer) => initializer.occurrences
  | .block body => Stmts.occurrences body
  | .if condition positive none => condition.occurrences ++ positive.occurrences
  | .if condition positive (some negative) =>
    condition.occurrences ++ (positive.occurrences ++ negative.occurrences)
  | .while condition body => condition.occurrences ++ body.occurrences
  | .break _ => []
  | .function declaration => declaration.occurrences
  | .return _ none => []
  | .return _ (some value) => value.occurrences
  | .class declaration => declaration.occurrences

def Stmts.occurrences : List Stmt → List Occurrence
  | [] => []
  | first :: rest => first.occurrences ++ Stmts.occurrences rest

end

-----------------------------------------------------------------------------------------
-- The occurrences of the listing of places
-----------------------------------------------------------------------------------------

namespace Place

/-- The occurrence at a place, also that of a class that names itself as its superclass. -/
def occurrence? (place : Place) : Option Occurrence :=
  match place.act with
  | .use _ occurrence | .inheritItself occurrence => some occurrence
  | _ => none

/-- The number that is used up at a place. -/
def number? (place : Place) : Option Nat := place.occurrence?.map Occurrence.id

/-- The occurrences that are looked up have the numbers that are used up. -/
theorem number?_of_id? {place : Place} {id : Nat} (h : place.id? = some id)
    : place.number? = some id := by
  rcases place with ⟨around, act⟩
  cases act with
  | use kind occurrence => exact h
  | _ => cases h

/-- The numbers of the occurrences that are looked up are among those used up. By induction over the
places; only a class that names itself uses up a number in vain.
-/
theorem sublist_numbers (places : List Place)
    : (places.filterMap id?).Sublist (places.filterMap number?) := by
  induction places with
  | nil => exact .slnil
  | cons place rest ih =>
      cases known : place.id? with
      | some id =>
          rw [List.filterMap_cons_some known, List.filterMap_cons_some (number?_of_id? known)]
          exact ih.cons_cons id
      | none =>
          rw [List.filterMap_cons_none known, List.filterMap_cons]
          split
          · exact ih
          · exact ih.cons _

end Place

namespace Places

/-- The occurrences of some places. -/
def occurrences (places : List Place) : List Occurrence := places.filterMap Place.occurrence?

@[simp]
theorem occurrences_append (places more : List Place)
    : occurrences (places ++ more) = occurrences places ++ occurrences more :=
  List.filterMap_append

/-- A place without an occurrence does not count. -/
theorem occurrences_cons {place : Place} (none : place.occurrence? = none) (rest : List Place)
    : occurrences (place :: rest) = occurrences rest :=
  List.filterMap_cons_none none

/-- The numbers of some places are those of their occurrences. -/
theorem filterMap_number? (places : List Place)
    : places.filterMap Place.number? = (occurrences places).map Occurrence.id :=
  (List.map_filterMap ..).symm

theorem occurrences_parameters (names : List Token) (around : Surroundings)
    : occurrences (ofParameters names around) = [] := by
  induction names generalizing around with
  | nil => rfl
  | cons name rest ih => exact ih _

theorem occurrences_clause (name : Token) (superclass : Option Occurrence)
    (around : Surroundings)
    : occurrences (ofClause name superclass around) = superclass.toList := by
  cases superclass with
  | none => rfl
  | some occurrence =>
      simp only [ofClause]
      split <;> rfl

mutual

/-- The places of an expression have its occurrences, by induction over the tree. -/
theorem occurrences_expr (expr : Expr) (around : Surroundings)
    : occurrences (ofExpr expr around) = expr.occurrences := by
  cases expr with
  | literal | «variable» | this | super => rfl
  | grouping inner => exact occurrences_expr inner around
  | unary operator operand => exact occurrences_expr operand around
  | binary operator left right | logical operator left right =>
      simp only [ofExpr, Expr.occurrences, occurrences_append, occurrences_expr left,
        occurrences_expr right]
  | conditional condition positive negative =>
      simp only [ofExpr, Expr.occurrences, occurrences_append, occurrences_expr condition,
        occurrences_expr positive, occurrences_expr negative]
  | assign target value =>
      simp only [ofExpr, Expr.occurrences, occurrences_append, occurrences_expr value]
      rfl
  | call callee closing arguments =>
      simp only [ofExpr, Expr.occurrences, occurrences_append, occurrences_expr callee,
        occurrences_exprs arguments]
  | get object property => exact occurrences_expr object around
  | set object property value =>
      simp only [ofExpr, Expr.occurrences, occurrences_append, occurrences_expr value,
        occurrences_expr object]
  | lambda declaration => exact occurrences_function .function declaration around

theorem occurrences_exprs (exprs : List Expr) (around : Surroundings)
    : occurrences (ofExprs exprs around) = Exprs.occurrences exprs := by
  cases exprs with
  | nil => rfl
  | cons first rest =>
      simp only [ofExprs, Exprs.occurrences, occurrences_append, occurrences_expr first,
        occurrences_exprs rest]

theorem occurrences_function (kind : BodyKind) (declaration : FunctionDecl)
    (around : Surroundings)
    : occurrences (ofFunction kind declaration around) = declaration.occurrences := by
  cases declaration with
  | mk name keyword parameters body =>
      simp only [ofFunction, FunctionDecl.occurrences, occurrences_append, occurrences_parameters,
        occurrences_stmts body, List.nil_append]

theorem occurrences_statics (declarations : List FunctionDecl) (around : Surroundings)
    : occurrences (ofStatics declarations around) = Functions.occurrences declarations := by
  cases declarations with
  | nil => rfl
  | cons first rest =>
      simp only [ofStatics, Functions.occurrences, occurrences_append,
        occurrences_function _ first, occurrences_statics rest]

theorem occurrences_methods (declarations : List FunctionDecl) (around : Surroundings)
    : occurrences (ofMethods declarations around) = Functions.occurrences declarations := by
  cases declarations with
  | nil => rfl
  | cons first rest =>
      simp only [ofMethods, Functions.occurrences, occurrences_append,
        occurrences_function _ first, occurrences_methods rest]

theorem occurrences_class (definition : ClassDecl) (around : Surroundings)
    : occurrences (ofClass definition around) = definition.occurrences := by
  cases definition with
  | mk name superclass methods statics =>
      rw [ofClass, occurrences_cons rfl]
      simp only [ClassDecl.occurrences, occurrences_append, occurrences_clause,
        occurrences_statics statics, occurrences_methods methods]

theorem occurrences_stmt (stmt : Stmt) (around : Surroundings)
    : occurrences (ofStmt stmt around) = stmt.occurrences := by
  cases stmt with
  | expression value => exact occurrences_expr value around
  | print keyword value => exact occurrences_expr value around
  | var name initializer =>
      cases initializer with
      | none => rfl
      | some initializer =>
          rw [ofStmt, occurrences_cons rfl]
          exact occurrences_expr initializer _
  | block body => exact occurrences_stmts body _
  | «if» condition positive negative =>
      cases negative with
      | none =>
          rw [ofStmt, occurrences_append, occurrences_cons rfl, occurrences_expr condition,
            occurrences_stmt positive]
          rfl
      | some negative =>
          rw [ofStmt, occurrences_append, occurrences_append, occurrences_cons rfl,
            occurrences_cons rfl, occurrences_expr condition, occurrences_stmt positive,
            occurrences_stmt negative]
          rfl
  | «while» condition body =>
      rw [ofStmt, occurrences_append, occurrences_cons rfl, occurrences_expr condition,
        occurrences_stmt body]
      rfl
  | «break» keyword => rfl
  | function declaration =>
      rw [ofStmt, occurrences_cons rfl, occurrences_append, occurrences_function _ declaration]
      cases declaration.name <;> rfl
  | «return» keyword value =>
      cases value with
      | none => rfl
      | some value =>
          rw [ofStmt, occurrences_cons rfl]
          exact occurrences_expr value around
  | «class» definition => exact occurrences_class definition around

theorem occurrences_stmts (stmts : List Stmt) (around : Surroundings)
    : occurrences (ofStmts stmts around) = Stmts.occurrences stmts := by
  cases stmts with
  | nil => rfl
  | cons first rest =>
      simp only [ofStmts, Stmts.occurrences, occurrences_append, occurrences_stmt first,
        occurrences_stmts rest]

end

end Places

-----------------------------------------------------------------------------------------
-- The occurrences that a walk records
-----------------------------------------------------------------------------------------

namespace Distances

/-- The numbers of the occurrences that are found, the latest finding first. -/
def keys (distances : Distances) : List Nat := distances.entries.map Prod.fst

@[simp]
theorem keys_merge (earlier later : Distances)
    : (earlier.merge later).keys = later.keys ++ earlier.keys := List.map_append

/-- Each place is recorded at most once, in its turn. By induction over the places. -/
theorem keys_noteAll (distances : Distances) (places : List Place)
    : ∃ noted : List Nat,
        (distances.noteAll places).keys = noted.reverse ++ distances.keys
        ∧ noted.Sublist (places.filterMap Place.id?) := by
  induction places generalizing distances with
  | nil => exact ⟨[], rfl, .slnil⟩
  | cons place rest ih =>
      obtain ⟨noted, keys, among⟩ := ih (distances.note place)
      change (distances.noteAll (place :: rest)).keys = _ at keys
      rw [keys]
      unfold note
      split
      · next id distance known located =>
          rw [List.filterMap_cons_some known]
          exact ⟨id :: noted, by simp [Distances.keys, record], among.cons_cons id⟩
      · refine ⟨noted, rfl, among.trans ?_⟩
        exact (List.sublist_cons_self place rest).filterMap _

/-- What is recorded of places are numbers of theirs, each once if they are apart. -/
theorem keys_noteAll_empty (places : List Place)
    : (∀ id ∈ (empty.noteAll places).keys, id ∈ places.filterMap Place.id?)
      ∧ ((places.filterMap Place.id?).Nodup → (empty.noteAll places).keys.Nodup) := by
  obtain ⟨noted, keys, among⟩ := empty.keys_noteAll places
  have none : empty.keys = [] := rfl
  rw [keys, none, List.append_nil]
  exact ⟨fun id member => among.subset (List.mem_reverse.1 member),
    fun apart => List.nodup_reverse.2 (apart.sublist among)⟩

/-- What is not among the keys is not found. -/
theorem find?_of_notMem_keys {distances : Distances} {id : Nat} (absent : id ∉ distances.keys)
    : distances.find? id = none := by
  obtain ⟨entries⟩ := distances
  induction entries with
  | nil => rfl
  | cons entry rest ih =>
      obtain ⟨other, absent⟩ := List.ne_and_not_mem_of_not_mem_cons absent
      have skipped : (Distances.mk (entry :: rest)).find? id = (Distances.mk rest).find? id := by
        simp [find?, Table.lookup?, Ne.symm other]
      exact skipped.trans (ih absent)

end Distances

end Lox
