import Lox.Proofs.Scoping.Layers

/-! Programs after others. The names that earlier programs have declared are further names of the
outermost scope; nothing else around the places of a program changes when it follows them. So a
program that is accepted after others is accepted by itself, and its occurrences are found where
they were, except that the names of the others are found by no distance.
-/

namespace Lox

-----------------------------------------------------------------------------------------
-- Earlier names
-----------------------------------------------------------------------------------------

/-- The scope with earlier names, if it is that of the program. -/
def Frame.after (earlier : List (String × Binder)) (frame : Frame) : Frame :=
  match frame.region with
  | .program => { frame with names := frame.names ++ earlier }
  | _ => frame

/-- The surroundings when a program follows others that have declared names. -/
def Surroundings.after (earlier : List (String × Binder)) (around : Surroundings) :
    Surroundings :=
  { around with frames := around.frames.map (Frame.after earlier) }

def Place.after (earlier : List (String × Binder)) (place : Place) : Place :=
  { place with around := place.around.after earlier }

variable {earlier : List (String × Binder)}

namespace Frame

/-- A further name is declared before the earlier ones. -/
theorem after_cons (region : Region) (names : List (String × Binder))
    (entry : String × Binder)
    : Frame.after earlier ⟨region, entry :: names⟩
      = { Frame.after earlier ⟨region, names⟩ with
          names := entry :: (Frame.after earlier ⟨region, names⟩).names } := by
  cases region <;> rfl

theorem has_append (region : Region) (names more : List (String × Binder)) (name : String)
    : (Frame.mk region (names ++ more)).has name
      = ((Frame.mk region names).has name || more.any (·.1 = name)) :=
  List.any_append

theorem after_inner {frame : Frame} (inner : frame.region ≠ .program)
    : frame.after earlier = frame := by
  obtain ⟨region, names⟩ := frame
  cases region <;> first | rfl | exact absurd rfl inner

end Frame

namespace Surroundings

variable (around : Surroundings)

@[simp]
theorem after_setting : (around.after earlier).setting = around.setting := rfl

@[simp]
theorem declare_after (name : String) (binder : Binder)
    : (around.after earlier).declare name binder = (around.declare name binder).after earlier := by
  obtain ⟨_ | ⟨⟨region, names⟩, outer⟩, setting⟩ := around
  · rfl
  · simp only [declare, after, List.map_cons, Frame.after_cons]

@[simp]
theorem declareAll_after (names : List (String × Binder))
    : (around.after earlier).declareAll names = (around.declareAll names).after earlier := by
  induction names generalizing around with
  | nil => rfl
  | cons entry rest ih => simp only [declareAll_cons, declare_after, ih]

theorem enter_after {region : Region} (inner : region ≠ .program)
    (names : List (String × Binder))
    : (around.after earlier).enter region names = (around.enter region names).after earlier := by
  have same : Frame.after earlier ⟨region, names⟩ = ⟨region, names⟩ := Frame.after_inner inner
  simp only [enter, after, List.map_cons, same]

@[simp]
theorem inBody_after (kind : BodyKind) (loops : Nat)
    : (around.after earlier).inBody kind loops = (around.inBody kind loops).after earlier := rfl

@[simp]
theorem atFunction_after (kind : BodyKind) (declaration : FunctionDecl)
    : (around.after earlier).atFunction kind declaration
      = (around.atFunction kind declaration).after earlier := by
  have inner : Region.function declaration ≠ .program := by simp
  exact enter_after (around.inBody kind 0) inner []

@[simp]
theorem atMethods_after (definition : ClassDecl) (isStatic : Bool)
    : (around.after earlier).atMethods definition isStatic
      = (around.atMethods definition isStatic).after earlier := by
  have receiver : Region.receiver definition isStatic ≠ .program := by simp
  have superclass : Region.superclass definition ≠ .program := by simp
  unfold atMethods
  rw [← enter_after _ receiver]
  refine congrArg
    (fun inside : Surroundings =>
      inside.enter (.receiver definition isStatic) [("this", .receiver)])
    ?_
  unfold atClass
  rw [declare_after]
  cases definition.superclass with
  | none => rfl
  | some _ => exact enter_after ((around.declare _ .class).inClass .derived) superclass _

end Surroundings

-----------------------------------------------------------------------------------------
-- The listing after earlier names
-----------------------------------------------------------------------------------------

namespace Places

theorem ofParameters_after (parameters : List Token) (around : Surroundings)
    : ofParameters parameters (around.after earlier)
      = (ofParameters parameters around).map (Place.after earlier) := by
  induction parameters generalizing around with
  | nil => rfl
  | cons name rest ih =>
      simp only [ofParameters, Surroundings.declare_after, ih, List.map_cons]
      rfl

theorem ofClause_after (name : Token) (superclass : Option Occurrence) (around : Surroundings)
    : ofClause name superclass (around.after earlier)
      = (ofClause name superclass around).map (Place.after earlier) := by
  unfold ofClause
  split
  · rfl
  · split <;> rfl

mutual

/-- By induction over the listing. -/
theorem ofExpr_after (expr : Expr) (around : Surroundings)
    : ofExpr expr (around.after earlier) = (ofExpr expr around).map (Place.after earlier) := by
  cases expr with
  | literal value => rfl
  | grouping inner => exact ofExpr_after inner around
  | unary operator operand => exact ofExpr_after operand around
  | binary operator left right =>
      simp only [ofExpr, List.map_append, ofExpr_after left, ofExpr_after right]
  | logical operator left right =>
      simp only [ofExpr, List.map_append, ofExpr_after left, ofExpr_after right]
  | conditional condition positive negative =>
      simp only [ofExpr, List.map_append, ofExpr_after condition, ofExpr_after positive,
        ofExpr_after negative]
  | «variable» occurrence => rfl
  | assign target value =>
      simp only [ofExpr, List.map_append, ofExpr_after value]
      rfl
  | call callee closing arguments =>
      simp only [ofExpr, List.map_append, ofExpr_after callee, ofExprs_after arguments]
  | get object property => exact ofExpr_after object around
  | set object property value =>
      simp only [ofExpr, List.map_append, ofExpr_after value, ofExpr_after object]
  | this occurrence => rfl
  | super occurrence method => rfl
  | lambda declaration => exact ofFunction_after .function declaration around

theorem ofExprs_after (exprs : List Expr) (around : Surroundings)
    : ofExprs exprs (around.after earlier) = (ofExprs exprs around).map (Place.after earlier) := by
  cases exprs with
  | nil => rfl
  | cons first rest =>
      simp only [ofExprs, List.map_append, ofExpr_after first, ofExprs_after rest]

theorem ofFunction_after (kind : BodyKind) (declaration : FunctionDecl)
    (around : Surroundings)
    : ofFunction kind declaration (around.after earlier)
      = (ofFunction kind declaration around).map (Place.after earlier) := by
  obtain ⟨name, keyword, parameters, body⟩ := declaration
  simp only [ofFunction, List.map_append, Surroundings.atFunction_after,
    Surroundings.declareAll_after, ofParameters_after, ofStmts_after body]

theorem ofStatics_after (declarations : List FunctionDecl) (around : Surroundings)
    : ofStatics declarations (around.after earlier)
      = (ofStatics declarations around).map (Place.after earlier) := by
  cases declarations with
  | nil => rfl
  | cons first rest =>
      simp only [ofStatics, List.map_append, ofFunction_after _ first, ofStatics_after rest]

theorem ofMethods_after (declarations : List FunctionDecl) (around : Surroundings)
    : ofMethods declarations (around.after earlier)
      = (ofMethods declarations around).map (Place.after earlier) := by
  cases declarations with
  | nil => rfl
  | cons first rest =>
      simp only [ofMethods, List.map_append, ofFunction_after _ first, ofMethods_after rest]

theorem ofStmt_after (stmt : Stmt) (around : Surroundings)
    : ofStmt stmt (around.after earlier) = (ofStmt stmt around).map (Place.after earlier) := by
  cases stmt with
  | expression value => exact ofExpr_after value around
  | print keyword value => exact ofExpr_after value around
  | var name initializer =>
      cases initializer with
      | none => rfl
      | some initializer =>
          simp only [ofStmt, List.map_cons, Surroundings.declare_after, ofExpr_after initializer]
          rfl
  | block body =>
      have inner : Region.block body ≠ .program := by simp
      simp only [ofStmt, Surroundings.enter_after _ inner, ofStmts_after body]
  | «if» condition positive negative =>
      cases negative with
      | none =>
          simp only [ofStmt, List.map_append, List.map_cons, ofExpr_after condition,
            ofStmt_after positive]
          rfl
      | some negative =>
          simp only [ofStmt, List.map_append, List.map_cons, Surroundings.declareAll_after,
            ofExpr_after condition, ofStmt_after positive, ofStmt_after negative]
          rfl
  | «while» condition body =>
      simp only [ofStmt, List.map_append, List.map_cons, Surroundings.after_setting,
        Surroundings.inBody_after, ofExpr_after condition, ofStmt_after body]
      rfl
  | «break» keyword => rfl
  | function declaration =>
      simp only [ofStmt, List.map_append, List.map_cons, List.map_map,
        Surroundings.declareAll_after, ofFunction_after .function declaration]
      rfl
  | «return» keyword value =>
      cases value with
      | none => rfl
      | some value =>
          simp only [ofStmt, List.map_cons, ofExpr_after value]
          rfl
  | «class» definition =>
      obtain ⟨name, superclass, methods, statics⟩ := definition
      simp only [ofStmt, ofClass, List.map_append, List.map_cons, ofClause_after,
        Surroundings.atMethods_after, ofStatics_after statics, ofMethods_after methods]
      rfl

theorem ofStmts_after (stmts : List Stmt) (around : Surroundings)
    : ofStmts stmts (around.after earlier)
      = (ofStmts stmts around).map (Place.after earlier) := by
  cases stmts with
  | nil => rfl
  | cons first rest =>
      simp only [ofStmts, List.map_append, Surroundings.declareAll_after, ofStmt_after first,
        ofStmts_after rest]

end

end Places

/-- A program that follows others has their names declared around it. -/
theorem Surroundings.top_after (earlier : List (String × Binder))
    : top.after earlier.reverse = top.declareAll earlier := by
  have frames := frames_declareAll_enter ⟨[], .top⟩ .program [] earlier
  have setting := declareAll_setting top earlier
  rw [List.append_nil] at frames
  cases declared : top.declareAll earlier with
  | mk _ _ =>
      rw [declared] at setting
      cases setting
      change (top.declareAll earlier).frames = _ at frames
      rw [declared] at frames
      cases frames
      rfl

-----------------------------------------------------------------------------------------
-- Distances after earlier names
-----------------------------------------------------------------------------------------

/-- A name is as many scopes out as before, or it is an earlier name that was not found. -/
theorem Surroundings.distance?_after {around : Surroundings} {kind : ClassKind}
    (layered : Layered around.frames kind) (name : String)
    : (around.after earlier).distance? name = around.distance? name
      ∨ around.distance? name = none
        ∧ ∃ inner names entry,
            (around.after earlier).frames = inner ++ [⟨.program, names ++ earlier⟩]
            ∧ (around.after earlier).distance? name = some inner.length
            ∧ entry ∈ earlier
            ∧ entry.1 = name := by
  obtain ⟨inner, names, frames, others⟩ := layered.outermost
  have same : inner.map (Frame.after earlier) = inner := by
    conv => rhs; rw [← List.map_id inner]
    exact List.map_congr_left fun frame member => Frame.after_inner (others frame member)
  have all : (around.after earlier).frames = inner ++ [⟨.program, names ++ earlier⟩] := by
    rw [after, frames, List.map_append, same]
    rfl
  simp only [distance?, all, frames, List.findIdx?_append]
  cases inner.findIdx? (·.has name) with
  | some distance => exact .inl rfl
  | none =>
      simp only [Option.none_or, List.findIdx?_singleton, Frame.has_append]
      cases own : (Frame.mk .program names).has name with
      | true => exact .inl rfl
      | false =>
          cases old : earlier.any (·.1 = name) with
          | false => exact .inl rfl
          | true =>
              obtain ⟨entry, member, same⟩ := List.any_eq_true.1 old
              exact .inr ⟨rfl, inner, names, entry, rfl, by simp, member, of_decide_eq_true same⟩

-----------------------------------------------------------------------------------------
-- Acceptance after earlier names
-----------------------------------------------------------------------------------------

/-- Scopes of the program declare no earlier name. -/
def Surroundings.Apart (earlier : List (String × Binder)) (around : Surroundings) : Prop :=
  ∀ frame ∈ around.frames,
    frame.region = .program → ∀ entry ∈ earlier, frame.has entry.1 = false

/-- A scope has the same for a name that it declares itself. -/
theorem Frame.status?_after {frame : Frame} {name : String}
    (apart : frame.region = .program → ∀ entry ∈ earlier, frame.has entry.1 = false)
    (has : frame.has name = true)
    : (frame.after earlier).status? name = frame.status? name := by
  by_cases outermost : frame.region = .program
  · have absent : ∀ entry ∈ earlier, ¬ entry.1 = name := by
      rintro entry member rfl
      rw [apart outermost entry member] at has
      cases has
    have others : (earlier.any fun entry => entry.1 = name && entry.2 ≠ .unfinished) = false :=
      List.any_eq_false.2 fun entry member => by simp [absent entry member]
    obtain ⟨region, names⟩ := frame
    cases outermost
    have more : (Frame.mk .program (names ++ earlier)).has name = true := by
      rw [has_append, has, Bool.true_or]
    have settles : (Frame.mk .program (names ++ earlier)).settles name
        = (Frame.mk .program names).settles name := by
      simp only [Frame.settles, List.any_append, others, Bool.or_false]
    change (Frame.mk .program (names ++ earlier)).status? name = _
    simp only [status?, settles, more, has]
  · rw [Frame.after_inner outermost]

namespace Surroundings

variable {around : Surroundings} {name : String}

theorem innermost?_after (apart : Apart earlier around)
    (declared : (around.innermost? name).isSome = true)
    : (around.after earlier).innermost? name = around.innermost? name := by
  obtain ⟨_ | ⟨frame, outer⟩, setting⟩ := around
  · cases declared
  · exact Frame.status?_after (apart frame (List.mem_cons_self ..))
      ((frame.isSome_status? name).symm.trans declared)

/-- A new scope is none of the program. -/
theorem Apart.enter (h : Apart earlier around) {region : Region} (inner : region ≠ .program)
    (names : List (String × Binder))
    : Apart earlier (around.enter region names) :=
  List.forall_mem_cons.2 ⟨fun outermost => absurd outermost inner, h⟩

/-- A name that is declared anew is no earlier one. -/
theorem Apart.handedDown
    : Surroundings.HandedDown (Apart earlier) fun place => (place.after earlier).errors = [] where
  declare {around name} binder h lawful := by
    obtain ⟨_ | ⟨frame, outer⟩, setting⟩ := around
    · exact h
    · refine List.forall_mem_cons.2 ⟨fun outermost entry member => ?_,
        fun frame member => h frame (List.mem_cons_of_mem _ member)⟩
      have own := h frame (List.mem_cons_self ..) outermost entry member
      obtain ⟨region, names⟩ := frame
      cases outermost
      rw [Frame.has_cons, own, Bool.or_false, decide_eq_false_iff_not]
      intro same
      have declared
          : ((Frame.mk .program (names ++ earlier)).status? name.lexeme).isSome = true := by
        rw [Frame.isSome_status?, Frame.has, List.any_eq_true]
        exact ⟨entry, List.mem_append_right _ member, decide_eq_true same.symm⟩
      simp only [Place.after, Place.errors] at lawful
      change (if ((Frame.mk .program (names ++ earlier)).status? name.lexeme).isSome = true then _
        else _) = _ at lawful
      rw [if_pos declared] at lawful
      cases lawful
  inBody _ _ h := h
  block _ h := h.enter (by simp) []
  function _ _ h := h.enter (by simp) []
  method {around definition} isStatic kind declaration h := by
    refine Apart.enter (.enter ?_ (by simp) _) (by simp) []
    unfold atClass
    cases definition.superclass with
    | none => exact h
    | some _ => exact h.enter (by simp) _

/-- A place that is lawful after earlier names is so without them. -/
theorem Apart.lawful {act : Act} (apart : Apart earlier around)
    (h : (Place.after earlier ⟨around, act⟩).errors = [])
    : (Place.mk around act).errors = [] := by
  have settings : (around.after earlier).setting = around.setting := rfl
  cases act with
  | use kind occurrence =>
      cases kind with
      | «variable» =>
          simp only [Place.after, Place.errors] at h ⊢
          split
          · next begun =>
              rw [innermost?_after apart (by rw [begun]; rfl), if_pos begun] at h
              exact h
          · rfl
      | assign => rfl
      | this => exact h
      | super => exact h
  | declare name =>
      simp only [Place.after, Place.errors] at h ⊢
      split
      · next declared =>
          rw [innermost?_after apart declared, if_pos declared] at h
          exact h
      · rfl
  | function | branch | inheritItself | «return» | «break» => exact h

end Surroundings

/-- A program has the same occurrences after others. -/
theorem Program.ids_after (program : Program) (earlier : List (String × Binder))
    : (Places.ofStmts program (Surroundings.top.declareAll earlier)).filterMap Place.id?
      = program.places.filterMap Place.id? := by
  rw [← Surroundings.top_after, Places.ofStmts_after, List.filterMap_map]
  rfl

/-- A program that is accepted after others is accepted by itself. -/
theorem Program.lawful_of_after {program : Program} (earlier : List (String × Binder))
    (lawful : ∀ place ∈ Places.ofStmts program (Surroundings.top.declareAll earlier),
      place.errors = [])
    : ∀ place ∈ program.places, place.errors = [] := by
  rw [← Surroundings.top_after, Places.ofStmts_after, List.forall_mem_map] at lawful
  have apart : Surroundings.top.Apart earlier.reverse := by
    intro frame member _ entry _
    cases List.mem_singleton.1 member
    rfl
  have everywhere := (Surroundings.Apart.handedDown.ofStmts program apart lawful).1
  exact fun place member => (everywhere place member).lawful (lawful place member)

end Lox
