import Mathlib.Data.List.Forall2
import Lox.Proofs.Scoping.Places

/-! The scope analysis as a function of the places of a program. The walk over a tree reports
what its places forbid and records the distances of its places, each in the order of the
listing; the tables that it carries along agree with the frames of the listing.
-/

namespace Lox

-----------------------------------------------------------------------------------------
-- Recording places
-----------------------------------------------------------------------------------------

/-- Records the distance of a place, if it has one. -/
def Distances.note (distances : Distances) (place : Place) : Distances :=
  match place.id?, place.distance? with
  | some id, some distance => distances.record id distance
  | _, _ => distances

/-- Records the distances of places one after the other. -/
def Distances.noteAll (distances : Distances) (places : List Place) : Distances :=
  places.foldl note distances

theorem Distances.noteAll_append (distances : Distances) (first second : List Place)
    : distances.noteAll (first ++ second) = (distances.noteAll first).noteAll second :=
  List.foldl_append

-----------------------------------------------------------------------------------------
-- Tables of the walk against frames of the listing
-----------------------------------------------------------------------------------------

namespace Analysis

/-- The tables of the analysis bind the names that the frames of the surroundings declare. -/
structure Under (analysis : Analysis) (around : Surroundings) : Prop where
  setting : analysis.setting = around.setting
  scopes
    : List.Forall₂ (fun scope frame => ∀ name, Table.has scope name = Frame.has frame name)
        analysis.scopes around.frames

/-- The innermost table also tells how far the declarations of its names are. -/
structure Fits (analysis : Analysis) (around : Surroundings) : Prop
    extends Under analysis around where
  innermost : ∀ name, analysis.innermost? name = around.innermost? name

theorem fits_start : Analysis.start.Fits .top where
  setting := rfl
  scopes := .cons (fun _ => rfl) .nil
  innermost _ := rfl

/-- Tables and frames find a name at the same distance, by induction over the scopes. -/
theorem findIdx?_has {scopes : List Scope} {frames : List Frame} (name : String)
    (h : List.Forall₂ (fun scope frame => ∀ name, Table.has scope name = Frame.has frame name)
      scopes frames)
    : scopes.findIdx? (·.has name) = frames.findIdx? (·.has name) := by
  induction h with
  | nil => rfl
  | cons head _ ih => simp only [List.findIdx?_cons, head name, ih]

variable {analysis inside after : Analysis} {around : Surroundings}

theorem Under.enter (h : analysis.Under around) (region : Region)
    : analysis.openScope.Fits (around.enter region []) where
  setting := h.setting
  scopes := .cons (fun _ => rfl) h.scopes
  innermost _ := rfl

/-- Opening a scope that binds a name from the start. -/
theorem Under.enter_bound (h : analysis.Under around) (region : Region) (name : String)
    (binder : Binder) (settled : binder ≠ .unfinished)
    : (analysis.openScope.bind name .defined).Fits (around.enter region [(name, binder)]) where
  setting := h.setting
  scopes := by
    refine .cons (fun n => ?_) h.scopes
    by_cases same : name = n
    · subst same
      simp [Table.has, Table.get?_set]
    · simp [Table.has, Table.get?_set, same, Ne.symm same, Frame.has]
  innermost n := by
    by_cases same : name = n
    · subst same
      simp [bind, openScope, innermost?, Surroundings.innermost?, Surroundings.enter,
        Frame.status?, Table.get?_set, settled]
    · simp [bind, openScope, innermost?, Surroundings.innermost?, Surroundings.enter,
        Frame.status?, Frame.settles, Frame.has, Table.get?_set, same, Ne.symm same]

/-- Which names the tables bind does not depend on how they came to be bound. -/
theorem Under.other_binder {name : String} {binder : Binder}
    (h : analysis.Under (around.declare name binder)) (other : Binder)
    : analysis.Under (around.declare name other) := by
  obtain ⟨frames, setting⟩ := around
  obtain ⟨scopes, _, _, _, _, _⟩ := analysis
  cases frames with
  | nil => exact h
  | cons frame outer =>
      obtain ⟨setting, tables⟩ := h
      cases tables with
      | cons head tail => exact ⟨setting, .cons (fun n => by simpa using head n) tail⟩

/-- A change of setting on both sides. -/
theorem Under.inBody (h : analysis.Under around) (kind : BodyKind) (loops : Nat)
    : (analysis.inBody kind loops).Under (around.inBody kind loops) where
  setting := by simp [Analysis.inBody, Surroundings.inBody, Surroundings.within, h.setting]
  scopes := h.scopes

theorem Under.inClass (h : analysis.Under around) (kind : ClassKind)
    : (analysis.inClass kind).Under (around.inClass kind) where
  setting := by simp [Analysis.inClass, Surroundings.inClass, Surroundings.within, h.setting]
  scopes := h.scopes

theorem Fits.inBody (h : analysis.Fits around) (kind : BodyKind) (loops : Nat)
    : (analysis.inBody kind loops).Fits (around.inBody kind loops) :=
  ⟨h.toUnder.inBody kind loops, h.innermost⟩

theorem Fits.inClass (h : analysis.Fits around) (kind : ClassKind)
    : (analysis.inClass kind).Fits (around.inClass kind) :=
  ⟨h.toUnder.inClass kind, h.innermost⟩

/-- Binding a name as defined settles it, whatever the innermost table had for it. -/
theorem Fits.bind_defined {name : String} (binder : Binder) {other : Binder}
    (settled : binder ≠ .unfinished) (h : analysis.Fits (around.declare name other))
    : (analysis.bind name .defined).Fits (around.declare name binder) := by
  obtain ⟨frames, setting⟩ := around
  obtain ⟨scopes, _, _, _, _, _⟩ := analysis
  cases frames with
  | nil =>
      cases h.scopes
      exact h
  | cons frame outer =>
      obtain ⟨region, names⟩ := frame
      obtain ⟨⟨setting, tables⟩, innermost⟩ := h
      cases tables with
      | @cons scope _ rest _ head tail =>
          have others {n : String} (different : n ≠ name)
              : Table.has scope n = Frame.has ⟨region, names⟩ n
                ∧ scope.get? n = Frame.status? ⟨region, names⟩ n := by
            constructor
            · simpa [different.symm] using head n
            · have status := innermost n
              simpa [innermost?, Surroundings.innermost?, Surroundings.declare,
                Frame.status?, different.symm] using status
          refine ⟨⟨setting, .cons ?_ tail⟩, ?_⟩
          · intro n
            by_cases same : n = name
            · subst same
              simp [Table.has, Table.get?_set]
            · have old := (others same).1
              simp only [Table.has] at old
              simp [Table.has, Table.get?_set, same, old, Ne.symm same]
          · intro n
            by_cases same : n = name
            · subst same
              simp [bind, innermost?, Surroundings.innermost?, Surroundings.declare,
                Frame.status?, Table.get?_set, settled]
            · have old := (others same).2
              simp only [Frame.status?] at old
              simp [bind, innermost?, Surroundings.innermost?, Surroundings.declare,
                Frame.status?, Table.get?_set, same, old, Ne.symm same]

/-- Beginning a declaration: a name that the innermost table has keeps its status. -/
theorem Fits.declare {name : Token} (h : analysis.Fits around)
    : (analysis.declare name).Fits (around.declare name.lexeme .unfinished) := by
  obtain ⟨frames, setting⟩ := around
  obtain ⟨scopes, _, _, _, _, _⟩ := analysis
  cases frames with
  | nil =>
      cases h.scopes
      exact h
  | cons frame outer =>
      obtain ⟨region, names⟩ := frame
      obtain ⟨⟨setting, tables⟩, innermost⟩ := h
      cases tables with
      | @cons scope _ rest _ head tail =>
          have status : ∀ n, scope.get? n = Frame.status? ⟨region, names⟩ n := innermost
          unfold Analysis.declare
          split
          · next present =>
              -- the name is there already: an error, and nothing else changes
              have declared : Frame.has ⟨region, names⟩ name.lexeme = true := by
                rw [← Frame.isSome_status?, ← status]
                exact present
              refine ⟨⟨setting, .cons ?_ tail⟩, ?_⟩
              · intro n
                by_cases same : name.lexeme = n
                · subst same
                  simp [head, declared]
                · simp [head, same]
              · intro n
                have old := status n
                by_cases same : name.lexeme = n
                · subst same
                  simp [fail, innermost?, Surroundings.innermost?, Surroundings.declare,
                    Frame.status?, declared] at old ⊢
                  exact old
                · simp [fail, innermost?, Surroundings.innermost?, Surroundings.declare,
                    Frame.status?, same] at old ⊢
                  exact old
          · next absent =>
              have undeclared : Frame.has ⟨region, names⟩ name.lexeme = false := by
                rw [← Frame.isSome_status?, ← status]
                exact Bool.eq_false_iff.mpr absent
              have unsettled : Frame.settles ⟨region, names⟩ name.lexeme = false := by
                cases settled : Frame.settles ⟨region, names⟩ name.lexeme with
                | false => rfl
                | true => exact absurd (Frame.has_of_settles settled) (by simp [undeclared])
              refine ⟨⟨setting, .cons ?_ tail⟩, ?_⟩
              · intro n
                by_cases same : name.lexeme = n
                · subst same
                  simp [Table.has, Table.get?_set]
                · have old := head n
                  simp only [Table.has] at old
                  simp [Table.has, Table.get?_set, same, Ne.symm same, old]
              · intro n
                by_cases same : name.lexeme = n
                · subst same
                  simp [bind, innermost?, Surroundings.innermost?, Surroundings.declare,
                    Frame.status?, Table.get?_set, unsettled]
                · have old := status n
                  simp only [Frame.status?] at old
                  simp [bind, innermost?, Surroundings.innermost?, Surroundings.declare,
                    Frame.status?, Table.get?_set, same, Ne.symm same, old]

/-- The errors of a redeclaration are those of its place. -/
theorem Fits.declare_errors {name : Token} (h : analysis.Fits around)
    : (analysis.declare name).errors
      = analysis.errors ++ Place.errors ⟨around, .declare name⟩ := by
  simp only [Analysis.declare, Place.errors, h.innermost name.lexeme]
  split
  · rfl
  · simp only [bind, List.append_nil]
    split <;> rfl

/-- Beginning a declaration leaves the outer tables and the distances alone. -/
theorem declare_others (analysis : Analysis) (name : Token)
    : (analysis.declare name).scopes.tail = analysis.scopes.tail
      ∧ (analysis.declare name).distances = analysis.distances := by
  unfold Analysis.declare bind fail
  split
  · exact ⟨rfl, rfl⟩
  · split <;> simp_all

/-- Binding a name leaves the outer tables, the errors and the distances alone. -/
theorem bind_others (analysis : Analysis) (name : String) (binding : Binding)
    : (analysis.bind name binding).scopes.tail = analysis.scopes.tail
      ∧ (analysis.bind name binding).errors = analysis.errors
      ∧ (analysis.bind name binding).distances = analysis.distances := by
  unfold bind
  split <;> simp_all

-----------------------------------------------------------------------------------------
-- The walk visits the places of the listing
-----------------------------------------------------------------------------------------

/-- The walk has come from one state to another by visiting some places, and is back in the
scopes and the setting that it started from.
-/
structure Passed (before after : Analysis) (places : List Place) : Prop where
  scopes : after.scopes = before.scopes
  setting : after.setting = before.setting
  errors : after.errors = before.errors ++ places.flatMap Place.errors
  distances : after.distances = before.distances.noteAll places

/-- The walk has come from one state to another by visiting some places, and is in the
surroundings that are given for the second.
-/
structure Visited (before after : Analysis) (around : Surroundings) (places : List Place) : Prop
    where
  fits : after.Fits around
  outer : after.scopes.tail = before.scopes.tail
  errors : after.errors = before.errors ++ places.flatMap Place.errors
  distances : after.distances = before.distances.noteAll places

theorem Passed.refl (analysis : Analysis) : Passed analysis analysis [] :=
  ⟨rfl, rfl, by simp, rfl⟩

theorem Passed.trans {before middle after : Analysis} {places more : List Place}
    (h : Passed before middle places) (next : Passed middle after more)
    : Passed before after (places ++ more) where
  scopes := next.scopes.trans h.scopes
  setting := next.setting.trans h.setting
  errors := by rw [next.errors, h.errors, List.flatMap_append, List.append_assoc]
  distances := by rw [next.distances, h.distances, Distances.noteAll_append]

/-- Passing on in another class body: all but the setting adds up. -/
theorem Passed.trans_inClass {before middle after : Analysis} {places more : List Place}
    {kind : ClassKind} (h : Passed before middle places)
    (next : Passed (middle.inClass kind) after more)
    : after.scopes = before.scopes
      ∧ after.errors = before.errors ++ (places ++ more).flatMap Place.errors
      ∧ after.distances = before.distances.noteAll (places ++ more) := by
  refine ⟨next.scopes.trans h.scopes, next.errors.trans ?_, next.distances.trans ?_⟩
  · rw [List.flatMap_append, ← List.append_assoc, ← h.errors]
    rfl
  · rw [Distances.noteAll_append, ← h.distances]
    rfl

theorem Under.passed {places : List Place} (h : analysis.Under around)
    (passed : Passed analysis after places)
    : after.Under around where
  setting := passed.setting.trans h.setting
  scopes := by
    rw [passed.scopes]
    exact h.scopes

theorem Fits.passed {places : List Place} (h : analysis.Fits around)
    (passed : Passed analysis after places)
    : after.Fits around where
  toUnder := h.toUnder.passed passed
  innermost name := by
    rw [← h.innermost name, innermost?, innermost?, passed.scopes]

theorem Passed.visited {places : List Place} (passed : Passed analysis after places)
    (h : analysis.Fits around)
    : Visited analysis after around places :=
  ⟨h.passed passed, by rw [passed.scopes], passed.errors, passed.distances⟩

theorem Visited.refl (h : analysis.Fits around) : Visited analysis analysis around [] :=
  (Passed.refl analysis).visited h

/-- Visits one after the other, by appending what each adds. -/
theorem Visited.trans {before middle after : Analysis} {first second : Surroundings}
    {places more : List Place} (h : Visited before middle first places)
    (next : Visited middle after second more)
    : Visited before after second (places ++ more) where
  fits := next.fits
  outer := next.outer.trans h.outer
  errors := by rw [next.errors, h.errors, List.flatMap_append, List.append_assoc]
  distances := by rw [next.distances, h.distances, Distances.noteAll_append]

/-- A visit to the inside of a scope passes by, once the scope is closed again. -/
theorem Visited.leave {before inside last : Analysis} {within : Surroundings}
    {places : List Place} (visited : Visited inside last within places)
    (scopes : inside.scopes.tail = before.scopes) (setting : within.setting = before.setting)
    (errors : inside.errors = before.errors) (distances : inside.distances = before.distances)
    : Passed before last.closeScope places where
  scopes := visited.outer.trans scopes
  setting := visited.fits.setting.trans setting
  errors := visited.errors.trans (by rw [errors])
  distances := visited.distances.trans (by rw [distances])

/-- Beginning a declaration visits its place. -/
theorem Fits.visit_declare (name : Token) (h : analysis.Fits around)
    : Visited analysis (analysis.declare name) (around.declare name.lexeme .unfinished)
        [⟨around, .declare name⟩] where
  fits := h.declare
  outer := (declare_others analysis name).1
  errors := by simpa using h.declare_errors
  distances := (declare_others analysis name).2

/-- Completing a declaration visits no further place. -/
theorem Visited.define {before : Analysis} {name : Token} {places : List Place}
    (binder : Binder) (settled : binder ≠ .unfinished)
    (h : Visited before analysis (around.declare name.lexeme .unfinished) places)
    : Visited before (analysis.define name) (around.declare name.lexeme binder) places where
  fits := h.fits.bind_defined binder settled
  outer := (bind_others ..).1.trans h.outer
  errors := (bind_others ..).2.1.trans h.errors
  distances := (bind_others ..).2.2.trans h.distances

theorem Fits.visit_introduce {name : Token} (binder : Binder)
    (settled : binder ≠ .unfinished) (h : analysis.Fits around)
    : Visited analysis (analysis.introduce name) (around.declare name.lexeme binder)
        [⟨around, .declare name⟩] :=
  (h.visit_declare name).define binder settled

/-- Parameters are introduced one after the other, by induction on them. -/
theorem Fits.visit_parameters (parameters : List Token) (h : analysis.Fits around)
    : Visited analysis (parameters.foldl introduce analysis)
        (around.declareAll (parameters.map fun name => (name.lexeme, Binder.parameter)))
        (Places.ofParameters parameters around) := by
  induction parameters generalizing analysis around with
  | nil => exact .refl h
  | cons name rest ih =>
      have first : Visited analysis (analysis.introduce name) _ _ :=
        h.visit_introduce .parameter (by decide)
      exact first.trans (ih first.fits)

/-- Looking an occurrence up records the distance of its place, if the place has the one that
the frames give.
-/
theorem Fits.locate_eq (kind : Use) {occurrence : Occurrence} (h : analysis.Fits around)
    (distance
      : Place.distance? ⟨around, .use kind occurrence⟩ = around.distance? occurrence.name)
    : analysis.locate occurrence
      = { analysis with
          distances := analysis.distances.note ⟨around, .use kind occurrence⟩ } := by
  have found : analysis.scopes.findIdx? (·.has occurrence.name)
      = Place.distance? ⟨around, .use kind occurrence⟩ := by
    rw [distance]
    exact findIdx?_has occurrence.name h.scopes
  unfold locate
  rw [found]
  cases located : Place.distance? ⟨around, .use kind occurrence⟩ <;>
    simp [Distances.note, located, Place.id?]

/-- Looking an occurrence up visits its place, if the place is lawful. -/
theorem Fits.pass_locate {kind : Use} {occurrence : Occurrence} (h : analysis.Fits around)
    (errors : Place.errors ⟨around, .use kind occurrence⟩ = [])
    : Passed analysis (analysis.locate occurrence) [⟨around, .use kind occurrence⟩] := by
  rw [h.locate_eq kind (by simp [Place.distance?, errors])]
  exact ⟨rfl, rfl, by simp [errors], rfl⟩

/-- Reporting an error visits a place that is not looked up. -/
theorem passed_fail {act : Act} {token : Token} {cause : ScopeCause}
    (errors : Place.errors ⟨around, act⟩ = [⟨token, cause⟩])
    (distance : Place.distance? ⟨around, act⟩ = none)
    : Passed analysis (analysis.fail token cause) [⟨around, act⟩] := by
  refine ⟨rfl, rfl, by simp [errors, fail], ?_⟩
  simp [Distances.noteAll, Distances.note, distance, fail]

/-- A lawful place that is not looked up is visited by doing nothing. -/
theorem passed_nothing {act : Act} (errors : Place.errors ⟨around, act⟩ = [])
    (distance : Place.distance? ⟨around, act⟩ = none)
    : Passed analysis analysis [⟨around, act⟩] := by
  refine ⟨rfl, rfl, by simp [errors], ?_⟩
  simp [Distances.noteAll, Distances.note, distance]

/-- A statement under a condition begins by doing nothing. -/
theorem Fits.visit_branch (body : Stmt) (h : analysis.Fits around)
    : Visited analysis analysis around [⟨around, .branch body⟩] :=
  (passed_nothing rfl rfl).visited h

/-- A place with one rule of its own is visited by the check of that rule. -/
theorem pass_failIf (analysis : Analysis) (act : Act) (condition : Bool) (token : Token)
    (cause : ScopeCause)
    (errors : Place.errors ⟨around, act⟩ = if condition then [⟨token, cause⟩] else [])
    (distance : Place.distance? ⟨around, act⟩ = none)
    : Passed analysis (analysis.failIf condition token cause) [⟨around, act⟩] := by
  unfold failIf
  cases condition with
  | true => exact passed_fail errors distance
  | false => exact passed_nothing errors distance

/-- A `return` with a value is checked against two rules, the second for initializers. -/
theorem Fits.pass_return (keyword : Token) (h : analysis.Fits around)
    : Passed analysis
        ((analysis.failIf (analysis.setting.body = .program) keyword .returnOutside).failIf
          ((analysis.failIf (analysis.setting.body = .program) keyword
            .returnOutside).setting.body = .initializer)
          keyword .returnFromInitializer)
        [⟨around, .return keyword true⟩] := by
  have kept {condition : Bool} {cause : ScopeCause}
      : (analysis.failIf condition keyword cause).setting = analysis.setting := by
    unfold failIf
    split <;> rfl
  rw [kept, h.setting]
  cases body : around.setting.body <;>
    exact ⟨rfl, rfl, by simp [failIf, fail, Place.errors, body], rfl⟩

/-- The name of a function is declared before its body. -/
theorem Fits.visit_name (name : Option Token) (h : analysis.Fits around)
    : Visited analysis
        (match name with
          | some name => analysis.introduce name
          | none => analysis)
        (around.declareAll (name.toList.map fun name => (name.lexeme, Binder.function)))
        (name.toList.map fun name => ⟨around, .declare name⟩) := by
  cases name with
  | none => exact .refl h
  | some name => exact h.visit_introduce .function (by decide)

/-- A loop is left in the setting around it, with the names that its body has declared. -/
theorem Visited.leave_loop {before last : Analysis} {names : List (String × Binder)}
    {places : List Place}
    (visited
      : Visited (before.inBody around.setting.body (around.setting.loops + 1)) last
          ((around.inBody around.setting.body (around.setting.loops + 1)).declareAll names)
          places)
    : Visited before (last.inLoops (last.setting.loops - 1)) (around.declareAll names) places := by
  have setting := visited.fits.setting
  rw [Surroundings.declareAll_setting] at setting
  have fits := visited.fits
  rw [Surroundings.inBody, Surroundings.declareAll_within] at fits
  refine ⟨⟨⟨?_, fits.scopes⟩, fits.innermost⟩, visited.outer, visited.errors, visited.distances⟩
  simp [inLoops, Analysis.inBody, setting, Surroundings.inBody, Surroundings.within]

/-- Reading a variable visits its place. -/
theorem Fits.pass_variable (occurrence : Occurrence) (h : analysis.Fits around)
    : Passed analysis (analysis.readVariable occurrence)
        [⟨around, .use .variable occurrence⟩] := by
  have checked
      : Analysis.Fits
          { analysis.failIf (analysis.innermost? occurrence.name = some .declared)
              occurrence.token .readInInitializer with
            read := occurrence.name
              :: (analysis.failIf (analysis.innermost? occurrence.name = some .declared)
                  occurrence.token .readInInitializer).read }
          around := by
    unfold failIf
    split <;> exact ⟨⟨h.setting, h.scopes⟩, h.innermost⟩
  unfold readVariable
  rw [checked.locate_eq .variable (by simp [Place.distance?])]
  simp only [failIf, h.innermost occurrence.name, decide_eq_true_eq]
  split
  · next declared => exact ⟨rfl, rfl, by simp [fail, Place.errors, declared], rfl⟩
  · next undeclared => exact ⟨rfl, rfl, by simp [Place.errors, undeclared], rfl⟩

/-- Reading `this` visits its place. -/
theorem Fits.pass_this {occurrence : Occurrence} (h : analysis.Fits around)
    : Passed analysis (analysis.readThis occurrence) [⟨around, .use .this occurrence⟩] := by
  unfold readThis
  rw [h.setting]
  cases kind : around.setting.classBody with
  | none =>
      exact passed_fail (by simp [Place.errors, kind])
        (by simp [Place.distance?, Place.errors, kind])
  | base => exact h.pass_locate (by simp [Place.errors, kind])
  | derived => exact h.pass_locate (by simp [Place.errors, kind])

/-- Reading `super` visits its place. -/
theorem Fits.pass_super {occurrence : Occurrence} (h : analysis.Fits around)
    : Passed analysis (analysis.readSuper occurrence) [⟨around, .use .super occurrence⟩] := by
  unfold readSuper
  rw [h.setting]
  cases kind : around.setting.classBody with
  | none =>
      exact passed_fail (by simp [Place.errors, kind])
        (by simp [Place.distance?, Place.errors, kind])
  | base =>
      exact passed_fail (by simp [Place.errors, kind])
        (by simp [Place.distance?, Place.errors, kind])
  | derived => exact h.pass_locate (by simp [Place.errors, kind])

/-- A superclass clause visits its place while the class is being declared. Another name than
that of the class is looked up as if the declaration had not begun.
-/
theorem Fits.pass_clause {name : Token} {setting : Setting} (occurrence : Occurrence)
    (h : analysis.Fits ((around.within setting).declare name.lexeme .unfinished))
    : Passed analysis
        (if occurrence.name = name.lexeme then analysis.fail occurrence.token .inheritsItself
          else analysis.readVariable occurrence)
        (Places.ofClause name (some occurrence) around) := by
  by_cases same : occurrence.name = name.lexeme
  · rw [if_pos same, Places.ofClause, if_pos same]
    exact passed_fail rfl (by simp [Place.distance?])
  · rw [if_neg same, Places.ofClause, if_neg same]
    have passed := h.pass_variable occurrence
    refine ⟨passed.scopes, passed.setting, ?_, ?_⟩
    · simpa [Place.errors, Surroundings.innermost?_declare_ne _ _ same] using passed.errors
    · simpa [Distances.noteAll, Distances.note, Place.id?, Place.distance?,
        Surroundings.distance?_declare_ne _ _ same] using passed.distances

/-- A class is left with its name declared, whatever class body its scopes were in. -/
theorem Visited.leave_class {before named outside : Analysis} {name : Token}
    {setting : Setting} {places more : List Place} (h : before.setting = around.setting)
    (begun
      : Visited before named ((around.within setting).declare name.lexeme .unfinished) places)
    (scopes : outside.scopes = named.scopes)
    (kind : ClassKind) (left : outside.setting = (around.inClass kind).setting)
    (errors : outside.errors = named.errors ++ more.flatMap Place.errors)
    (distances : outside.distances = named.distances.noteAll more)
    : Visited before ((outside.define name).inClass before.setting.classBody)
        (around.declare name.lexeme .class) (places ++ more) := by
  have pending
      : outside.Fits ((around.within outside.setting).declare name.lexeme .unfinished) := by
    have fits := begun.fits
    rw [Surroundings.declare_within] at fits ⊢
    refine ⟨⟨rfl, ?_⟩, fun n => ?_⟩
    · rw [scopes]
      exact fits.scopes
    · rw [innermost?, scopes]
      exact fits.innermost n
  have complete := (pending.bind_defined .class (by decide)).inClass
    before.setting.classBody
  have same : Surroundings.inClass
      ((around.within outside.setting).declare name.lexeme .class) before.setting.classBody
      = around.declare name.lexeme .class := by
    rw [Surroundings.declare_within, left, h]
    simp only [Surroundings.inClass, Surroundings.within]
    rw [← Surroundings.declare_setting around name.lexeme .class]
  rw [same] at complete
  have others := bind_others outside name.lexeme .defined
  refine ⟨complete, ?_, ?_, ?_⟩
  · exact others.1.trans ((congrArg List.tail scopes).trans begun.outer)
  · refine others.2.1.trans ?_
    rw [errors, begun.errors, List.flatMap_append, List.append_assoc]
  · refine others.2.2.trans ?_
    rw [distances, begun.distances, Distances.noteAll_append]

/-- Which variables are declared and read anywhere does not matter to the rest of the walk. -/
theorem Visited.track {before : Analysis} {places : List Place} (name : Token)
    (h : Visited before analysis around places)
    : Visited before (analysis.trackVariable name) around places := by
  unfold trackVariable
  split
  · exact h
  · exact ⟨⟨⟨h.fits.setting, h.fits.scopes⟩, h.fits.innermost⟩, h.outer, h.errors, h.distances⟩

/-- The receiver scopes of a class are entered one after the other, from where its superclass
clause has left off.
-/
theorem passed_members {methods statics : List FunctionDecl} (definition : ClassDecl)
    (passed_statics
      : ∀ {analysis : Analysis} {around : Surroundings},
          analysis.Under around
          → Passed analysis (staticMethods statics analysis) (Places.ofStatics statics around))
    (passed_methods
      : ∀ {analysis : Analysis} {around : Surroundings},
          analysis.Under around
          → Passed analysis (instanceMethods methods analysis) (Places.ofMethods methods around))
    (h : analysis.Under (around.atClass definition))
    : Passed analysis
        (instanceMethods methods
          (staticMethods statics analysis.openReceiver).closeScope.openReceiver).closeScope
        (Places.ofStatics statics (around.atMethods definition true)
          ++ Places.ofMethods methods (around.atMethods definition false)) := by
  have receiver := h.enter_bound (.receiver definition true) "this" .receiver
    (by decide)
  have first : Passed analysis (staticMethods statics analysis.openReceiver).closeScope _ :=
    ((passed_statics receiver.toUnder).visited receiver).leave rfl
      h.setting.symm rfl rfl
  have receiver := (h.passed first).enter_bound (.receiver definition false) "this"
    .receiver (by decide)
  have second := ((passed_methods receiver.toUnder).visited receiver).leave rfl
    (h.passed first).setting.symm (bind_others ..).2.1 (bind_others ..).2.2
  exact first.trans second

-----------------------------------------------------------------------------------------
-- The walk over a tree
-----------------------------------------------------------------------------------------

mutual

/-- The walk over an expression passes its places, by the recursion of the walk. -/
theorem passed_expr (expr : Expr) {analysis : Analysis} {around : Surroundings}
    (h : analysis.Fits around)
    : Passed analysis (Analysis.expr expr analysis) (Places.ofExpr expr around) := by
  cases expr with
  | literal value => exact .refl analysis
  | grouping inner => exact passed_expr inner h
  | unary operator operand => exact passed_expr operand h
  | binary operator left right =>
      have first := passed_expr left h
      exact first.trans (passed_expr right (h.passed first))
  | logical operator left right =>
      have first := passed_expr left h
      exact first.trans (passed_expr right (h.passed first))
  | conditional condition positive negative =>
      have first := passed_expr condition h
      have second := passed_expr positive (h.passed first)
      have third := passed_expr negative ((h.passed first).passed second)
      exact first.trans (second.trans third)
  | «variable» occurrence => exact h.pass_variable occurrence
  | assign target value =>
      have first := passed_expr value h
      exact first.trans ((h.passed first).pass_locate rfl)
  | call callee closing arguments =>
      have first := passed_expr callee h
      exact first.trans (passed_exprs arguments (h.passed first))
  | get object property => exact passed_expr object h
  | set object property value =>
      have first := passed_expr value h
      exact first.trans (passed_expr object (h.passed first))
  | this occurrence => exact h.pass_this
  | super occurrence method => exact h.pass_super
  | lambda declaration => exact passed_function .function declaration h.toUnder

theorem passed_exprs (exprs : List Expr) {analysis : Analysis} {around : Surroundings}
    (h : analysis.Fits around)
    : Passed analysis (Analysis.exprs exprs analysis) (Places.ofExprs exprs around) := by
  cases exprs with
  | nil => exact .refl analysis
  | cons first rest =>
      have passed := passed_expr first h
      exact passed.trans (passed_exprs rest (h.passed passed))

/-- The scope of a function is left after its body, in the setting around it. -/
theorem passed_function (kind : BodyKind) (declaration : FunctionDecl) {analysis : Analysis}
    {around : Surroundings} (h : analysis.Under around)
    : Passed analysis (Analysis.function kind declaration analysis)
        (Places.ofFunction kind declaration around) := by
  obtain ⟨name, keyword, parameters, body⟩ := declaration
  have entered := (h.inBody kind 0).enter (.function ⟨name, keyword, parameters, body⟩)
  have bound := entered.visit_parameters parameters
  have visited := bound.trans (visited_stmts body bound.fits)
  have setting := visited.fits.setting
  simp only [Surroundings.declareAll_setting] at setting
  refine ⟨visited.outer, ?_, visited.errors, visited.distances⟩
  simp only [Analysis.function, Analysis.inBody, closeScope] at setting ⊢
  rw [setting, h.setting]
  rfl

theorem passed_statics (declarations : List FunctionDecl) {analysis : Analysis}
    {around : Surroundings} (h : analysis.Under around)
    : Passed analysis (staticMethods declarations analysis)
        (Places.ofStatics declarations around) := by
  cases declarations with
  | nil => exact .refl analysis
  | cons first rest =>
      have passed := passed_function .staticMethod first h
      exact passed.trans (passed_statics rest (h.passed passed))

theorem passed_methods (declarations : List FunctionDecl) {analysis : Analysis}
    {around : Surroundings} (h : analysis.Under around)
    : Passed analysis (instanceMethods declarations analysis)
        (Places.ofMethods declarations around) := by
  cases declarations with
  | nil => exact .refl analysis
  | cons first rest =>
      have passed := passed_function (methodKind first) first h
      exact passed.trans (passed_methods rest (h.passed passed))

/-- A class declares its name around everything else in it. -/
theorem visited_class (definition : ClassDecl) {analysis : Analysis}
    {around : Surroundings} (h : analysis.Fits around)
    : Visited analysis (classDecl definition analysis)
        (around.declare definition.name.lexeme .class) (Places.ofClass definition around) := by
  obtain ⟨name, superclass, methods, statics⟩ := definition
  have begun : Visited analysis ((analysis.inClass .base).declare name)
      ((around.inClass .base).declare name.lexeme .unfinished) [⟨around, .declare name⟩] := by
    have named := (h.inClass .base).visit_declare name
    exact ⟨named.fits, named.outer, named.errors, named.distances⟩
  cases superclass with
  | none =>
      have under := begun.fits.toUnder.other_binder .class
      rw [Surroundings.declare_inClass] at under
      have members := passed_members ⟨name, none, methods, statics⟩
        (passed_statics statics) (passed_methods methods) under
      exact .leave_class h.setting begun members.scopes .base
        (members.setting.trans (begun.fits.setting.trans (Surroundings.declare_setting ..)))
        members.errors members.distances
  | some occurrence =>
      have clause := begun.fits.pass_clause occurrence
      have resolved := (begun.fits.passed clause).inClass .derived
      -- the scope of `super` hides that the declaration of the class is not over
      have entered := resolved.toUnder.enter_bound
        (.superclass ⟨name, some occurrence, methods, statics⟩) "super"
        .superclass (by decide)
      have under := (begun.fits.passed clause).toUnder.other_binder .class
      have inside := (under.inClass .derived).enter_bound
        (.superclass ⟨name, some occurrence, methods, statics⟩) "super"
        .superclass (by decide)
      rw [Surroundings.declare_inClass] at inside
      have members := passed_members ⟨name, some occurrence, methods, statics⟩
        (passed_statics statics) (passed_methods methods) inside.toUnder
      have passed := (members.visited entered).leave rfl resolved.setting.symm
        (bind_others ..).2.1 (bind_others ..).2.2
      obtain ⟨scopes, errors, distances⟩ := clause.trans_inClass passed
      refine .leave_class h.setting begun scopes .derived
        (passed.setting.trans (resolved.setting.trans ?_)) errors distances
      rw [Surroundings.declare_inClass]
      simp only [Surroundings.inClass, Surroundings.within, Surroundings.declare_setting]

theorem visited_stmt (stmt : Stmt) {analysis : Analysis} {around : Surroundings}
    (h : analysis.Fits around)
    : Visited analysis (Analysis.stmt stmt analysis) (around.declareAll stmt.declares)
        (Places.ofStmt stmt around) := by
  cases stmt with
  | expression value => exact (passed_expr value h).visited h
  | print keyword value => exact (passed_expr value h).visited h
  | var name initializer =>
      cases initializer with
      | none => exact (h.visit_introduce .variable (by decide)).track name
      | some initializer =>
          have begun := h.visit_declare name
          have evaluated := (passed_expr initializer begun.fits).visited begun.fits
          exact ((begun.trans evaluated).define .variable (by decide)).track name
  | block body =>
      have entered := h.toUnder.enter (.block body)
      have passed := (visited_stmts body entered).leave rfl
        ((Surroundings.declareAll_setting ..).trans h.setting.symm) rfl rfl
      exact passed.visited h
  | «if» condition positive negative =>
      have first := (passed_expr condition h).visited h
      have second := (first.fits.visit_branch positive).trans (visited_stmt positive first.fits)
      have both := first.trans second
      cases negative with
      | none => exact both
      | some negative =>
          have third := (both.fits.visit_branch negative).trans (visited_stmt negative both.fits)
          have all := both.trans third
          rw [List.append_assoc] at all
          rw [Analysis.stmt, Stmt.declares, Surroundings.declareAll_append, Places.ofStmt]
          exact all
  | «while» condition body =>
      rw [Analysis.stmt, Places.ofStmt, h.setting]
      unfold inLoops
      rw [h.setting]
      have entered := h.inBody around.setting.body (around.setting.loops + 1)
      have first := (passed_expr condition entered).visited entered
      have second := (first.fits.visit_branch body).trans (visited_stmt body first.fits)
      exact (first.trans second).leave_loop
  | «break» keyword =>
      have passed : Passed analysis _ [⟨around, .break keyword⟩] :=
        pass_failIf analysis _ (around.setting.loops = 0) keyword .breakOutside
          (by simp [Place.errors]) rfl
      rw [Analysis.stmt, h.setting]
      exact passed.visited h
  | function declaration =>
      have begun : Visited analysis analysis around [⟨around, .function declaration⟩] :=
        (passed_nothing rfl rfl).visited h
      have named : Visited analysis _ _ _ := begun.trans (h.visit_name declaration.name)
      have inside := (passed_function .function declaration named.fits.toUnder).visited named.fits
      exact named.trans inside
  | «return» keyword value =>
      cases value with
      | none =>
          have passed : Passed analysis _ [⟨around, .return keyword false⟩] :=
            pass_failIf analysis _ (around.setting.body = .program) keyword .returnOutside
              (by simp [Place.errors]) rfl
          rw [Analysis.stmt, h.setting]
          exact passed.visited h
      | some value =>
          have passed := h.pass_return keyword
          have inside := passed_expr value (h.passed passed)
          exact (passed.trans inside).visited h
  | «class» definition =>
      obtain ⟨name, superclass, methods, statics⟩ := definition
      exact visited_class ⟨name, superclass, methods, statics⟩ h

/-- Statements see the declarations of those before them. -/
theorem visited_stmts (stmts : List Stmt) {analysis : Analysis} {around : Surroundings}
    (h : analysis.Fits around)
    : Visited analysis (Analysis.stmts stmts analysis)
        (around.declareAll (stmts.flatMap Stmt.declares)) (Places.ofStmts stmts around) := by
  cases stmts with
  | nil => exact .refl h
  | cons first rest =>
      have visited := visited_stmt first h
      rw [List.flatMap_cons, Surroundings.declareAll_append]
      exact visited.trans (visited_stmts rest visited.fits)

end

end Analysis

-----------------------------------------------------------------------------------------
-- Resolution
-----------------------------------------------------------------------------------------

/-- A walk gives distances exactly if it has met no error. -/
theorem Analysis.result_eq_ok {analysis : Analysis} {distances : Distances}
    : analysis.result = .ok distances
      ↔ analysis.errors = [] ∧ distances = analysis.distances := by
  rw [eq_comm (a := distances)]
  unfold result
  split <;> simp_all

/-- A program is accepted, unused variables aside, exactly if no place in it breaks a rule; the
distances are those of its places.
-/
theorem Program.resolve_eq_ok {program : Program} {distances : Distances}
    : program.resolve false = .ok distances
      ↔ (∀ place ∈ program.places, place.errors = [])
        ∧ distances = Distances.empty.noteAll program.places := by
  have visited := Analysis.visited_stmts program Analysis.fits_start
  have result : program.resolve false = (Analysis.stmts program .start).result := rfl
  rw [result, Analysis.result_eq_ok, visited.errors, visited.distances]
  simp [Analysis.start, places]

/-- Asking for unused variables rejects more programs and changes nothing else. -/
theorem Program.resolve_of_reportUnused {program : Program} {reportUnused : Bool}
    {distances : Distances} (h : program.resolve reportUnused = .ok distances)
    : program.resolve false = .ok distances := by
  cases reportUnused with
  | false => exact h
  | true =>
      have result : program.resolve false = (Analysis.stmts program .start).result := rfl
      obtain ⟨errors, same⟩ := Analysis.result_eq_ok.1 h
      rw [result, Analysis.result_eq_ok]
      exact ⟨(List.append_eq_nil_iff.1 errors).1, same⟩

/-- An expression by itself is accepted exactly if no place in it breaks a rule. -/
theorem Expr.resolve_eq_ok {expr : Expr} {distances : Distances}
    : expr.resolve = .ok distances
      ↔ (∀ place ∈ expr.places, place.errors = [])
        ∧ distances = Distances.empty.noteAll expr.places := by
  have passed := Analysis.passed_expr expr Analysis.fits_start
  rw [resolve, Analysis.result_eq_ok, passed.errors, passed.distances]
  simp [Analysis.start, places]

-----------------------------------------------------------------------------------------
-- Finding what was recorded
-----------------------------------------------------------------------------------------

namespace Distances

@[simp]
theorem find?_empty (id : Nat)
    : empty.find? id = none := rfl

@[simp]
theorem find?_record (distances : Distances) (id distance other : Nat)
    : (distances.record id distance).find? other
      = if id = other then some distance else distances.find? other := rfl

/-- Later findings come before earlier ones. -/
@[simp]
theorem find?_merge (earlier later : Distances) (id : Nat)
    : (earlier.merge later).find? id = (later.find? id).or (earlier.find? id) := by
  obtain ⟨entries⟩ := later
  simp only [find?, merge]
  induction entries with
  | nil => simp [Table.lookup?]
  | cons entry rest ih => grind [Table.lookup?]

/-- Recording a place concerns its own occurrence only. -/
theorem find?_note (distances : Distances) (place : Place) (id : Nat)
    : (distances.note place).find? id
      = if place.id? = some id then place.distance?.or (distances.find? id)
        else distances.find? id := by
  unfold note
  split
  · next id' distance known located =>
      rw [find?_record, known, located]
      simp
  · next unknown =>
      cases known : place.id? <;> cases located : place.distance? <;> simp_all

/-- An occurrence that no place is about is found as before. -/
theorem find?_noteAll_of_notMem (distances : Distances) {places : List Place} {id : Nat}
    (absent : id ∉ places.filterMap Place.id?)
    : (distances.noteAll places).find? id = distances.find? id := by
  induction places generalizing distances with
  | nil => rfl
  | cons place rest ih =>
      simp only [List.mem_filterMap, List.mem_cons, exists_eq_or_imp, not_or, not_exists,
        not_and] at absent ih
      exact (ih (distances.note place) absent.2).trans (by rw [find?_note, if_neg absent.1])

/-- Where the occurrences of all places are numbered apart, each is found at the distance of its
own place.
-/
theorem find?_noteAll {distances : Distances} {places : List Place} {place : Place} {id : Nat}
    (apart : (places.filterMap Place.id?).Nodup) (member : place ∈ places)
    (known : place.id? = some id) (fresh : distances.find? id = none)
    : (distances.noteAll places).find? id = place.distance? := by
  induction places generalizing distances with
  | nil => cases member
  | cons first rest ih =>
      rcases List.mem_cons.1 member with rfl | member
      · rw [List.filterMap_cons_some known, List.nodup_cons] at apart
        refine (find?_noteAll_of_notMem (distances.note place) apart.1).trans ?_
        rw [find?_note, if_pos known, fresh, Option.or_none]
      · have other : first.id? ≠ some id := by
          intro same
          rw [List.filterMap_cons_some same, List.nodup_cons] at apart
          exact apart.1 (List.mem_filterMap.2 ⟨place, member, known⟩)
        refine ih (apart.sublist ?_) member ?_
        · exact (List.sublist_cons_self first rest).filterMap Place.id?
        · rw [find?_note, if_neg other, fresh]

end Distances
end Lox
