import Lox.Proofs.Scanning.Steps
import Lox.Proofs.Scoping.Legality
import Lox.Proofs.Scoping.Signs
import Lox.Proofs.Syntax.Grammar

/-! Distances as lexical scoping. The listing of places looks every occurrence up among the names
that the signs before it declare in the scopes around it, so the distances of an accepted program
are those of the nearest scopes by its text.
-/

namespace Lox

namespace Signs

-----------------------------------------------------------------------------------------
-- Lookups of a text
-----------------------------------------------------------------------------------------

/-- The occurrences of a text, each with how many scopes out its name is found. -/
def lookups (scopes : List (List String)) : List Sign → List (Occurrence × Option Nat)
  | [] => []
  | .use _ occurrence :: rest =>
    (occurrence, distance? scopes occurrence.name) :: lookups scopes rest
  | .opening :: rest => lookups (enter scopes .opening) rest
  | .closing :: rest => lookups (enter scopes .closing) rest
  | .declaration name :: rest => lookups (enter scopes (.declaration name)) rest

/-- A text goes on in the scopes that it leaves, by induction over its first part. -/
theorem lookups_append (scopes : List (List String)) (first second : List Sign)
    : lookups scopes (first ++ second)
      = lookups scopes first ++ lookups (enterAll scopes first) second := by
  induction first generalizing scopes with
  | nil => rfl
  | cons sign rest ih => cases sign <;> simp [lookups, ih, enterAll, enter]

/-- An occurrence is looked up in the scopes around it. -/
theorem mem_lookups {before after : List Sign} {kind : Use} {occurrence : Occurrence}
    : (occurrence, distance? (enterAll [] before) occurrence.name)
      ∈ lookups [] (before ++ .use kind occurrence :: after) := by
  rw [lookups_append]
  exact List.mem_append_right _ (List.mem_cons_self ..)

/-- Every occurrence of a text is looked up once, by induction over the text. -/
theorem map_id_lookups (scopes : List (List String)) (signs : List Sign)
    : (lookups scopes signs).map (·.1.id) = signs.filterMap Sign.id? := by
  induction signs generalizing scopes with
  | nil => rfl
  | cons sign rest ih => cases sign <;> simp [lookups, ih, List.filterMap_cons, Sign.id?]

end Signs

/-- The occurrence at a place, with how many scopes out its name is declared. -/
def Place.lookup? (place : Place) : Option (Occurrence × Option Nat) :=
  match place.act with
  | .use _ occurrence => some (occurrence, place.around.distance? occurrence.name)
  | _ => none

theorem Place.map_id_lookup? (places : List Place)
    : (places.filterMap Place.lookup?).map (·.1.id) = places.filterMap Place.id? := by
  rw [List.map_filterMap]
  refine List.filterMap_congr fun place _ => ?_
  unfold lookup? id?
  cases place.act <;> rfl

namespace Surroundings

/-- The names that the scopes around a place declare, the innermost scope first. -/
def scopes (around : Surroundings) : List (List String) :=
  around.frames.map fun frame => frame.names.map Prod.fst

theorem declare_scopes (around : Surroundings) (name : String) (binder : Binder)
    : (around.declare name binder).scopes = Signs.enter around.scopes (.declaration name) := by
  obtain ⟨_ | ⟨frame, outer⟩, setting⟩ := around <;> rfl

/-- Names and frames find a name equally far out. -/
theorem distance?_scopes (around : Surroundings) (name : String)
    : Signs.distance? around.scopes name = around.distance? name := by
  rw [Signs.distance?, scopes, List.findIdx?_map, distance?]
  congr
  funext frame
  simp [Frame.has, List.any_eq, eq_comm]

end Surroundings

-----------------------------------------------------------------------------------------
-- Signs and places
-----------------------------------------------------------------------------------------

namespace Signs

/-- A text looks up what some places do, and leaves other scopes behind. -/
structure Shows (signs : List Sign) (scopes after : List (List String)) (places : List Place) :
    Prop where
  left : enterAll scopes signs = after
  lookups : (lookups scopes signs).Perm (places.filterMap Place.lookup?)

namespace Shows

variable {signs more : List Sign} {scopes middle after : List (List String)}
  {places others : List Place} {around : Surroundings}

theorem nil (scopes : List (List String)) : Shows [] scopes scopes [] := ⟨rfl, .nil⟩

theorem append (h : Shows signs scopes middle places) (next : Shows more middle after others)
    : Shows (signs ++ more) scopes after (places ++ others) where
  left := by rw [enterAll_append, h.left, next.left]
  lookups := by
    rw [lookups_append, h.left, List.filterMap_append]
    exact h.lookups.append next.lookups

/-- The listing may come to the parts of an expression in another order. -/
theorem swap (h : Shows signs scopes scopes places) (next : Shows more scopes scopes others)
    : Shows (signs ++ more) scopes scopes (others ++ places) where
  left := (h.append next).left
  lookups := by
    refine (h.append next).lookups.trans ?_
    rw [List.filterMap_append, List.filterMap_append]
    exact List.perm_append_comm

/-- A place without an occurrence shows in no sign. -/
theorem silent {place : Place} (h : Shows signs scopes after places) (none : place.lookup? = none)
    : Shows signs scopes after (place :: places) where
  left := h.left
  lookups := by
    rw [List.filterMap_cons_none none]
    exact h.lookups

theorem use (kind : Use) (occurrence : Occurrence) (around : Surroundings)
    : Shows [.use kind occurrence] around.scopes around.scopes
        [⟨around, .use kind occurrence⟩] where
  left := rfl
  lookups := by
    rw [Signs.lookups, Surroundings.distance?_scopes]
    exact .refl _

theorem declaration (name : Token) (binder : Binder) (around : Surroundings)
    : Shows [.declaration name.lexeme] around.scopes (around.declare name.lexeme binder).scopes
        [⟨around, .declare name⟩] where
  left := (around.declare_scopes name.lexeme binder).symm
  lookups := .nil

/-- A name is declared without a place of its own. -/
theorem bound (name : String) (scopes : List (List String))
    : Shows [.declaration name] scopes (enter scopes (.declaration name)) [] := ⟨rfl, .nil⟩

/-- A scope leaves the scopes around it as they are. -/
theorem scope {names : List String} (h : Shows signs ([] :: scopes) (names :: scopes) places)
    : Shows (Signs.scope signs) scopes scopes places where
  left := by
    have inside := h.left
    simp only [Signs.scope, enterAll, List.foldl_cons, List.foldl_append, List.foldl_nil, enter]
      at inside ⊢
    rw [inside]
    rfl
  lookups := by
    rw [Signs.scope, Signs.lookups, lookups_append, enter, h.left]
    simpa [Signs.lookups] using h.lookups

/-- Parameters are declared one after the other, by induction over them. -/
theorem parameters (parameters : List Token) (around : Surroundings)
    : Shows (parameters.map fun parameter => .declaration parameter.lexeme) around.scopes
        (around.declareAll
          (parameters.map fun parameter => (parameter.lexeme, Binder.parameter))).scopes
        (Places.ofParameters parameters around) := by
  induction parameters generalizing around with
  | nil => exact nil around.scopes
  | cons name rest ih =>
      exact (declaration name .parameter around).append (ih (around.declare name.lexeme .parameter))

/-- The scopes inside of a new one are those around it. -/
theorem entered (around : Surroundings) (region : Region) (names : List (String × Binder))
    : ∃ inner, ((around.enter region []).declareAll names).scopes = inner :: around.scopes := by
  rw [Surroundings.scopes, Surroundings.frames_declareAll_enter]
  exact ⟨_, rfl⟩

/-- The name of a superclass is looked up as if the class had not been declared. -/
theorem clause {name : Token} {occurrence : Occurrence}
    (lawful : Places.Lawful (Places.ofClause name (some occurrence) around))
    : Shows [.use .variable occurrence] (around.declare name.lexeme .class).scopes
        (around.declare name.lexeme .class).scopes
        (Places.ofClause name (some occurrence) around) := by
  unfold Places.ofClause at lawful ⊢
  dsimp only at lawful ⊢
  split at lawful
  · cases Places.lawful_singleton.1 lawful
  · next different =>
      rw [if_neg different]
      refine ⟨rfl, ?_⟩
      rw [Signs.lookups, Surroundings.distance?_scopes,
        Surroundings.distance?_declare_ne around .class different]
      exact .refl _

mutual

/-- An expression looks up what its places do. By induction over the tree. -/
theorem ofExpr (expr : Expr) {around : Surroundings}
    (lawful : Places.Lawful (Places.ofExpr expr around))
    : Shows (Signs.ofExpr expr) around.scopes around.scopes (Places.ofExpr expr around) := by
  cases expr with
  | literal value => exact nil around.scopes
  | grouping inner => exact ofExpr inner lawful
  | unary operator operand => exact ofExpr operand lawful
  | binary operator left right =>
      rw [Places.ofExpr, Places.lawful_append] at lawful
      exact (ofExpr left lawful.1).append (ofExpr right lawful.2)
  | logical operator left right =>
      rw [Places.ofExpr, Places.lawful_append] at lawful
      exact (ofExpr left lawful.1).append (ofExpr right lawful.2)
  | conditional condition positive negative =>
      rw [Places.ofExpr, Places.lawful_append, Places.lawful_append] at lawful
      exact (ofExpr condition lawful.1).append
        ((ofExpr positive lawful.2.1).append (ofExpr negative lawful.2.2))
  | «variable» occurrence => exact use .variable occurrence around
  | assign target value =>
      rw [Places.ofExpr, Places.lawful_append] at lawful
      exact (use .assign target around).swap (ofExpr value lawful.1)
  | call callee closing arguments =>
      rw [Places.ofExpr, Places.lawful_append] at lawful
      exact (ofExpr callee lawful.1).append (ofExprs arguments lawful.2)
  | get object property => exact ofExpr object lawful
  | set object property value =>
      rw [Places.ofExpr, Places.lawful_append] at lawful
      exact (ofExpr object lawful.2).swap (ofExpr value lawful.1)
  | this occurrence => exact use .this occurrence around
  | super occurrence method => exact use .super occurrence around
  | lambda declaration => exact ofFunction .function declaration lawful

theorem ofExprs (exprs : List Expr) {around : Surroundings}
    (lawful : Places.Lawful (Places.ofExprs exprs around))
    : Shows (Signs.ofExprs exprs) around.scopes around.scopes (Places.ofExprs exprs around) := by
  cases exprs with
  | nil => exact nil around.scopes
  | cons first rest =>
      rw [Places.ofExprs, Places.lawful_append] at lawful
      exact (ofExpr first lawful.1).append (ofExprs rest lawful.2)

theorem ofFunction (kind : BodyKind) (declaration : FunctionDecl) {around : Surroundings}
    (lawful : Places.Lawful (Places.ofFunction kind declaration around))
    : Shows (Signs.ofFunction declaration) around.scopes around.scopes
        (Places.ofFunction kind declaration around) := by
  obtain ⟨name, keyword, parameters, body⟩ := declaration
  rw [Places.ofFunction, Places.lawful_append] at lawful
  let declaration : FunctionDecl := ⟨name, keyword, parameters, body⟩
  have inside
      : Shows
          ((parameters.map fun parameter => .declaration parameter.lexeme) ++ Signs.ofStmts body)
          ([] :: around.scopes)
          ((around.atFunction kind declaration).declareAll
            (declaration.parameterNames ++ body.flatMap Stmt.declares)).scopes
          (Places.ofFunction kind declaration around) := by
    rw [Surroundings.declareAll_append, Places.ofFunction]
    exact (Shows.parameters parameters _).append (ofStmts body lawful.2)
  obtain ⟨inner, same⟩ := entered (around.inBody kind 0) (.function declaration)
    (declaration.parameterNames ++ body.flatMap Stmt.declares)
  rw [Surroundings.atFunction, same] at inside
  exact inside.scope

theorem ofStatics (declarations : List FunctionDecl) {around : Surroundings}
    (lawful : Places.Lawful (Places.ofStatics declarations around))
    : Shows (Signs.ofMethods declarations) around.scopes around.scopes
        (Places.ofStatics declarations around) := by
  cases declarations with
  | nil => exact nil around.scopes
  | cons first rest =>
      rw [Places.ofStatics, Places.lawful_append] at lawful
      exact (ofFunction .staticMethod first lawful.1).append (ofStatics rest lawful.2)

theorem ofMethods (declarations : List FunctionDecl) {around : Surroundings}
    (lawful : Places.Lawful (Places.ofMethods declarations around))
    : Shows (Signs.ofMethods declarations) around.scopes around.scopes
        (Places.ofMethods declarations around) := by
  cases declarations with
  | nil => exact nil around.scopes
  | cons first rest =>
      rw [Places.ofMethods, Places.lawful_append] at lawful
      exact (ofFunction (Analysis.methodKind first) first lawful.1).append
        (ofMethods rest lawful.2)

theorem ofClass (definition : ClassDecl) {around : Surroundings}
    (lawful : Places.Lawful (Places.ofClass definition around))
    : Shows (Signs.ofClass definition) around.scopes
        (around.declare definition.name.lexeme .class).scopes
        (Places.ofClass definition around) := by
  obtain ⟨name, superclass, methods, statics⟩ := definition
  rw [Places.ofClass, Places.lawful_cons, Places.lawful_append, Places.lawful_append] at lawful
  obtain ⟨_, named, inStatics, inMethods⟩ := lawful
  have receivers :=
    ((bound "this" _).append (ofStatics statics inStatics)).scope.append
      ((bound "this" _).append (ofMethods methods inMethods)).scope
  refine (declaration name .class around).append ?_
  cases superclass with
  | none => exact receivers
  | some occurrence => exact (clause named).append ((bound "super" _).append receivers).scope

theorem ofStmt (stmt : Stmt) {around : Surroundings}
    (lawful : Places.Lawful (Places.ofStmt stmt around))
    : Shows (Signs.ofStmt stmt) around.scopes (around.declareAll stmt.declares).scopes
        (Places.ofStmt stmt around) := by
  cases stmt with
  | expression value => exact ofExpr value lawful
  | print keyword value => exact ofExpr value lawful
  | var name initializer =>
      cases initializer with
      | none => exact declaration name .variable around
      | some initializer =>
          rw [Places.ofStmt, Places.lawful_cons] at lawful
          have same := around.declare_scopes name.lexeme .variable
          rw [← around.declare_scopes name.lexeme .unfinished] at same
          rw [Stmt.declares, Surroundings.declareAll_cons, Surroundings.declareAll_nil, same]
          exact (declaration name .unfinished around).append (ofExpr initializer lawful.2)
  | block body =>
      obtain ⟨inner, same⟩ := entered around (.block body) (body.flatMap Stmt.declares)
      have inside := ofStmts body lawful
      rw [same] at inside
      exact inside.scope
  | «if» condition positive negative =>
      cases negative with
      | none =>
          rw [Places.ofStmt, Places.lawful_append, Places.lawful_cons] at lawful
          exact (ofExpr condition lawful.1).append ((ofStmt positive lawful.2.2).silent rfl)
      | some negative =>
          rw [Places.ofStmt, Places.lawful_append, Places.lawful_append, Places.lawful_cons,
            Places.lawful_cons] at lawful
          rw [Stmt.declares, Surroundings.declareAll_append]
          exact (ofExpr condition lawful.1).append
            (((ofStmt positive lawful.2.1.2).silent rfl).append
              ((ofStmt negative lawful.2.2.2).silent rfl))
  | «while» condition body =>
      rw [Places.ofStmt, Places.lawful_append, Places.lawful_cons] at lawful
      have inside := ofStmt body lawful.2.2
      rw [Surroundings.declareAll_inBody] at inside
      exact (ofExpr condition lawful.1).append (inside.silent rfl)
  | «break» keyword => exact (nil around.scopes).silent rfl
  | function declaration =>
      rw [Places.ofStmt, Places.lawful_cons, Places.lawful_append] at lawful
      have inside := ofFunction .function declaration lawful.2.2
      obtain ⟨name, keyword, parameters, body⟩ := declaration
      refine Shows.silent ?_ rfl
      cases name with
      | none => exact inside
      | some name => exact (Shows.declaration name .function around).append inside
  | «return» keyword value =>
      cases value with
      | none => exact (nil around.scopes).silent rfl
      | some value =>
          rw [Places.ofStmt, Places.lawful_cons] at lawful
          exact (ofExpr value lawful.2).silent rfl
  | «class» definition =>
      obtain ⟨name, superclass, methods, statics⟩ := definition
      exact ofClass ⟨name, superclass, methods, statics⟩ lawful

theorem ofStmts (stmts : List Stmt) {around : Surroundings}
    (lawful : Places.Lawful (Places.ofStmts stmts around))
    : Shows (Signs.ofStmts stmts) around.scopes
        (around.declareAll (stmts.flatMap Stmt.declares)).scopes (Places.ofStmts stmts around) := by
  cases stmts with
  | nil => exact nil around.scopes
  | cons first rest =>
      rw [Places.ofStmts, Places.lawful_append] at lawful
      rw [List.flatMap_cons, Surroundings.declareAll_append]
      exact (ofStmt first lawful.1).append (ofStmts rest lawful.2)

end

end Shows

end Signs

/-- A lawful program looks up what its places do. -/
theorem Program.perm_lookups {program : Program} (lawful : Places.Lawful program.places)
    : (Signs.lookups [] program.signs).Perm (program.places.filterMap Place.lookup?) := by
  obtain ⟨inner, same⟩ :=
    Signs.Shows.entered ⟨[], .top⟩ .program (program.flatMap Stmt.declares)
  have inside
      : Signs.Shows (Signs.ofStmts program) [[]]
          ((Surroundings.enter ⟨[], .top⟩ .program []).declareAll
            (program.flatMap Stmt.declares)).scopes
          program.places :=
    Signs.Shows.ofStmts program lawful
  rw [same] at inside
  exact inside.scope.lookups

/-- The occurrences at the places of a lawful program are those of its text. -/
theorem Program.perm_ids {program : Program} (lawful : Places.Lawful program.places)
    : (program.signs.filterMap Sign.id?).Perm (program.places.filterMap Place.id?) := by
  rw [← Signs.map_id_lookups [], ← Place.map_id_lookup?]
  exact (Program.perm_lookups lawful).map _

/-- No two occurrences of the program have the same number. -/
def Program.NumberedApart (program : Program) : Prop := (program.signs.filterMap Sign.id?).Nodup

/-- In a program that is read from a source, no two occurrences have the same number. -/
theorem Program.numberedApart_of_parse {source : String} {first next : Nat} {program : Program}
    (parsed
      : Program.parse (Scan.ofText source).tokens (Scan.ofText source).stop first
        = (.ok program, next))
    (lawful : Places.Lawful program.places)
    : program.NumberedApart :=
  (Program.perm_ids lawful).nodup_iff.2
    (((Program.parse_numbered source first).2 program next parsed).apart .top)

/-- The occurrences of an accepted program that is read from a source are numbered apart. Where
they are, each has the distance of the nearest scope around it that declares its name before it,
and none if there is no such scope. No other number has a distance.
-/
theorem Program.resolve_lexical {program : Program} {reportUnused : Bool} {distances : Distances}
    (accepted : program.resolve reportUnused = .ok distances)
    : (∀ source first next,
        Program.parse (Scan.ofText source).tokens (Scan.ofText source).stop first
          = (.ok program, next)
        → program.NumberedApart)
      ∧ (program.NumberedApart
        → ∀ before kind occurrence after,
            program.signs = before ++ .use kind occurrence :: after
            → (∀ distance,
                distances.find? occurrence.id = some distance
                ↔ Signs.Nearest before occurrence.name distance)
              ∧ (distances.find? occurrence.id = none
                ↔ ∀ distance, ¬ Signs.Finds before occurrence.name distance))
      ∧ ∀ id distance,
          distances.find? id = some distance
          → ∃ kind occurrence, .use kind occurrence ∈ program.signs ∧ occurrence.id = id := by
  obtain ⟨lawful, rfl⟩ := Program.resolve_eq_ok.1 (Program.resolve_of_reportUnused accepted)
  have ids := Program.perm_ids lawful
  refine ⟨?_, ?_, ?_⟩
  · intro source first next parsed
    exact Program.numberedApart_of_parse parsed lawful
  · intro apart before kind occurrence after text
    have looked : (occurrence, Signs.distance? (Signs.enterAll [] before) occurrence.name)
        ∈ program.places.filterMap Place.lookup? := by
      rw [← (Program.perm_lookups lawful).mem_iff, text]
      exact Signs.mem_lookups
    obtain ⟨⟨around, act⟩, member, same⟩ := List.mem_filterMap.1 looked
    cases act with
    | use kind other =>
        obtain ⟨rfl, away⟩ := Prod.mk.inj (Option.some.inj same)
        have found : (Distances.empty.noteAll program.places).find? other.id = _ :=
          Distances.find?_noteAll (ids.nodup_iff.1 apart) member rfl rfl
        rw [found, Place.distance?_eq (lawful _ member)]
        change around.distance? other.name = _ at away
        rw [away]
        exact ⟨fun distance => (Signs.nearest_iff before other.name distance).symm,
          (Signs.not_finds_iff before other.name).symm⟩
    | declare _ | function _ | branch _ | inheritItself _ | «return» _ _ | «break» _ => cases same
  · intro id distance found
    by_cases member : id ∈ program.signs.filterMap Sign.id?
    · obtain ⟨sign, there, same⟩ := List.mem_filterMap.1 member
      cases sign with
      | use kind occurrence => exact ⟨kind, occurrence, there, Option.some.inj same⟩
      | opening | closing | declaration _ => cases same
    · rw [ids.mem_iff] at member
      rw [Distances.find?_noteAll_of_notMem _ member] at found
      cases found

/-- In a block of a program that was read from a source, a name of the program is one scope out. -/
theorem Program.resolve_lexical_block
    : ∃ program distances next,
        Program.parse (Scan.ofText "var a;{a;}").tokens (Scan.ofText "var a;{a;}").stop 0
          = (.ok program, next)
        ∧ program.resolve false = .ok distances
        ∧ distances.find? 0 = some 1
        ∧ Signs.Nearest [.opening, .declaration "a", .opening] "a" 1 := by
  have scan
      : Scan.ofText "var a;{a;}"
        = ⟨[.token ⟨.keyword .var, "var", 1⟩, .token ⟨.identifier, "a", 1⟩,
            .token ⟨.mark .semicolon, ";", 1⟩, .token ⟨.mark .leftBrace, "\x7b", 1⟩,
            .token ⟨.identifier, "a", 1⟩, .token ⟨.mark .semicolon, ";", 1⟩,
            .token ⟨.mark .rightBrace, "\x7d", 1⟩],
          Token.endOfInput 1⟩ := by
    rw [Scan.ofText_eq]
    rfl
  let name : Token := ⟨.identifier, "a", 1⟩
  let program : Program := [.var name none, .block [.expression (.variable ⟨0, name⟩)]]
  have parsed
      : Program.parse (Scan.ofText "var a;{a;}").tokens (Scan.ofText "var a;{a;}").stop 0
        = (.ok program, 1) := by
    rw [scan]
    rfl
  have accepted : program.resolve false = .ok (Distances.empty.record 0 1) := rfl
  obtain ⟨numbered, nearest, _⟩ := Program.resolve_lexical accepted
  have found := nearest (numbered _ _ _ parsed)
    [.opening, .declaration "a", .opening] .variable ⟨0, name⟩ [.closing, .closing] rfl
  exact ⟨program, _, 1, parsed, accepted, rfl, (found.1 1).1 rfl⟩

end Lox
