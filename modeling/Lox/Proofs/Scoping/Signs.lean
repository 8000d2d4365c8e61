import Mathlib.Data.List.Induction
import Mathlib.Data.List.Infix
import Lox.Syntax

/-! The signs of a program: where its scopes begin and end, and where it declares and uses names,
in the order of its text. They tell which scope a name is found in at any point of the text, by
what stands before the point and without a walk over the program.
-/

namespace Lox

/-- What concerns scopes at one point of a text. -/
inductive Sign where
  /-- A scope begins. -/
  | opening
  /-- The innermost scope ends. -/
  | closing
  /-- The declaration of a name begins in the innermost scope. -/
  | declaration (name : String)
  | use (kind : Use) (occurrence : Occurrence)

-----------------------------------------------------------------------------------------
-- The signs of a program
-----------------------------------------------------------------------------------------

namespace Signs

/-- A scope with what stands inside of it. -/
def scope (inside : List Sign) : List Sign := .opening :: (inside ++ [.closing])

mutual

/-- The signs of an expression. -/
def ofExpr : Expr → List Sign
  | .literal _ => []
  | .grouping inner => ofExpr inner
  | .unary _ operand => ofExpr operand
  | .binary _ left right => ofExpr left ++ ofExpr right
  | .logical _ left right => ofExpr left ++ ofExpr right
  | .conditional condition positive negative =>
    ofExpr condition ++ (ofExpr positive ++ ofExpr negative)
  | .variable occurrence => [.use .variable occurrence]
  | .assign target value => .use .assign target :: ofExpr value
  | .call callee _ arguments => ofExpr callee ++ ofExprs arguments
  | .get object _ => ofExpr object
  | .set object _ value => ofExpr object ++ ofExpr value
  | .this occurrence => [.use .this occurrence]
  | .super occurrence _ => [.use .super occurrence]
  | .lambda declaration => ofFunction declaration

/-- The signs of some expressions. -/
def ofExprs : List Expr → List Sign
  | [] => []
  | first :: rest => ofExpr first ++ ofExprs rest

/-- The signs of a function: one scope for its parameters and its body together. -/
def ofFunction : FunctionDecl → List Sign
  | ⟨_, _, parameters, body⟩ =>
    scope ((parameters.map fun parameter => .declaration parameter.lexeme) ++ ofStmts body)

/-- The signs of some methods. -/
def ofMethods : List FunctionDecl → List Sign
  | [] => []
  | first :: rest => ofFunction first ++ ofMethods rest

/-- The signs of a class: a scope that binds `this` around its static methods and another around
its instance methods, and around both a scope that binds `super` if there is a superclass.
-/
def ofClass : ClassDecl → List Sign
  | ⟨name, superclass, methods, statics⟩ =>
    let receivers :=
      scope (.declaration "this" :: ofMethods statics)
      ++ scope (.declaration "this" :: ofMethods methods)
    .declaration name.lexeme
    :: match superclass with
      | none => receivers
      | some occurrence => .use .variable occurrence :: scope (.declaration "super" :: receivers)

/-- The signs of a statement. -/
def ofStmt : Stmt → List Sign
  | .expression value => ofExpr value
  | .print _ value => ofExpr value
  | .var name none => [.declaration name.lexeme]
  | .var name (some initializer) => .declaration name.lexeme :: ofExpr initializer
  | .block body => scope (ofStmts body)
  | .if condition positive none => ofExpr condition ++ ofStmt positive
  | .if condition positive (some negative) =>
    ofExpr condition ++ (ofStmt positive ++ ofStmt negative)
  | .while condition body => ofExpr condition ++ ofStmt body
  | .break _ => []
  | .function declaration =>
    (declaration.name.toList.map fun name => .declaration name.lexeme) ++ ofFunction declaration
  | .return _ none => []
  | .return _ (some value) => ofExpr value
  | .class definition => ofClass definition

/-- The signs of some statements. -/
def ofStmts : List Stmt → List Sign
  | [] => []
  | first :: rest => ofStmt first ++ ofStmts rest

end

end Signs

/-- The signs of a program, which is a scope. -/
def Program.signs (program : Program) : List Sign := Signs.scope (Signs.ofStmts program)

-----------------------------------------------------------------------------------------
-- Scopes around a point
-----------------------------------------------------------------------------------------

namespace Sign

/-- A scope begins here. -/
def opens : Sign → Bool
  | .opening => true
  | .closing | .declaration _ | .use _ _ => false

/-- A scope ends here. -/
def closes : Sign → Bool
  | .closing => true
  | .opening | .declaration _ | .use _ _ => false

/-- The number of an occurrence. -/
def id? : Sign → Option Nat
  | .use _ occurrence => some occurrence.id
  | .opening | .closing | .declaration _ => none

end Sign

namespace Signs

/-- How many scopes begin. -/
def openings (signs : List Sign) : Nat := signs.countP Sign.opens

/-- How many scopes end. -/
def closings (signs : List Sign) : Nat := signs.countP Sign.closes

/-- A scope encloses a point of the text that is `distance` scopes further in. What stands before
the point and inside of the scope is `since`: it never ends more scopes than it begins, and
begins `distance` scopes more than it ends.
-/
structure Encloses (before since : List Sign) (distance : Nat) : Prop where
  begins : ∃ outside, before = outside ++ .opening :: since
  unended : ∀ part, part <+: since → closings part ≤ openings part
  inside : openings since = closings since + distance

/-- A scope declares a name itself, and not in a scope inside of it. -/
def Declares (since : List Sign) (name : String) : Prop :=
  ∃ first rest, since = first ++ .declaration name :: rest ∧ openings first = closings first

/-- A scope that many scopes out from a point declares a name before the point. -/
def Finds (before : List Sign) (name : String) (distance : Nat) : Prop :=
  ∃ since, Encloses before since distance ∧ Declares since name

/-- The innermost scope that declares a name before a point is that many scopes out. -/
def Nearest (before : List Sign) (name : String) (distance : Nat) : Prop :=
  Finds before name distance ∧ ∀ nearer < distance, ¬ Finds before name nearer

-----------------------------------------------------------------------------------------
-- A text that goes on by one sign
-----------------------------------------------------------------------------------------

variable {before since : List Sign} {name : String} {distance : Nat}

theorem openings_concat (signs : List Sign) (sign : Sign)
    : openings (signs ++ [sign]) = openings signs + if sign.opens then 1 else 0 := by
  simp [openings, List.countP_append, List.countP_singleton]

theorem closings_concat (signs : List Sign) (sign : Sign)
    : closings (signs ++ [sign]) = closings signs + if sign.closes then 1 else 0 := by
  simp [closings, List.countP_append, List.countP_singleton]

/-- Nothing encloses the beginning of a text. -/
theorem not_encloses_nil : ¬ Encloses [] since distance := by
  intro h
  obtain ⟨outside, begins⟩ := h.begins
  simp at begins

/-- The end of two equal texts, of which one ends with more than a sign. -/
theorem concat_eq {before outside inside : List Sign} {sign first last : Sign}
    (same : before ++ [sign] = outside ++ first :: (inside ++ [last]))
    : before = outside ++ first :: inside ∧ sign = last := by
  have same : before ++ [sign] = (outside ++ first :: inside) ++ [last] := by simpa using same
  simpa using List.append_inj' same rfl

/-- A scope that encloses a point has just begun there, or it encloses the point before. -/
theorem encloses_concat_iff (before since : List Sign) (sign : Sign) (distance : Nat)
    : Encloses (before ++ [sign]) since distance
      ↔ (sign = .opening ∧ since = [] ∧ distance = 0)
        ∨ ∃ earlier other,
            since = earlier ++ [sign]
            ∧ Encloses before earlier other
            ∧ (other + if sign.opens then 1 else 0)
              = distance + if sign.closes then 1 else 0 := by
  constructor
  · intro h
    obtain ⟨outside, begins⟩ := h.begins
    rcases List.eq_nil_or_concat since with rfl | ⟨earlier, last, rfl⟩
    · have inside := h.inside
      simp [openings, closings] at begins inside
      exact .inl ⟨begins.2, rfl, inside.symm⟩
    · rw [List.concat_eq_append] at begins h ⊢
      obtain ⟨start, rfl⟩ := concat_eq begins
      have unended := h.unended earlier (List.prefix_append earlier [sign])
      have inside := h.inside
      rw [openings_concat, closings_concat] at inside
      refine .inr
        ⟨earlier, openings earlier - closings earlier, rfl, ⟨⟨outside, start⟩, ?_, ?_⟩, ?_⟩
      · intro part starts
        exact h.unended part (starts.trans (List.prefix_append earlier [sign]))
      · omega
      · omega
  · rintro (⟨rfl, rfl, rfl⟩ | ⟨earlier, other, rfl, h, same⟩)
    · exact ⟨⟨before, rfl⟩, by simp [openings, closings], rfl⟩
    · obtain ⟨outside, rfl⟩ := h.begins
      have inside := h.inside
      have whole : openings (earlier ++ [sign]) = closings (earlier ++ [sign]) + distance := by
        rw [openings_concat, closings_concat]
        omega
      refine ⟨⟨outside, by simp⟩, ?_, whole⟩
      intro part starts
      rcases List.prefix_concat_iff.1 starts with rfl | starts
      · omega
      · exact h.unended part starts

section

variable {holds : List Sign → Prop}

/-- Where a scope begins, it encloses the point, and the others are one scope further out. -/
theorem encloses_opening
    : (∃ since, Encloses (before ++ [.opening]) since distance ∧ holds since)
      ↔ (distance = 0 ∧ holds [])
        ∨ ∃ other since,
            distance = other + 1 ∧ Encloses before since other ∧ holds (since ++ [.opening]) := by
  simp only [encloses_concat_iff, Sign.opens, Sign.closes]
  constructor
  · rintro ⟨since, ⟨_, rfl, rfl⟩ | ⟨earlier, other, rfl, h, same⟩, held⟩
    · exact .inl ⟨rfl, held⟩
    · exact .inr ⟨other, earlier, by simpa using same.symm, h, held⟩
  · rintro (⟨rfl, held⟩ | ⟨other, earlier, rfl, h, held⟩)
    · exact ⟨[], .inl ⟨trivial, rfl, rfl⟩, held⟩
    · exact ⟨earlier ++ [.opening], .inr ⟨earlier, other, rfl, h, by simp⟩, held⟩

/-- Where a scope ends, it encloses the point no longer. -/
theorem encloses_closing
    : (∃ since, Encloses (before ++ [.closing]) since distance ∧ holds since)
      ↔ ∃ since, Encloses before since (distance + 1) ∧ holds (since ++ [.closing]) := by
  simp only [encloses_concat_iff, Sign.opens, Sign.closes]
  constructor
  · rintro ⟨since, ⟨⟨⟩, _⟩ | ⟨earlier, other, rfl, h, same⟩, held⟩
    simp at same
    subst same
    exact ⟨earlier, h, held⟩
  · rintro ⟨earlier, h, held⟩
    exact ⟨earlier ++ [.closing], .inr ⟨earlier, _, rfl, h, by simp⟩, held⟩

/-- Elsewhere the same scopes enclose a point and the one before. -/
theorem encloses_inside {sign : Sign} (opens : sign.opens = false) (closes : sign.closes = false)
    : (∃ since, Encloses (before ++ [sign]) since distance ∧ holds since)
      ↔ ∃ since, Encloses before since distance ∧ holds (since ++ [sign]) := by
  simp only [encloses_concat_iff, opens, closes]
  constructor
  · rintro ⟨since, ⟨rfl, _⟩ | ⟨earlier, other, rfl, h, same⟩, held⟩
    · cases opens
    · simp at same
      subst same
      exact ⟨earlier, h, held⟩
  · rintro ⟨earlier, h, held⟩
    exact ⟨earlier ++ [sign], .inr ⟨earlier, distance, rfl, h, by simp⟩, held⟩

end

/-- A scope declares a name by its last sign or before. -/
theorem declares_concat_iff (since : List Sign) (sign : Sign) (name : String)
    : Declares (since ++ [sign]) name
      ↔ Declares since name ∨ (sign = .declaration name ∧ openings since = closings since) := by
  constructor
  · rintro ⟨first, rest, same, even⟩
    rcases List.eq_nil_or_concat rest with rfl | ⟨rest, last, rfl⟩
    · simp at same
      obtain ⟨rfl, rfl⟩ := same
      exact .inr ⟨rfl, even⟩
    · rw [List.concat_eq_append] at same
      obtain ⟨rfl, rfl⟩ := concat_eq same
      exact .inl ⟨first, rest, rfl, even⟩
  · rintro (⟨first, rest, rfl, even⟩ | ⟨rfl, even⟩)
    · exact ⟨first, rest ++ [sign], by simp, even⟩
    · exact ⟨since, [], rfl, even⟩

-----------------------------------------------------------------------------------------
-- The names that the scopes around a point declare
-----------------------------------------------------------------------------------------

/-- The names of the scopes around a point after one more sign, the innermost scope first. -/
def enter : List (List String) → Sign → List (List String)
  | scopes, .opening => [] :: scopes
  | scopes, .closing => scopes.tail
  | names :: outer, .declaration name => (name :: names) :: outer
  | [], .declaration _ => []
  | scopes, .use _ _ => scopes

/-- The names of the scopes around a point after more signs. -/
def enterAll (scopes : List (List String)) (signs : List Sign) : List (List String) :=
  signs.foldl enter scopes

theorem enterAll_append (scopes : List (List String)) (first second : List Sign)
    : enterAll scopes (first ++ second) = enterAll (enterAll scopes first) second :=
  List.foldl_append

/-- There are as many scopes around a point as names are kept for. By induction over the text
before the point, sign by sign.
-/
theorem encloses_iff (before : List Sign) (distance : Nat)
    : (∃ since, Encloses before since distance ∧ True)
      ↔ distance < (enterAll [] before).length := by
  induction before using List.reverseRecOn generalizing distance with
  | nil => exact iff_of_false (fun ⟨_, h, _⟩ => not_encloses_nil h) (Nat.not_lt_zero _)
  | append_singleton before sign ih =>
      rw [enterAll_append]
      generalize enterAll [] before = scopes at ih ⊢
      cases sign with
      | opening =>
          rw [encloses_opening]
          cases distance with
          | zero => simp [enterAll, enter]
          | succ distance => simpa [enterAll, enter] using ih distance
      | closing =>
          rw [encloses_closing, ih]
          simp only [enterAll, enter, List.foldl_cons, List.foldl_nil, List.length_tail]
          omega
      | declaration name =>
          rw [encloses_inside rfl rfl, ih]
          cases scopes <;> simp [enterAll, enter]
      | use kind occurrence => rw [encloses_inside rfl rfl, ih]; rfl

/-- A name is found where it is among the names that are kept. By induction over the text before
the point, sign by sign.
-/
theorem finds_iff (before : List Sign) (name : String) (distance : Nat)
    : Finds before name distance
      ↔ ∃ names, (enterAll [] before)[distance]? = some names ∧ name ∈ names := by
  induction before using List.reverseRecOn generalizing distance with
  | nil => exact iff_of_false (fun ⟨_, h, _⟩ => not_encloses_nil h) (by simp [enterAll])
  | append_singleton before sign ih =>
      have around := encloses_iff before
      have kept (sign : Sign) (silent : ∀ other, sign ≠ .declaration other) (since : List Sign)
          : Declares (since ++ [sign]) name ↔ Declares since name := by
        rw [declares_concat_iff, or_iff_left]
        exact fun h => silent name h.1
      rw [Finds, enterAll_append]
      generalize enterAll [] before = scopes at ih around ⊢
      cases sign with
      | opening =>
          have nothing : ¬ Declares [] name := by simp [Declares]
          rw [encloses_opening]
          cases distance with
          | zero => simp [enterAll, enter, nothing]
          | succ distance => simpa [enterAll, enter, kept, Finds] using ih distance
      | closing =>
          rw [encloses_closing]
          simpa [enterAll, enter, kept, Finds] using ih (distance + 1)
      | declaration other =>
          rw [encloses_inside rfl rfl]
          have own
              : (∃ since,
                  Encloses before since distance
                  ∧ Sign.declaration other = .declaration name
                  ∧ openings since = closings since)
                ↔ name = other ∧ distance = 0 ∧ 0 < scopes.length := by
            constructor
            · rintro ⟨since, h, ⟨⟩, even⟩
              have inside := h.inside
              obtain rfl : distance = 0 := by omega
              exact ⟨rfl, rfl, (around 0).1 ⟨since, h, trivial⟩⟩
            · rintro ⟨rfl, rfl, some⟩
              obtain ⟨since, h, _⟩ := (around 0).2 some
              exact ⟨since, h, rfl, h.inside⟩
          simp only [declares_concat_iff, and_or_left, exists_or]
          rw [← Finds, ih, own]
          cases scopes with
          | nil => simp [enterAll, enter]
          | cons names outer => cases distance <;> simp [enterAll, enter, or_comm]
      | use kind occurrence =>
          rw [encloses_inside rfl rfl]
          simpa [enterAll, enter, kept, Finds] using ih distance

/-- How many scopes out a name is, among the names of scopes. -/
def distance? (scopes : List (List String)) (name : String) : Option Nat :=
  scopes.findIdx? fun names => decide (name ∈ names)

/-- The nearest scope with a name is the first with the name among those that are kept. -/
theorem nearest_iff (before : List Sign) (name : String) (distance : Nat)
    : Nearest before name distance ↔ distance? (enterAll [] before) name = some distance := by
  simp only [Nearest, finds_iff, distance?, List.findIdx?_eq_some_iff_getElem,
    List.getElem?_eq_some_iff]
  constructor
  · rintro ⟨⟨names, ⟨inside, rfl⟩, member⟩, nearer⟩
    refine ⟨inside, decide_eq_true member, ?_⟩
    intro other less has
    exact nearer other less ⟨_, ⟨by omega, rfl⟩, of_decide_eq_true has⟩
  · rintro ⟨inside, has, nearer⟩
    refine ⟨⟨_, ⟨inside, rfl⟩, of_decide_eq_true has⟩, ?_⟩
    rintro other less ⟨names, ⟨within, rfl⟩, member⟩
    exact nearer other less (decide_eq_true member)

/-- No scope has a name exactly when none of those that are kept has it. -/
theorem not_finds_iff (before : List Sign) (name : String)
    : (∀ distance, ¬ Finds before name distance)
      ↔ distance? (enterAll [] before) name = none := by
  simp only [finds_iff, distance?, List.findIdx?_eq_none_iff, decide_eq_false_iff_not]
  constructor
  · intro absent names member has
    obtain ⟨distance, there⟩ := List.mem_iff_getElem?.1 member
    exact absent distance ⟨names, there, has⟩
  · rintro absent distance ⟨names, there, has⟩
    exact absent names (List.mem_of_getElem? there) has

end Signs
end Lox
