import Lox.Proofs.Syntax.Numbering

/-! Numbering by the rules of the grammar: what each reader gives is numbered in the interval
that the reader counts through. Programs and expressions are so read from any source.
-/

namespace Lox

namespace Parser

open Reader

-----------------------------------------------------------------------------------------
-- Trees made of numbered parts
-----------------------------------------------------------------------------------------

/-- The members of a class are numbered, whatever surroundings they are listed in. -/
def NumberedMembers (members : List FunctionDecl × List FunctionDecl) (first next : Nat) : Prop :=
  ∀ statics methods : Surroundings → Surroundings,
    Numbered
      (fun around =>
        Places.ofStatics members.2 (statics around) ++ Places.ofMethods members.1 (methods around))
      first next

variable {first middle next : Nat}

/-- A static method before the other members. -/
theorem NumberedMembers.consStatic {function : FunctionDecl} {methods statics : List FunctionDecl}
    (h : ∀ kind, Numbered (Places.ofFunction kind function) first middle)
    (rest : NumberedMembers (methods, statics) middle next)
    : NumberedMembers (methods, function :: statics) first next := by
  intro atStatics atMethods
  refine ((h .staticMethod).inside atStatics).append (rest atStatics atMethods) |>.perm ?_
  intro around
  simp only [Places.ofStatics, List.append_assoc]
  exact .refl _

/-- An instance method before the other members, although it is listed after static ones. -/
theorem NumberedMembers.consMethod {function : FunctionDecl} {methods statics : List FunctionDecl}
    (h : ∀ kind, Numbered (Places.ofFunction kind function) first middle)
    (rest : NumberedMembers (methods, statics) middle next)
    : NumberedMembers (function :: methods, statics) first next := by
  intro atStatics atMethods
  refine ((h (Analysis.methodKind function)).inside atMethods).append
    (rest atStatics atMethods) |>.perm ?_
  intro around
  simp only [Places.ofMethods]
  rw [← List.append_assoc, ← List.append_assoc]
  exact List.perm_append_comm.append_right _

/-- A class is numbered as its superclass clause and its members. -/
theorem numbered_class {name : Token} {superclass : Option Occurrence}
    {methods statics : List FunctionDecl} (free : ¬ Reserved name.lexeme)
    (clause : Numbered (Places.ofClause name superclass) first middle)
    (members : NumberedMembers (methods, statics) middle next)
    : Numbered (Places.ofStmt (.class ⟨name, superclass, methods, statics⟩)) first next :=
  (clause.append (members (·.atMethods ⟨name, superclass, methods, statics⟩ true)
    (·.atMethods ⟨name, superclass, methods, statics⟩ false))).cons (.declare name) id free
      fun _ => rfl

/-- A named function is numbered as its body. -/
theorem numbered_named {function : FunctionDecl} {name : Token} (named : function.name = some name)
    (free : ¬ Reserved name.lexeme)
    (h : ∀ kind, Numbered (Places.ofFunction kind function) first next)
    : Numbered (Places.ofStmt (.function function)) first next := by
  have inside := ((h .function).inside
    (·.declareAll (function.name.toList.map fun name => (name.lexeme, .function))))
  have listed := (inside.cons (.declare name) id free fun _ => rfl).cons (.function function) id
    ⟨name, named⟩ fun _ => rfl
  refine listed.perm fun around => ?_
  simp only [Places.ofStmt, named]
  exact .refl _

theorem numbered_if {condition : Expr} {positive : Stmt}
    (h : Numbered (Places.ofExpr condition) first middle)
    (taken : Numbered (Places.ofStmt positive) middle next) (nothing : positive.declares = [])
    : Numbered (Places.ofStmt (.if condition positive none)) first next :=
  h.append (taken.cons (.branch positive) id nothing fun _ => rfl)

theorem numbered_ifElse {condition : Expr} {positive negative : Stmt} {last : Nat}
    (h : Numbered (Places.ofExpr condition) first middle)
    (taken : Numbered (Places.ofStmt positive) middle next) (nothing : positive.declares = [])
    (otherwise : Numbered (Places.ofStmt negative) next last)
    (nothingElse : negative.declares = [])
    : Numbered (Places.ofStmt (.if condition positive (some negative))) first last :=
  h.append ((taken.cons (.branch positive) id nothing fun _ => rfl).append
    ((otherwise.inside (·.declareAll positive.declares)).cons (.branch negative)
      (·.declareAll positive.declares) nothingElse fun _ => rfl))

theorem numbered_while {condition : Expr} {body : Stmt}
    (h : Numbered (Places.ofExpr condition) first middle)
    (round : Numbered (Places.ofStmt body) middle next) (nothing : body.declares = [])
    : Numbered (Places.ofStmt (.while condition body)) first next :=
  (h.append (round.cons (.branch body) id nothing fun _ => rfl)).inside fun around =>
    around.inBody around.setting.body (around.setting.loops + 1)

/-- An expression that may be missing. -/
theorem numbered_optional {value : Option Expr}
    (h : orNothing first (fun value next => Numbered (Places.ofExpr value) first next) value next)
    : Numbered (fun around => value.elim [] (Places.ofExpr · around)) first next := by
  cases value with
  | none =>
      cases h
      exact .nil _
  | some value => exact h

/-- A `for` loop is numbered as its parts. The increment is read before the body and listed
after it.
-/
theorem numbered_for {initializer : Option Stmt} {condition increment : Option Expr} {body : Stmt}
    {last limit : Nat}
    (start : Numbered (fun around => initializer.elim [] (Places.ofStmt · around)) first middle)
    (test : Numbered (fun around => condition.elim [] (Places.ofExpr · around)) middle next)
    (step : Numbered (fun around => increment.elim [] (Places.ofExpr · around)) next last)
    (inside : Numbered (Places.ofStmt body) last limit) (nothing : body.declares = [])
    : Numbered (Places.ofStmt (.ofFor initializer condition increment body)) first limit
      ∧ (Stmt.ofFor initializer condition increment body).declares = [] := by
  have round
      : Numbered (Places.ofStmt (body.forRound increment)) next limit
        ∧ (body.forRound increment).declares = [] := by
    cases increment with
    | none => exact ⟨inside.weaken step.le, nothing⟩
    | some value =>
        have after := (step.inside (·.declareAll body.declares)).append (.nil last)
        exact ⟨(after.append_swap inside).inside (·.enter (.block [body, .expression value]) []),
          rfl⟩
  have loop
      : Numbered
          (Places.ofStmt
            (.while (condition.getD (.literal (.bool true))) (body.forRound increment)))
          middle limit := by
    cases condition with
    | none => exact numbered_while (.nil middle) (round.1.weaken test.le) round.2
    | some value => exact numbered_while test round.1 round.2
  cases initializer with
  | none => exact ⟨loop.weaken start.le, round.2⟩
  | some stmt =>
      have listed := start.append ((loop.append (.nil limit)).inside (·.declareAll stmt.declares))
      exact ⟨listed.inside (·.enter (.block [stmt, _]) []), rfl⟩

theorem yields_breakStatement (keyword : Token) (first : Nat)
    : Yields first (breakStatement keyword) fun stmt next =>
        Numbered (Places.ofStmt stmt) first next ∧ stmt.declares = [] := by
  refine .look (yields_expectMark first _ _) fun _ => .pure ⟨?_, rfl⟩
  exact (Numbered.nil first).cons (.break keyword) id trivial fun _ => rfl

-----------------------------------------------------------------------------------------
-- The rules of the grammar
-----------------------------------------------------------------------------------------

mutual

/-- A declaration is numbered, by recursion on the budget along all rules. -/
theorem yields_declaration (budget first : Nat)
    : Yields first (declaration budget) fun stmt next =>
        Numbered (Places.ofStmt stmt) first next := by
  cases budget with
  | zero => exact .fail
  | succ budget =>
      unfold declaration
      refine .synchronized (.look (yields_accept first _) fun isClass => ?_)
      split
      · exact yields_classDeclaration budget first
      refine .look (yields_sees first _) fun isFun => ?_
      refine .look (yields_seesSecond first _) fun isNamed => ?_
      split
      · refine .look (yields_skip first) fun _ => ?_
        refine .bind (yields_function budget first) fun function next _ reached => .pure ?_
        obtain ⟨⟨name, named, free⟩, numbered⟩ := reached
        exact numbered_named named free numbered
      refine .look (yields_accept first _) fun isVar => ?_
      split
      · exact yields_varDeclaration budget first
      · exact (yields_statement budget first).mono fun stmt next _ reached => reached.1
termination_by budget
decreasing_by all_goals omega

theorem yields_classDeclaration (budget first : Nat)
    : Yields first (classDeclaration budget) fun stmt next =>
        Numbered (Places.ofStmt stmt) first next := by
  cases budget with
  | zero => exact .fail
  | succ budget =>
      unfold classDeclaration
      refine .take (yields_expectName first _) fun name free => ?_
      refine .bind (yields_superclass first) fun clause middle _ numbered => ?_
      refine .look (yields_expectMark middle _ _) fun _ => ?_
      refine .bind (yields_members budget middle) fun members next _ inside => ?_
      refine .look (yields_expectMark next _ _) fun _ => .pure ?_
      exact numbered_class free (numbered name) inside
termination_by budget
decreasing_by all_goals omega

theorem yields_members (budget first : Nat)
    : Yields first (members budget) fun members next => NumberedMembers members first next := by
  cases budget with
  | zero => exact .fail
  | succ budget =>
      unfold members
      refine .look (yields_bodyEnds first) fun ends => ?_
      split
      · exact .pure fun _ _ => .nil first
      refine .look (yields_accept first _) fun isStatic => ?_
      refine .bind (yields_function budget first) fun function middle _ named => ?_
      refine .bind (yields_members budget middle) fun members next _ inside => ?_
      dsimp only
      split
      · exact .pure (.consStatic named.2 inside)
      · exact .pure (.consMethod named.2 inside)
termination_by budget
decreasing_by all_goals omega

theorem yields_function (budget first : Nat)
    : Yields first (function budget) fun function next =>
        (∃ name, function.name = some name ∧ ¬ Reserved name.lexeme)
        ∧ ∀ kind, Numbered (Places.ofFunction kind function) first next := by
  cases budget with
  | zero => exact .fail
  | succ budget =>
      unfold function
      refine .take (yields_expectName first _) fun name free => ?_
      refine .look (yields_expectMark first _ _) fun _ => ?_
      refine .take (yields_parameters first) fun parameters others => ?_
      refine .look (yields_expectMark first _ _) fun _ => ?_
      refine .bind (yields_block budget first) fun body next _ inside => .pure ?_
      exact ⟨⟨name, rfl, free⟩, inside.function others⟩
termination_by budget
decreasing_by all_goals omega

theorem yields_varDeclaration (budget first : Nat)
    : Yields first (varDeclaration budget) fun stmt next =>
        Numbered (Places.ofStmt stmt) first next := by
  cases budget with
  | zero => exact .fail
  | succ budget =>
      unfold varDeclaration
      refine .take (yields_expectName first _) fun name free => ?_
      refine .bind (yields_ifAccepted _ (yields_expression budget first)) fun given next _ => ?_
      refine fun numbered => .look (yields_expectMark next _ _) fun _ => .pure ?_
      cases given with
      | none =>
          cases numbered
          exact (Numbered.nil first).cons (.declare name) id free fun _ => rfl
      | some value =>
          exact (numbered.inside (·.declare name.lexeme .unfinished)).cons (.declare name) id free
            fun _ => rfl
termination_by budget
decreasing_by all_goals omega

/-- A statement that is no declaration declares nothing around it. -/
theorem yields_statement (budget first : Nat)
    : Yields first (statement budget) fun stmt next =>
        Numbered (Places.ofStmt stmt) first next ∧ stmt.declares = [] := by
  cases budget with
  | zero => exact .fail
  | succ budget =>
      unfold statement
      refine .take (yields_peek? first) fun found _ => ?_
      cases found with
      | none => exact yields_expressionStatement budget first
      | some token =>
      dsimp only
      split
      · exact .look (yields_skip first) fun _ => yields_forStatement budget first
      · exact .look (yields_skip first) fun _ => yields_ifStatement budget first
      · exact .look (yields_skip first) fun _ => yields_whileStatement budget first
      · exact .look (yields_skip first) fun _ => yields_breakStatement token first
      · exact .look (yields_skip first) fun _ => yields_returnStatement budget token first
      · refine .look (yields_skip first) fun _ => .map (yields_block budget first) ?_
        exact fun body next numbered => ⟨numbered.inside (·.enter (.block body) []), rfl⟩
      · exact .look (yields_skip first) fun _ => yields_printStatement budget token first
      · exact yields_expressionStatement budget first
termination_by budget
decreasing_by all_goals omega

theorem yields_forStatement (budget first : Nat)
    : Yields first (forStatement budget) fun stmt next =>
        Numbered (Places.ofStmt stmt) first next ∧ stmt.declares = [] := by
  cases budget with
  | zero => exact .fail
  | succ budget =>
      unfold forStatement
      refine .look (yields_expectMark first _ _) fun _ => ?_
      refine .bind (yields_forInitializer budget first) fun initializer middle _ start => ?_
      have condition := yields_unlessMark .semicolon (yields_expression budget middle)
      refine condition.bind fun condition next _ test => ?_
      refine .look (yields_expectMark next _ _) fun _ => ?_
      have increment := yields_unlessMark .rightParen (yields_expression budget next)
      refine increment.bind fun increment last _ step => ?_
      refine .look (yields_expectMark last _ _) fun _ => ?_
      refine .bind (yields_statement budget last) fun body limit _ inside => .pure ?_
      exact numbered_for start (numbered_optional test) (numbered_optional step) inside.1
        inside.2
termination_by budget
decreasing_by all_goals omega

/-- The initializer of a `for` loop may be missing. -/
theorem yields_forInitializer (budget first : Nat)
    : Yields first (forInitializer budget) fun stmt next =>
        Numbered (fun around => stmt.elim [] (Places.ofStmt · around)) first next := by
  cases budget with
  | zero => exact .fail
  | succ budget =>
      unfold forInitializer
      refine .look (yields_accept first _) fun empty => ?_
      split
      · exact .pure (.nil first)
      refine .look (yields_accept first _) fun isVar => ?_
      split
      · exact .map (yields_varDeclaration budget first) fun stmt next numbered => numbered
      · exact .map (yields_expressionStatement budget first) fun stmt next numbered => numbered.1
termination_by budget
decreasing_by all_goals omega

theorem yields_ifStatement (budget first : Nat)
    : Yields first (ifStatement budget) fun stmt next =>
        Numbered (Places.ofStmt stmt) first next ∧ stmt.declares = [] := by
  cases budget with
  | zero => exact .fail
  | succ budget =>
      unfold ifStatement
      refine .look (yields_expectMark first _ _) fun _ => ?_
      refine .bind (yields_expression budget first) fun condition middle _ numbered => ?_
      refine .look (yields_expectMark middle _ _) fun _ => ?_
      refine .bind (yields_statement budget middle) fun positive next _ taken => ?_
      refine .bind (yields_ifAccepted _ (yields_statement budget next)) fun negative last _ => ?_
      refine fun otherwise => .pure ?_
      cases negative with
      | none =>
          cases otherwise
          exact ⟨numbered_if numbered taken.1 taken.2, taken.2⟩
      | some negative =>
          refine ⟨numbered_ifElse numbered taken.1 taken.2 otherwise.1 otherwise.2, ?_⟩
          rw [Stmt.declares, taken.2, otherwise.2, List.nil_append]
termination_by budget
decreasing_by all_goals omega

theorem yields_whileStatement (budget first : Nat)
    : Yields first (whileStatement budget) fun stmt next =>
        Numbered (Places.ofStmt stmt) first next ∧ stmt.declares = [] := by
  cases budget with
  | zero => exact .fail
  | succ budget =>
      unfold whileStatement
      refine .look (yields_expectMark first _ _) fun _ => ?_
      refine .bind (yields_expression budget first) fun condition middle _ numbered => ?_
      refine .look (yields_expectMark middle _ _) fun _ => ?_
      refine .bind (yields_statement budget middle) fun body next _ round => .pure ?_
      exact ⟨numbered_while numbered round.1 round.2, by rw [Stmt.declares, round.2]⟩
termination_by budget
decreasing_by all_goals omega

theorem yields_returnStatement (budget : Nat) (keyword : Token) (first : Nat)
    : Yields first (returnStatement budget keyword) fun stmt next =>
        Numbered (Places.ofStmt stmt) first next ∧ stmt.declares = [] := by
  cases budget with
  | zero => exact .fail
  | succ budget =>
      unfold returnStatement
      refine .bind (yields_unlessMark _ (yields_expression budget first)) fun value next _ => ?_
      refine fun numbered => .look (yields_expectMark next _ _) fun _ => .pure ⟨?_, ?_⟩
      · cases value with
        | none =>
            cases numbered
            exact (Numbered.nil first).cons (.return keyword false) id trivial fun _ => rfl
        | some value => exact numbered.cons (.return keyword true) id trivial fun _ => rfl
      · cases value <;> rfl
termination_by budget
decreasing_by all_goals omega

theorem yields_printStatement (budget : Nat) (keyword : Token) (first : Nat)
    : Yields first (printStatement budget keyword) fun stmt next =>
        Numbered (Places.ofStmt stmt) first next ∧ stmt.declares = [] := by
  cases budget with
  | zero => exact .fail
  | succ budget =>
      unfold printStatement
      refine .bind (yields_expression budget first) fun value next _ numbered => ?_
      exact .look (yields_expectMark next _ _) fun _ => .pure ⟨numbered, rfl⟩
termination_by budget
decreasing_by all_goals omega

theorem yields_expressionStatement (budget first : Nat)
    : Yields first (expressionStatement budget) fun stmt next =>
        Numbered (Places.ofStmt stmt) first next ∧ stmt.declares = [] := by
  cases budget with
  | zero => exact .fail
  | succ budget =>
      unfold expressionStatement
      refine .bind (yields_expression budget first) fun value next _ numbered => ?_
      exact .look (yields_expectMark next _ _) fun _ => .pure ⟨numbered, rfl⟩
termination_by budget
decreasing_by all_goals omega

theorem yields_block (budget first : Nat)
    : Yields first (block budget) fun stmts next =>
        Numbered (Places.ofStmts stmts) first next := by
  cases budget with
  | zero => exact .fail
  | succ budget =>
      unfold block
      refine .look (yields_bodyEnds first) fun ends => ?_
      split
      · exact .look (yields_expectMark first _ _) fun _ => .pure (.nil first)
      refine .bind (yields_declaration budget first) fun stmt middle _ numbered => ?_
      refine .bind (yields_block budget middle) fun stmts next _ rest => .pure ?_
      exact numbered.append (rest.inside (·.declareAll stmt.declares))
termination_by budget
decreasing_by all_goals omega

theorem yields_expression (budget first : Nat)
    : Yields first (expression budget) fun expr next =>
        Numbered (Places.ofExpr expr) first next := by
  cases budget with
  | zero => exact .fail
  | succ budget =>
      unfold expression
      refine .bind (yields_conditional budget first) fun target middle _ numbered => ?_
      refine .take (yields_take? middle _) fun equals _ => ?_
      split
      · exact .pure numbered
      refine .bind (yields_expression budget middle) fun value next _ inside => ?_
      split
      · next read =>
          -- the number of the occurrence that was read is given up
          have free := numbered.proper .top _ (List.mem_singleton.2 rfl)
          refine .bind (yields_occurrence next read.token) fun written last _ reached => .pure ?_
          obtain ⟨rfl, rfl⟩ := reached
          exact (inside.append (.use next free)).weaken numbered.le
      · exact .pure (numbered.append_swap inside)
      · exact .failAt
termination_by budget
decreasing_by all_goals omega

theorem yields_conditional (budget first : Nat)
    : Yields first (conditional budget) fun expr next =>
        Numbered (Places.ofExpr expr) first next := by
  cases budget with
  | zero => exact .fail
  | succ budget =>
      unfold conditional
      refine .bind (yields_chain budget .or first) fun condition middle _ numbered => ?_
      refine .look (yields_accept middle _) fun isConditional => ?_
      split
      · refine .bind (yields_expression budget middle) fun positive next _ taken => ?_
        refine .look (yields_expectMark next _ _) fun _ => ?_
        refine .bind (yields_conditional budget next) fun negative last _ otherwise => .pure ?_
        exact numbered.append (taken.append otherwise)
      · exact .pure numbered
termination_by budget
decreasing_by all_goals omega

theorem yields_chain (budget : Nat) (tier : Tier) (first : Nat)
    : Yields first (chain budget tier) fun expr next =>
        Numbered (Places.ofExpr expr) first next := by
  cases budget with
  | zero => exact .fail
  | succ budget =>
      unfold chain
      refine .bind (yields_operand budget tier first) fun left middle _ numbered => ?_
      exact yields_chainFrom budget tier left numbered
termination_by budget
decreasing_by all_goals omega

theorem yields_chainFrom (budget : Nat) (tier : Tier) (left : Expr) {first middle : Nat}
    (numbered : Numbered (Places.ofExpr left) first middle)
    : Yields middle (chainFrom budget tier left) fun expr next =>
        Numbered (Places.ofExpr expr) first next := by
  cases budget with
  | zero => exact .fail
  | succ budget =>
      unfold chainFrom
      refine .take (yields_take? middle _) fun operator _ => ?_
      split
      · exact .pure numbered
      refine .bind (yields_operand budget tier middle) fun right next _ inside => ?_
      refine yields_chainFrom budget tier _ ?_
      have joined := numbered.append inside
      cases tier <;> exact joined
termination_by budget
decreasing_by all_goals omega

theorem yields_operand (budget : Nat) (tier : Tier) (first : Nat)
    : Yields first (operand budget tier) fun expr next =>
        Numbered (Places.ofExpr expr) first next := by
  cases budget with
  | zero => exact .fail
  | succ budget =>
      unfold operand
      split
      · exact yields_chain budget _ first
      · exact yields_unary budget first
termination_by budget
decreasing_by all_goals omega

theorem yields_unary (budget first : Nat)
    : Yields first (unary budget) fun expr next =>
        Numbered (Places.ofExpr expr) first next := by
  cases budget with
  | zero => exact .fail
  | succ budget =>
      unfold unary
      refine .take (yields_take? first _) fun operator _ => ?_
      split
      · exact .bind (yields_unary budget first) fun operand next _ numbered => .pure numbered
      · refine .bind (yields_primary budget first) fun callee middle _ numbered => ?_
        exact yields_calls budget callee numbered
termination_by budget
decreasing_by all_goals omega

theorem yields_calls (budget : Nat) (callee : Expr) {first middle : Nat}
    (numbered : Numbered (Places.ofExpr callee) first middle)
    : Yields middle (calls budget callee) fun expr next =>
        Numbered (Places.ofExpr expr) first next := by
  cases budget with
  | zero => exact .fail
  | succ budget =>
      unfold calls
      refine .look (yields_accept middle _) fun isCall => ?_
      split
      · refine .bind (yields_unlessMark _ (yields_arguments budget maxArity middle))
          fun given next _ inside => ?_
        refine .look (yields_expectMark next _ _) fun closing => ?_
        refine yields_calls budget _ (numbered.append ?_)
        cases given with
        | none =>
            cases inside
            exact .nil middle
        | some given => exact inside
      refine .look (yields_accept middle _) fun isGet => ?_
      split
      · refine .take (yields_expectName middle _) fun property _ => ?_
        exact yields_calls budget (.get callee property) numbered
      · exact .pure numbered
termination_by budget
decreasing_by all_goals omega

theorem yields_arguments (budget room first : Nat)
    : Yields first (arguments budget room) fun exprs next =>
        Numbered (Places.ofExprs exprs) first next := by
  cases budget with
  | zero => exact .fail
  | succ budget =>
      cases room with
      | zero => exact .fail
      | succ room =>
          unfold arguments
          refine .bind (yields_expression budget first) fun expr middle _ numbered => ?_
          refine .look (yields_accept middle _) fun more => ?_
          split
          · refine .bind (yields_arguments budget room middle) fun exprs next _ rest => .pure ?_
            exact numbered.append rest
          · exact .pure (numbered.append (.nil middle))
termination_by budget
decreasing_by all_goals omega

theorem yields_primary (budget first : Nat)
    : Yields first (primary budget) fun expr next =>
        Numbered (Places.ofExpr expr) first next := by
  cases budget with
  | zero => exact .fail
  | succ budget =>
      unfold primary
      refine .take (yields_peek? first) fun found spelled => ?_
      cases found with
      | none => exact .fail
      | some token =>
      have spelled := spelled token rfl
      dsimp only
      split
      · exact .look (yields_skip first) fun _ => .pure (.nil first)
      · exact .look (yields_skip first) fun _ => .pure (.nil first)
      · exact .look (yields_skip first) fun _ => .pure (.nil first)
      · exact .look (yields_skip first) fun _ => .pure (.nil first)
      · exact .look (yields_skip first) fun _ => .pure (.nil first)
      · next kind =>
          refine .look (yields_skip first) fun _ => ?_
          refine .bind (yields_occurrence first token) fun place next _ reached => .pure ?_
          obtain ⟨rfl, rfl⟩ := reached
          exact .use first (spelled.this kind)
      · next kind =>
          refine .look (yields_skip first) fun _ => ?_
          refine .look (yields_expectMark first _ _) fun _ => ?_
          refine .take (yields_expectName first _) fun method _ => ?_
          refine .bind (yields_occurrence first token) fun place next _ reached => .pure ?_
          obtain ⟨rfl, rfl⟩ := reached
          exact .use first (spelled.super kind)
      · next kind =>
          refine .look (yields_skip first) fun _ => ?_
          refine .bind (yields_occurrence first token) fun place next _ reached => .pure ?_
          obtain ⟨rfl, rfl⟩ := reached
          exact .use first (spelled.name kind)
      · exact .look (yields_skip first) fun _ => yields_lambda budget token first
      · refine .look (yields_skip first) fun _ => ?_
        refine .bind (yields_expression budget first) fun inner next _ numbered => ?_
        exact .look (yields_expectMark next _ _) fun _ => .pure numbered
      · exact .fail
termination_by budget
decreasing_by all_goals omega

theorem yields_lambda (budget : Nat) (keyword : Token) (first : Nat)
    : Yields first (lambda budget keyword) fun expr next =>
        Numbered (Places.ofExpr expr) first next := by
  cases budget with
  | zero => exact .fail
  | succ budget =>
      unfold lambda
      refine .look (yields_expectMark first _ _) fun _ => ?_
      refine .take (yields_parameters first) fun parameters free => ?_
      refine .look (yields_expectMark first _ _) fun _ => ?_
      refine .bind (yields_block budget first) fun body next _ numbered => .pure ?_
      exact numbered.function free .function
termination_by budget
decreasing_by all_goals omega

end

-----------------------------------------------------------------------------------------
-- Whole sources
-----------------------------------------------------------------------------------------

/-- Declarations count on, and are numbered if none of them has an error. By induction over the
budget; a declaration with an error takes numbers too.
-/
theorem declarations_numbered (budget : Nat) (cursor : Cursor)
    (spelled : ∀ token ∈ cursor.ahead, token.Spelled)
    : cursor.nextId ≤ (declarations budget cursor).2.2.nextId
      ∧ ((declarations budget cursor).2.1 = []
        → Numbered (Places.ofStmts (declarations budget cursor).1) cursor.nextId
            (declarations budget cursor).2.2.nextId) := by
  induction budget generalizing cursor with
  | zero => exact ⟨Nat.le.refl, fun _ => .nil _⟩
  | succ budget ih =>
      unfold declarations
      split
      · exact ⟨Nat.le.refl, fun _ => .nil _⟩
      have read := yields_declaration budget cursor.nextId cursor rfl spelled
      split
      · next stmt after ran =>
          rw [ran] at read
          obtain ⟨spelled, _, numbered⟩ := read
          obtain ⟨le, rest⟩ := ih after spelled
          refine ⟨Nat.le_trans numbered.le le, fun none => ?_⟩
          exact numbered.append ((rest none).inside (·.declareAll stmt.declares))
      · next error after ran =>
          rw [ran] at read
          obtain ⟨spelled, le⟩ := read
          exact ⟨Nat.le_trans le (ih after spelled).1, nofun⟩

end Parser

/-- A source that was read as a program is numbered from the first number on. -/
theorem Program.parse_numbered (source : String) (first : Nat)
    : first ≤ (Program.parse (Scan.ofText source).tokens (Scan.ofText source).stop first).2
      ∧ ∀ program next,
          Program.parse (Scan.ofText source).tokens (Scan.ofText source).stop first
            = (.ok program, next)
          → Numbered (Places.ofStmts program) first next := by
  have read := Parser.declarations_numbered
    (Parser.budget ⟨(Scan.ofText source).tokens, (Scan.ofText source).stop, first⟩)
    ⟨(Scan.ofText source).tokens, (Scan.ofText source).stop, first⟩ (Scan.spelled_tokens source)
  refine ⟨read.1, fun program next parsed => ?_⟩
  unfold Program.parse at parsed
  dsimp only at parsed
  split at parsed
  · next none =>
      cases parsed
      exact read.2 (List.isEmpty_iff.1 none)
  · cases parsed

/-- A source that was read as an expression is numbered from the first number on. -/
theorem Expr.parse?_numbered (source : String) (first : Nat)
    : first ≤ (Expr.parse? (Scan.ofText source).tokens (Scan.ofText source).stop first).2
      ∧ ∀ expr next,
          Expr.parse? (Scan.ofText source).tokens (Scan.ofText source).stop first
            = (some expr, next)
          → Numbered (Places.ofExpr expr) first next := by
  have read := Parser.yields_expression
    (Parser.budget ⟨(Scan.ofText source).tokens, (Scan.ofText source).stop, first⟩) first
    ⟨(Scan.ofText source).tokens, (Scan.ofText source).stop, first⟩ rfl
    (Scan.spelled_tokens source)
  unfold Expr.parse?
  dsimp only
  split
  · next expr after ran =>
      rw [ran] at read
      refine ⟨read.2.1, fun other next parsed => ?_⟩
      split at parsed
      · cases parsed
        exact read.2.2
      · cases parsed
  · next error after ran =>
      rw [ran] at read
      exact ⟨read.2, nofun⟩

end Lox
