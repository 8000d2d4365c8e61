import Lox.Proofs.Syntax.Derivation

/-! Where an `else` belongs does not decide what is derived. Tokens that the rules derive with any
attachment of `else` are derived with the nearest attachment too, from another tree: an `else` that
was given to an `if` further out moves to the innermost one that has none.
-/

namespace Lox

namespace Grammar

/-- An `else` and its statement can be given to a statement before them that ends in an `if`. -/
def Nonterminal.Attaches :
    (symbol : Nonterminal) → List Token → symbol.Tree → List Token → Prop
  | .statement true, tokens, _, rest =>
    ∀ (otherwise : Token) (next : List Token) (unmatched : Bool) (negative : Stmt)
      (last : List Token),
      rest = otherwise :: next → otherwise.kind = .keyword .else
      → Derives .nearest (.statement unmatched) next negative last
      → ∃ ends stmt, Derives .nearest (.statement ends) tokens stmt last
  | _, _, _, _ => True

/-- The innermost `if` takes the `else`. By induction on the derivation, down the last parts of
statements.
-/
theorem Derives.attaches {symbol : Nonterminal} {tokens rest : List Token} {tree : symbol.Tree}
    (h : Derives .nearest symbol tokens tree rest)
    : symbol.Attaches tokens tree rest := by
  induction h with
  | @«for» unmatched _ _ _ _ _ _ _ _ _ _ _ _ _ keyword opened start test ended step closed _ _ _ _
      body =>
      cases unmatched with
      | false => trivial
      | true =>
          intro otherwise next _ negative last same keywordElse left
          obtain ⟨ends, stmt, attached⟩ := body otherwise next _ negative last same keywordElse left
          exact ⟨ends, _, .for keyword opened start test ended step closed attached⟩
  | @«if» unmatched _ _ _ _ _ _ _ _ keyword opened test closed taken _ inside =>
      intro otherwise next _ negative last same keywordElse left
      cases unmatched with
      | false =>
          subst same
          exact ⟨_, _, .ifElse keyword opened test closed taken (fun _ => rfl) keywordElse left⟩
      | true =>
          obtain ⟨ends, stmt, attached⟩ :=
            inside otherwise next _ negative last same keywordElse left
          exact ⟨true, _, .if keyword opened test closed attached⟩
  | @ifElse _ unmatched _ _ _ _ _ _ _ _ _ _ _ keyword opened test closed taken nearest keywordThen _
      _ _ inside =>
      cases unmatched with
      | false => trivial
      | true =>
          intro otherwise next _ negative last same keywordElse left
          obtain ⟨ends, stmt, attached⟩ :=
            inside otherwise next _ negative last same keywordElse left
          exact ⟨ends, _,
            .ifElse keyword opened test closed taken nearest keywordThen attached⟩
  | @«while» unmatched _ _ _ _ _ _ _ _ keyword opened test closed _ _ body =>
      cases unmatched with
      | false => trivial
      | true =>
          intro otherwise next _ negative last same keywordElse left
          obtain ⟨ends, stmt, attached⟩ := body otherwise next _ negative last same keywordElse left
          exact ⟨ends, _, .while keyword opened test closed attached⟩
  | _ => trivial

/-- The tokens are derived with the nearest attachment, from some tree; from as many arguments as
there are, since their number is limited.
-/
def Nonterminal.Nearest :
    (symbol : Nonterminal) → List Token → symbol.Tree → List Token → Prop
  | .statement _, tokens, _, rest =>
    ∃ unmatched stmt, Derives .nearest (.statement unmatched) tokens stmt rest
  | .arguments, tokens, exprs, rest =>
    ∃ others : List Expr,
      others.length = exprs.length ∧ Derives .nearest .arguments tokens others rest
  | symbol, tokens, _, rest => ∃ tree, Derives .nearest symbol tokens tree rest

namespace Nonterminal.Nearest

variable {ends unmatched : Bool} {word opening closing : Token}
  {tokens middle next rest : List Token}

-----------------------------------------------------------------------------------------
-- Rules with several parts
-----------------------------------------------------------------------------------------

theorem «for» {semicolon : Token} {start : Option Stmt} {test step : Option Expr} {body : Stmt}
    {last : List Token} (keyword : word.kind = .keyword .for)
    (opened : opening.kind = .mark .leftParen)
    (starts : Nearest .forInitializer tokens start middle)
    (tests : Nearest .optional middle test (semicolon :: next))
    (ended : semicolon.kind = .mark .semicolon)
    (steps : Nearest .optional next step (closing :: last))
    (closed : closing.kind = .mark .rightParen)
    (repeats : Nearest (.statement unmatched) last body rest)
    : Nearest (.statement unmatched) (word :: opening :: tokens)
        (whileForm start test step body) rest := by
  obtain ⟨_, starts⟩ := starts
  obtain ⟨_, tests⟩ := tests
  obtain ⟨_, steps⟩ := steps
  obtain ⟨_, _, repeats⟩ := repeats
  exact ⟨_, _, .for keyword opened starts tests ended steps closed repeats⟩

/-- An `else` goes to the statement before it if that ends in an `if`, and otherwise to the `if` that
it was given to.
-/
theorem ifElse {otherwise : Token} {condition : Expr} {positive negative : Stmt}
    (keyword : word.kind = .keyword .if) (opened : opening.kind = .mark .leftParen)
    (test : Nearest .expression tokens condition (closing :: middle))
    (closed : closing.kind = .mark .rightParen)
    (taken : Nearest (.statement ends) middle positive (otherwise :: next))
    (keywordElse : otherwise.kind = .keyword .else)
    (left : Nearest (.statement unmatched) next negative rest)
    : Nearest (.statement unmatched) (word :: opening :: tokens)
        (.if condition positive (some negative)) rest := by
  obtain ⟨_, test⟩ := test
  obtain ⟨ends, _, taken⟩ := taken
  obtain ⟨_, _, left⟩ := left
  cases ends with
  | false =>
      exact ⟨_, _, .ifElse keyword opened test closed taken (fun _ => rfl) keywordElse left⟩
  | true =>
      obtain ⟨_, _, attached⟩ := taken.attaches _ _ _ _ _ rfl keywordElse left
      exact ⟨_, _, .if keyword opened test closed attached⟩

theorem conditional {question colon : Token} {condition positive negative : Expr}
    (test : Nearest (.chain .or) tokens condition (question :: middle))
    (asked : question.kind = .mark .question)
    (taken : Nearest .expression middle positive (colon :: next))
    (separated : colon.kind = .mark .colon) (left : Nearest .ternary next negative rest)
    : Nearest .ternary tokens (.conditional condition positive negative) rest := by
  obtain ⟨_, test⟩ := test
  obtain ⟨_, taken⟩ := taken
  obtain ⟨_, left⟩ := left
  exact ⟨_, .conditional test asked taken separated left⟩

/-- The other arguments are as few. -/
theorem call {callee : Expr} {exprs : List Expr}
    (called : Nearest .call tokens callee (opening :: middle))
    (opened : opening.kind = .mark .leftParen)
    (given : Nearest .arguments middle exprs (closing :: rest)) (few : exprs.length ≤ 255)
    (closed : closing.kind = .mark .rightParen)
    : Nearest .call tokens (.call callee closing exprs) rest := by
  obtain ⟨_, called⟩ := called
  obtain ⟨_, same, given⟩ := given
  exact ⟨_, .call called opened given (same ▸ few) closed⟩

theorem moreArguments {comma : Token} {expr : Expr} {exprs : List Expr}
    (first : Nearest .expression tokens expr (comma :: middle))
    (separated : comma.kind = .mark .comma) (others : Nearest .arguments middle exprs rest)
    : Nearest .arguments tokens (expr :: exprs) rest := by
  obtain ⟨expr, first⟩ := first
  obtain ⟨exprs, same, others⟩ := others
  exact ⟨expr :: exprs, congrArg Nat.succ same, .moreArguments first separated others⟩

end Nonterminal.Nearest

/-- What is derived is derived with the nearest attachment. By induction on the derivation; an
`else` after a statement that ends in an `if` is attached there.
-/
theorem Derives.nearest {attachment : Attachment} {symbol : Nonterminal} {tokens rest : List Token}
    {tree : symbol.Tree} (h : Derives attachment symbol tokens tree rest)
    : symbol.Nearest tokens tree rest := by
  induction h with
  | noDeclaration => exact ⟨_, .noDeclaration⟩
  | moreDeclarations _ _ first others =>
      obtain ⟨_, first⟩ := first
      obtain ⟨_, others⟩ := others
      exact ⟨_, .moreDeclarations first others⟩
  | «class» keyword named clause opened _ closed members =>
      obtain ⟨⟨_, _⟩, members⟩ := members
      exact ⟨_, .class keyword named clause opened members closed⟩
  | named keyword _ declared => exact declared.imp' _ fun _ => .named keyword
  | var _ declared => exact declared.imp' _ fun _ => .var
  | statement _ stated =>
      obtain ⟨_, _, stated⟩ := stated
      exact ⟨_, .statement stated⟩
  | noMember => exact ⟨_, .noMember⟩
  | staticMember keyword _ _ first others =>
      obtain ⟨_, first⟩ := first
      obtain ⟨⟨_, _⟩, others⟩ := others
      exact ⟨_, .staticMember keyword first others⟩
  | member _ _ first others =>
      obtain ⟨_, first⟩ := first
      obtain ⟨⟨_, _⟩, others⟩ := others
      exact ⟨_, .member first others⟩
  | function named listed _ body => exact body.imp' _ fun _ => .function named listed
  | uninitialized keyword named ended => exact ⟨_, .uninitialized keyword named ended⟩
  | initialized keyword named sign _ ended initializer =>
      exact initializer.imp' _ fun _ value => .initialized keyword named sign value ended
  | block opened _ closed body => exact body.imp' _ fun _ body => .block opened body closed
  | expressionStatement _ stated =>
      obtain ⟨_, stated⟩ := stated
      exact ⟨_, _, .expressionStatement stated⟩
  | «for» keyword opened _ _ ended _ closed _ start test step body =>
      exact .for keyword opened start test ended step closed body
  | «if» keyword opened _ closed _ test taken =>
      obtain ⟨_, test⟩ := test
      obtain ⟨_, _, taken⟩ := taken
      exact ⟨_, _, .if keyword opened test closed taken⟩
  | ifElse keyword opened _ closed _ _ keywordElse _ test taken left =>
      exact .ifElse keyword opened test closed taken keywordElse left
  | print keyword _ ended value =>
      obtain ⟨_, value⟩ := value
      exact ⟨_, _, .print keyword value ended⟩
  | «return» keyword _ ended value =>
      obtain ⟨_, value⟩ := value
      exact ⟨_, _, .return keyword value ended⟩
  | «while» keyword opened _ closed _ test body =>
      obtain ⟨_, test⟩ := test
      obtain ⟨_, _, body⟩ := body
      exact ⟨_, _, .while keyword opened test closed body⟩
  | «break» keyword ended => exact ⟨_, _, .break keyword ended⟩
  | blockStatement _ body =>
      obtain ⟨_, body⟩ := body
      exact ⟨_, _, .blockStatement body⟩
  | exprStmt _ ended value => exact value.imp' _ fun _ value => .exprStmt value ended
  | noInitializer ended => exact ⟨_, .noInitializer ended⟩
  | initializerVar _ declared => exact declared.imp' _ fun _ => .initializerVar
  | initializerExpr _ stated => exact stated.imp' _ fun _ => .initializerExpr
  | absent => exact ⟨_, .absent⟩
  | present _ value => exact value.imp' _ fun _ => .present
  | assign named sign _ value => exact value.imp' _ fun _ => .assign named sign
  | set _ dotted named sign _ object value =>
      obtain ⟨_, object⟩ := object
      obtain ⟨_, value⟩ := value
      exact ⟨_, .set object dotted named sign value⟩
  | expression _ value => exact value.imp' _ fun _ => .expression
  | ternary _ value => exact value.imp' _ fun _ => .ternary
  | conditional _ asked _ separated _ test taken left =>
      exact .conditional test asked taken separated left
  | chain _ value => exact value.imp' _ fun _ => .chain
  | logical _ sign _ before operand =>
      obtain ⟨_, before⟩ := before
      obtain ⟨_, operand⟩ := operand
      exact ⟨_, .logical before sign operand⟩
  | binary _ sign _ before operand =>
      obtain ⟨_, before⟩ := before
      obtain ⟨_, operand⟩ := operand
      exact ⟨_, .binary before sign operand⟩
  | operand binds _ value => exact value.imp' _ fun _ => .operand binds
  | factor _ value => exact value.imp' _ fun _ => .factor
  | unary sign _ operand => exact operand.imp' _ fun _ => .unary sign
  | unaryCall _ value => exact value.imp' _ fun _ => .unaryCall
  | primary _ value => exact value.imp' _ fun _ => .primary
  | callNone _ opened closed callee =>
      exact callee.imp' _ fun _ callee => .callNone callee opened closed
  | call _ opened _ few closed callee given => exact .call callee opened given few closed
  | get _ dotted named object => exact object.imp' _ fun _ object => .get object dotted named
  | argument _ value =>
      obtain ⟨expr, value⟩ := value
      exact ⟨[expr], rfl, .argument value⟩
  | moreArguments _ separated _ first others => exact .moreArguments first separated others
  | literal constant => exact ⟨_, .literal constant⟩
  | this keyword => exact ⟨_, .this keyword⟩
  | name named => exact ⟨_, .name named⟩
  | grouping opened _ closed inner =>
      exact inner.imp' _ fun _ inner => .grouping opened inner closed
  | super keyword dotted named => exact ⟨_, .super keyword dotted named⟩
  | lambda keyword listed _ body => exact body.imp' _ fun _ => .lambda keyword listed

end Grammar

end Lox
