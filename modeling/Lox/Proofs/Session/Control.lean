import Lox.Proofs.Evaluation.Control
import Lox.Proofs.Evaluation.Leads
import Lox.Proofs.Scanning.Steps
import Lox.Proofs.Session.Stable

/-! Control flow across the requests of a session. All code that a session has stored is legal,
however the evaluations before ended; so no `break` or `return` leaves the statement, the
function or the initializer that it belongs to.
-/

namespace Lox

/-- An ending is a good result or a fault, unless the budget did not suffice for one. -/
def Ending.Only {α : Type} (good : α → Prop) : Ending α → Prop
  | .ok value _ => good value
  | .error (.fault _) _ | .error .budget _ => True
  | .error .beyondChain _ => False

theorem Ending.Only.mono {α : Type} {good weaker : α → Prop} {ending : Ending α}
    (h : ending.Only good) (weaken : ∀ value, good value → weaker value)
    : ending.Only weaker := by
  cases ending with
  | ok value after => exact weaken value h
  | error interruption after => cases interruption <;> exact h

namespace Session

variable {config : Config} {sink : Sink} {clock : Nat → Float} {requests : List Request}
  {request : Request} {session opened : Session} {task : Task} {moment : Moment}

-----------------------------------------------------------------------------------------
-- Legal code in a session
-----------------------------------------------------------------------------------------

/-- At the start there are native functions only. -/
theorem legal_start (config : Config) (sink : Sink) (clock : Nat → Float)
    : (start config sink clock).machine.Legal := by
  have blank
      : Machine.Legal { Machine.start config.maxDepth sink clock with store := Store.empty } :=
    ⟨nofun, nofun⟩
  refine blank.add fun name value found => ?_
  obtain ⟨callee, _, same⟩ := List.mem_map.1 (Table.mem_of_get?_ofList found)
  cases same
  trivial

/-- What begins has been read, so its operators are those of the grammar. -/
theorem Begins.grammatical (h : session.Begins request opened task) : task.Grammatical := by
  induction h with
  | run _ parsed _ => exact Program.grammatical_of_parse (Prod.ext (Prod.mk.inj parsed).1 rfl)
  | evaluate _ parsed _ => exact Expr.grammatical_of_parse? (Prod.ext (Prod.mk.inj parsed).1 rfl)
  | echo _ ih => exact ih
  | line _ _ _ ih => exact ih

/-- What begins is legal, and so it meets the contract on a machine that holds legal code. -/
theorem Begins.legal (h : session.Begins request opened task) (legal : session.machine.Legal)
    : controlContract.before .top (opened.moment task) := by
  have opens := h.opens
  have machine : opened.machine.Legal := opens.machine ▸ legal
  refine ⟨⟨machine, h.grammatical⟩, ?_⟩
  obtain ⟨program, rfl⟩ | ⟨expr, rfl⟩ := opens.whole
  · exact ((Program.lawful_places program).1 opens.lawful).2
  · exact (Expr.lawful_places expr).1 opens.lawful

/-- A machine that an evaluation leaves holds legal code. -/
theorem legal_ending (before : controlContract.before .top moment)
    : moment.ending.machine.Legal := by
  rcases (controlContract_sound.honours before).left with ⟨value, h⟩ | ⟨interruption, h⟩
  · exact h.1
  · exact h.1

/-- After any requests, a session holds legal code only. By induction over them. -/
theorem legal_takeAll (config : Config) (sink : Sink) (clock : Nat → Float)
    (requests : List Request)
    : ((start config sink clock).takeAll requests).machine.Legal := by
  induction requests using List.reverseRecOn with
  | nil => exact legal_start config sink clock
  | append_singleton requests request ih =>
      rw [takeAll_append_singleton]
      rcases answers_take ((start config sink clock).takeAll requests) request with
        ⟨opened, task, begins, continues, _⟩ | continues
      · exact (legal_ending (begins.legal ih)).alike continues.alike
      · exact ih.alike continues.alike

-----------------------------------------------------------------------------------------
-- Where control flow ends
-----------------------------------------------------------------------------------------

/-- The machine of every moment of every evaluation holds legal code, and its task is legal. -/
theorem legal_of_reaches
    (begins : ((start config sink clock).takeAll requests).Begins request opened task)
    (reaches : (opened.moment task).Reaches moment)
    : ∃ context, controlContract.before context moment :=
  controlContract_sound.reaches (begins.legal (legal_takeAll config sink clock requests)) reaches

/-- A task of legal code ends with what its context allows, or with a fault. -/
theorem only_of_reaches
    (begins : ((start config sink clock).takeAll requests).Begins request opened task)
    (reaches : (opened.moment task).Reaches moment) {context : Context}
    (legal : moment.task.Legal context)
    : moment.ending.Only (context.Allows moment.task) := by
  obtain ⟨_, machine, _⟩ := legal_of_reaches begins reaches
  obtain ⟨ghost, required⟩ := required_of_reaches begins reaches
  have closed := (start config sink clock).closed_course requests request
  have inside := (scopeContract_sound closed).honours required
  have honours := controlContract_sound.honours ⟨machine, legal⟩
  cases ended : moment.ending with
  | ok value after => exact (honours.of_ok ended).2
  | error interruption after =>
      cases interruption with
      | fault _ => trivial
      | budget => trivial
      | beyondChain => exact (inside.of_error ended).1 rfl

/-- A session that runs the initializer of a class, in which `this` is evaluated. -/
theorem exists_this_in_initializer
    : ∃ opened task distances budget closure machine less inside fewer occurrence later,
        ((start ⟨false, 255, 20⟩ .unlimited fun _ => 0).takeAll []).Begins
          (.run "class A{init(){this;return;}}A();") opened task
        ∧ (opened.moment task).Reaches ⟨distances, budget, .invoke closure [], machine⟩
        ∧ Moment.Leads ⟨distances, budget, .invoke closure [], machine⟩
            ⟨distances, less, .executeAll closure.declaration.body, inside⟩
        ∧ closure.initializes = true
        ∧ (∃ flow after,
            Moment.ending ⟨distances, less, .executeAll closure.declaration.body, inside⟩
              = .ok flow after)
        ∧ Moment.Reaches ⟨distances, less, .executeAll closure.declaration.body, inside⟩
            ⟨distances, fewer + 1, .evaluate (.this occurrence), later⟩ := by
  let closing : Token := ⟨.mark .rightParen, ")", 1⟩
  let this : Occurrence := ⟨0, .keyword .this, "this", 1⟩
  have scan
      : Scan.ofText "class A{init(){this;return;}}A();"
        = ⟨[.token ⟨.keyword .class, "class", 1⟩, .token ⟨.identifier, "A", 1⟩,
            .token ⟨.mark .leftBrace, "\x7b", 1⟩, .token ⟨.identifier, "init", 1⟩,
            .token ⟨.mark .leftParen, "(", 1⟩, .token closing,
            .token ⟨.mark .leftBrace, "\x7b", 1⟩, .token this.token,
            .token ⟨.mark .semicolon, ";", 1⟩, .token ⟨.keyword .return, "return", 1⟩,
            .token ⟨.mark .semicolon, ";", 1⟩, .token ⟨.mark .rightBrace, "\x7d", 1⟩,
            .token ⟨.mark .rightBrace, "\x7d", 1⟩, .token ⟨.identifier, "A", 1⟩,
            .token ⟨.mark .leftParen, "(", 1⟩, .token closing, .token ⟨.mark .semicolon, ";", 1⟩],
          Token.endOfInput 1⟩ := by
    rw [Scan.ofText_eq]
    rfl
  let init : FunctionDecl :=
    ⟨some ⟨.identifier, "init", 1⟩, ⟨.identifier, "init", 1⟩, [],
      [.expression (.this this), .return ⟨.keyword .return, "return", 1⟩ none]⟩
  let declaration : Stmt := .class ⟨⟨.identifier, "A", 1⟩, none, [init], []⟩
  let name : Expr := .variable ⟨1, .identifier, "A", 1⟩
  let call : Expr := .call name closing []
  let numbered : Session := ⟨⟨false, 255, 20⟩, .start 255 .unlimited fun _ => 0, .empty, 2⟩
  let opened := numbered.learn ((Distances.empty.record 0 1).record 1 0)
  have read
      : Program.parse (Scan.ofText "class A{init(){this;return;}}A();").tokens
            (Scan.ofText "class A{init(){this;return;}}A();").stop 0
          = (.ok [declaration, .expression call], 2) := by
    rw [scan]
    cbv
  have begins : Begins (start ⟨false, 255, 20⟩ .unlimited fun _ => 0)
      (.run "class A{init(){this;return;}}A();") opened
      (.executeAll [declaration, .expression call]) :=
    .run (by rw [scan]; rfl) (parseProgram_eq read) rfl
  -- the machines in order: before and after the declaration, and up to the body
  let first : Machine := .start 255 .unlimited fun _ => 0
  let definition : Class :=
    ⟨0, "A", none, Step.methodTable .globals FunctionDecl.initializes [init],
      Step.methodTable .globals (fun _ => false) []⟩
  let after : Machine :=
    { first with
      store := (first.store.define .globals "A" .nil).setSlot 0 "A" (some (.class definition))
      nextIdentity := 1 }
  let deeper : Machine := { after with callDepth := 1 }
  let made : Machine := { deeper with instances := #[⟨definition, .empty⟩] }
  let receiver : Bindings Value := Table.empty.set "this" (some (.instance 0))
  let ready : Machine := { made with store := made.store.add receiver }
  let inside : Machine :=
    { ready with environment := ⟨2, [1, 0]⟩, store := ready.store.add (.ofList []) }
  have declared
      : Moment.ending ⟨opened.distances, 19, .execute declaration, first⟩ = .ok .normal after := rfl
  have callee
      : Moment.ending ⟨opened.distances, 16, .evaluate name, after⟩
        = .ok (.class definition) after := rfl
  have given : Moment.ending ⟨opened.distances, 16, .evaluateAll [], after⟩ = .ok [] after := rfl
  have found : definition.initializer? = some ⟨init, .globals, true⟩ := rfl
  have reaches
      : (opened.moment (.executeAll [declaration, .expression call])).Reaches
          ⟨opened.distances, 14, .invoke ⟨init, ⟨1, [0]⟩, true⟩ [], ready⟩ :=
    .head (Moment.leads_rest declared) (.head Moment.leads_first (.head Moment.leads_expression
      (.head (Moment.leads_call callee given)
        (.head (Moment.leads_construct rfl (Nat.zero_lt_succ 254))
          (.single (Moment.leads_initializer found))))))
  have leads : Moment.Leads ⟨opened.distances, 14, .invoke ⟨init, ⟨1, [0]⟩, true⟩ [], ready⟩
      ⟨opened.distances, 13, .executeAll init.body, inside⟩ :=
    Moment.leads_body
  have ended
      : Moment.ending ⟨opened.distances, 13, .executeAll init.body, inside⟩
        = .ok (.return .nil) inside := rfl
  exact ⟨opened, _, _, _, _, _, _, _, _, this, inside, begins, reaches, leads, rfl, ⟨_, _, ended⟩,
    .head Moment.leads_first (.single Moment.leads_expression)⟩

/-- A session that runs the initializer of a class. -/
theorem exists_initializer_run
    : ∃ opened task distances budget closure machine less inside,
        ((start ⟨false, 255, 20⟩ .unlimited fun _ => 0).takeAll []).Begins
          (.run "class A{init(){this;return;}}A();") opened task
        ∧ (opened.moment task).Reaches ⟨distances, budget, .invoke closure [], machine⟩
        ∧ Moment.Leads ⟨distances, budget, .invoke closure [], machine⟩
            ⟨distances, less, .executeAll closure.declaration.body, inside⟩
        ∧ closure.initializes = true := by
  obtain ⟨opened, task, distances, budget, closure, machine, less, inside, _, _, _, begins, reaches,
    leads, initializes, _⟩ := exists_this_in_initializer
  exact ⟨opened, task, distances, budget, closure, machine, less, inside, begins, reaches, leads,
    initializes⟩

/-- In any evaluation of a session, a statement of the program ends normally or with a fault.
The body of a function does not end with a `break`, and that of an initializer does not end with
the return of a value other than `nil`, also if the function was made by an earlier request.
-/
theorem signals_stay_inside
    (begins : ((start config sink clock).takeAll requests).Begins request opened task)
    : (∀ program stmt distances budget machine,
        task = .executeAll program
        → stmt ∈ program
        → (opened.moment task).Reaches ⟨distances, budget, .execute stmt, machine⟩
        → (Moment.ending ⟨distances, budget, .execute stmt, machine⟩).Only (· = .normal))
      ∧ ∀ distances budget closure arguments machine less inside,
          (opened.moment task).Reaches ⟨distances, budget, .invoke closure arguments, machine⟩
          → Moment.Leads ⟨distances, budget, .invoke closure arguments, machine⟩
              ⟨distances, less, .executeAll closure.declaration.body, inside⟩
          → (Moment.ending ⟨distances, less, .executeAll closure.declaration.body, inside⟩).Only
              fun flow =>
                flow ≠ .break
                ∧ (closure.initializes = true → ∀ value, flow = .return value → value = .nil) := by
  constructor
  · rintro program stmt distances budget machine rfl member reaches
    have legal := (begins.legal (legal_takeAll config sink clock requests)).2
    have only := only_of_reaches begins reaches (Stmts.Legal.of_mem legal stmt member)
    refine only.mono fun flow permitted => ?_
    cases flow with
    | normal => rfl
    | «break» => cases permitted
    | «return» value => exact absurd rfl permitted.2.1
  · intro distances budget closure arguments machine less inside reaches leads
    obtain ⟨_, _, ⟨kind, classBody, _, legal, initializer⟩, _⟩ := legal_of_reaches begins reaches
    have only := only_of_reaches begins (reaches.tail leads) legal.body
    refine only.mono fun flow permitted => ⟨?_, ?_⟩
    · rintro rfl
      cases permitted
    · rintro initializes value rfl
      exact permitted.2.2 (initializer initializes)

/-- An initializer that runs does not end with a `break` or with the return of a value. -/
theorem signals_stay_inside_initializer
    : ∃ distances budget closure machine less inside,
        Moment.Leads ⟨distances, budget, .invoke closure [], machine⟩
          ⟨distances, less, .executeAll closure.declaration.body, inside⟩
        ∧ closure.initializes = true
        ∧ (Moment.ending ⟨distances, less, .executeAll closure.declaration.body, inside⟩).Only
            fun flow => flow ≠ .break ∧ ∀ value, flow = .return value → value = .nil := by
  obtain ⟨opened, task, distances, budget, closure, machine, less, inside, begins, reaches, leads,
    initializes⟩ := exists_initializer_run
  have only := (signals_stay_inside begins).2 _ _ _ _ _ _ _ reaches leads
  refine ⟨distances, budget, closure, machine, less, inside, leads, initializes, ?_⟩
  exact only.mono fun flow ends => ⟨ends.1, ends.2 initializes⟩

end Session
end Lox
