import Lox.Proofs.Evaluation.Numbers
import Lox.Proofs.Scoping.Renumbering

/-! Runs whose occurrences have other numbers. Only distances are looked up by numbers, so that a
run goes on in the same way when all code, that in values too, is given other numbers together with
the distances: it prints and tells the same and leaves the same tables, except for the numbers in
them.
-/

namespace Lox

-----------------------------------------------------------------------------------------
-- Plans
-----------------------------------------------------------------------------------------

/-- The task, all code in it under other numbers. -/
def Task.renumber (number : Nat → Nat) : Task → Task
  | .evaluate expr => .evaluate (expr.renumber number)
  | .evaluateAll exprs => .evaluateAll (Exprs.renumber number exprs)
  | .call callee closing arguments =>
    .call (callee.renumber number) closing (arguments.map (Value.renumber number))
  | .invoke closure arguments =>
    .invoke (closure.renumber number) (arguments.map (Value.renumber number))
  | .construct definition arguments =>
    .construct (definition.renumber number) (arguments.map (Value.renumber number))
  | .execute stmt => .execute (stmt.renumber number)
  | .executeAll stmts => .executeAll (Stmts.renumber number stmts)
  | .loop condition body => .loop (condition.renumber number) (body.renumber number)

/-- What a task gives, the code of its values under other numbers. -/
def Task.renumberResult (number : Nat → Nat)
    : (task : Task) → task.Result → (task.renumber number).Result
  | .evaluate _ => Value.renumber number
  | .evaluateAll _ => List.map (Value.renumber number)
  | .call _ _ _ => Value.renumber number
  | .invoke _ _ => Value.renumber number
  | .construct _ _ => Value.renumber number
  | .execute _ => Flow.renumber number
  | .executeAll _ => Flow.renumber number
  | .loop _ _ => Flow.renumber number

/-- Another plan does the same under other numbers. What a table is made for does not matter. -/
inductive Plan.Renumbers (number : Nat → Nat) {α β : Type} (change : α → β) :
    Plan α → Plan β → Prop
  | done (value : α) : Renumbers number change (.done value) (.done (change value))
  | step {γ δ : Type} {between : γ → δ} {first : Step γ} {other : Step δ} {next : γ → Plan α}
      {nextOther : δ → Plan β} (same : Step.Renumbers number between first other)
      (rest : ∀ value, Renumbers number change (next value) (nextOther (between value)))
    : Renumbers number change (.step first next) (.step other nextOther)
  | locate {use : Use} {occurrence : Occurrence} {next : Nat → Plan α} {nextOther : Nat → Plan β}
      (rest : ∀ address, Renumbers number change (next address) (nextOther address))
    : Renumbers number change (.act (.locate use occurrence) next)
        (.act (.locate use (occurrence.renumber number)) nextOther)
  | locateReceiver {occurrence : Occurrence} {next : Nat → Plan α} {nextOther : Nat → Plan β}
      (rest : ∀ address, Renumbers number change (next address) (nextOther address))
    : Renumbers number change (.act (.locateReceiver occurrence) next)
        (.act (.locateReceiver (occurrence.renumber number)) nextOther)
  | enter {layer layerOther : Layer} {outer : Environment} {bindings bindingsOther : Bindings Value}
      {next : Environment → Plan α} {nextOther : Environment → Plan β}
      (same : bindingsOther = bindings.renumber number)
      (rest : ∀ environment, Renumbers number change (next environment) (nextOther environment))
    : Renumbers number change (.act (.enter layer outer bindings) next)
        (.act (.enter layerOther outer bindingsOther) nextOther)
  | hand {manner : Manner} (task : Task) {next : task.Result → Plan α}
      {nextOther : (task.renumber number).Result → Plan β}
      (rest
        : ∀ value,
            Renumbers number change (next value) (nextOther (task.renumberResult number value)))
    : Renumbers number change (.hand manner task next)
        (.hand manner (task.renumber number) nextOther)

namespace Plan

variable {α β : Type} {number : Nat → Nat}

namespace Renumbers

variable {γ δ : Type} {change : α → β} {plan : Plan α} {other : Plan β}

theorem pure (value : α) : Renumbers number change (Pure.pure value) (Pure.pure (change value)) :=
  .done value

theorem lift {step : Step α} {stepOther : Step β}
    (h : Step.Renumbers number change step stepOther)
    : Renumbers number change (liftM step) (liftM stepOther) :=
  .step h .done

/-- One plan after the other. -/
theorem bind {next : α → Plan γ} {nextOther : β → Plan δ} {last : γ → δ}
    (h : Renumbers number change plan other)
    (rest : ∀ value, Renumbers number last (next value) (nextOther (change value)))
    : Renumbers number last (plan >>= next) (other >>= nextOther) := by
  induction h with
  | done value => exact rest value
  | step same _ ih => exact .step same ih
  | locate _ ih => exact .locate ih
  | locateReceiver _ ih => exact .locateReceiver ih
  | enter same _ ih => exact .enter same ih
  | hand task _ ih => exact .hand task ih

end Renumbers

variable (number)

theorem renumbers_asking (task : Task)
    : Renumbers number (task.renumberResult number) (asking task) (asking (task.renumber number)) :=
  .hand task .done

theorem renumbers_askingIn (manner : Manner) (task : Task)
    : Renumbers number (task.renumberResult number) (askingIn manner task)
        (askingIn manner (task.renumber number)) :=
  .hand task .done

theorem renumbers_evaluate (expr : Expr)
    : Renumbers number (Value.renumber number) (evaluate expr)
        (evaluate (expr.renumber number)) :=
  renumbers_asking number (.evaluate expr)

theorem renumbers_fault {change : α → β} (token : Token) (cause : FaultCause)
    : Renumbers number change (liftM (Step.fault token cause : Step α))
        (liftM (Step.fault token cause : Step β)) :=
  .lift .fault

theorem renumbers_locate (use : Use) (occurrence : Occurrence)
    : Renumbers number id (doing (.locate use occurrence))
        (doing (.locate use (occurrence.renumber number))) :=
  .locate .done

theorem renumbers_locateReceiver (occurrence : Occurrence)
    : Renumbers number id (doing (.locateReceiver occurrence))
        (doing (.locateReceiver (occurrence.renumber number))) :=
  .locateReceiver .done

theorem renumbers_enter {layer layerOther : Layer} {outer : Environment}
    {bindings bindingsOther : Bindings Value} (same : bindingsOther = bindings.renumber number)
    : Renumbers number id (doing (.enter layer outer bindings))
        (doing (.enter layerOther outer bindingsOther)) :=
  .enter same .done

/-- A table that binds one name under other numbers. -/
theorem renumber_single (name : String) (value : Value)
    : Table.empty.set name (some (value.renumber number))
      = Bindings.renumber number (Table.empty.set name (some value)) :=
  (Table.map_set (Option.map (Value.renumber number)) .empty name (some value)).symm

theorem renumbers_read (use : Use) (occurrence : Occurrence)
    : Renumbers number (Value.renumber number) (read use occurrence)
        (read use (occurrence.renumber number)) :=
  .bind (renumbers_locate number use occurrence) fun address =>
    .lift (Step.renumbers_getHere number address occurrence.token)

theorem renumbers_write (occurrence : Occurrence) (value : Value)
    : Renumbers number id (write occurrence value)
        (write (occurrence.renumber number) (value.renumber number)) :=
  .bind (renumbers_locate number .assign occurrence) fun address =>
    .lift (Step.renumbers_setSlot number address occurrence.name value)

theorem renumbers_bindMethod (method : Closure) (receiver : Value)
    : Renumbers number (Closure.renumber number) (bindMethod method receiver)
        (bindMethod (method.renumber number) (receiver.renumber number)) :=
  .bind (renumbers_enter number (renumber_single number "this" receiver)) fun environment =>
    .pure { method with environment }

theorem renumbers_boundMethod (method : Closure) (receiver : Value)
    : Renumbers number (Value.renumber number) (boundMethod method receiver)
        (boundMethod (method.renumber number) (receiver.renumber number)) :=
  .bind (renumbers_bindMethod number method receiver) fun bound =>
    .lift (Step.renumbers_functionOf number bound)

theorem renumbers_foundMethod (found : Option Closure) (receiver : Value) (name : Token)
    : Renumbers number (Value.renumber number) (foundMethod found receiver name)
        (foundMethod (found.map (Closure.renumber number)) (receiver.renumber number) name) := by
  cases found with
  | none => exact renumbers_fault number name _
  | some method => exact renumbers_boundMethod number method receiver

theorem renumbers_property (object : Value) (name : Token)
    : Renumbers number (Value.renumber number) (property object name)
        (property (object.renumber number) name) := by
  cases object with
  | «instance» address =>
      refine .bind (.lift .get) fun machine => ?_
      simp only [Machine.renumber, Value.renumber, Array.getElem?_map]
      cases machine.instances[address]? with
      | none => exact renumbers_fault number name _
      | some entry =>
          simp only [Option.map_some, Instance.renumber, Table.get?_map]
          cases entry.fields.get? name.lexeme with
          | some value => exact .pure value
          | none =>
              simp only [Option.map_none, Class.findMethod?_renumber]
              exact renumbers_foundMethod number _ (.instance address) name
  | «class» definition =>
      unfold property
      simp only [Value.renumber, Class.findStatic?_renumber]
      exact renumbers_foundMethod number _ (.class definition) name
  | nil | bool | number | string | native | function => exact renumbers_fault number name _

theorem renumbers_superMethod (occurrence : Occurrence) (method : Token)
    : Renumbers number (Value.renumber number) (superMethod occurrence method)
        (superMethod (occurrence.renumber number) method) := by
  refine .bind (renumbers_read number .super occurrence) fun value => ?_
  cases value with
  | «class» superclass =>
      refine .bind (renumbers_locateReceiver number occurrence) fun address =>
        .bind (.lift (Step.renumbers_getHere number address _)) fun receiver => ?_
      have inStatic := renumbers_foundMethod number (superclass.findStatic? method.lexeme)
        receiver method
      have inInstance := renumbers_foundMethod number (superclass.findMethod? method.lexeme)
        receiver method
      rw [← Class.findStatic?_renumber] at inStatic
      rw [← Class.findMethod?_renumber] at inInstance
      cases receiver with
      | «class» => exact inStatic
      | nil | bool | number | string | native | function | «instance» => exact inInstance
  | nil | bool | number | string | native | function | «instance» =>
      exact renumbers_fault number occurrence.token _

/-- By the forms of expressions. -/
theorem renumbers_ofExpr (expr : Expr)
    : Renumbers number (Value.renumber number) (ofExpr expr) (ofExpr (expr.renumber number)) := by
  have value := renumbers_evaluate number
  cases expr with
  | literal constant => cases constant <;> exact .pure (Value.ofLiteral _)
  | grouping inner => exact value inner
  | unary operator operand =>
      exact .bind (value operand) fun operand =>
        .lift (Step.renumbers_unary number operator operand)
  | binary operator left right =>
      exact .bind (value left) fun left => .bind (value right) fun right =>
        .lift (Step.renumbers_binary number operator left right)
  | logical operator left right =>
      refine .bind (value left) fun left => ?_
      rw [Step.decides_renumber]
      split
      · exact .pure left
      · exact value right
  | conditional condition positive negative =>
      refine .bind (value condition) fun condition => ?_
      rw [Value.truthy_renumber]
      split
      · exact value positive
      · exact value negative
  | «variable» occurrence => exact renumbers_read number .variable occurrence
  | assign target assigned =>
      exact .bind (value assigned) fun assigned =>
        .bind (renumbers_write number target assigned) fun _ => .pure assigned
  | call callee closing arguments =>
      exact .bind (value callee) fun callee =>
        .bind (renumbers_asking number (.evaluateAll arguments)) fun arguments =>
          renumbers_asking number (.call callee closing arguments)
  | get object name =>
      exact .bind (value object) fun object => renumbers_property number object name
  | set object name assigned =>
      refine .bind (value object) fun object => ?_
      cases object with
      | «instance» address =>
          exact .bind (value assigned) fun assigned =>
            .bind (.lift (Step.renumbers_setField number address name.lexeme assigned)) fun _ =>
              .pure assigned
      | nil | bool | number | string | native | function | «class» =>
          exact renumbers_fault number name _
  | this occurrence => exact renumbers_read number .this occurrence
  | super occurrence method => exact renumbers_superMethod number occurrence method
  | lambda declaration => exact .lift (Step.renumbers_functionHere number declaration)

theorem renumbers_ofExprs (exprs : List Expr)
    : Renumbers number (List.map (Value.renumber number)) (ofExprs exprs)
        (ofExprs (Exprs.renumber number exprs)) := by
  cases exprs with
  | nil => exact .pure []
  | cons first rest =>
      exact .bind (renumbers_evaluate number first) fun value =>
        .bind (renumbers_asking number (.evaluateAll rest)) fun values => .pure (value :: values)

theorem renumbers_ofCall (callee : Value) (closing : Token) (arguments : List Value)
    : Renumbers number (Value.renumber number) (ofCall callee closing arguments)
        (ofCall (callee.renumber number) closing (arguments.map (Value.renumber number))) := by
  have check {arity other : Nat} (same : other = arity)
      : Renumbers number id (liftM (checkCall closing arity arguments.length))
          (liftM (checkCall closing other (arguments.map (Value.renumber number)).length)) := by
    rw [same, List.length_map]
    exact .lift (Step.renumbers_checkCall number closing arity arguments.length)
  cases callee with
  | native callee =>
      exact .bind (check rfl) fun _ =>
        .lift (.around .deeper (Step.renumbers_callNative number callee arguments))
  | function callee =>
      exact .bind (check (callee.closure.declaration.arity_renumber number)) fun _ =>
        renumbers_askingIn number .deeper (.invoke callee.closure arguments)
  | «class» definition =>
      exact .bind (check (definition.arity_renumber number)) fun _ =>
        renumbers_askingIn number .deeper (.construct definition arguments)
  | nil | bool | number | string | «instance» => exact renumbers_fault number closing _

theorem parameterBindings_renumber (parameters : List Token) (arguments : List Value)
    : parameterBindings parameters (arguments.map (Value.renumber number))
      = (parameterBindings parameters arguments).renumber number := by
  unfold parameterBindings
  rw [Bindings.renumber, Table.map_ofList, List.zip_map_right, List.map_map, List.map_map]
  rfl

theorem renumbers_ofInvocation (closure : Closure) (arguments : List Value)
    : Renumbers number (Value.renumber number) (ofInvocation closure arguments)
        (ofInvocation (closure.renumber number) (arguments.map (Value.renumber number))) := by
  obtain ⟨⟨name, keyword, parameters, body⟩, around, initializes⟩ := closure
  refine .bind (renumbers_enter number (parameterBindings_renumber number parameters arguments))
    fun environment =>
      .bind (renumbers_askingIn number (.within environment) (.executeAll body)) fun flow => ?_
  cases initializes with
  | true => exact .lift (Step.renumbers_receiver number _)
  | false =>
      cases flow with
      | «return» value => exact .pure value
      | normal | «break» => exact .pure Value.nil

theorem renumbers_ofConstruction (definition : Class) (arguments : List Value)
    : Renumbers number (Value.renumber number) (ofConstruction definition arguments)
        (ofConstruction (definition.renumber number) (arguments.map (Value.renumber number))) := by
  refine .bind (.lift (Step.renumbers_newInstance number definition)) fun object => ?_
  rw [Class.initializer?_renumber]
  cases definition.initializer? with
  | none => exact .pure object
  | some initializer =>
      exact .bind (renumbers_bindMethod number initializer object) fun bound =>
        .bind (renumbers_asking number (.invoke bound arguments)) fun _ => .pure object

theorem renumbers_superclassOf (clause : Option Occurrence)
    : Renumbers number (Option.map (Class.renumber number)) (superclassOf clause)
        (superclassOf (clause.map (Occurrence.renumber number))) := by
  cases clause with
  | none => exact .pure none
  | some occurrence =>
      refine .bind (renumbers_read number .variable occurrence) fun value => ?_
      cases value with
      | «class» superclass => exact .pure (some superclass)
      | nil | bool | number | string | native | function | «instance» =>
          exact renumbers_fault number occurrence.token _

theorem renumbers_methodEnvironment (definition : ClassDecl) (superclass : Option Class)
    : Renumbers number id (methodEnvironment definition superclass)
        (methodEnvironment (definition.renumber number)
          (superclass.map (Class.renumber number))) := by
  refine .bind (.lift .get) fun machine => ?_
  cases superclass with
  | none => exact .pure machine.environment
  | some superclass =>
      exact renumbers_enter number (renumber_single number "super" (.class superclass))

theorem renumbers_ofClass (definition : ClassDecl)
    : Renumbers number id (ofClass definition) (ofClass (definition.renumber number)) := by
  obtain ⟨name, clause, methods, statics⟩ := definition
  refine .bind (renumbers_superclassOf number clause) fun superclass =>
    .bind (.lift (Step.renumbers_define number name.lexeme .nil)) fun _ =>
      .bind (renumbers_methodEnvironment number ⟨name, clause, methods, statics⟩ superclass)
        fun environment => .bind (.lift (Step.renumbers_freshIdentity number)) fun identity => ?_
  simp only [id, ClassDecl.renumber,
    Step.methodTable_renumber number environment FunctionDecl.initializes
      (FunctionDecl.initializes_renumber number),
    Step.methodTable_renumber number environment (fun _ => false) fun _ => rfl]
  cases superclass <;> exact .lift (Step.renumbers_overwrite number name (.class _))

/-- By the forms of statements. -/
theorem renumbers_ofStmt (stmt : Stmt)
    : Renumbers number (Flow.renumber number) (ofStmt stmt) (ofStmt (stmt.renumber number)) := by
  have value := renumbers_evaluate number
  cases stmt with
  | expression expr => exact .bind (value expr) fun _ => .pure Flow.normal
  | print keyword expr =>
      refine .bind (value expr) fun printed =>
        .bind (.lift (Step.renumbers_print number printed)) fun error => ?_
      cases error with
      | none => exact .pure Flow.normal
      | some error => exact renumbers_fault number keyword (.output error)
  | var name initializer =>
      cases initializer with
      | none =>
          exact .bind (.lift (Step.renumbers_define number name.lexeme .nil)) fun _ =>
            .pure Flow.normal
      | some initializer =>
          exact .bind (value initializer) fun initial =>
            .bind (.lift (Step.renumbers_define number name.lexeme initial)) fun _ =>
              .pure Flow.normal
  | block body =>
      exact .bind (.lift .get) fun machine =>
        .bind (renumbers_enter number rfl) fun environment =>
          renumbers_askingIn number (.within environment) (.executeAll body)
  | «if» condition positive negative =>
      cases negative with
      | none =>
          refine .bind (value condition) fun condition => ?_
          rw [Value.truthy_renumber]
          split
          · exact renumbers_asking number (.execute positive)
          · exact .pure Flow.normal
      | some negative =>
          refine .bind (value condition) fun condition => ?_
          rw [Value.truthy_renumber]
          split
          · exact renumbers_asking number (.execute positive)
          · exact renumbers_asking number (.execute negative)
  | «while» condition body => exact renumbers_asking number (.loop condition body)
  | «break» keyword => exact .pure Flow.break
  | function declaration =>
      simp only [Stmt.renumber, ofStmt, FunctionDecl.displayName_renumber]
      exact .bind (.lift (Step.renumbers_functionHere number declaration)) fun made =>
        .bind (.lift (Step.renumbers_define number declaration.displayName made)) fun _ =>
          .pure Flow.normal
  | «return» keyword given =>
      cases given with
      | none => exact .pure (Flow.return .nil)
      | some given => exact .bind (value given) fun given => .pure (Flow.return given)
  | «class» definition =>
      exact .bind (renumbers_ofClass number definition) fun _ => .pure Flow.normal

theorem renumbers_ofStmts (stmts : List Stmt)
    : Renumbers number (Flow.renumber number) (ofStmts stmts)
        (ofStmts (Stmts.renumber number stmts)) := by
  cases stmts with
  | nil => exact .pure Flow.normal
  | cons first rest =>
      refine .bind (renumbers_asking number (.execute first)) fun flow => ?_
      cases flow with
      | normal => exact renumbers_asking number (.executeAll rest)
      | «break» => exact .pure Flow.break
      | «return» value => exact .pure (Flow.return value)

theorem renumbers_ofLoop (condition : Expr) (body : Stmt)
    : Renumbers number (Flow.renumber number) (ofLoop condition body)
        (ofLoop (condition.renumber number) (body.renumber number)) := by
  refine .bind (renumbers_evaluate number condition) fun holds => ?_
  rw [Value.truthy_renumber]
  split
  · refine .bind (renumbers_asking number (.execute body)) fun flow => ?_
    cases flow with
    | normal => exact renumbers_asking number (.loop condition body)
    | «break» => exact .pure Flow.normal
    | «return» value => exact .pure (Flow.return value)
  · exact .pure Flow.normal

end Plan

/-- The plan for a task under other numbers is that for the task, under other numbers. -/
theorem Task.renumbers_plan (number : Nat → Nat) (task : Task)
    : Plan.Renumbers number (task.renumberResult number) task.plan
        (task.renumber number).plan := by
  cases task with
  | evaluate expr => exact Plan.renumbers_ofExpr number expr
  | evaluateAll exprs => exact Plan.renumbers_ofExprs number exprs
  | call callee closing arguments => exact Plan.renumbers_ofCall number callee closing arguments
  | invoke closure arguments => exact Plan.renumbers_ofInvocation number closure arguments
  | construct definition arguments =>
      exact Plan.renumbers_ofConstruction number definition arguments
  | execute stmt => exact Plan.renumbers_ofStmt number stmt
  | executeAll stmts => exact Plan.renumbers_ofStmts number stmts
  | loop condition body => exact Plan.renumbers_ofLoop number condition body

-----------------------------------------------------------------------------------------
-- Runs
-----------------------------------------------------------------------------------------

/-- Another way of finding bindings finds under other numbers what the one finds. -/
structure Access.Renumbers (number : Nat → Nat) (access other : Access) : Prop where
  home
    : ∀ use occurrence (machine : Machine),
        other.home use (occurrence.renumber number) (machine.renumber number)
        = access.home use occurrence machine
  receiverHome
    : ∀ occurrence (machine : Machine),
        other.receiverHome (occurrence.renumber number) (machine.renumber number)
        = access.receiverHome occurrence machine

section

variable {number : Nat → Nat} {access other : Access}

/-- Plans that are alike under other numbers are carried out alike if the tasks that they hand on
are. By induction over the relation of the plans.
-/
theorem Plan.Renumbers.run {α β : Type} {change : α → β} {plan : Plan α} {planOther : Plan β}
    {perform performOther : (task : Task) → Step task.Result}
    (places : access.Renumbers number other)
    (tasks
      : ∀ task,
          Step.Renumbers number (task.renumberResult number) (perform task)
            (performOther (task.renumber number)))
    (h : Plan.Renumbers number change plan planOther)
    : Step.Renumbers number change (plan.run access perform)
        (planOther.run other performOther) := by
  induction h with
  | done value => exact .pure value
  | step same _ ih => exact .bind same ih
  | @locate use occurrence _ _ _ ih =>
      have located
          : Step.Renumbers number id (Action.perform access (.locate use occurrence))
              (Action.perform other (.locate use (occurrence.renumber number))) := by
        refine .lookup fun machine => ?_
        rw [places.home, Except.map_id]
        rfl
      exact .bind located ih
  | @locateReceiver occurrence _ _ _ ih =>
      have located
          : Step.Renumbers number id (Action.perform access (.locateReceiver occurrence))
              (Action.perform other (.locateReceiver (occurrence.renumber number))) := by
        refine .lookup fun machine => ?_
        rw [places.receiverHome, Except.map_id]
        rfl
      exact .bind located ih
  | enter same _ ih =>
      rw [same]
      exact .bind (Step.renumbers_enter number _ _) ih
  | hand task _ ih => exact .bind (.around _ (tasks task)) ih

/-- Under other numbers a task is performed alike, by induction over the budget. -/
theorem Access.Renumbers.perform (places : access.Renumbers number other) (budget : Nat)
    (task : Task)
    : Step.Renumbers number (task.renumberResult number) (task.perform access budget)
        ((task.renumber number).perform other budget) := by
  induction budget generalizing task with
  | zero => exact fun _ => rfl
  | succ budget ih => exact (task.renumbers_plan number).run places ih

/-- Distances may be looked up under other numbers if different numbers stay different. -/
theorem Access.renumbers_byDistance (injective : number.Injective) (distances : Distances)
    : (byDistance distances).Renumbers number (byDistance (distances.renumber number)) where
  home use occurrence machine := by
    have found := distances.find?_renumber injective occurrence.id
    simp only [byDistance, Occurrence.renumber, found, Machine.renumber, Store.find_renumber]
    rfl
  receiverHome occurrence machine := by
    have found := distances.find?_renumber injective occurrence.id
    simp only [byDistance, Occurrence.renumber, found]
    rfl

end

end Lox
