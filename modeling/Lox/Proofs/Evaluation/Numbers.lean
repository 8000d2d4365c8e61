import Lox.Proofs.Evaluation.Moments
import Lox.Proofs.Syntax.Renumbering

/-! Machines whose code has other numbers. Steps of evaluation look at no number, so that they do
the same: they give the same values, except for the numbers in their code, and they print and tell
the same.
-/

namespace Lox

-----------------------------------------------------------------------------------------
-- Declarations under other numbers
-----------------------------------------------------------------------------------------

namespace FunctionDecl

variable (number : Nat → Nat) (declaration : FunctionDecl)

@[simp]
theorem keyword_renumber : (declaration.renumber number).keyword = declaration.keyword := by
  cases declaration
  rfl

@[simp]
theorem parameters_renumber
    : (declaration.renumber number).parameters = declaration.parameters := by
  cases declaration
  rfl

@[simp]
theorem displayName_renumber
    : (declaration.renumber number).displayName = declaration.displayName := by
  cases declaration
  rfl

@[simp]
theorem arity_renumber : (declaration.renumber number).arity = declaration.arity := by
  rw [arity, arity, parameters_renumber]

@[simp]
theorem initializes_renumber
    : (declaration.renumber number).initializes = declaration.initializes := by
  rw [initializes, initializes, displayName_renumber]

end FunctionDecl

theorem Functions.renumber_eq_map (number : Nat → Nat) (declarations : List FunctionDecl)
    : Functions.renumber number declarations
      = declarations.map (FunctionDecl.renumber number) := by
  induction declarations with
  | nil => rfl
  | cons first rest ih => rw [Functions.renumber, ih, List.map_cons]

-----------------------------------------------------------------------------------------
-- Machines under other numbers
-----------------------------------------------------------------------------------------

section

variable (number : Nat → Nat)

/-- The closure, its code under other numbers. -/
def Closure.renumber (closure : Closure) : Closure :=
  { closure with declaration := closure.declaration.renumber number }

/-- The class, its methods and those of its ancestors under other numbers. -/
def Class.renumber : Class → Class
  | ⟨identity, name, none, methods, statics⟩ =>
    ⟨identity, name, none, methods.map (Closure.renumber number),
      statics.map (Closure.renumber number)⟩
  | ⟨identity, name, some superclass, methods, statics⟩ =>
    ⟨identity, name, some superclass.renumber, methods.map (Closure.renumber number),
      statics.map (Closure.renumber number)⟩

/-- The value, its code under other numbers. -/
def Value.renumber : Value → Value
  | .nil => .nil
  | .bool value => .bool value
  | .number value => .number value
  | .string content => .string content
  | .native callee => .native callee
  | .function callee => .function ⟨callee.identity, callee.closure.renumber number⟩
  | .class definition => .class (definition.renumber number)
  | .instance address => .instance address

/-- The object, the code of its class and its fields under other numbers. -/
def Instance.renumber (object : Instance) : Instance :=
  ⟨object.definition.renumber number, object.fields.map (Value.renumber number)⟩

/-- The bindings, the code of the values under other numbers. -/
def Bindings.renumber (bindings : Bindings Value) : Bindings Value :=
  bindings.map (Option.map (Value.renumber number))

/-- The store, the code in it under other numbers. -/
def Store.renumber (store : Store Value) : Store Value :=
  ⟨store.tables.map (Bindings.renumber number)⟩

/-- The machine, all code that it holds under other numbers. -/
def Machine.renumber (machine : Machine) : Machine :=
  { machine with
    store := machine.store.renumber number
    instances := machine.instances.map (Instance.renumber number) }

/-- The way in which a statement ended, the code of a value under other numbers. -/
def Flow.renumber : Flow → Flow
  | .normal => .normal
  | .break => .break
  | .return value => .return (value.renumber number)

-----------------------------------------------------------------------------------------
-- Values
-----------------------------------------------------------------------------------------

theorem Class.findMethod?_renumber (definition : Class) (name : String)
    : (definition.renumber number).findMethod? name
      = (definition.findMethod? name).map (Closure.renumber number) := by
  fun_induction Class.renumber number definition with
  | case1 => simp only [findMethod?, Table.get?_map]
  | case2 identity _ superclass methods statics ih =>
      simp only [findMethod?, Table.get?_map, ih]
      cases methods.get? name <;> rfl

theorem Class.findStatic?_renumber (definition : Class) (name : String)
    : (definition.renumber number).findStatic? name
      = (definition.findStatic? name).map (Closure.renumber number) := by
  fun_induction Class.renumber number definition with
  | case1 => simp only [findStatic?, Table.get?_map]
  | case2 identity _ superclass methods statics ih =>
      simp only [findStatic?, Table.get?_map, ih]
      cases statics.get? name <;> rfl

theorem Class.initializer?_renumber (definition : Class)
    : (definition.renumber number).initializer?
      = definition.initializer?.map (Closure.renumber number) :=
  definition.findMethod?_renumber number initializerName

@[simp]
theorem Class.arity_renumber (definition : Class)
    : (definition.renumber number).arity = definition.arity := by
  unfold arity
  rw [initializer?_renumber]
  cases definition.initializer? with
  | none => rfl
  | some method => exact FunctionDecl.arity_renumber number method.declaration

@[simp]
theorem Class.name_renumber (definition : Class)
    : (definition.renumber number).name = definition.name := by
  fun_cases Class.renumber number definition <;> rfl

@[simp]
theorem Class.identity_renumber (definition : Class)
    : (definition.renumber number).identity = definition.identity := by
  fun_cases Class.renumber number definition <;> rfl

@[simp]
theorem Value.truthy_renumber (value : Value) : (value.renumber number).truthy = value.truthy := by
  cases value <;> rfl

theorem Value.equal_renumber (left right : Value)
    : (left.renumber number).equal (right.renumber number) = left.equal right := by
  cases left <;> cases right <;> simp [renumber, equal]

theorem Value.className_renumber (instances : Array Instance) (address : Nat)
    : className (instances.map (Instance.renumber number)) address
      = className instances address := by
  unfold className
  rw [Array.getElem?_map]
  cases instances[address]? with
  | none => rfl
  | some object => exact object.definition.name_renumber number

theorem Value.shallowText_renumber (instances : Array Instance) (value : Value)
    : (value.renumber number).shallowText (instances.map (Instance.renumber number))
      = value.shallowText instances := by
  cases value with
  | nil | bool | number | string | native => rfl
  | function callee =>
      simp only [renumber, shallowText, Closure.renumber, FunctionDecl.displayName_renumber]
  | «class» definition => simp only [renumber, shallowText, Class.name_renumber]
  | «instance» address => simp only [renumber, shallowText, className_renumber]

/-- Sorting looks at the names only. -/
theorem sortByName_map {α β : Type} (change : α → β) (entries : List (String × α))
    : sortByName (entries.map fun entry => (entry.1, change entry.2))
      = (sortByName entries).map fun entry => (entry.1, change entry.2) := by
  have insert (entry : String × α) (sorted : List (String × α))
      : insertByName (entry.1, change entry.2)
          (sorted.map fun entry => (entry.1, change entry.2))
        = (insertByName entry sorted).map fun entry => (entry.1, change entry.2) := by
    induction sorted with
    | nil => rfl
    | cons first rest ih =>
        simp only [List.map_cons, insertByName, ih]
        split <;> rfl
  unfold sortByName
  induction entries with
  | nil => rfl
  | cons entry rest ih => rw [List.map_cons, List.foldr_cons, ih, insert, List.foldr_cons]

theorem Value.text_renumber (instances : Array Instance) (value : Value)
    : (value.renumber number).text (instances.map (Instance.renumber number))
      = value.text instances := by
  have shallow := value.shallowText_renumber number instances
  cases value with
  | nil | bool | number | string | native | function | «class» => exact shallow
  | «instance» address =>
      have fields (entries : List (String × Value))
          : (entries.map fun entry => (entry.1, entry.2.renumber number)).map
              (fieldText (instances.map (Instance.renumber number)))
            = entries.map (fieldText instances) := by
        rw [List.map_map]
        refine List.map_congr_left fun entry _ => ?_
        simp only [Function.comp_apply, fieldText, shallowText_renumber]
      simp only [renumber, text, className_renumber, Array.getElem?_map]
      cases instances[address]? with
      | none => rfl
      | some object =>
          simp only [Option.map_some, Instance.renumber, Table.map, sortByName_map, fields]

-----------------------------------------------------------------------------------------
-- Stores
-----------------------------------------------------------------------------------------

/-- A modification before a change of all elements is one after it. -/
theorem map_modify {α β : Type} {change : α → β} {modify : α → α} {modifyOther : β → β}
    (same : ∀ element, change (modify element) = modifyOther (change element))
    (elements : Array α) (index : Nat)
    : (elements.modify index modify).map change
      = (elements.map change).modify index modifyOther := by
  refine Array.ext_getElem? fun other => ?_
  simp only [Array.getElem?_map, Array.getElem?_modify]
  cases elements[other]? with
  | none => split <;> rfl
  | some element => split <;> simp only [Option.map_some, same]

namespace Store

variable (store : Store Value)

theorem table_renumber (address : Nat)
    : (store.renumber number).table address = (store.table address).renumber number := by
  unfold table renumber
  rw [Array.getElem?_map]
  cases store.tables[address]? <;> rfl

theorem renumber_setSlot (address : Nat) (name : String) (slot : Option Value)
    : (store.setSlot address name slot).renumber number
      = (store.renumber number).setSlot address name (slot.map (Value.renumber number)) := by
  simp only [setSlot, renumber]
  refine congrArg Store.mk (map_modify ?_ store.tables address)
  exact fun bindings => bindings.map_set _ name slot

theorem renumber_add (bindings : Bindings Value)
    : (store.add bindings).renumber number
      = (store.renumber number).add (bindings.renumber number) := by
  simp only [add, renumber, Array.map_push]

@[simp]
theorem nextInside_renumber (outer : Environment)
    : (store.renumber number).nextInside outer = store.nextInside outer := by
  simp only [nextInside, renumber, Array.size_map]

theorem getHere_renumber (address : Nat) (name : String)
    : (store.renumber number).getHere address name
      = (store.getHere address name).map (Value.renumber number) := by
  simp only [getHere, table_renumber, Bindings.renumber, Table.get?_map]
  rcases (store.table address).get? name with _ | _ | _ <;> rfl

theorem getAt_renumber (environment : Environment) (distance : Nat) (name : String)
    : (store.renumber number).getAt environment distance name
      = (store.getAt environment distance name).map (Value.renumber number) := by
  unfold getAt
  cases environment.tableAt distance with
  | error error => rfl
  | ok address => exact store.getHere_renumber number address name

@[simp]
theorem find_renumber (environment : Environment) (name : String)
    : (store.renumber number).find environment name = store.find environment name := by
  have home (chain : List Nat)
      : (store.renumber number).home? name chain = store.home? name chain := by
    induction chain with
    | nil => rfl
    | cons address outer ih =>
        simp only [home?, table_renumber, Bindings.renumber, Table.has_map, ih]
  simp only [find, home]

end Store

end

-----------------------------------------------------------------------------------------
-- Steps
-----------------------------------------------------------------------------------------

/-- The ending, what it gives changed and all code under other numbers. -/
def Ending.renumber {α β : Type} (number : Nat → Nat) (change : α → β) : Ending α → Ending β
  | .ok value after => .ok (change value) (after.renumber number)
  | .error interruption after => .error interruption (after.renumber number)

theorem Ending.machine_renumber {α β : Type} (number : Nat → Nat) (change : α → β)
    (ending : Ending α)
    : (ending.renumber number change).machine = ending.machine.renumber number := by
  cases ending <;> rfl

namespace Step

variable {α β : Type} {number : Nat → Nat}

/-- Another step does the same under other numbers. -/
def Renumbers (number : Nat → Nat) (change : α → β) (step : Step α) (other : Step β) : Prop :=
  ∀ machine, other (machine.renumber number) = Ending.renumber number change (step machine)

namespace Renumbers

variable {α' β' : Type} {change : α → β} {step : Step α} {other : Step β}

theorem pure (value : α) : Renumbers number change (Pure.pure value) (Pure.pure (change value)) :=
  fun _ => rfl

theorem get : Renumbers number (Machine.renumber number) MonadState.get MonadState.get :=
  fun _ => rfl

theorem fault {token : Token} {cause : FaultCause}
    : Renumbers number change (Step.fault token cause) (Step.fault token cause) :=
  fun _ => rfl

/-- Nothing comes after a fault. -/
theorem faultBind {token : Token} {cause : FaultCause} {next : α' → Step α}
    {nextOther : α' → Step β}
    : Renumbers number change (Step.fault token cause >>= next)
        (Step.fault token cause >>= nextOther) :=
  fun _ => rfl

/-- One step after the other. -/
theorem bind {next : α → Step α'} {nextOther : β → Step β'} {last : α' → β'}
    (h : Renumbers number change step other)
    (rest : ∀ value, Renumbers number last (next value) (nextOther (change value)))
    : Renumbers number last (step >>= next) (other >>= nextOther) := by
  intro machine
  simp only [Bind.bind, EStateM.bind, h machine]
  cases step machine with
  | ok value after => exact rest value after
  | error interruption after => rfl

/-- A lookup that finds the same. -/
theorem lookup {token : Token} {find : Machine → Except LookupError α}
    {findOther : Machine → Except LookupError β}
    (same : ∀ machine, findOther (machine.renumber number) = (find machine).map change)
    : Renumbers number change (Step.lookup token find) (Step.lookup token findOther) := by
  intro machine
  simp only [Step.lookup, same]
  cases find machine <;> rfl

/-- Steps in the same surroundings. -/
theorem around (manner : Manner) (h : Renumbers number change step other)
    : Renumbers number change (manner.around step) (manner.around other) := by
  intro machine
  have before
      : manner.before (machine.renumber number) = (manner.before machine).renumber number := by
    cases manner <;> rfl
  rw [Manner.around_eq, Manner.around_eq, before, h]
  cases step (manner.before machine) <;> cases manner <;> rfl

end Renumbers

variable (number)

-- Values without code are the same under other numbers, by evaluation.

theorem renumbers_report (diagnostic : Diagnostic)
    : Renumbers number id (report diagnostic) (report diagnostic) :=
  fun _ => rfl

theorem renumbers_unary (operator : Token) (operand : Value)
    : Renumbers number (Value.renumber number) (unary operator operand)
        (unary operator (operand.renumber number)) := by
  obtain ⟨kind, lexeme, line⟩ := operator
  rcases kind with mark | _ | _ | _ | _
  · cases mark <;> cases operand <;> exact fun _ => rfl
  all_goals exact .fault

theorem renumbers_divide (operator : Token) (a b : Float)
    : Renumbers number (Value.renumber number) (divide operator a b) (divide operator a b) := by
  unfold divide
  split
  · exact .bind (renumbers_report number _) fun _ => .pure (Value.number 0)
  · exact .pure (Value.number (a / b))

/-- By the operators; only division tells something. -/
theorem renumbers_binary (operator : Token) (left right : Value)
    : Renumbers number (Value.renumber number) (binary operator left right)
        (binary operator (left.renumber number) (right.renumber number)) := by
  obtain ⟨kind, lexeme, line⟩ := operator
  rcases kind with mark | _ | _ | _ | _
  · cases mark
    case equalEqual | bangEqual =>
      simp only [binary, Value.equal_renumber]
      exact .pure (Value.bool _)
    all_goals
      cases left <;> cases right
      <;> first | exact fun _ => rfl | exact renumbers_divide number _ _ _
  all_goals cases left <;> cases right <;> exact fun _ => rfl

@[simp]
theorem decides_renumber (operator : Token) (left : Value)
    : decides operator (left.renumber number) = decides operator left := by
  simp only [decides, Value.truthy_renumber]

theorem renumbers_textOf (value : Value)
    : Renumbers number id (textOf value) (textOf (value.renumber number)) := by
  intro machine
  simp only [textOf, Machine.renumber, Value.text_renumber]
  rfl

theorem renumbers_print (value : Value)
    : Renumbers number id (print value) (print (value.renumber number)) :=
  .bind (renumbers_textOf number value) fun _ _ => rfl

theorem renumbers_callNative (callee : Native) (arguments : List Value)
    : Renumbers number (Value.renumber number) (callNative callee arguments)
        (callNative callee (arguments.map (Value.renumber number))) := by
  cases callee with
  | clock => exact fun _ => rfl
  | str =>
      cases arguments with
      | nil => exact .pure (Value.string "")
      | cons first rest =>
          exact .bind (renumbers_textOf number first) fun text => .pure (Value.string text)

theorem renumbers_checkCall (closing : Token) (arity given : Nat)
    : Renumbers number id (Plan.checkCall closing arity given)
        (Plan.checkCall closing arity given) := by
  have deep
      : Renumbers number id
          (do
            let machine ← get
            if machine.maxDepth ≤ machine.callDepth then Step.fault closing .stackOverflow)
          (do
            let machine ← get
            if machine.maxDepth ≤ machine.callDepth then Step.fault closing .stackOverflow) := by
    refine .bind .get fun machine => ?_
    dsimp only [Machine.renumber]
    split
    · exact .fault
    · exact .pure ()
  unfold Plan.checkCall
  split
  · exact .faultBind
  · exact deep

theorem renumbers_enter (outer : Environment) (bindings : Bindings Value)
    : Renumbers number id (enter outer bindings) (enter outer (bindings.renumber number)) := by
  intro machine
  simp only [enter, Machine.renumber, Ending.renumber, Store.nextInside_renumber,
    Store.renumber_add, id]

theorem renumbers_setSlot (address : Nat) (name : String) (value : Value)
    : Renumbers number id (setSlot address name value)
        (setSlot address name (value.renumber number)) := by
  intro machine
  simp only [setSlot, Machine.renumber, Ending.renumber, Store.renumber_setSlot, Option.map_some,
    id]

theorem renumbers_define (name : String) (value : Value)
    : Renumbers number id (define name value) (define name (value.renumber number)) :=
  fun machine => renumbers_setSlot number machine.environment.table name value machine

theorem renumbers_getHere (address : Nat) (token : Token)
    : Renumbers number (Value.renumber number) (getHere address token) (getHere address token) :=
  .lookup fun machine => machine.store.getHere_renumber number address token.lexeme

theorem renumbers_receiver (method : Closure)
    : Renumbers number (Value.renumber number) (receiver method)
        (receiver (method.renumber number)) := by
  unfold receiver
  simp only [Closure.renumber, FunctionDecl.keyword_renumber]
  exact .lookup fun machine => machine.store.getAt_renumber number method.environment 0 "this"

theorem renumbers_overwrite (name : Token) (value : Value)
    : Renumbers number id (overwrite name value) (overwrite name (value.renumber number)) := by
  have find
      : Renumbers number id
          (lookup name fun machine => machine.store.find machine.environment name.lexeme)
          (lookup name fun machine => machine.store.find machine.environment name.lexeme) := by
    refine .lookup fun machine => ?_
    rw [Except.map_id]
    exact machine.store.find_renumber number machine.environment name.lexeme
  exact .bind find fun address => renumbers_setSlot number address name.lexeme value

theorem renumbers_freshIdentity : Renumbers number id freshIdentity freshIdentity :=
  fun _ => rfl

theorem renumbers_functionOf (closure : Closure)
    : Renumbers number (Value.renumber number) (functionOf closure)
        (functionOf (closure.renumber number)) :=
  .bind (renumbers_freshIdentity number) fun identity =>
    .pure (Value.function ⟨identity, closure⟩)

theorem renumbers_functionHere (declaration : FunctionDecl)
    : Renumbers number (Value.renumber number) (functionHere declaration)
        (functionHere (declaration.renumber number)) :=
  .bind .get fun machine => renumbers_functionOf number ⟨declaration, machine.environment, false⟩

theorem renumbers_newInstance (definition : Class)
    : Renumbers number (Value.renumber number) (newInstance definition)
        (newInstance (definition.renumber number)) := by
  intro machine
  simp only [newInstance, Machine.renumber, Ending.renumber, Array.size_map, Array.map_push]
  rfl

theorem renumbers_setField (address : Nat) (name : String) (value : Value)
    : Renumbers number id (setField address name value)
        (setField address name (value.renumber number)) := by
  intro machine
  have instances
      : (machine.instances.modify address fun object =>
          { object with fields := object.fields.set name value }).map (Instance.renumber number)
        = (machine.instances.map (Instance.renumber number)).modify address fun object =>
            { object with fields := object.fields.set name (value.renumber number) } :=
    map_modify (fun object => by simp only [Instance.renumber, Table.map_set]) _ _
  simp only [setField, Machine.renumber, Ending.renumber, instances, id]

/-- The methods of a class under other numbers. -/
theorem methodTable_renumber (environment : Environment) (initializes : FunctionDecl → Bool)
    (same
      : ∀ declaration, initializes (declaration.renumber number) = initializes declaration)
    (declarations : List FunctionDecl)
    : methodTable environment initializes (Functions.renumber number declarations)
      = (methodTable environment initializes declarations).map (Closure.renumber number) := by
  unfold methodTable
  rw [Functions.renumber_eq_map, Table.map_ofList, List.map_map, List.map_map]
  refine congrArg Table.ofList (List.map_congr_left fun declaration _ => ?_)
  simp only [Function.comp_apply, FunctionDecl.displayName_renumber, same, Closure.renumber]

end Step

end Lox
