import Mathlib.Logic.Relation
import Lox.Machine

/-! Classes and the values that their methods are bound to. A method is looked for along the chain
of superclasses. It may be found in a class that inherits it; it is bound to that class or to an
instance of it, and so to a descendant of the class that has declared it.
-/

namespace Lox

/-- A class is another one or descends from it. -/
def Class.Descends : Class → Class → Prop :=
  Relation.ReflTransGen fun definition superclass => definition.superclass = some superclass

/-- A class has come of a declaration, and an environment closes its methods. -/
structure Class.MadeFrom (made : Class) (definition : ClassDecl) (environment : Environment) :
    Prop where
  name : made.name = definition.name.lexeme
  inherits : made.superclass.isSome = definition.superclass.isSome
  methods
    : made.methods = Step.methodTable environment FunctionDecl.initializes definition.methods
  statics : made.statics = Step.methodTable environment (fun _ => false) definition.statics

-----------------------------------------------------------------------------------------
-- Methods along the chain of superclasses
-----------------------------------------------------------------------------------------

/-- The class and its ancestors, the nearest first. -/
def Class.chain : Class → List Class
  | made@⟨_, _, none, _, _⟩ => [made]
  | made@⟨_, _, some superclass, _, _⟩ => made :: superclass.chain

/-- On the chain are the ancestors of a class, by induction over it. -/
theorem Class.mem_chain {definition ancestor : Class}
    : ancestor ∈ definition.chain ↔ definition.Descends ancestor := by
  fun_induction Class.chain definition with
  | case1 identity name methods statics =>
      rw [List.mem_singleton]
      refine ⟨fun same => same ▸ .refl, fun descends => ?_⟩
      rcases descends.cases_head with same | ⟨_, inherits, _⟩
      · exact same.symm
      · cases inherits
  | case2 identity name superclass methods statics ih =>
      rw [List.mem_cons, ih]
      constructor
      · rintro (rfl | descends)
        · exact .refl
        · exact .head rfl descends
      · intro descends
        rcases descends.cases_head with same | ⟨_, ⟨⟩, further⟩
        · exact .inl same.symm
        · exact .inr further

/-- A method is that of the first class on the chain with one of the name. -/
theorem Class.findMethod?_eq (definition : Class) (name : String)
    : definition.findMethod? name = definition.chain.findSome? (·.methods.get? name) := by
  fun_induction Class.chain definition with
  | case1 identity _ methods statics =>
      rw [findMethod?, List.findSome?_singleton]
  | case2 identity _ superclass methods statics ih =>
      rw [findMethod?, List.findSome?_cons, ih]
      cases methods.get? name <;> rfl

/-- The static methods of a class as a class of their own, which inherits from the one of the
superclass.
-/
def Class.metaclass : Class → Class
  | ⟨identity, name, none, _, statics⟩ =>
    ⟨identity, name ++ " metaclass", none, statics, .empty⟩
  | ⟨identity, name, some superclass, _, statics⟩ =>
    ⟨identity, name ++ " metaclass", some superclass.metaclass, statics, .empty⟩

theorem Class.methods_metaclass (definition : Class)
    : definition.metaclass.methods = definition.statics := by
  unfold metaclass
  split <;> rfl

/-- The ancestors of a metaclass are those of the ancestors of the class. -/
theorem Class.chain_metaclass (definition : Class)
    : definition.metaclass.chain = definition.chain.map metaclass := by
  fun_induction Class.chain definition with
  | case1 => rfl
  | case2 identity name superclass methods statics ih =>
      rw [metaclass, chain, ih, List.map_cons, metaclass]

/-- A static method of a class is a method of its metaclass. -/
theorem Class.findStatic?_eq_findMethod? (definition : Class) (name : String)
    : definition.findStatic? name = definition.metaclass.findMethod? name := by
  fun_induction Class.metaclass definition with
  | case1 => rfl
  | case2 identity _ superclass methods statics ih => rw [findStatic?, findMethod?, ih]

theorem Class.findStatic?_eq (definition : Class) (name : String)
    : definition.findStatic? name = definition.chain.findSome? (·.statics.get? name) := by
  rw [findStatic?_eq_findMethod?, findMethod?_eq, chain_metaclass, List.findSome?_map]
  refine congrArg (List.findSome? · _) (funext fun ancestor => ?_)
  rw [Function.comp, methods_metaclass]

/-- Of the methods with a name, the last one that is declared counts. -/
theorem Step.get?_methodTable (environment : Environment) (initializes : FunctionDecl → Bool)
    (declarations : List FunctionDecl) (name : String)
    : (methodTable environment initializes declarations).get? name
      = (declarations.reverse.find? (·.displayName = name)).map fun declaration =>
          ⟨declaration, environment, initializes declaration⟩ := by
  rw [methodTable, Table.get?_ofList, ← List.map_reverse]
  induction declarations.reverse with
  | nil => rfl
  | cons first rest ih =>
      rw [List.map_cons, Table.lookup?, ih, List.find?_cons]
      by_cases same : first.displayName = name <;> simp [same]

-----------------------------------------------------------------------------------------
-- Receivers
-----------------------------------------------------------------------------------------

/-- Instances go on to be of their classes. -/
def KeepsClasses (instances later : Array Instance) : Prop :=
  ∀ (address : Nat) (object : Instance),
    instances[address]? = some object
    → ∃ kept, later[address]? = some kept ∧ kept.definition = object.definition

theorem KeepsClasses.refl (instances : Array Instance) : KeepsClasses instances instances :=
  fun _ object there => ⟨object, there, rfl⟩

/-- A new instance is added behind the others. -/
theorem keepsClasses_push (instances : Array Instance) (object : Instance)
    : KeepsClasses instances (instances.push object) := by
  intro address old there
  have inside := (Array.getElem?_eq_some_iff.1 there).1
  refine ⟨old, ?_, rfl⟩
  rw [Array.getElem?_push, if_neg (Nat.ne_of_lt inside), there]

/-- An instance is of the same class whatever is done to its fields. -/
theorem keepsClasses_modify (instances : Array Instance) (target : Nat)
    (change : Table String Value → Table String Value)
    : KeepsClasses instances
        (instances.modify target fun object => { object with fields := change object.fields }) := by
  intro address object there
  simp only [Array.getElem?_modify, there, Option.map_some]
  split
  · exact ⟨_, rfl, rfl⟩
  · exact ⟨object, rfl, rfl⟩

/-- The methods of a class may be bound to a value: to a class that descends from it if they are
static, and else to an instance of such a class.
-/
inductive Value.Receives (instances : Array Instance) (owner : Class) :
    (isStatic : Bool) → Value → Prop
  | class {definition : Class} (descends : definition.Descends owner)
    : Receives instances owner true (.class definition)
  | instance {address : Nat} {object : Instance} (there : instances[address]? = some object)
    (descends : object.definition.Descends owner)
    : Receives instances owner false (.instance address)

namespace Value.Receives

variable {receiver : Value} {instances later : Array Instance} {owner ancestor : Class}
  {isStatic : Bool}

/-- What receives the methods of a class receives those of its ancestors. -/
theorem trans (h : receiver.Receives instances owner isStatic) (below : owner.Descends ancestor)
    : receiver.Receives instances ancestor isStatic := by
  cases h with
  | «class» descends => exact .class (Relation.ReflTransGen.trans descends below)
  | «instance» there descends => exact .instance there (Relation.ReflTransGen.trans descends below)

theorem mono (h : receiver.Receives instances owner isStatic)
    (kept : KeepsClasses instances later)
    : receiver.Receives later owner isStatic := by
  cases h with
  | «class» descends => exact .class descends
  | «instance» there descends =>
      obtain ⟨object, found, same⟩ := kept _ _ there
      exact .instance found (same ▸ descends)

end Value.Receives
end Lox
