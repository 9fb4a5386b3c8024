import MarkupLoader.Heap.Making
import MarkupLoader.Load.State

/-!
# Creating values

Every element that makes an object gets its value, those inside before those around them. The
content of a template is kept as a document instead.

* **Language elements** such as `x:Int32` stand for scalars and are read from their text.
* **All other elements** make an object of the type of their name. The children of `x:Arguments`
  are the arguments of its constructor, or of the factory that `x:FactoryMethod` names.
* **The outermost element** takes over the object that the load is about, if there is one. A load
  that makes a new object makes it first (`createRoot`), unless it needs arguments.

An element that cannot be created is taken out of the tree, if the load tolerates it; nothing
makes up for the outermost one.

Main definitions: `LoadState.make`, `Load.createRoot`, `Load.createValues`.
-/

namespace MarkupLoader

/-! ## Scalars -/

/-- Reads the text of a language element as a scalar; `none` if the name is not that of a
scalar. -/
def scalar? (localName text : String) : Option (Except String Value) :=
  let inside := Text.trim text.toList
  let shown := String.ofList inside
  let integer : Except String Value :=
    match Text.int64? inside with
    | some n => .ok (.int n)
    | none => .error s!"'{shown}' is not an integer"
  let number : Except String Value :=
    match Decimal.float? inside with
    | some x => .ok (.float x)
    | none => .error s!"'{shown}' is not a number"
  match localName with
  | "String" => some (.ok (.string text))
  | "Int32" => some integer
  | "Int64" => some integer
  | "Double" => some number
  | "Single" => some number
  | "Boolean" =>
    match bool? inside with
    | some b => some (.ok (.bool b))
    | none => some (.error s!"'{shown}' is not a bool")
  | "Null" => some (.ok .null)
  | _ => none

/-! ## What an element is made from -/

namespace NodeTree

/-- The child of a node that holds the arguments of its constructor. -/
def arguments? (t : NodeTree) (id : NodeId) : Option NodeId :=
  (t.node id).children.find? fun child =>
    match (t.node child).kind with
    | .property name => name.isDirective "Arguments"
    | _ => false

/-- The texts directly inside a node, joined. -/
def textContent (t : NodeTree) (id : NodeId) : String :=
  String.join <| (t.node id).children.filterMap fun child =>
    match (t.node child).kind with
    | .text content => some content
    | _ => none

end NodeTree

/-- What an element makes: a scalar, or an object that is not in the heap yet. -/
inductive Made where
  | scalar (value : Value)
  | object (o : Object)

namespace LoadState

/-- The values of the arguments that a node gives to its constructor. -/
def argumentValues (s : LoadState) (id : NodeId) : List Value :=
  match s.tree.arguments? id with
  | none => []
  | some holder => (s.node holder).children.filterMap s.context.value?

/-- The document that a template keeps: the subtree of its only element. -/
def templateContent (s : LoadState) (id : NodeId) : Except LoadError (Option Template) :=
  match s.tree.elements id with
  | [] => .ok none
  | [content] => .ok (some ⟨s.tree.extract content, []⟩)
  | _ =>
    .error (.coercion (s.node id).typeName.localName
      "a template can only have one root element" (s.node id).position)

/-- Makes the object of a node. -/
def makeObject (s : LoadState) (env : Environment) (id : NodeId) : Except LoadError Object := do
  let node := s.node id
  match env.registry.get? node.typeName with
  | none => throw (.unresolvedType node.typeName node.position)
  | some d =>
    match d.make s.heap (s.argumentValues id) (node.directiveText? "FactoryMethod") with
    | .error fault => throw (.coercion "x:Arguments" fault.message node.position)
    | .ok o =>
      if d.kind = .template then return { o with template := ← s.templateContent id }
      else return o

/-- Makes what a node stands for. -/
def make (s : LoadState) (env : Environment) (id : NodeId) : Except LoadError Made :=
  let node := s.node id
  let scalar :=
    if isLanguage node.typeName.namespaceUri then
      scalar? node.typeName.localName (s.tree.textContent id)
    else none
  match scalar with
  | some (.ok value) => .ok (.scalar value)
  | some (.error reason) => .error (.coercion node.typeName.localName reason node.position)
  | none => (s.makeObject env id).map .object

end LoadState

/-! ## Creating -/

namespace Load

/-- Puts what was made where values can name it. -/
def settleMade : Made → Load Value
  | .scalar value => return value
  | .object o => return .object (← alloc o)

/-- Makes an object the one that the outermost element stands for and that the load is about. -/
def adoptRoot (id : ObjectId) : Load Unit :=
  modify fun s => { s with
    rootInstance := some id
    context := { s.context with rootElement := some id } }

/-- Sets the value of a node. -/
def setValue (id : NodeId) (value : Value) : Load Unit := do
  let s ← get
  let context ← ofExcept (s.context.setValue id value)
  set { s with context := context }

/-- Makes the object of the outermost element before anything else, unless there is one already
or it takes arguments. -/
def createRoot (env : Environment) : Load Unit := do
  let s ← get
  match s.rootInstance with
  | some id => modifyContext fun c => { c with rootElement := some id }
  | none =>
    -- The arguments have no values yet, so the element is left to `createValues`.
    if (s.tree.arguments? NodeTree.root).isSome then return ()
    match ← settleMade (← ofExcept (s.make env NodeTree.root)) with
    | .object id => adoptRoot id
    | other =>
      throw (.internal ("root element must be an object, got " ++ s.heap.kindName other))

/-- Gives the outermost element the object that it stands for already. -/
def reuseRoot (id : ObjectId) : Load Unit := do
  setValue NodeTree.root (.object id)
  modifyContext fun c => { c with rootElement := c.rootElement.or (some id) }

/-- Creates the value of a node. -/
def createNode (env : Environment) (id : NodeId) : Load Unit := do
  let s ← get
  match s.make env id with
  | .ok made =>
    let value ← settleMade made
    if id = NodeTree.root then
      match value with
      | .object root => adoptRoot root
      | _ => pure ()
    setValue id value
  | .error error =>
    -- Nothing makes up for the outermost element; any other is left out with all inside it.
    if id = NodeTree.root then throw error
    recover error
    modifyTree (·.detach id)

/-- Creates the value of a node that makes an object. -/
def createValue (env : Environment) (id : NodeId) : Load Unit := do
  let s ← get
  if !(s.node id).isObject then return ()
  match s.rootInstance with
  | some root => if id = NodeTree.root then reuseRoot root else createNode env id
  | none => createNode env id

/-- Creates the values of all nodes outside templates. -/
def createValues (env : Environment) : Load Unit := do
  let s ← get
  (s.loadedUpwards env).forM (createValue env)

/-! ## Laws -/

/-- Setting a value changes the values only, or fails and changes nothing. -/
theorem start_setValue (id : NodeId) (value : Value) (s : LoadState) :
    (setValue id value).start s =
      if s.context.values.contains id then
        (.error (.internal s!"value for node #{id} created twice"), s)
      else
        (.ok (), { s with context :=
          { s.context with values := s.context.values.insert id value } }) := by
  rw [setValue, start_get_bind, Context.setValue]
  split <;> rfl

end Load

/-- A scalar is neither an object nor a list. -/
theorem simple_scalar {localName text : String} {value : Value}
    (read : scalar? localName text = some (.ok value)) :
    value.object? = none ∧ ∀ items, value ≠ .list items := by
  -- One reader for each name.
  unfold scalar? at read
  dsimp only at read
  split at read
  case h_1 => cases read; exact ⟨rfl, nofun⟩
  case h_6 => split at read <;> cases read; exact ⟨rfl, nofun⟩
  case h_7 => cases read; exact ⟨rfl, nofun⟩
  case h_8 => cases read
  all_goals
    split at read <;> cases read
    exact ⟨rfl, nofun⟩

/-- What is neither an object nor a list holds no objects. -/
theorem references_of_simple {value : Value}
    (simple : value.object? = none ∧ ∀ items, value ≠ .list items) : value.references = [] := by
  cases value with
  | object n => cases simple.1
  | list items => exact absurd rfl (simple.2 items)
  | _ => rfl

namespace LoadState

theorem simple_of_make {s : LoadState} {env : Environment} {id : NodeId} {value : Value}
    (made : s.make env id = .ok (.scalar value)) :
    value.object? = none ∧ ∀ items, value ≠ .list items := by
  unfold make at made
  dsimp only at made
  split at made
  case h_1 read =>
    cases made
    split at read
    · exact simple_scalar read
    · cases read
  case h_2 => cases made
  case h_3 => cases objects : s.makeObject env id <;> rw [objects] at made <;> cases made

/-- A scalar holds no objects. -/
theorem references_of_make {s : LoadState} {env : Environment} {id : NodeId} {value : Value}
    (made : s.make env id = .ok (.scalar value)) : value.references = [] :=
  references_of_simple (simple_of_make made)

/-- A template keeps a document and remembers no objects yet. -/
theorem outerScope_templateContent {s : LoadState} {id : NodeId} {kept : Option Template}
    (given : s.templateContent id = .ok kept) :
    ∀ content, kept = some content → content.outerScope = [] := by
  unfold templateContent at given
  split at given <;> cases given
  · intro _ is
    cases is
  · rintro _ ⟨⟩
    rfl

end LoadState

end MarkupLoader
