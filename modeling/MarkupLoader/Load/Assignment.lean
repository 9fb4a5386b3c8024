import MarkupLoader.Heap.Coercion
import MarkupLoader.Load.State

/-!
# Assigning properties

The attributes and the content of an element are assigned to its object, objects inside before
those around them. Each attribute and each child either takes effect or fails as a whole.

* **A target** is a property of the object, or a property that another type declares for it,
  which is written with the name of that type.
* **Collections** take values one by one; a list or an object of collection kind replaces what
  is there. All other values are coerced to the type of the property.
* **Content** goes to the content property, or becomes items of an object of collection kind.
  Dictionaries and templates take no content here.

Main definition: `Load.applyProperties`.
-/

namespace MarkupLoader

/-! ## Targets -/

/-- Where a value is assigned to. -/
structure Target where
  key : String
  type : PropertyType
deriving DecidableEq, Repr

/-- Why an assignment fails. -/
inductive AssignmentFault where
  | noProperty (typeName property : String)
  | noContentProperty (typeName : String)
  | undeclaredContent (property : String)
  | unknownOwner (name : QName)
  | notAttached (owner property : String)
  | tooManyValues (property : String) (count : Nat)
  | notACollection (kindName : String)
  | coercion (fault : CoercionFault)
deriving DecidableEq, Repr

/-- The wording of a fault. -/
def AssignmentFault.message : AssignmentFault → String
  | noProperty typeName property => s!"{typeName} has no property {property}"
  | noContentProperty typeName => s!"{typeName} has no content property"
  | undeclaredContent property => s!"content property {property} is not declared"
  | unknownOwner name => s!"type {name.localName} not found in xmlns {name.namespaceUri}"
  | notAttached owner property => s!"{owner} has no attached property {property}"
  | tooManyValues property count => s!"property {property} takes a single value, got {count}"
  | notACollection kindName => Heap.notACollection kindName
  | coercion fault => fault.message

/-- A declared property as a target. -/
def Property.target (p : Property) : Target := ⟨p.name, p.type⟩

/-- Splits a name at its last dot into an owner and a property, if it has one. -/
def splitOwner? (name : String) : Option (String × String) :=
  (Text.cut? '.' name.toList.reverse).map fun (after, before) =>
    (String.ofList before.reverse, String.ofList after.reverse)

namespace TypeDescriptor

/-- The target of content. -/
def contentTarget (d : TypeDescriptor) : Except AssignmentFault Target :=
  match d.contentProperty with
  | none => .error (.noContentProperty d.name.localName)
  | some name =>
    match d.property? name with
    | none => .error (.undeclaredContent name)
    | some p => .ok p.target

end TypeDescriptor

namespace Site

/-- The namespace of the owner in a name with a dot: that of the name, if it has one, or else the
default namespace at the site, or else that of the element. -/
def ownerNamespace (s : Site) (namespaceUri : String) : String :=
  if namespaceUri.isEmpty then
    (s.tree.lookUpNamespace s.node "").getD (s.tree.node s.node).typeName.namespaceUri
  else namespaceUri

/-- The target that another type declares for objects of all types. -/
def attachedTarget (s : Site) (namespaceUri owner property : String) :
    Except AssignmentFault Target :=
  let name : QName := ⟨s.ownerNamespace namespaceUri, owner⟩
  match s.registry.get? name with
  | none => .error (.unknownOwner name)
  | some d =>
    match d.attached? property with
    | none => .error (.notAttached owner property)
    | some p => .ok ⟨owner ++ "." ++ property, p.type⟩

/-- The target that a name stands for at an object of a given type. -/
def target (s : Site) (d : TypeDescriptor) (name : QName) : Except AssignmentFault Target :=
  match splitOwner? name.localName with
  | none =>
    match d.property? name.localName with
    | some p => .ok p.target
    | none => .error (.noProperty d.name.localName name.localName)
  | some (owner, property) =>
    -- The type of the object or one that it is derived from declares the property itself.
    let own := if d.isAssignableTo owner then d.property? property else none
    match own with
    | some p => .ok p.target
    | none => s.attachedTarget name.namespaceUri owner property

end Site

/-! ## Assigning -/

namespace Heap

/-- Assigns a value to a target of an object. -/
def assign (h : Heap) (id : ObjectId) (target : Target) (value : Value) :
    Except AssignmentFault Heap :=
  if target.type = .collection then
    -- A whole collection replaces what is there, any other value is added to it.
    match value with
    | .list _ => .ok (h.set id target.key value)
    | _ =>
      if h.isOfKind .collection value then .ok (h.set id target.key value)
      else (h.append id target.key value).mapError .notACollection
  else
    match h.coerce value target.type with
    | .ok coerced => .ok (h.set id target.key coerced)
    | .error fault => .error (.coercion fault)

/-- Assigns the values of a property element. A property of dictionary type has its value
already. -/
def assignAll (h : Heap) (id : ObjectId) (target : Target) (values : List Value) :
    Except AssignmentFault Heap :=
  if target.type = .dictionary then .ok h
  else if target.type = .collection then values.foldlM (fun h v => h.assign id target v) h
  else
    match values with
    | [] => .ok h
    | [value] => h.assign id target value
    | _ => .error (.tooManyValues target.key values.length)

end Heap

namespace Site

/-- The object at the site's node with the content of a child assigned. -/
def assignContent (s : Site) (object : ObjectId) (value : Value) :
    Except AssignmentFault Heap := do
  s.heap.assign object (← (s.heap.descriptor object).contentTarget) value

/-- The values of the children of a property element. -/
def elementValues (s : Site) (element : NodeId) : List Value :=
  (s.tree.node element).children.filterMap fun child =>
    match (s.tree.node child).kind with
    | .text content => some (.string content)
    | _ => s.context.value? child

/-- Applies a property element. -/
def applyElement (s : Site) (object : ObjectId) (element : NodeId) (name : QName) :
    Except AssignmentFault Heap := do
  let target ← s.target (s.heap.descriptor object) name
  s.heap.assignAll object target (s.elementValues element)

/-- Applies a child that makes an object of its own. -/
def applyObject (s : Site) (object : ObjectId) (child : NodeId) : Except AssignmentFault Heap :=
  match s.context.value? child with
  | none => .ok s.heap
  | some value =>
    if s.heap.kind object = .collection then .ok (s.heap.addItem object value)
    else s.assignContent object value

/-- Applies a child of the site's node to its object. -/
def applyChild (s : Site) (object : ObjectId) (child : NodeId) : Except LoadError Heap :=
  let node := s.tree.node child
  let failed (property : String) (fault : AssignmentFault) : LoadError :=
    .coercion property fault.message node.position
  match node.kind with
  | .text content =>
    (s.assignContent object (.string content)).mapError (failed (s.heap.object object).typeName)
  | .property name =>
    -- The arguments were used up when the object was made.
    if name.isDirective "Arguments" then .ok s.heap
    else (s.applyElement object child name).mapError (failed name.localName)
  | _ => (s.applyObject object child).mapError (failed (s.heap.object object).typeName)

/-- The value that an attribute gives at the site. -/
def attributeValue (s : Site) (extensions : Extensions) (a : Attribute) :
    Except LoadError Value :=
  match a.value with
  | .raw text => .ok (.string text)
  | .literal text => .ok (.string text)
  | .expression x =>
    (extensions.evaluate s x).mapError fun fault =>
      .expression x.head.source fault.message a.position

/-- Applies an attribute of the site's node to its object. Directives of the language are no
properties. -/
def applyAttribute (s : Site) (extensions : Extensions) (object : ObjectId) (a : Attribute) :
    Except LoadError Heap :=
  if isLanguage a.name.namespaceUri then .ok s.heap
  else do
    let value ← s.attributeValue extensions a
    let assigned : Except AssignmentFault Heap := do
      s.heap.assign object (← s.target (s.heap.descriptor object) a.name) value
    assigned.mapError fun fault => .coercion a.name.localName fault.message a.position

/-- The objects around the site's node, nearest first, and those around the document. -/
def outerScope (s : Site) : List ObjectId :=
  (s.tree.ancestors s.node).filterMap s.context.object? ++ s.context.outerScope

end Site

/-! ## Applying -/

namespace Load

/-- Lets a template remember the objects around it. -/
def captureScope (object : ObjectId) (scope : List ObjectId) : Load Unit :=
  modifyHeap fun h => h.modify object fun o =>
    { o with template := o.template.map fun t => { t with outerScope := scope } }

/-- Applies the attributes of a node to its object. -/
def applyAttributes (env : Environment) (id : NodeId) (object : ObjectId) : Load Unit := do
  let s ← get
  (s.node id).attributes.forM fun a => do
    -- Every attribute sees what those before it have done.
    let s ← get
    changeHeap ((s.site env id).applyAttribute env.extensions object a)

/-- Applies the children of a node to its object, if the object takes any here. -/
def applyChildren (env : Environment) (id : NodeId) (object : ObjectId) : Load Unit := do
  let s ← get
  match s.heap.kind object with
  | .dictionary => return ()
  | .template => return ()
  | _ =>
    (s.node id).children.forM fun child => do
      let s ← get
      changeHeap ((s.site env id).applyChild object child)

/-- Applies what a node says to its object. -/
def applyNode (env : Environment) (id : NodeId) : Load Unit := do
  let s ← get
  match s.context.object? id with
  | none => return ()
  | some object =>
    if s.heap.kind object = .template then captureScope object (s.site env id).outerScope
    applyAttributes env id object
    applyChildren env id object

/-- Applies properties and content of all nodes outside templates. -/
def applyProperties (env : Environment) : Load Unit := do
  let s ← get
  (s.loadedUpwards env).forM (applyNode env)

end Load

/-! ## Laws -/

namespace Site

variable {s s' : Site}

/-- What a name stands for depends on the types, on the namespaces in scope at the site's node and on
that of the node. -/
theorem target_congr (registry : s'.registry = s.registry)
    (lookUp : s'.tree.lookUpNamespace s'.node = s.tree.lookUpNamespace s.node)
    (typeName : (s'.tree.node s'.node).typeName = (s.tree.node s.node).typeName) :
    s'.target = s.target := by
  have owner : s'.ownerNamespace = s.ownerNamespace := by
    unfold ownerNamespace
    rw [lookUp, typeName]
  unfold target attachedTarget
  rw [owner, registry]

/-- A name without a dot is that of a property of the type itself. -/
theorem target_of_undotted {d : TypeDescriptor} {p : Property} {uri : String}
    (plain : '.' ∉ p.name.toList) (declared : d.property? p.name = some p) :
    s.target d ⟨uri, p.name⟩ = .ok p.target := by
  have undotted : splitOwner? p.name = none := by
    rw [splitOwner?, Text.cut?_eq_none fun mem => plain (List.mem_reverse.1 mem)]
    rfl
  rw [target, undotted, declared]

end Site

end MarkupLoader
