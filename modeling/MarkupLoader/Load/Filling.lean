import MarkupLoader.Load.State

/-!
# Filling dictionaries

The elements inside a dictionary become its entries, each under the key that its `x:Key` gives; of
entries with one key the last one counts.

A property element for a property of dictionary type is filled in the same way. **If its only
element is a dictionary, that is the value** of the property; otherwise its elements go into the
dictionary that the property holds, and one is made if it holds none.

Main definition: `Load.fillResources`.
-/

namespace MarkupLoader

/-- The type of the dictionaries that property elements make. -/
def resourceDictionaryName : QName := ⟨formsNamespace, "ResourceDictionary"⟩

/-- The dictionary that is the only element of a property element, and so the value itself and not
an entry of one. -/
def LoadState.onlyDictionary? (s : LoadState) (id : NodeId) : Option ObjectId :=
  match s.tree.elements id with
  | [single] => (s.context.object? single).filter fun o => s.heap.kind o = .dictionary
  | _ => none

namespace Load

/-- Puts the value of a node into a dictionary under its key. -/
def fillEntry (dictionary : ObjectId) (id : NodeId) : Load Unit := do
  let s ← get
  let node := s.node id
  if !node.isElement then return ()
  match s.context.value? id with
  | none => return ()
  | some value =>
    match node.directiveText? "Key" with
    | some key => modifyHeap (·.putEntry dictionary key value)
    | none =>
      recover (.coercion "x:Key" s!"{node.typeName.localName} in a resource dictionary has no key"
        node.position)

/-- Puts the values of nodes into a dictionary. -/
def fillDictionary (dictionary : ObjectId) (nodes : List NodeId) : Load Unit :=
  nodes.forM (fillEntry dictionary)

/-- The dictionary that a property holds, or a new one that it is made to hold. -/
def dictionaryFor (env : Environment) (owner : ObjectId) (property : String)
    (position : Position) : Load (Option ObjectId) := do
  let s ← get
  let held := (s.heap.get? owner property).filter (s.heap.isOfKind .dictionary)
  match held.bind Value.object? with
  | some id => return some id
  | none =>
    match env.registry.get? resourceDictionaryName with
    | some d =>
      let created ← alloc (.ofType d)
      modifyHeap (·.set owner property (.object created))
      return some created
    | none =>
      recover (.coercion property "no ResourceDictionary type is registered" position)
      return none

/-- Fills a property of dictionary type from the elements of its property element. -/
def fillProperty (env : Environment) (id : NodeId) (owner : ObjectId) (property : String) :
    Load Unit := do
  let s ← get
  match s.onlyDictionary? id with
  | some dictionary => modifyHeap (·.set owner property (.object dictionary))
  | none =>
    match ← dictionaryFor env owner property (s.node id).position with
    | some dictionary => fillDictionary dictionary (s.tree.elements id)
    | none => return ()

/-- Fills the property that a property element stands for, if it is declared to hold a
dictionary by the type of the object around it. -/
def fillPropertyElement (env : Environment) (id : NodeId) (name : QName) : Load Unit := do
  let s ← get
  match (s.node id).parent.bind s.context.object? with
  | none => return ()
  | some owner =>
    let property := Text.afterLast '.' name.localName
    match (s.heap.descriptor owner).property? property with
    | some p => if p.type = .dictionary then fillProperty env id owner property else return ()
    | none => return ()

/-- Fills what a node stands for, if that is a dictionary. -/
def fillNode (env : Environment) (id : NodeId) : Load Unit := do
  let s ← get
  match (s.node id).kind with
  | .text _ => return ()
  | .property name => fillPropertyElement env id name
  | _ =>
    match s.context.object? id with
    | some o => if s.heap.kind o = .dictionary then fillDictionary o (s.node id).children
    | none => return ()

/-- Fills all dictionaries outside templates. -/
def fillResources (env : Environment) : Load Unit := do
  let s ← get
  (s.loaded env).forM (fillNode env)

end Load

end MarkupLoader
