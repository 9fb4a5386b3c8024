import MarkupLoader.Document.Tree
import MarkupLoader.Schema.Descriptor

/-!
# The heap

Objects live in a heap and are named by their place in it, so that values can share them and form
cycles. Objects are only ever added: a place is never given to a second object.

* **An object** has a type, and properties, items and entries in the order they came.
* **A template** object also keeps a document, to be instantiated later, and remembers the
  objects around the place where it stands, nearest first. It does not hold them.
* **`Heap.append`** adds a value to a property that holds a collection; **`Heap.resource?`** finds
  an entry in a dictionary, or in the dictionary that an object has as its resources.

Main statements: `object_modify`, `object_modify_of_ne`, `object_alloc`.
-/

namespace MarkupLoader

/-- A document kept for later. -/
structure Template where
  tree : NodeTree
  /-- The objects around the template, nearest first. -/
  outerScope : List ObjectId
deriving Inhabited

/-- An object at run time. -/
structure Object where
  descriptor : TypeDescriptor
  properties : Table String Value
  items : List Value
  entries : Table String Value
  template : Option Template
deriving Inhabited

namespace Object

/-- An object of a type, with nothing in it. -/
def ofType (d : TypeDescriptor) : Object := ⟨d, .empty, [], .empty, none⟩

/-- The kind of the object's type. -/
def kind (o : Object) : TypeKind := o.descriptor.kind

/-- The local name of the object's type. -/
def typeName (o : Object) : String := o.descriptor.name.localName

/-- The objects that the object holds: in its properties, its items and its entries. -/
def references (o : Object) : List ObjectId :=
  Value.referencesOf o.properties.values ++ Value.referencesOf o.items ++
    Value.referencesOf o.entries.values

end Object

/-- All objects there are. -/
structure Heap where
  objects : Array Object
  /-- The objects that nothing holds any more. -/
  dead : List ObjectId
deriving Inhabited

namespace Heap

/-- The heap without objects. -/
def empty : Heap := ⟨#[], []⟩

/-- The number of objects that there have been. -/
def size (h : Heap) : Nat := h.objects.size

/-- The object at a place. -/
def object (h : Heap) (id : ObjectId) : Object := h.objects[id]?.getD default

/-- The heap with another object; its place comes first. -/
def alloc (h : Heap) (o : Object) : ObjectId × Heap :=
  (h.size, { h with objects := h.objects.push o })

/-- The object at a place replaced by what `change` makes of it. -/
def modify (h : Heap) (id : ObjectId) (change : Object → Object) : Heap :=
  { h with objects := h.objects.modify id change }

/-! ## Reading -/

/-- The type of an object. -/
def descriptor (h : Heap) (id : ObjectId) : TypeDescriptor := (h.object id).descriptor

/-- The kind of an object. -/
def kind (h : Heap) (id : ObjectId) : TypeKind := (h.object id).kind

/-- Whether a value is an object of a kind. -/
def isOfKind (h : Heap) (kind : TypeKind) : Value → Bool
  | .object id => h.kind id = kind
  | _ => false

/-- The value of a property of an object. -/
def get? (h : Heap) (id : ObjectId) (property : String) : Option Value :=
  (h.object id).properties.get? property

/-- The entry of an object under a key. -/
def entry? (h : Heap) (id : ObjectId) (key : String) : Option Value :=
  (h.object id).entries.get? key

/-- The name of the property that holds an object's resources. -/
def resourcesProperty : String := "Resources"

/-- The resource of an object under a key: an entry of its own, if it is a dictionary, or else an
entry of the other object that it has as its resources. -/
def resource? (h : Heap) (id : ObjectId) (key : String) : Option Value :=
  let own := if h.kind id = .dictionary then h.entry? id key else none
  own.or <|
    match h.get? id resourcesProperty with
    | some (.object resources) => if resources = id then none else h.entry? resources key
    | _ => none

/-- The wording of the kind of a value in a message. -/
def kindName (h : Heap) : Value → String
  | .null => "null"
  | .bool _ => "bool"
  | .int _ => "int"
  | .float _ => "float"
  | .string _ => "string"
  | .type _ => "type"
  | .list _ => "list"
  | .object id => (h.object id).typeName

/-! ## Writing -/

/-- Sets a property of an object. -/
def set (h : Heap) (id : ObjectId) (property : String) (value : Value) : Heap :=
  h.modify id fun o => { o with properties := o.properties.insert property value }

/-- Adds an item to an object. -/
def addItem (h : Heap) (id : ObjectId) (value : Value) : Heap :=
  h.modify id fun o => { o with items := o.items ++ [value] }

/-- Puts an entry of an object under a key. -/
def putEntry (h : Heap) (id : ObjectId) (key : String) (value : Value) : Heap :=
  h.modify id fun o => { o with entries := o.entries.insert key value }

/-- Adds a value to a property that is a collection: to the object of collection kind that it
holds, or to its list, which is made if the property has no value. Any other value, given back by
its kind, takes no additions. -/
def append (h : Heap) (id : ObjectId) (property : String) (value : Value) : Except String Heap :=
  match h.get? id property with
  | none => .ok (h.set id property (.list [value]))
  | some .null => .ok (h.set id property (.list [value]))
  | some (.list items) => .ok (h.set id property (.list (items ++ [value])))
  | some held =>
    match held with
    | .object collection =>
      if h.kind collection = .collection then .ok (h.addItem collection value)
      else .error (h.kindName held)
    | _ => .error (h.kindName held)

/-- The wording of a value that takes no additions, given its kind. -/
def notACollection (kindName : String) : String :=
  s!"property holds {kindName}, not a collection"

/-! ## Laws -/

/-- Changing objects adds none. -/
@[simp]
theorem size_modify (h : Heap) (id : ObjectId) (change : Object → Object) :
    (h.modify id change).size = h.size := by
  simp [modify, size]

/-- Outside the heap there is nothing. -/
theorem object_of_size_le {h : Heap} {id : ObjectId} (outside : h.size ≤ id) :
    h.object id = default := by
  have outside : h.objects.size ≤ id := outside
  simp [object, outside]

/-- A change is seen at its place. -/
theorem object_modify {h : Heap} {id : ObjectId} (change : Object → Object)
    (inside : id < h.size) : (h.modify id change).object id = change (h.object id) := by
  have : id < h.objects.size := inside
  simp [modify, object, Array.getElem_modify, this]

/-- A change is seen at no other place. -/
theorem object_modify_of_ne {h : Heap} {id other : ObjectId} (change : Object → Object)
    (ne : other ≠ id) : (h.modify id change).object other = h.object other := by
  simp [modify, object, Array.getElem?_modify, Ne.symm ne]

/-- A new object is found at its place. -/
@[simp]
theorem object_alloc (h : Heap) (o : Object) : (h.alloc o).2.object (h.alloc o).1 = o := by
  simp [alloc, object, size]

/-- There is one object more. -/
theorem size_alloc (h : Heap) (o : Object) : (h.alloc o).2.size = h.size + 1 := by
  simp [alloc, size]

/-- The objects that were there stay. -/
theorem object_alloc_of_lt {h : Heap} {o : Object} {id : ObjectId} (inside : id < h.size) :
    (h.alloc o).2.object id = h.object id := by
  have : id < h.objects.size := inside
  simp [alloc, object, Array.getElem?_push, Nat.ne_of_lt this]

end Heap

end MarkupLoader
