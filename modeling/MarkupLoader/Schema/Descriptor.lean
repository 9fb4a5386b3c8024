import MarkupLoader.Schema.PropertyType
import MarkupLoader.Table
import MarkupLoader.Value

/-!
# Type descriptors

A descriptor says what the objects of a type are like: their properties, what their content is
assigned to, how they are made, and which types they count as.

* **Declaring** a property again (`property`) replaces the declaration and moves it to the end.
* **Deriving** from a base (`derivedFrom`) takes over what the type does not have itself:
  properties, the content property and the kind, but no way of being made. A type counts as
  every type that its base counts as.

Main statements: `property?_property_self`, `isAssignableTo_derivedFrom`.
-/

namespace MarkupLoader

/-- How the objects of a type treat their content. -/
inductive TypeKind where
  | plain
  /-- Content becomes items. -/
  | collection
  /-- Content becomes entries under keys. -/
  | dictionary
  /-- Content is kept as a document, to be instantiated later. -/
  | template
deriving DecidableEq, Repr, Inhabited

/-- A declared property. -/
structure Property where
  name : String
  type : PropertyType
deriving DecidableEq, Repr, Inhabited

/-- A named way to make an object from arguments: it gives the properties of the new object, in
order, or a reason why it cannot. It is told how to name the kind of a value. -/
abbrev Factory := (Value → String) → List Value → Except String (List (String × Value))

/-- A type of objects. -/
structure TypeDescriptor where
  name : QName
  kind : TypeKind
  properties : List Property
  /-- Properties that this type declares for objects of other types. -/
  attached : List Property
  contentProperty : Option String
  /-- The properties that the arguments of the constructor go to. -/
  constructorParameters : List String
  factories : Table String Factory
  /-- The local names of the types this one is derived from, nearest first. -/
  ancestry : List String
deriving Inhabited

namespace TypeDescriptor

/-! ## Declaring -/

/-- A plain type without properties. -/
def named (namespaceUri localName : String) : TypeDescriptor :=
  ⟨⟨namespaceUri, localName⟩, .plain, [], [], none, [], .empty, []⟩

/-- The declarations with one more, which replaces one of the same name. -/
def declare (declared : List Property) (name : String) (type : PropertyType) : List Property :=
  declared.filter (·.name != name) ++ [⟨name, type⟩]

/-- The type with a kind. -/
def withKind (d : TypeDescriptor) (kind : TypeKind) : TypeDescriptor := { d with kind := kind }

/-- The type with a property. -/
def property (d : TypeDescriptor) (name : String) (type : PropertyType) : TypeDescriptor :=
  { d with properties := declare d.properties name type }

/-- The type with a property for objects of other types. -/
def attachedProperty (d : TypeDescriptor) (name : String) (type : PropertyType) :
    TypeDescriptor :=
  { d with attached := declare d.attached name type }

/-- The type with the property that content is assigned to. -/
def content (d : TypeDescriptor) (name : String) : TypeDescriptor :=
  { d with contentProperty := some name }

/-- The type with a constructor whose arguments go to the named properties. -/
def constructor (d : TypeDescriptor) (parameters : List String) : TypeDescriptor :=
  { d with constructorParameters := parameters }

/-- The type with a factory. -/
def factory (d : TypeDescriptor) (name : String) (make : Factory) : TypeDescriptor :=
  { d with factories := d.factories.insert name make }

/-! ## Asking -/

/-- The declaration of a property. -/
def property? (d : TypeDescriptor) (name : String) : Option Property :=
  d.properties.find? (·.name == name)

/-- The declaration of a property for objects of other types. -/
def attached? (d : TypeDescriptor) (name : String) : Option Property :=
  d.attached.find? (·.name == name)

/-- Whether the type is, or is derived from, a type of the given local name. -/
def isAssignableTo (d : TypeDescriptor) (localName : String) : Bool :=
  d.name.localName == localName || d.ancestry.contains localName

/-! ## Deriving -/

/-- The declarations of a type followed by those of its base that it does not override. -/
def inherit (own base : List Property) : List Property :=
  base.foldl (fun all p => if all.any (·.name == p.name) then all else all ++ [p]) own

/-- The type derived from a base. -/
def derivedFrom (d base : TypeDescriptor) : TypeDescriptor :=
  { d with
    properties := inherit d.properties base.properties
    contentProperty := d.contentProperty.or base.contentProperty
    kind := if d.kind = .plain then base.kind else d.kind
    ancestry := d.ancestry ++ base.name.localName :: base.ancestry }

/-! ## Laws -/

/-- A declared property is found with the type it was declared with last. -/
theorem property?_property_self (d : TypeDescriptor) (name : String) (type : PropertyType) :
    (d.property name type).property? name = some ⟨name, type⟩ := by
  have none_left : (d.properties.filter (·.name != name)).find? (·.name == name) = none := by
    simp
  simp [property, property?, declare, List.find?_append, none_left]

/-- A derived type counts as what it counted as before and as what its base counts as. -/
theorem isAssignableTo_derivedFrom (d base : TypeDescriptor) (localName : String) :
    (d.derivedFrom base).isAssignableTo localName =
      (d.isAssignableTo localName || base.isAssignableTo localName) := by
  simp only [isAssignableTo, derivedFrom, List.contains_eq_mem, List.mem_append, List.mem_cons,
    Bool.decide_or, Bool.or_assoc]
  congr 2
  rw [Bool.beq_comm]
  rfl

end TypeDescriptor

end MarkupLoader
