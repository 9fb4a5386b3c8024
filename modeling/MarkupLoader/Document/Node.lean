import MarkupLoader.Name
import MarkupLoader.Position
import MarkupLoader.Expression.Basic

/-!
# Nodes of a document

A node is an element, a property element or a text. **Its body** (`NodeBody`) is what its own
markup says; **the node** adds where it stands: its children and, once it has been linked, its
parent.

An element whose name has a dot in it, or that is `x:Arguments`, is a **property element**: it
holds the value of a property and makes no object of its own.
-/

namespace MarkupLoader

/-- The place of a node in its tree. -/
abbrev NodeId := Nat

/-! ## Attributes -/

/-- The value of an attribute. -/
inductive AttributeValue where
  /-- The text as written. -/
  | raw (text : String)
  /-- A text that stands for itself. -/
  | literal (text : String)
  | expression (expression : Expression)
deriving DecidableEq, Repr, Inhabited

/-- The value of an attribute as a text, unless it is an expression. -/
def AttributeValue.text? : AttributeValue → Option String
  | raw text => some text
  | literal text => some text
  | expression _ => none

/-- An attribute of an element. -/
structure Attribute where
  name : QName
  value : AttributeValue
  position : Position
deriving DecidableEq, Repr, Inhabited

/-! ## Bodies -/

/-- What a node is. -/
inductive NodeKind where
  /-- The outermost element. -/
  | root
  | element
  /-- An element that stands for a property. -/
  | property (name : QName)
  | text (content : String)
deriving DecidableEq, Repr, Inhabited

/-- What the markup of a node says. -/
structure NodeBody where
  kind : NodeKind
  typeName : QName
  /-- The type arguments; empty if none are given. -/
  typeArguments : List QName
  attributes : List Attribute
  /-- The prefixes declared at this element, each with its namespace. -/
  namespaces : List (String × String)
  position : Position
deriving DecidableEq, Repr, Inhabited

namespace NodeBody

/-- A text between elements. -/
def ofText (content : String) (position : Position) : NodeBody :=
  ⟨.text content, default, [], [], [], position⟩

/-- Whether the node makes an object. -/
def isObject (n : NodeBody) : Bool :=
  match n.kind with
  | .root => true
  | .element => true
  | _ => false

/-- Whether the node is an element that is neither outermost nor a property element. -/
def isElement (n : NodeBody) : Bool :=
  match n.kind with
  | .element => true
  | _ => false

/-- The attribute of a given name. -/
def attribute? (n : NodeBody) (name : QName) : Option Attribute :=
  n.attributes.find? (·.name == name)

/-- The attribute that gives a directive of the language. -/
def directive? (n : NodeBody) (directive : String) : Option Attribute :=
  n.attributes.find? (·.name.isDirective directive)

/-- The text that a directive of the language is given. -/
def directiveText? (n : NodeBody) (directive : String) : Option String :=
  (n.directive? directive).bind (·.value.text?)

end NodeBody

/-! ## Nodes -/

/-- A node at its place in a tree. -/
structure Node extends NodeBody where
  children : List NodeId
  /-- The node that lists this one as a child, as of the last time parents were linked. -/
  parent : Option NodeId
deriving DecidableEq, Repr, Inhabited

end MarkupLoader
