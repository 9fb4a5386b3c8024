import MarkupLoader.Expression.Reader
import MarkupLoader.Load.State

/-!
# Expanding attributes

The attributes of a document are read as texts; expansion finds out which of them are
expressions, looks up their namespaces and checks their extensions. Nothing is evaluated.

* **Directives** of the language are always texts.
* Elements and attributes of an **ignorable** namespace stay as they are, and nothing below such
  an element is entered.
* An attribute that cannot be expanded is dropped, if the load tolerates it.

Main definition: `Load.expandMarkup`.
-/

namespace MarkupLoader

namespace NodeTree

/-- Reads an expression at a place: looks up its namespaces and checks its extensions. -/
def settle (t : NodeTree) (extensions : Extensions) (id : NodeId) (x : Expression) :
    Except String Expression :=
  match x.lookUp (t.lookUpNamespace id) with
  | (_, some missing) => .error (undeclaredPrefix missing)
  | (x, none) =>
    match extensions.check x with
    | .error name => .error (unknownExtension name)
    | .ok () => .ok x

/-- Expands the value of an attribute that is an ordinary text. -/
def expandText (t : NodeTree) (extensions : Extensions) (id : NodeId) (text : String) :
    Except String AttributeValue :=
  match AttributeText.read text with
  | .error fault => .error fault.message
  | .ok (.plain text) => .ok (.literal text)
  | .ok (.escaped text) => .ok (.literal text)
  | .ok (.expression x) => (t.settle extensions id x).map .expression

/-- Expands an attribute of the node at a place. -/
def expandAttribute (t : NodeTree) (extensions : Extensions) (id : NodeId) (a : Attribute) :
    Except LoadError Attribute :=
  match a.value with
  | .literal _ => .ok a
  | .expression _ => .ok a
  | .raw text =>
    if t.isIgnorable a.name.namespaceUri then .ok a
    else if isLanguage a.name.namespaceUri then .ok { a with value := .literal text }
    else
      match t.expandText extensions id text with
      | .ok value => .ok { a with value := value }
      | .error reason => .error (.expression text reason a.position)

end NodeTree

namespace Load

/-- Expands the attributes of a node that are left, after those in `done`. -/
def expandAttributes (env : Environment) (id : NodeId) :
    List Attribute → List Attribute → Load Unit
  | done, [] => modifyTree (·.setAttributes id done)
  | done, a :: rest => do
    let s ← get
    match s.tree.expandAttribute env.extensions id a with
    | .ok a => expandAttributes env id (done ++ [a]) rest
    | .error error =>
      modifyTree (·.setAttributes id (done ++ a :: rest))
      recover error
      expandAttributes env id done rest

/-- Expands the attributes of a node, unless its namespace is ignorable. -/
def expandNode (env : Environment) (id : NodeId) : Load Unit := do
  let s ← get
  if s.tree.isIgnorableNode id then return ()
  expandAttributes env id [] (s.node id).attributes

/-- Expands the attributes of all nodes. -/
def expandMarkup (env : Environment) : Load Unit := do
  let s ← get
  (s.tree.preorder s.tree.isIgnorableNode).forM (expandNode env)

end Load

end MarkupLoader
