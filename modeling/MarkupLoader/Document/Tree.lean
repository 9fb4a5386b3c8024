import MarkupLoader.Document.Forest

/-!
# Node trees

A tree keeps its nodes in an array, and a node is named by its place there. The outermost element
has place 0. Nodes that have been detached keep their place and are merely no longer listed as
anybody's child.

* **Walks** go down: `preorder` lists a node before its children and is driven by a worklist,
  `postorder` lists it after them and follows the children. Both can be told not to enter some
  nodes.
* **Links** go up: `linkParents` writes the parent of every node that can be reached, and
  `ancestors` follows what was written.
* **`extract`** makes a subtree a document of its own that means the same: the prefixes declared
  around it are declared at its new outermost element.

Children form no cycle, so no path is longer than the number of nodes; that number bounds the
walks.

Main statements: `size_ofForest`, `node_modify`, `node_modify_of_ne`.
-/

namespace MarkupLoader

/-- A document: its nodes, and the namespaces that a reader without knowledge of them may
ignore. -/
structure NodeTree where
  nodes : Array Node
  ignorable : List String
deriving DecidableEq, Repr, Inhabited

namespace NodeTree

/-- The place of the outermost element. -/
def root : NodeId := 0

/-- The tree of an outermost element and what stands below it. -/
def ofForest (body : NodeBody) (below : Forest) (ignorable : List String) : NodeTree :=
  ⟨(⟨body, below.roots 1, none⟩ :: below.nodes 1).toArray, ignorable⟩

/-- The number of nodes, those that cannot be reached included. -/
def size (t : NodeTree) : Nat := t.nodes.size

/-- The node at a place. -/
def node (t : NodeTree) (id : NodeId) : Node := t.nodes[id]?.getD default

/-- The node at a place replaced by what `change` makes of it. -/
def modify (t : NodeTree) (id : NodeId) (change : Node → Node) : NodeTree :=
  { t with nodes := t.nodes.modify id change }

/-- A node added without a place among the others' children; its own place comes first. -/
def add (t : NodeTree) (body : NodeBody) : NodeId × NodeTree :=
  (t.size, { t with nodes := t.nodes.push ⟨body, [], none⟩ })

/-- A node made the last child of another. Parents are not linked by this. -/
def appendChild (t : NodeTree) (parent child : NodeId) : NodeTree :=
  t.modify parent fun n => { n with children := n.children ++ [child] }

/-- The attributes of a node replaced. -/
def setAttributes (t : NodeTree) (id : NodeId) (attributes : List Attribute) : NodeTree :=
  t.modify id fun n => { n with attributes := attributes }

/-- Whether a namespace may be ignored. -/
def isIgnorable (t : NodeTree) (uri : String) : Bool := t.ignorable.contains uri

/-- Whether the element at a place is of a namespace that may be ignored. -/
def isIgnorableNode (t : NodeTree) (id : NodeId) : Bool :=
  t.isIgnorable (t.node id).typeName.namespaceUri

/-- The elements directly inside a node. -/
def elements (t : NodeTree) (id : NodeId) : List NodeId :=
  (t.node id).children.filter fun child => (t.node child).isElement

/-! ## Walks down -/

/-- The nodes at and below a place, each after its children, no further down than `depth`
levels. Nodes in `skip` are listed and not entered. -/
def postorderFrom (t : NodeTree) (skip : NodeId → Bool) : Nat → NodeId → List NodeId
  | 0, id => [id]
  | depth + 1, id =>
    (if skip id then [] else (t.node id).children.flatMap (t.postorderFrom skip depth)) ++ [id]

/-- The nodes that can be reached, each after its children. Nodes in `skip` are listed and not
entered. -/
def postorder (t : NodeTree) (skip : NodeId → Bool) : List NodeId :=
  t.postorderFrom skip t.size root

/-- Takes the first node of the worklist, puts its children in its place, and goes on, `fuel`
times. -/
def preorderFrom (t : NodeTree) (skip : NodeId → Bool) : Nat → List NodeId → List NodeId
  | 0, _ => []
  | _, [] => []
  | fuel + 1, id :: pending =>
    id :: t.preorderFrom skip fuel
      ((if skip id then [] else (t.node id).children) ++ pending)

/-- The nodes that can be reached, each before its children. Nodes in `skip` are listed and not
entered. -/
def preorder (t : NodeTree) (skip : NodeId → Bool) : List NodeId :=
  t.preorderFrom skip (t.postorder fun _ => false).length [root]

/-- All nodes that can be reached, in document order. -/
def reachable (t : NodeTree) : List NodeId := t.preorder fun _ => false

/-! ## Links up -/

/-- Writes a node as the parent of its children. -/
def linkChildren (t : NodeTree) (id : NodeId) : NodeTree :=
  (t.node id).children.foldl
    (fun t child => t.modify child fun n => { n with parent := some id }) t

/-- Writes the parents of all nodes that can be reached. A node is handled before those below
it, so where two nodes list the same child, the one that comes last is its parent. -/
def linkParents (t : NodeTree) : NodeTree :=
  (t.postorder fun _ => false).reverse.foldl linkChildren
    (t.modify root fun n => { n with parent := none })

/-- The nodes above a place, nearest first, at most `fuel` of them. -/
def ancestorsFrom (t : NodeTree) : Nat → NodeId → List NodeId
  | 0, _ => []
  | fuel + 1, id =>
    match (t.node id).parent with
    | none => []
    | some parent => parent :: t.ancestorsFrom fuel parent

/-- The nodes above a place, nearest first. -/
def ancestors (t : NodeTree) (id : NodeId) : List NodeId := t.ancestorsFrom t.size id

/-- The place itself and the nodes above it, nearest first. -/
def selfAndAncestors (t : NodeTree) (id : NodeId) : List NodeId := id :: t.ancestors id

/-- A node no longer listed among the children of its parent. -/
def detach (t : NodeTree) (id : NodeId) : NodeTree :=
  match (t.node id).parent with
  | none => t
  | some parent => t.modify parent fun n => { n with children := n.children.filter (· != id) }

/-- The namespace that a prefix stands for at a place: the nearest declaration counts. -/
def lookUpNamespace (t : NodeTree) (id : NodeId) (key : String) : Option String :=
  (t.selfAndAncestors id).findSome? fun n => (t.node n).namespaces.lookup key

/-! ## Subtrees -/

/-- The forest of some nodes and what is below them, no further down than `depth` levels. -/
def forestOf (t : NodeTree) : Nat → List NodeId → Forest
  | 0, _ => .nil
  | depth + 1, ids =>
    ids.foldr
      (fun id siblings => .cons (t.node id).toNodeBody (t.forestOf depth (t.node id).children)
        siblings)
      .nil

/-- The declarations of an inner element, followed by those of an outer one that it does not
override. -/
def declareOuter (inner outer : List (String × String)) : List (String × String) :=
  outer.foldl
    (fun declared (key, uri) =>
      -- What is declared further in hides the outer declaration.
      if declared.any (·.1 == key) then declared else declared ++ [(key, uri)])
    inner

/-- The declarations in force at a place. -/
def declarationsAt (t : NodeTree) (id : NodeId) : List (String × String) :=
  (t.ancestors id).foldl (fun declared outer => declareOuter declared (t.node outer).namespaces)
    (t.node id).namespaces

/-- The subtree at a place as a tree of its own. -/
def extract (t : NodeTree) (id : NodeId) : NodeTree :=
  ofForest
    { (t.node id).toNodeBody with kind := .root, namespaces := t.declarationsAt id }
    (t.forestOf t.size (t.node id).children) t.ignorable

/-! ## Laws -/

/-- A tree has its outermost element and the nodes below it. -/
theorem size_ofForest (body : NodeBody) (below : Forest) (ignorable : List String) :
    (ofForest body below ignorable).size = below.size + 1 := by
  simp [ofForest, size, Forest.length_nodes]

/-- Changing nodes adds none. -/
@[simp]
theorem size_modify (t : NodeTree) (id : NodeId) (change : Node → Node) :
    (t.modify id change).size = t.size := by
  simp [modify, size]

/-- The change is seen at its place. -/
theorem node_modify {t : NodeTree} {id : NodeId} (change : Node → Node) (h : id < t.size) :
    (t.modify id change).node id = change (t.node id) := by
  have : id < t.nodes.size := h
  simp [modify, node, Array.getElem_modify, this]

/-- The change is seen at no other place. -/
theorem node_modify_of_ne {t : NodeTree} {id other : NodeId} (change : Node → Node)
    (h : other ≠ id) : (t.modify id change).node other = t.node other := by
  simp [modify, node, Array.getElem?_modify, Ne.symm h]

end NodeTree

end MarkupLoader
