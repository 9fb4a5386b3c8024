import MarkupLoader.Load.State

/-!
# Pruning what may be ignored

Elements and attributes of an ignorable namespace are taken out of the document. The outermost
element and texts stay in any case. A document that declares no namespace ignorable is left as
it is.

Main definition: `NodeTree.prune`.
-/

namespace MarkupLoader.NodeTree

/-- Whether a node may be taken out. -/
def isPrunable (t : NodeTree) (id : NodeId) : Bool :=
  match (t.node id).kind with
  | .element => t.isIgnorableNode id
  | .property _ => t.isIgnorableNode id
  | _ => false

/-- Takes ignorable attributes from a node. -/
def pruneAttributes (t : NodeTree) (id : NodeId) : NodeTree :=
  t.setAttributes id ((t.node id).attributes.filter fun a => !t.isIgnorable a.name.namespaceUri)

/-- Takes ignorable elements out of the tree. -/
def pruneNodes (t : NodeTree) : NodeTree :=
  ((t.preorder t.isIgnorableNode).filter t.isPrunable).foldl detach t

/-- Takes ignorable elements out of the tree and ignorable attributes from what is left. -/
def prune (t : NodeTree) : NodeTree :=
  if t.ignorable.isEmpty then t
  else
    let kept := t.pruneNodes
    kept.reachable.foldl pruneAttributes kept

/-! ## Laws -/

/-- Without ignorable namespaces nothing is pruned. -/
theorem prune_eq_self {t : NodeTree} (h : t.ignorable = []) : t.prune = t := by
  simp [prune, h]

end MarkupLoader.NodeTree
