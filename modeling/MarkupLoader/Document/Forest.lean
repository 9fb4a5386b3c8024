import MarkupLoader.Document.Node

/-!
# Forests

The nodes below an element, as a value of their own: a forest is empty, or a first node with the
forest below it and the forest of its later siblings. **`Forest.nodes`** lays a forest out in
document order: a node, then all that is below it, then its siblings.

Main statements: `length_nodes`, `mem_roots`.
-/

namespace MarkupLoader

/-- A sequence of nodes, each with the nodes below it. -/
inductive Forest where
  | nil
  | cons (body : NodeBody) (children siblings : Forest)
deriving DecidableEq, Repr, Inhabited

namespace Forest

/-- The number of nodes. -/
def size : Forest → Nat
  | nil => 0
  | cons _ children siblings => 1 + children.size + siblings.size

/-- The places of the outermost nodes when the forest is laid out from place `base` on. -/
def roots (base : NodeId) : Forest → List NodeId
  | nil => []
  | cons _ children siblings => base :: siblings.roots (base + 1 + children.size)

/-- The nodes of the forest laid out in document order from place `base` on, with no parents
linked. -/
def nodes (base : NodeId) : Forest → List Node
  | nil => []
  | cons body children siblings =>
    ⟨body, children.roots (base + 1), none⟩ :: (children.nodes (base + 1) ++
      siblings.nodes (base + 1 + children.size))

/-! ## Laws -/

/-- Laying out keeps the number of nodes. -/
theorem length_nodes (f : Forest) (base : NodeId) : (f.nodes base).length = f.size := by
  induction f generalizing base with
  | nil => rfl
  | cons body children siblings below after =>
    simp [nodes, size, below, after]
    omega

/-- Every place of an outermost node lies in the range that the layout takes. -/
theorem mem_roots {f : Forest} {base id : Nat} (h : id ∈ f.roots base) :
    base ≤ id ∧ id < base + f.size := by
  induction f generalizing base with
  | nil => simp [roots] at h
  | cons body children siblings below after =>
    simp only [roots, List.mem_cons, size] at h ⊢
    rcases h with rfl | h
    · omega
    · have := after h
      omega

end Forest

end MarkupLoader
