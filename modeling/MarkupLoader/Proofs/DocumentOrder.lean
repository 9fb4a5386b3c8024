import MarkupLoader.Proofs.Building
import MarkupLoader.Proofs.Declarations

/-!
# Documents in order

A reader gives a node its place when it comes to the node, and puts it under the element that is open
there. So **the places are the document in order** (`NodeTree.InDocumentOrder`): going from node to child and
from child to child comes by all of them, from the first one to the last one.

A reader does so at one tree (`Builder`), and its nodes get their children one at a time, whenever a
text or an element inside ends. A forest that is laid out at once has the same nodes, so the order
is told of that: whatever the tree that it is laid out in, the walk through the forest comes by the
places that the forest takes (`Forest.descend_laid`).

Main results: `Forest.increasing_roots`, `Forest.descend_laid`, `NodeTree.inDocumentOrder_of_read`.
-/

namespace MarkupLoader

/-- **A tree whose places are the document in order.** Every node but the outermost one is listed
exactly once, nodes list later ones in increasing order, texts list none, and the walk that skips
nothing comes by the places one after the other. -/
structure NodeTree.InDocumentOrder (t : NodeTree) : Prop where
  nonempty : root < t.size
  later : ∀ p c : NodeId, c ∈ (t.node p).children → p < c ∧ c < t.size
  increasing : ∀ p, (t.node p).children.Pairwise (· < ·)
  listed : ∀ c : NodeId, c ≠ root → c < t.size →
    ∃ p, (t.node p).children.count c = 1 ∧ ∀ q, q ≠ p → c ∉ (t.node q).children
  leaf : ∀ id content, (t.node id).kind = .text content → (t.node id).children = []
  walk : (t.preorder fun _ => false) = List.range t.size

namespace Forest

/-- The outermost nodes of a forest stand in increasing order, what is below them in between. -/
theorem increasing_roots (f : Forest) (base : Nat) : (f.roots base).Pairwise (· < ·) := by
  induction f generalizing base with
  | nil => exact .nil
  | cons body children siblings _ after =>
    refine .cons (fun id mem => ?_) (after _)
    exact Nat.lt_of_lt_of_le (by omega) (mem_roots mem).1

/-- What a node of a layout lists is the outermost nodes of a forest. -/
theorem children_of_mem_nodes {f : Forest} {base : NodeId} {n : Node} (mem : n ∈ f.nodes base) :
    ∃ (g : Forest) (place : NodeId), n.children = g.roots place := by
  induction f generalizing base with
  | nil => cases mem
  | cons body children siblings below after =>
    rcases List.mem_cons.1 mem with rfl | mem
    · exact ⟨children, base + 1, rfl⟩
    · exact (List.mem_append.1 mem).elim below after

/-- **The walk through a forest comes by the places that it takes**, one after the other. -/
theorem descend_laid {t : NodeTree} {level : NodeId → Nat} (layers : t.Layers level) {f : Forest}
    {base : NodeId} (laid : (List.range' base f.size).map t.node = f.nodes base) :
    (f.roots base).flatMap (t.descend (fun _ => false) t.size) = List.range' base f.size := by
  induction f generalizing base with
  | nil => rfl
  | cons body children siblings below after =>
    -- A node is laid out before what is below it, and that before the nodes behind: so is the walk.
    obtain ⟨first, inside, behind⟩ := laid_cons laid
    calc (base :: siblings.roots (base + 1 + children.size)).flatMap
          (t.descend (fun _ => false) t.size)
      _ = (base :: (children.roots (base + 1)).flatMap (t.descend (fun _ => false) t.size)) ++
          (siblings.roots (base + 1 + children.size)).flatMap
            (t.descend (fun _ => false) t.size) := by
        rw [List.flatMap_cons, NodeTree.descend_size layers base, first]
        rfl
      _ = List.range' base (cons body children siblings).size := by
        rw [below inside, after behind, range_size_cons, List.cons_append]

end Forest

namespace NodeTree

variable {text : String} {t : NodeTree}

/-- The walk through a document comes by its places, one after the other. -/
theorem preorder_ofForest (body : NodeBody) (below : Forest) (ignorable : List String) :
    ((ofForest body below ignorable).preorder fun _ => false) =
      List.range (ofForest body below ignorable).size := by
  have layers := (proper_ofForest body below ignorable).layers
  have laid := map_node_ofForest body below ignorable
  calc (ofForest body below ignorable).preorder fun _ => false
    _ = root :: (below.roots 1).flatMap
        ((ofForest body below ignorable).descend (fun _ => false)
          (ofForest body below ignorable).size) := by
      rw [preorder_eq layers, descend_size layers]
      rfl
    _ = List.range (ofForest body below ignorable).size := by
      rw [Forest.descend_laid layers laid, size_ofForest, List.range_eq_range', List.range'_succ]
      rfl

theorem increasing_ofForest (body : NodeBody) (below : Forest) (ignorable : List String)
    (p : NodeId) : ((ofForest body below ignorable).node p).children.Pairwise (· < ·) := by
  by_cases top : p = root
  · rw [top]
    exact below.increasing_roots 1
  by_cases inside : p < (ofForest body below ignorable).size
  · -- What a node lists are the outermost nodes of what is below it.
    obtain ⟨g, place, is⟩ := Forest.children_of_mem_nodes (mem_nodes_of_ofForest top inside)
    rw [is]
    exact g.increasing_roots place
  · rw [node_of_size_le (Nat.le_of_not_lt inside)]
    exact .nil

/-- In a proper tree a node that is reached from above is listed once, and by one node. -/
theorem Proper.exists_listing (proper : t.Proper) {id : NodeId} (inner : id ≠ root)
    (reached : t.Reaches (fun _ => false) root id) :
    ∃ p, (t.node p).children.count id = 1 ∧ ∀ q, q ≠ p → id ∉ (t.node q).children := by
  cases reached with
  | top => exact absurd rfl inner
  | @child p _ _ _ listed =>
    -- The node that it was reached from lists it, and there is no other one.
    refine ⟨p, List.count_eq_one_of_mem (proper.nodup p) listed, fun q other listed' => ?_⟩
    exact other (proper.once q p id listed' listed)

/--
**The places of a document that has been read are the document in order**, and all of them can be
reached. The tree is the one that a reader builds in place.
-/
theorem inDocumentOrder_of_read (read : NodeTree.read text = .ok t) :
    Builder.read text = .ok t ∧ t.InDocumentOrder ∧
      ∀ id, id < t.size ↔ t.Reaches (fun _ => false) root id := by
  have built : Builder.read text = .ok t := by
    rw [Builder.read_eq, read]
    rfl
  have shaped := shaped_of_read read
  obtain ⟨outer, below, ignorable, -, -, -, rfl⟩ := forest_of_read read
  have proper := proper_ofForest outer below ignorable
  have walk := preorder_ofForest outer below ignorable
  -- What the walk comes by is what is reached, and it comes by every place.
  have reached (id : NodeId) : id < (ofForest outer below ignorable).size ↔
      (ofForest outer below ignorable).Reaches (fun _ => false) root id := by
    rw [← mem_preorder proper, walk]
    exact List.mem_range.symm
  refine ⟨built, ⟨proper.nonempty, fun p c listed => ⟨proper.later p c listed,
    proper.inside p c listed⟩, increasing_ofForest _ _ _, fun c inner inside =>
      proper.exists_listing inner ((reached c).1 inside), ?_, walk⟩, reached⟩
  intro id content is
  by_cases top : id = root
  · -- The outermost node is an element.
    rw [top, shaped.root] at is
    cases is
  by_cases inside : id < (ofForest outer below ignorable).size
  · exact shaped.leaf id top inside content is
  · -- Nothing is listed outside the tree, as what is listed comes later and is inside.
    refine List.eq_nil_iff_forall_not_mem.2 fun c listed => inside ?_
    exact Nat.lt_trans (proper.later id c listed) (proper.inside id c listed)

/-- Elements inside each other, a character-data section next to a text, and a comment. -/
theorem inDocumentOrder_of_read_nested :
    let text := "<a xmlns=\"u\"><b>x<![CDATA[y]]><c/></b><!-- --><a.d>z</a.d></a>"
    let t : NodeTree := ⟨#[
      ⟨⟨.root, ⟨"u", "a"⟩, [], [], [("", "u")], ⟨1, 1⟩⟩, [1, 5], none⟩,
      ⟨⟨.element, ⟨"u", "b"⟩, [], [], [], ⟨1, 14⟩⟩, [2, 3, 4], none⟩,
      ⟨.ofText "x" ⟨1, 17⟩, [], none⟩, ⟨.ofText "y" ⟨1, 18⟩, [], none⟩,
      ⟨⟨.element, ⟨"u", "c"⟩, [], [], [], ⟨1, 31⟩⟩, [], none⟩,
      ⟨⟨.property ⟨"u", "a.d"⟩, ⟨"u", "a.d"⟩, [], [], [], ⟨1, 47⟩⟩, [6], none⟩,
      ⟨.ofText "z" ⟨1, 52⟩, [], none⟩], []⟩
    NodeTree.read text = .ok t ∧ t.InDocumentOrder ∧
      (t.preorder fun _ => false) = [0, 1, 2, 3, 4, 5, 6] := by
  intro text t
  have read : NodeTree.read text = .ok t := read_of_toOption (by decide +kernel)
  obtain ⟨-, ordered, -⟩ := inDocumentOrder_of_read read
  exact ⟨read, ordered, ordered.walk⟩

end NodeTree

end MarkupLoader
