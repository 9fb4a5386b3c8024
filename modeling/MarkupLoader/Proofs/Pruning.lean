import Mathlib.Data.Finset.Card
import Mathlib.Logic.Relation
import MarkupLoader.Load.Pruning
import MarkupLoader.Proofs.Links

/-!
# Pruning any tree

What pruning does to a tree of which nothing is known but that it has no cycles
(`NodeTree.Acyclic`): neither that its nodes know their parents nor that each of them is listed
once.

* **A node is taken from its parent**, the node that it is linked to. Other nodes that list it go
  on listing it (`keptChildren`).
* **Attributes are sifted** (`sift`) where they can still be reached, and stay as they are on nodes
  that cannot.
* What is taken out may be ignored, so that a walk that enters nothing of the kind comes to the same
  nodes before and after (`filter_preorder_prune`).

Attributes have no say in this: trees that differ in their attributes only (`Retouches`) are pruned
alike.

Main results: `node_prune`, `prune_prune`, `prune_setAttributes`, `filter_preorder_prune`.
-/

namespace MarkupLoader.NodeTree

variable {t u : NodeTree}

/-! ## Trees without cycles -/

/-- A tree whose nodes are all there, and none of them below itself. -/
structure Acyclic (t : NodeTree) : Prop where
  nonempty : 0 < t.size
  inside : ∀ p c, c ∈ (t.node p).children → c < t.size
  acyclic : ∀ id, ¬ Relation.TransGen (fun p c => c ∈ (t.node p).children) id id

theorem Proper.acyclic (proper : t.Proper) : t.Acyclic where
  nonempty := proper.nonempty
  inside := proper.inside
  acyclic id cycle := by
    have later : ∀ {a b : Nat}, Relation.TransGen (fun p c => c ∈ (t.node p).children) a b →
        a < b := by
      intro a b path
      induction path with
      | single listed => exact proper.later _ _ listed
      | tail _ listed before => exact Nat.lt_trans before (proper.later _ _ listed)
    exact Nat.lt_irrefl _ (later cycle)

open Classical in
/-- A level for every node: the number of nodes that it is below. -/
theorem Acyclic.layers (acyclic : t.Acyclic) : ∃ level, t.Layers level := by
  let above (id : NodeId) : Finset NodeId := (Finset.range t.size).filter fun a =>
    Relation.TransGen (fun p c => c ∈ (t.node p).children) a id
  refine ⟨fun id => (above id).card, fun p c listed => ?_, fun p c listed => ?_⟩
  · -- Whatever a node is below, its children are below, and below the node as well.
    have insideP : p < t.size := (Array.getElem?_eq_some_iff.1 (getElem?_of_listed listed)).1
    refine Finset.card_lt_card ⟨fun a mem => ?_, fun subset => ?_⟩
    · obtain ⟨inside, path⟩ := Finset.mem_filter.1 mem
      exact Finset.mem_filter.2 ⟨inside, path.tail listed⟩
    · have mem : p ∈ above c := Finset.mem_filter.2 ⟨Finset.mem_range.2 insideP, .single listed⟩
      exact acyclic.acyclic p (Finset.mem_filter.1 (subset mem)).2
  · -- A child is not below itself, so it is not below all nodes.
    have fewer : (above c).card < (Finset.range t.size).card := by
      refine Finset.card_lt_card ⟨Finset.filter_subset _ _, fun subset => ?_⟩
      have mem := subset (Finset.mem_range.2 (acyclic.inside p c listed))
      exact acyclic.acyclic c (Finset.mem_filter.1 mem).2
    rwa [Finset.card_range] at fewer

/-! ## Trees with other attributes -/

theorem node_setAttributes (t : NodeTree) (id other : NodeId) (attributes : List Attribute) :
    (t.setAttributes id attributes).node other =
      { t.node other with attributes :=
          if other = id ∧ id < t.size then attributes else (t.node other).attributes } := by
  by_cases here : other = id
  · subst here
    by_cases inside : other < t.size
    · rw [setAttributes, node_modify _ inside, if_pos ⟨rfl, inside⟩]
    · rw [if_neg fun h => inside h.2, setAttributes,
        node_of_size_le (by simpa using Nat.le_of_not_lt inside),
        node_of_size_le (Nat.le_of_not_lt inside)]
  · rw [setAttributes, node_modify_of_ne _ here, if_neg fun h => here h.1]

theorem setAttributes_setAttributes (t : NodeTree) (id : NodeId) (first second : List Attribute) :
    (t.setAttributes id first).setAttributes id second = t.setAttributes id second := by
  have size : ((t.setAttributes id first).setAttributes id second).size =
      (t.setAttributes id second).size := by simp [setAttributes]
  refine eq_of_node size rfl fun other => ?_
  rw [node_setAttributes, node_setAttributes, node_setAttributes,
    show (t.setAttributes id first).size = t.size from size_modify _ _ _]
  split <;> rfl

/-- A tree that differs from another one in its attributes only. -/
structure Retouches (t u : NodeTree) : Prop where
  size : u.size = t.size
  ignorable : u.ignorable = t.ignorable
  node : ∀ id, u.node id = { t.node id with attributes := (u.node id).attributes }

theorem Retouches.refl (t : NodeTree) : t.Retouches t := ⟨rfl, rfl, fun _ => rfl⟩

theorem Retouches.trans {v : NodeTree} (first : t.Retouches u) (second : u.Retouches v) :
    t.Retouches v :=
  ⟨second.size.trans first.size, second.ignorable.trans first.ignorable, fun id => by
    rw [second.node id, first.node id]⟩

theorem retouches_setAttributes (t : NodeTree) (id : NodeId) (attributes : List Attribute) :
    t.Retouches (t.setAttributes id attributes) :=
  ⟨size_modify _ _ _, rfl, fun other => by rw [node_setAttributes]⟩

section Retouching

variable (retouches : t.Retouches u)
include retouches

theorem Retouches.children (id : NodeId) : (u.node id).children = (t.node id).children := by
  rw [retouches.node id]

theorem Retouches.parent (id : NodeId) : (u.node id).parent = (t.node id).parent := by
  rw [retouches.node id]

theorem Retouches.acyclic (acyclic : t.Acyclic) : u.Acyclic where
  nonempty := retouches.size ▸ acyclic.nonempty
  inside p c listed := retouches.size ▸ acyclic.inside p c (retouches.children p ▸ listed)
  acyclic id cycle := acyclic.acyclic id
    (Relation.TransGen.mono (fun p _ listed => retouches.children p ▸ listed) _ _ cycle)

theorem Retouches.isIgnorable : u.isIgnorable = t.isIgnorable := by
  funext uri
  rw [NodeTree.isIgnorable, NodeTree.isIgnorable, retouches.ignorable]

theorem Retouches.isIgnorableNode : u.isIgnorableNode = t.isIgnorableNode := by
  funext id
  rw [NodeTree.isIgnorableNode, NodeTree.isIgnorableNode, retouches.isIgnorable, retouches.node id]

theorem Retouches.isPrunable : u.isPrunable = t.isPrunable := by
  funext id
  unfold NodeTree.isPrunable
  rw [retouches.isIgnorableNode, retouches.node id]

theorem Retouches.preorder (skip : NodeId → Bool) : u.preorder skip = t.preorder skip :=
  preorder_congr retouches.size fun n _ => ⟨retouches.children n, rfl⟩

theorem Retouches.lookUpNamespace (id : NodeId) : u.lookUpNamespace id = t.lookUpNamespace id := by
  refine lookUpNamespace_congr (P := fun _ => True) retouches.size (fun _ _ _ _ => trivial)
    (fun n _ => ⟨retouches.parent n, ?_⟩) trivial
  rw [retouches.node n]

end Retouching

/-! ## What is taken out -/

/-- The nodes that pruning takes out. -/
def prunedNodes (t : NodeTree) : List NodeId :=
  (t.preorder t.isIgnorableNode).filter t.isPrunable

/-- The children that pruning leaves of a node. -/
def keptChildren (t : NodeTree) (p : NodeId) : List NodeId :=
  (t.node p).children.filter fun c => !(t.prunedNodes.contains c && (t.node c).parent == some p)

/-- Only what may be ignored is taken out. -/
theorem isIgnorableNode_of_isPrunable {id : NodeId} (prunable : t.isPrunable id = true) :
    t.isIgnorableNode id = true := by
  unfold isPrunable at prunable
  split at prunable
  · exact prunable
  · exact prunable
  · cases prunable

/-- Where no namespace may be ignored, there is nothing to take out. -/
theorem prunedNodes_eq_nil (none : t.ignorable = []) : t.prunedNodes = [] := by
  refine List.filter_eq_nil_iff.2 fun id _ prunable => ?_
  have ignored := isIgnorableNode_of_isPrunable prunable
  simp [isIgnorableNode, isIgnorable, none] at ignored

/-- A node is detached from its parent and from no other node. -/
theorem node_detach (t : NodeTree) (id p : NodeId) :
    (t.detach id).node p = { t.node p with
      children := (t.node p).children.filter fun c =>
        !(c == id && (t.node c).parent == some p) } := by
  -- Where the node is not taken away, all children stay.
  have idle : (t.node id).parent ≠ some p →
      (t.node p).children.filter (fun c => !(c == id && (t.node c).parent == some p)) =
        (t.node p).children := by
    intro other
    refine List.filter_eq_self.2 fun c _ => ?_
    by_cases same : c = id
    · simp [same, other]
    · simp [same]
  unfold detach
  cases above : (t.node id).parent with
  | none => rw [idle (by rw [above]; exact nofun)]
  | some parent =>
    dsimp only
    by_cases here : p = parent
    · subst here
      by_cases inside : p < t.size
      · rw [node_modify _ inside]
        congr 1
        refine List.filter_congr fun c _ => ?_
        by_cases same : c = id
        · simp [same, above]
        · simp [bne, same]
      · have leaf : t.node p = default := node_of_size_le (Nat.le_of_not_lt inside)
        rw [leaf, node_of_size_le (by simpa using Nat.le_of_not_lt inside)]
        rfl
    · rw [node_modify_of_ne _ here, idle]
      rw [above]
      exact fun same => here (Option.some.inj same).symm

theorem node_foldl_detach (ids : List NodeId) (t : NodeTree) (p : NodeId) :
    (ids.foldl detach t).node p = { t.node p with
      children := (t.node p).children.filter fun c =>
        !(ids.contains c && (t.node c).parent == some p) } := by
  induction ids generalizing t with
  | nil => simp
  | cons id rest ih =>
    have parents : ∀ c, ((t.detach id).node c).parent = (t.node c).parent := fun c => by
      rw [node_detach]
    rw [List.foldl_cons, ih, node_detach, List.filter_filter]
    simp only [parents, List.contains_cons]
    congr 1
    refine List.filter_congr fun c _ => ?_
    cases c == id <;> cases rest.contains c <;> cases (t.node c).parent == some p <;> rfl

theorem size_detach (t : NodeTree) (id : NodeId) : (t.detach id).size = t.size := by
  unfold detach
  split
  · rfl
  · exact size_modify _ _ _

theorem ignorable_detach (t : NodeTree) (id : NodeId) : (t.detach id).ignorable = t.ignorable := by
  unfold detach
  split <;> rfl

theorem node_pruneNodes (t : NodeTree) (p : NodeId) :
    t.pruneNodes.node p = { t.node p with children := t.keptChildren p } :=
  node_foldl_detach t.prunedNodes t p

theorem size_pruneNodes (t : NodeTree) : t.pruneNodes.size = t.size := by
  have each : ∀ (ids : List NodeId) (t : NodeTree), (ids.foldl detach t).size = t.size := by
    intro ids
    induction ids with
    | nil => exact fun _ => rfl
    | cons id rest ih => exact fun t => (ih _).trans (size_detach t id)
  exact each _ t

theorem ignorable_pruneNodes (t : NodeTree) : t.pruneNodes.ignorable = t.ignorable := by
  have each : ∀ (ids : List NodeId) (t : NodeTree),
      (ids.foldl detach t).ignorable = t.ignorable := by
    intro ids
    induction ids with
    | nil => exact fun _ => rfl
    | cons id rest ih => exact fun t => (ih _).trans (ignorable_detach t id)
  exact each _ t

/-! ## What is left of attributes -/

/-- The attributes of a node that pruning leaves. -/
def prunedAttributes (t : NodeTree) (id : NodeId) : List Attribute :=
  (t.node id).attributes.filter fun a => !t.isIgnorable a.name.namespaceUri

/-- Whether pruning takes an attribute away at a place. -/
def drops (t : NodeTree) (id : NodeId) (a : Attribute) : Bool :=
  t.pruneNodes.reachable.contains id && t.isIgnorable a.name.namespaceUri

/-- What pruning would leave of attributes at a place. -/
def sift (t : NodeTree) (id : NodeId) (attributes : List Attribute) : List Attribute :=
  attributes.filter fun a => !t.drops id a

theorem node_foldl_pruneAttributes (ids : List NodeId) (t : NodeTree) (id : NodeId) :
    (ids.foldl pruneAttributes t).node id =
      { t.node id with
        attributes := if id ∈ ids then t.prunedAttributes id else (t.node id).attributes } := by
  induction ids generalizing t with
  | nil => simp
  | cons first rest ih =>
    have step : (t.pruneAttributes first).node id = { t.node id with
        attributes := if id = first ∧ first < t.size then t.prunedAttributes first
          else (t.node id).attributes } := node_setAttributes t first id _
    -- Pruning attributes twice does no more, so it does not matter whether the node comes again.
    have again : (t.pruneAttributes first).prunedAttributes id = t.prunedAttributes id := by
      have names : (t.pruneAttributes first).isIgnorable = t.isIgnorable := rfl
      rw [prunedAttributes, names, step]
      by_cases here : id = first ∧ first < t.size
      · rw [if_pos here, here.1, prunedAttributes, List.filter_filter]
        simp only [Bool.and_self]
      · rw [if_neg here]
        rfl
    rw [List.foldl_cons, ih, again, step]
    by_cases here : id = first
    · subst here
      by_cases inside : id < t.size
      · simp [inside]
      · have bare : (t.node id).attributes = [] := by
          rw [node_of_size_le (Nat.le_of_not_lt inside)]
          rfl
        have none : t.prunedAttributes id = [] := by rw [prunedAttributes, bare]; rfl
        simp [inside, bare, none]
    · simp [here]

theorem size_foldl_pruneAttributes (ids : List NodeId) (t : NodeTree) :
    (ids.foldl pruneAttributes t).size = t.size := by
  induction ids generalizing t with
  | nil => rfl
  | cons first rest ih => exact (ih _).trans (size_modify _ _ _)

theorem ignorable_foldl_pruneAttributes (ids : List NodeId) (t : NodeTree) :
    (ids.foldl pruneAttributes t).ignorable = t.ignorable := by
  induction ids generalizing t with
  | nil => rfl
  | cons first rest ih => exact ih _

/-! ## Pruned trees -/

theorem size_prune (t : NodeTree) : t.prune.size = t.size := by
  unfold prune
  split
  · rfl
  · rw [size_foldl_pruneAttributes, size_pruneNodes]

theorem ignorable_prune (t : NodeTree) : t.prune.ignorable = t.ignorable := by
  unfold prune
  split
  · rfl
  · rw [ignorable_foldl_pruneAttributes, ignorable_pruneNodes]

/-- **What pruning makes of a node**, of whatever tree. -/
theorem node_prune (t : NodeTree) (id : NodeId) :
    t.prune.node id = { t.node id with
      attributes := t.sift id (t.node id).attributes, children := t.keptChildren id } := by
  unfold prune
  split
  case isTrue none =>
    -- Nothing may be ignored, and pruning has not looked at the tree.
    have none := List.isEmpty_iff.1 none
    have all : t.sift id (t.node id).attributes = (t.node id).attributes :=
      List.filter_eq_self.2 fun a _ => by simp [drops, isIgnorable, none]
    have whole : t.keptChildren id = (t.node id).children := by
      unfold keptChildren
      rw [prunedNodes_eq_nil none]
      simp
    rw [all, whole]
  case isFalse =>
    have names : t.pruneNodes.isIgnorable = t.isIgnorable := by
      funext uri
      rw [isIgnorable, isIgnorable, ignorable_pruneNodes]
    rw [node_foldl_pruneAttributes, prunedAttributes, names, node_pruneNodes, sift]
    by_cases reached : id ∈ t.pruneNodes.reachable
    · simp [drops, reached]
    · simp [drops, reached]

theorem isIgnorable_prune (t : NodeTree) : t.prune.isIgnorable = t.isIgnorable := by
  funext uri
  rw [isIgnorable, isIgnorable, ignorable_prune]

theorem isIgnorableNode_prune (t : NodeTree) : t.prune.isIgnorableNode = t.isIgnorableNode := by
  funext id
  rw [isIgnorableNode, isIgnorableNode, isIgnorable_prune, node_prune]

theorem isPrunable_prune (t : NodeTree) : t.prune.isPrunable = t.isPrunable := by
  funext id
  unfold isPrunable
  rw [isIgnorableNode_prune, node_prune]

/-- Prefixes stand for the same namespaces everywhere, also at what has been taken out. -/
theorem lookUpNamespace_prune (t : NodeTree) (id : NodeId) :
    t.prune.lookUpNamespace id = t.lookUpNamespace id := by
  refine lookUpNamespace_congr (P := fun _ => True) t.size_prune (fun _ _ _ _ => trivial)
    (fun n _ => ?_) trivial
  rw [node_prune]
  exact ⟨rfl, rfl⟩

/-! ## Walking a pruned tree -/

theorem Acyclic.prune (acyclic : t.Acyclic) : t.prune.Acyclic := by
  have listed : ∀ p c, c ∈ (t.prune.node p).children → c ∈ (t.node p).children := by
    intro p c mem
    rw [node_prune] at mem
    exact (List.mem_filter.1 mem).1
  refine ⟨t.size_prune.symm ▸ acyclic.nonempty, fun p c mem => ?_, fun id cycle => ?_⟩
  · rw [size_prune]
    exact acyclic.inside p c (listed p c mem)
  · exact acyclic.acyclic id (Relation.TransGen.mono listed _ _ cycle)

/-- What is taken out is not entered, so that a walk comes to the same nodes but for these. -/
theorem filter_descend_prune (t : NodeTree) (depth : Nat) (top : NodeId) :
    (t.prune.descend t.isIgnorableNode depth top).filter (!t.isIgnorableNode ·) =
      (t.descend t.isIgnorableNode depth top).filter (!t.isIgnorableNode ·) := by
  induction depth generalizing top with
  | zero => rfl
  | succ depth ih =>
    rw [descend, descend, List.filter_cons, List.filter_cons]
    have below : ((t.prune.node top).children.flatMap
          (t.prune.descend t.isIgnorableNode depth)).filter (!t.isIgnorableNode ·) =
        ((t.node top).children.flatMap
          (t.descend t.isIgnorableNode depth)).filter (!t.isIgnorableNode ·) := by
      rw [List.filter_flatMap, List.filter_flatMap, node_prune]
      simp only [ih]
      unfold keptChildren
      induction (t.node top).children with
      | nil => rfl
      | cons c rest others =>
        rw [List.flatMap_cons, List.filter_cons]
        split
        case isTrue => rw [List.flatMap_cons, others]
        case isFalse out =>
          -- A node that is taken out is not entered and does not count itself.
          have pruned : t.prunedNodes.contains c = true := by simp at out; simp [out.1]
          have prunable := (List.mem_filter.1 (List.contains_iff_mem.1 pruned)).2
          have ignored := isIgnorableNode_of_isPrunable prunable
          have nothing :
              (t.descend t.isIgnorableNode depth c).filter (!t.isIgnorableNode ·) = [] := by
            cases depth <;> simp [descend, ignored]
          rw [others, nothing, List.nil_append]
    cases ignored : t.isIgnorableNode top with
    | true => rfl
    | false =>
      simp only [Bool.false_eq_true, if_false, Bool.not_false, if_true]
      exact congrArg (top :: ·) below

/-- **A walk that does not enter what may be ignored** comes to the same nodes in a tree and in the
pruned tree, but for nodes that may be ignored themselves. -/
theorem filter_preorder_prune (acyclic : t.Acyclic) :
    (t.prune.preorder t.isIgnorableNode).filter (!t.isIgnorableNode ·) =
      (t.preorder t.isIgnorableNode).filter (!t.isIgnorableNode ·) := by
  obtain ⟨level, layers⟩ := acyclic.layers
  obtain ⟨level', layers'⟩ := acyclic.prune.layers
  rw [preorder_eq layers, preorder_eq layers', size_prune]
  exact filter_descend_prune t t.size root

/-! ## Pruning twice -/

/-- Attributes have no say in what is taken out. -/
theorem Retouches.prunedNodes (retouches : t.Retouches u) : u.prunedNodes = t.prunedNodes := by
  rw [NodeTree.prunedNodes, NodeTree.prunedNodes, retouches.isIgnorableNode, retouches.isPrunable,
    retouches.preorder]

theorem Retouches.keptChildren (retouches : t.Retouches u) (p : NodeId) :
    u.keptChildren p = t.keptChildren p := by
  unfold NodeTree.keptChildren
  simp only [retouches.prunedNodes, retouches.children, retouches.parent]

theorem Retouches.sift (retouches : t.Retouches u) (id : NodeId) : u.sift id = t.sift id := by
  have reachable : u.pruneNodes.reachable = t.pruneNodes.reachable := by
    refine preorder_congr ?_ fun n _ => ⟨?_, rfl⟩
    · rw [size_pruneNodes, size_pruneNodes, retouches.size]
    · rw [node_pruneNodes, node_pruneNodes, retouches.keptChildren]
  unfold NodeTree.sift NodeTree.drops
  rw [reachable, retouches.isIgnorable]

/-- Attributes that are replaced before pruning are sifted with the others. -/
theorem prune_setAttributes (t : NodeTree) (id : NodeId) (attributes : List Attribute) :
    (t.setAttributes id attributes).prune = t.prune.setAttributes id (t.sift id attributes) := by
  have retouches := retouches_setAttributes t id attributes
  have size : (t.setAttributes id attributes).prune.size =
      (t.prune.setAttributes id (t.sift id attributes)).size := by
    rw [size_prune, retouches.size, setAttributes, size_modify, size_prune]
  have names : (t.setAttributes id attributes).prune.ignorable =
      (t.prune.setAttributes id (t.sift id attributes)).ignorable := by
    rw [ignorable_prune, retouches.ignorable]
    exact t.ignorable_prune.symm
  refine eq_of_node size names fun other => ?_
  rw [node_prune, retouches.sift, retouches.keptChildren, node_setAttributes, node_setAttributes,
    node_prune, size_prune]
  by_cases here : other = id ∧ id < t.size
  · simp [here]
  · simp [here]

/-- A pruned tree has no new nodes on any way down. -/
theorem descend_prune_sublist (t : NodeTree) (skip : NodeId → Bool) (depth : Nat) (top : NodeId) :
    (t.prune.descend skip depth top).Sublist (t.descend skip depth top) := by
  induction depth generalizing top with
  | zero => exact .refl _
  | succ depth ih =>
    rw [descend, descend]
    refine .cons_cons top ?_
    split
    · exact List.nil_sublist _
    · rw [node_prune]
      exact (List.filter_sublist.flatMap _).trans (List.Sublist.flatMap_right _ fun c _ => ih c)

/-- There is nothing left to take from a parent. -/
theorem keptChildren_prune (acyclic : t.Acyclic) (p : NodeId) :
    t.prune.keptChildren p = t.keptChildren p := by
  obtain ⟨level, layers⟩ := acyclic.layers
  obtain ⟨level', layers'⟩ := acyclic.prune.layers
  -- What could still be taken out is listed by another node than its parent: the first run has
  -- taken it from its parent already.
  have before : ∀ c ∈ t.prune.prunedNodes, c ∈ t.prunedNodes := by
    intro c mem
    obtain ⟨walked, prunable⟩ := List.mem_filter.1 mem
    rw [isIgnorableNode_prune, preorder_eq layers', size_prune] at walked
    rw [isPrunable_prune] at prunable
    refine List.mem_filter.2 ⟨?_, prunable⟩
    rw [preorder_eq layers]
    exact (descend_prune_sublist t _ _ _).subset walked
  have parents : ∀ c, (t.prune.node c).parent = (t.node c).parent := fun c => by rw [node_prune]
  have children : (t.prune.node p).children = t.keptChildren p := by rw [node_prune]
  rw [keptChildren, children]
  refine List.filter_eq_self.2 fun c mem => ?_
  have stays := (List.mem_filter.1 mem).2
  rw [parents]
  by_cases out : c ∈ t.prune.prunedNodes
  · have other : ¬ (t.node c).parent = some p := by simpa [before c out] using stays
    simp [other]
  · simp [out]

theorem sift_prune (acyclic : t.Acyclic) (id : NodeId) : t.prune.sift id = t.sift id := by
  have reachable : t.prune.pruneNodes.reachable = t.pruneNodes.reachable := by
    refine preorder_congr ?_ fun n _ => ⟨?_, rfl⟩
    · rw [size_pruneNodes, size_pruneNodes, size_prune]
    · rw [node_pruneNodes, node_pruneNodes, keptChildren_prune acyclic]
  unfold sift drops
  rw [reachable, isIgnorable_prune]

theorem sift_sift (t : NodeTree) (id : NodeId) (attributes : List Attribute) :
    t.sift id (t.sift id attributes) = t.sift id attributes := by
  rw [sift, sift, List.filter_filter]
  simp only [Bool.and_self]

/-- **Pruning a second time changes nothing.** -/
theorem prune_prune (acyclic : t.Acyclic) : t.prune.prune = t.prune := by
  refine eq_of_node t.prune.size_prune t.prune.ignorable_prune fun id => ?_
  rw [node_prune, sift_prune acyclic, keptChildren_prune acyclic, node_prune, sift_sift]

end MarkupLoader.NodeTree
