import MarkupLoader.Load.Passes
import MarkupLoader.Proofs.Links
import MarkupLoader.Proofs.Simulation

/-!
# Two loads of one document

Two tolerant loads whose documents agree on what can be reached, and whose heaps match, are
**twins** (`Twins`). The passes after the creation of values keep them so: both sides do the same to
the same nodes, and each new object of one side is matched with one of the other.

* **Names** go to the first scope, which all nodes that are loaded share, so it does not matter
  what other scopes there are.

Main results: `simulates_aligned`.
-/

namespace MarkupLoader

/-- The nodes of a tree that make templates. -/
def NodeTree.templates (t : NodeTree) (env : Environment) (id : NodeId) : Bool :=
  env.isTemplate (t.node id).toNodeBody

/-- A tolerant load in which the nodes of a tree that are loaded share the outermost scope. -/
structure LoadState.Steady (s : LoadState) (env : Environment) (kept : NodeTree) : Prop where
  tolerant : s.context.tolerant = true
  opened : 0 < s.context.scopes.size
  outermost : (s.context.scope 0).parent = none
  nodes : ∀ id, kept.Reaches (kept.templates env) NodeTree.root id →
    s.context.nodeScope? id = some 0

/-- Two loads that have what can be reached in a tree in common, up to the places of objects. -/
structure Twins (env : Environment) (kept : NodeTree) (M : Matching) (a b : LoadState) : Prop where
  proper : kept.Proper
  linked : kept.Linked
  left : a.Steady env kept
  right : b.Steady env kept
  size : b.tree.size = kept.size
  ignorable : b.tree.ignorable = kept.ignorable
  node : ∀ id, kept.Reaches (fun _ => false) NodeTree.root id → b.tree.node id = kept.node id
  heaps : M.Heaps a.heap b.heap
  values : ∀ id, kept.Reaches (fun _ => false) NodeTree.root id →
    Option.Rel M.Values (a.context.value? id) (b.context.value? id)
  rootElement : Option.Rel M.rel a.context.rootElement b.context.rootElement
  rootInstance : Option.Rel M.rel a.rootInstance b.rootInstance
  outerScope : List.Forall₂ M.rel a.context.outerScope b.context.outerScope
  names : M.Tables (a.context.scope 0).names (b.context.scope 0).names
  passes : a.context.passes = b.context.passes

/-- Twins of which the first one has the tree that they have in common. -/
structure Aligned (env : Environment) (kept : NodeTree) (M : Matching) (a b : LoadState) : Prop
    extends Twins env kept M a b where
  tree : a.tree = kept

/-! ## Changes on both sides -/

section Changes

variable {env : Environment} {kept : NodeTree} {M N : Matching} {a b : LoadState}

/-- Twins whose heaps change, and whose matching grows. -/
theorem Twins.withHeaps (twins : Twins env kept M a b) (within : M.Within N) {h k : Heap}
    (heaps : N.Heaps h k) : Twins env kept N { a with heap := h } { b with heap := k } :=
  { twins with
    left := ⟨twins.left.tolerant, twins.left.opened, twins.left.outermost, twins.left.nodes⟩
    right := ⟨twins.right.tolerant, twins.right.opened, twins.right.outermost, twins.right.nodes⟩
    heaps := heaps
    values := fun id reached =>
      Matching.rel_mono (twins.values id reached) fun _ _ value => value.mono within
    rootElement := Matching.rel_mono twins.rootElement within
    rootInstance := Matching.rel_mono twins.rootInstance within
    outerScope := twins.outerScope.imp within
    names := twins.names.mono within }

theorem Aligned.withHeaps (aligned : Aligned env kept M a b) (within : M.Within N) {h k : Heap}
    (heaps : N.Heaps h k) : Aligned env kept N { a with heap := h } { b with heap := k } :=
  ⟨aligned.toTwins.withHeaps within heaps, aligned.tree⟩

/-- Failures that have been passed over do not count. -/
theorem Twins.withRecords (twins : Twins env kept M a b) (record record' : List LoadError) :
    Twins env kept M (a.withRecord record) (b.withRecord record') :=
  { twins with
    left := ⟨twins.left.tolerant, twins.left.opened, twins.left.outermost, twins.left.nodes⟩
    right :=
      ⟨twins.right.tolerant, twins.right.opened, twins.right.outermost, twins.right.nodes⟩ }

end Changes

/-! ## What both sides see -/

namespace Aligned

variable {env : Environment} {kept : NodeTree} {M : Matching} {a b : LoadState} {id : NodeId}

theorem leftNode (aligned : Aligned env kept M a b) (id : NodeId) : a.node id = kept.node id := by
  rw [LoadState.node, aligned.tree]

/-- The nodes above a place are the same on both sides, and can be reached. -/
theorem ancestors (aligned : Aligned env kept M a b)
    (reached : kept.Reaches (fun _ => false) NodeTree.root id) :
    b.tree.ancestors id = kept.ancestors id ∧
      ∀ n ∈ kept.ancestors id, kept.Reaches (fun _ => false) NodeTree.root n := by
  obtain ⟨above, all⟩ :=
    NodeTree.selfAndAncestors_congr (P := kept.Reaches (fun _ => false) NodeTree.root) aligned.size
      (fun _ _ reached above => aligned.linked.reaches_parent reached above)
      (fun n reached => by rw [aligned.node n reached]) reached
  exact ⟨(List.cons.inj above).2, fun n mem => all n (List.mem_cons_of_mem _ mem)⟩

theorem lookUpNamespace (aligned : Aligned env kept M a b)
    (reached : kept.Reaches (fun _ => false) NodeTree.root id) :
    b.tree.lookUpNamespace id = kept.lookUpNamespace id :=
  NodeTree.lookUpNamespace_congr (P := kept.Reaches (fun _ => false) NodeTree.root) aligned.size
    (fun _ _ reached above => aligned.linked.reaches_parent reached above)
    (fun n reached => by rw [aligned.node n reached]; exact ⟨rfl, rfl⟩) reached

/-- The nodes that are loaded are the same on both sides. -/
theorem skip (aligned : Aligned env kept M a b) {n : NodeId}
    (reached : kept.Reaches (fun _ => false) NodeTree.root n) :
    b.isTemplate env n = kept.templates env n := by
  have node : b.node n = kept.node n := aligned.node n reached
  rw [LoadState.isTemplate, node]
  rfl

theorem loaded (aligned : Aligned env kept M a b) :
    a.loaded env = kept.preorder (kept.templates env) ∧
      b.loaded env = kept.preorder (kept.templates env) := by
  refine ⟨?_, NodeTree.preorder_congr aligned.size fun n reached => ?_⟩
  · rw [LoadState.loaded, ← aligned.tree]
    rfl
  · exact ⟨by rw [aligned.node n reached], aligned.skip reached⟩

theorem loadedUpwards (aligned : Aligned env kept M a b) :
    a.loadedUpwards env = kept.postorder (kept.templates env) ∧
      b.loadedUpwards env = kept.postorder (kept.templates env) := by
  refine ⟨?_, NodeTree.postorder_congr aligned.size fun n reached => ?_⟩
  · rw [LoadState.loadedUpwards, ← aligned.tree]
    rfl
  · exact ⟨by rw [aligned.node n reached], aligned.skip reached⟩

end Aligned

/-! ## Names -/

section Names

variable {env : Environment} {kept : NodeTree} {M : Matching} {a b : LoadState} {id : NodeId}

theorem LoadState.Steady.withName {s : LoadState} (steady : s.Steady env kept) (name : String)
    (value : Value) : (s.withName 0 name value).Steady env kept where
  tolerant := steady.tolerant
  opened := Nat.lt_of_lt_of_eq steady.opened Array.size_modify.symm
  outermost := by
    rw [s.scope_withName, if_pos ⟨rfl, steady.opened⟩]
    exact steady.outermost
  nodes := steady.nodes

/-- Both sides register a name, with matching values. -/
theorem Aligned.withName (aligned : Aligned env kept M a b) (name : String) {v w : Value}
    (value : M.Values v w) : Aligned env kept M (a.withName 0 name v) (b.withName 0 name w) := by
  refine ⟨{ aligned.toTwins with
    left := aligned.left.withName name v
    right := aligned.right.withName name w
    names := ?_ }, aligned.tree⟩
  rw [a.scope_withName, if_pos ⟨rfl, aligned.left.opened⟩, b.scope_withName,
    if_pos ⟨rfl, aligned.right.opened⟩]
  exact aligned.names.insert name value

/-- In the outermost scope a name is looked up there and nowhere else. -/
theorem LoadState.Steady.findName {s : LoadState} (steady : s.Steady env kept) (name : String) :
    s.context.findName 0 name = (s.context.scope 0).names.get? name :=
  Context.findName_outermost steady.opened steady.outermost name

/-- A node that is loaded looks up names in the first scope. -/
theorem LoadState.Steady.named? {s : LoadState} (steady : s.Steady env kept)
    (loaded : kept.Reaches (kept.templates env) NodeTree.root id) (name : String) :
    (s.site env id).named? name = (s.context.scope 0).names.get? name := by
  have scope : (s.site env id).scope? = some 0 := by
    show (id :: s.tree.ancestors id).findSome? s.context.nodeScope? = some 0
    rw [List.findSome?_cons, steady.nodes id loaded]
  rw [Site.named?, scope, Option.bind_some]
  exact steady.findName name

end Names

/-! ## Twins go on alike -/

section Simulation

variable {env : Environment} {kept : NodeTree} {M : Matching} {a b : LoadState} {id : NodeId}

/-- Both sides pass over a failure, or neither does. -/
theorem Aligned.recover (aligned : Aligned env kept M a b) (error : LoadError) :
    EndsDone (Aligned env kept) M ((Load.recover error).start a)
      ((Load.recover error).start b) := by
  cases fatal : error.isFatal with
  | true =>
    rw [Load.start_recover_fatal fatal, Load.start_recover_fatal fatal]
    exact Load.ends_error aligned error
  | false =>
    rw [Load.start_recover_tolerant aligned.left.tolerant fatal,
      Load.start_recover_tolerant aligned.right.tolerant fatal]
    exact Load.ends_done ⟨aligned.toTwins.withRecords _ _, aligned.tree⟩

theorem Aligned.agree (aligned : Aligned env kept M a b)
    (reached : kept.Reaches (fun _ => false) NodeTree.root id) : a.AgreeAt M b id where
  node := (aligned.node id reached).trans (aligned.leftNode id).symm
  value := aligned.values id reached

/-- **Twins go through the later passes alike**: they share the nodes that can be reached in the
tree that they have in common. -/
theorem simulates_aligned (env : Environment) (kept : NodeTree) :
    SimulatesAll env (kept.Reaches (fun _ => false) NodeTree.root)
      (kept.Reaches (kept.templates env) NodeTree.root) (Aligned env kept) where
  heaps aligned := aligned.heaps
  modify aligned related changed :=
    aligned.withHeaps (.refl _) (aligned.heaps.modify related changed)
  alloc aligned objects := by
    obtain ⟨N, within, related, heaps⟩ := aligned.heaps.alloc objects
    exact ⟨N, within, related, aligned.withHeaps within heaps⟩
  recover aligned := aligned.recover
  completed aligned pass := ⟨{ aligned.toTwins with
    left := ⟨aligned.left.tolerant, aligned.left.opened, aligned.left.outermost,
      aligned.left.nodes⟩
    right := ⟨aligned.right.tolerant, aligned.right.opened, aligned.right.outermost,
      aligned.right.nodes⟩
    passes := congrArg (· ++ [pass]) aligned.passes }, aligned.tree⟩
  agree aligned reached := aligned.agree reached
  below aligned reached c listed := by
    rw [aligned.leftNode] at listed
    exact .child reached rfl listed
  above aligned reached above := by
    rw [aligned.leftNode] at above
    exact aligned.linked.reaches_parent reached above
  ofLoaded loaded := loaded.all
  downwards aligned := by
    rw [aligned.loaded.1, aligned.loaded.2]
    exact ⟨rfl, fun id mem => (NodeTree.mem_preorder aligned.proper).1 mem⟩
  upwards aligned := by
    rw [aligned.loadedUpwards.1, aligned.loadedUpwards.2]
    exact ⟨rfl, fun id mem => (NodeTree.mem_postorder aligned.proper).1 mem⟩
  register {M a b id} aligned loaded := by
    have shared : a.context.nodeScope? id = some 0 := aligned.left.nodes id loaded
    refine Load.ends_registerName aligned (aligned.agree loaded.all)
      ((aligned.right.nodes id loaded).trans shared.symm) aligned.recover (fun scope is => ?_)
      fun scope name v w is value => ?_
    · cases shared.symm.trans is
      exact aligned.names
    · cases shared.symm.trans is
      exact aligned.withName name value
  replace aligned heaps := aligned.withHeaps (.refl _) heaps
  outerScope aligned := aligned.outerScope
  named aligned loaded name := by
    rw [aligned.left.named? loaded, aligned.right.named? loaded]
    exact aligned.names.get? name
  ancestors aligned reached := by
    rw [aligned.tree]
    exact aligned.ancestors reached
  namespaces aligned reached := by
    rw [aligned.lookUpNamespace reached, aligned.tree]

end Simulation

end MarkupLoader
