import MarkupLoader.Proofs.Walks

/-!
# Trees without some of their subtrees

Taking nodes out of a tree (`NodeTree.without`) leaves all nodes at their places and only stops
listing some of them, as detaching a node does. What can still be reached is **kept**
(`NodeTree.Keeps`).

* **A thinned tree** (`Thins`) is one that is the same as a given tree without some nodes, as far
  as that keeps nodes. What is no longer reached does not count.
* The walks of a thinned tree are those of the given tree, less what is not kept (`Thinned`).

Main results: `Thins.reaches`, `thinned_postorder`, `preorder_congr`.
-/

namespace MarkupLoader

namespace NodeTree

/-! ## Taking nodes out -/

/-- The tree with some nodes no longer listed as children. -/
def without (t : NodeTree) (gone : List NodeId) : NodeTree :=
  { t with nodes := t.nodes.map fun n =>
      { n with children := n.children.filter fun c => !gone.contains c } }

/-- Whether a node can be reached after some have been taken out. -/
def Keeps (t : NodeTree) (gone : List NodeId) (id : NodeId) : Prop :=
  (t.without gone).Reaches (fun _ => false) root id

section Without

variable {t : NodeTree} {gone : List NodeId}

@[simp]
theorem size_without (t : NodeTree) (gone : List NodeId) : (t.without gone).size = t.size := by
  simp [without, size]

theorem node_without (t : NodeTree) (gone : List NodeId) (id : NodeId) :
    (t.without gone).node id =
      { t.node id with children := (t.node id).children.filter fun c => !gone.contains c } := by
  unfold without node
  rw [Array.getElem?_map]
  cases t.nodes[id]? <;> rfl

@[simp]
theorem mem_children_without {p c : NodeId} :
    c ∈ ((t.without gone).node p).children ↔ c ∈ (t.node p).children ∧ c ∉ gone := by
  simp [node_without]

theorem without_nil (t : NodeTree) : t.without [] = t := by
  simp [without]

theorem Proper.without (proper : t.Proper) (gone : List NodeId) : (t.without gone).Proper where
  nonempty := by simpa using proper.nonempty
  later p c listed := proper.later p c (mem_children_without.1 listed).1
  inside p c listed := by simpa using proper.inside p c (mem_children_without.1 listed).1
  once p q c listedP listedQ :=
    proper.once p q c (mem_children_without.1 listedP).1 (mem_children_without.1 listedQ).1
  nodup p := by
    rw [node_without]
    exact (proper.nodup p).filter _

theorem keeps_root (t : NodeTree) (gone : List NodeId) : t.Keeps gone root := .top

theorem Keeps.child {p c : NodeId} (keeps : t.Keeps gone p) (listed : c ∈ (t.node p).children)
    (stays : c ∉ gone) : t.Keeps gone c :=
  Reaches.child keeps rfl (mem_children_without.2 ⟨listed, stays⟩)

/-- A child that is kept has not been taken out, and the node that lists it is kept. -/
theorem Proper.keeps_listed (proper : t.Proper) {p c : NodeId} (listed : c ∈ (t.node p).children)
    (keeps : t.Keeps gone c) : t.Keeps gone p ∧ c ∉ gone := by
  unfold Keeps at keeps
  cases keeps with
  | top =>
    exact absurd (proper.later p root listed) (Nat.not_lt_zero p)
  | child above _ listed' =>
    obtain ⟨listed', stays⟩ := mem_children_without.1 listed'
    obtain rfl := proper.once _ _ _ listed listed'
    exact ⟨above, stays⟩

/-- What can still be reached could be reached before. -/
theorem Reaches.of_without {skip : NodeId → Bool} {top id : NodeId}
    (reaches : (t.without gone).Reaches skip top id) : t.Reaches skip top id := by
  induction reaches with
  | top => exact .top
  | child _ enters listed ih => exact .child ih enters (mem_children_without.1 listed).1

theorem Keeps.reaches {id : NodeId} (keeps : t.Keeps gone id) :
    t.Reaches (fun _ => false) root id := Reaches.of_without keeps

/-- Nothing below a node that has been taken out is kept. -/
theorem Proper.not_keeps_below (proper : t.Proper) {skip : NodeId → Bool} {p c id : NodeId}
    (listed : c ∈ (t.node p).children) (out : c ∈ gone) (below : t.Reaches skip c id) :
    ¬ t.Keeps gone id := by
  induction below with
  | top => exact fun keeps => (proper.keeps_listed listed keeps).2 out
  | child _ _ listed' ih => exact fun keeps => ih (proper.keeps_listed listed' keeps).1

/-- A kept node is reached on the same way as before. -/
theorem Proper.reaches_without (proper : t.Proper) {skip : NodeId → Bool} {id : NodeId}
    (keeps : t.Keeps gone id) :
    (t.without gone).Reaches skip root id ↔ t.Reaches skip root id := by
  constructor
  · intro reaches
    induction reaches with
    | top => exact .top
    | child above enters listed ih =>
      have listed := (mem_children_without.1 listed).1
      exact .child (ih (proper.keeps_listed listed keeps).1) enters listed
  · intro reaches
    induction reaches with
    | top => exact .top
    | child above enters listed ih =>
      obtain ⟨keeps, stays⟩ := proper.keeps_listed listed keeps
      exact .child (ih keeps) enters (mem_children_without.2 ⟨listed, stays⟩)

end Without

/-! ## Trees that agree -/

section Agreement

variable {t u : NodeTree} {skip skip' : NodeId → Bool}

/-- Reaching a place depends only on what is reached before it. -/
theorem Reaches.congr {top id : NodeId} (reaches : t.Reaches skip top id)
    (same : ∀ n, t.Reaches skip top n →
      (u.node n).children = (t.node n).children ∧ skip' n = skip n) :
    u.Reaches skip' top id := by
  induction reaches with
  | top => exact .top
  | child above enters listed ih =>
    obtain ⟨children, skips⟩ := same _ above
    exact .child ih (skips.trans enters) (children ▸ listed)

theorem reaches_congr {top id : NodeId} (same : ∀ n, t.Reaches skip top n →
      (u.node n).children = (t.node n).children ∧ skip' n = skip n) :
    u.Reaches skip' top id ↔ t.Reaches skip top id := by
  refine ⟨fun reaches => ?_, fun reaches => reaches.congr same⟩
  induction reaches with
  | top => exact .top
  | child above enters listed ih =>
    obtain ⟨children, skips⟩ := same _ ih
    exact .child ih (skips ▸ enters) (children ▸ listed)

theorem postorderFrom_congr (depth : Nat) {top : NodeId} (same : ∀ n, t.Reaches skip top n →
      (u.node n).children = (t.node n).children ∧ skip' n = skip n) :
    u.postorderFrom skip' depth top = t.postorderFrom skip depth top := by
  induction depth generalizing top with
  | zero => rfl
  | succ depth ih =>
    obtain ⟨children, skips⟩ := same top .top
    rw [postorderFrom, postorderFrom, children, skips]
    cases enters : skip top with
    | true => rfl
    | false =>
      simp only [Bool.false_eq_true, if_false]
      congr 1
      refine List.flatMap_congr fun c listed => ih fun n below => same n ?_
      exact reaches_iff.2 (.inr ⟨enters, c, listed, below⟩)

theorem preorderFrom_congr (fuel : Nat) {pending : List NodeId}
    (same : ∀ n, t.Reaches (fun _ => false) root n →
      (u.node n).children = (t.node n).children ∧ skip' n = skip n)
    (reached : ∀ n ∈ pending, t.Reaches (fun _ => false) root n) :
    u.preorderFrom skip' fuel pending = t.preorderFrom skip fuel pending := by
  induction fuel generalizing pending with
  | zero => rfl
  | succ fuel ih =>
    cases pending with
    | nil => rfl
    | cons id rest =>
      obtain ⟨here, others⟩ := List.forall_mem_cons.1 reached
      obtain ⟨children, skips⟩ := same id here
      rw [preorderFrom, preorderFrom, children, skips, ih]
      intro n mem
      rcases List.mem_append.1 mem with below | later
      · split at below
        · cases below
        · exact .child here rfl below
      · exact others n later

/-- Trees that agree on what can be reached are walked alike. -/
theorem preorder_congr (size : u.size = t.size)
    (same : ∀ n, t.Reaches (fun _ => false) root n →
      (u.node n).children = (t.node n).children ∧ skip' n = skip n) :
    u.preorder skip' = t.preorder skip := by
  have count : u.postorder (fun _ => false) = t.postorder (fun _ => false) := by
    unfold postorder
    rw [size]
    exact postorderFrom_congr _ fun n reached => ⟨(same n reached).1, rfl⟩
  rw [preorder, preorder, count]
  exact preorderFrom_congr _ same fun n mem => List.mem_singleton.1 mem ▸ .top

theorem postorder_congr (size : u.size = t.size)
    (same : ∀ n, t.Reaches (fun _ => false) root n →
      (u.node n).children = (t.node n).children ∧ skip' n = skip n) :
    u.postorder skip' = t.postorder skip := by
  rw [postorder, postorder, size]
  exact postorderFrom_congr _ fun n reached => same n reached.all

/-- What is kept depends on the children only. -/
theorem keeps_congr (gone : List NodeId)
    (same : ∀ n, (u.node n).children = (t.node n).children) {id : NodeId} :
    u.Keeps gone id ↔ t.Keeps gone id :=
  reaches_congr fun n _ => ⟨by rw [node_without, node_without, same], rfl⟩

end Agreement

/-! ## Thinned trees -/

/-- A tree that is the same as another one without some nodes, as far as that keeps nodes. -/
structure Thins (t u : NodeTree) (gone : List NodeId) : Prop where
  size : u.size = t.size
  ignorable : u.ignorable = t.ignorable
  node : ∀ id, t.Keeps gone id → u.node id = (t.without gone).node id

/-- What is left of a list after taking out all that is not kept. -/
inductive Thinned (keeps : NodeId → Prop) : List NodeId → List NodeId → Prop
  | nil : Thinned keeps [] []
  | keep {id : NodeId} {all left : List NodeId} (kept : keeps id) (rest : Thinned keeps all left) :
      Thinned keeps (id :: all) (id :: left)
  | drop {id : NodeId} {all left : List NodeId} (out : ¬ keeps id)
      (rest : Thinned keeps all left) : Thinned keeps (id :: all) left

section Thinning

variable {keeps : NodeId → Prop}

theorem Thinned.append {all left all' left' : List NodeId} (first : Thinned keeps all left)
    (second : Thinned keeps all' left') : Thinned keeps (all ++ all') (left ++ left') := by
  induction first with
  | nil => exact second
  | keep kept _ ih => exact .keep kept ih
  | drop out _ ih => exact .drop out ih

theorem thinned_nil {all : List NodeId} (out : ∀ id ∈ all, ¬ keeps id) : Thinned keeps all [] := by
  induction all with
  | nil => exact .nil
  | cons id rest ih =>
    obtain ⟨here, later⟩ := List.forall_mem_cons.1 out
    exact .drop here (ih later)

variable {t u : NodeTree} {gone : List NodeId} {skip skip' : NodeId → Bool}

theorem Thins.children (thins : t.Thins u gone) {id : NodeId} (keeps : t.Keeps gone id) :
    (u.node id).children = (t.node id).children.filter fun c => !gone.contains c := by
  rw [thins.node id keeps, node_without]

theorem Thins.body (thins : t.Thins u gone) {id : NodeId} (keeps : t.Keeps gone id) :
    (u.node id).toNodeBody = (t.node id).toNodeBody := by
  rw [thins.node id keeps, node_without]

theorem Thins.parent (thins : t.Thins u gone) {id : NodeId} (keeps : t.Keeps gone id) :
    (u.node id).parent = (t.node id).parent := by
  rw [thins.node id keeps, node_without]

theorem Thins.mem_children (thins : t.Thins u gone) {p c : NodeId} (keeps : t.Keeps gone p) :
    c ∈ (u.node p).children ↔ c ∈ (t.node p).children ∧ c ∉ gone := by
  rw [thins.node p keeps, mem_children_without]

theorem Thins.isIgnorableNode (thins : t.Thins u gone) {id : NodeId} (keeps : t.Keeps gone id) :
    u.isIgnorableNode id = t.isIgnorableNode id := by
  unfold NodeTree.isIgnorableNode isIgnorable
  rw [thins.ignorable, thins.body keeps]

/-- A thinned tree reaches what is kept, and on the same way. -/
theorem Thins.reaches (thins : t.Thins u gone) (proper : t.Proper) {id : NodeId}
    (same : ∀ n, t.Keeps gone n → skip' n = skip n) :
    u.Reaches skip' root id ↔ t.Keeps gone id ∧ t.Reaches skip root id := by
  have agree : u.Reaches skip' root id ↔ (t.without gone).Reaches skip root id :=
    reaches_congr fun n reached =>
      ⟨congrArg Node.children (thins.node n reached.all), same n reached.all⟩
  rw [agree]
  constructor
  · exact fun reaches => ⟨reaches.all, (proper.reaches_without reaches.all).1 reaches⟩
  · exact fun ⟨keeps, reaches⟩ => (proper.reaches_without keeps).2 reaches

/-- The walk upwards over a thinned tree leaves out what is not kept. -/
theorem thinned_postorderFrom (thins : t.Thins u gone) (proper : t.Proper)
    (same : ∀ n, t.Keeps gone n → skip' n = skip n) {depth top : Nat} (keeps : t.Keeps gone top)
    (deep : t.size ≤ top + depth + 1) :
    Thinned (t.Keeps gone) (t.postorderFrom skip depth top) (u.postorderFrom skip' depth top) := by
  induction depth generalizing top with
  | zero => exact .keep keeps .nil
  | succ depth ih =>
    rw [postorderFrom, postorderFrom, same top keeps, thins.children keeps]
    refine .append ?_ (.keep keeps .nil)
    split
    · exact .nil
    -- Child by child: those taken out lose all that is below them.
    have each : ∀ children : List NodeId, (∀ c ∈ children, c ∈ (t.node top).children) →
        Thinned (t.Keeps gone) (children.flatMap (t.postorderFrom skip depth))
          ((children.filter fun c => !gone.contains c).flatMap (u.postorderFrom skip' depth)) := by
      intro children
      induction children with
      | nil => exact fun _ => .nil
      | cons c rest others =>
        intro listed
        obtain ⟨here, later⟩ := List.forall_mem_cons.1 listed
        have := proper.later _ _ here
        rw [List.flatMap_cons]
        by_cases out : c ∈ gone
        · have dropped : Thinned (t.Keeps gone) (t.postorderFrom skip depth c) [] :=
            thinned_nil fun id mem =>
              proper.not_keeps_below here out ((mem_postorderFrom proper.layers (by omega)).1 mem)
          rw [List.filter_cons_of_neg (by simpa using out)]
          exact dropped.append (others later)
        · rw [List.filter_cons_of_pos (by simpa using out), List.flatMap_cons]
          exact (ih (keeps.child here out) (by omega)).append (others later)
    exact each _ fun _ mem => mem

theorem thinned_postorder (thins : t.Thins u gone) (proper : t.Proper)
    (same : ∀ n, t.Keeps gone n → skip' n = skip n) :
    Thinned (t.Keeps gone) (t.postorder skip) (u.postorder skip') := by
  unfold postorder
  rw [thins.size]
  exact thinned_postorderFrom thins proper same (keeps_root t gone) (by omega)

end Thinning

end NodeTree

end MarkupLoader
