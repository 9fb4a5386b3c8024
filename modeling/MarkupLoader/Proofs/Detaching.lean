import MarkupLoader.Proofs.Abreast
import MarkupLoader.Proofs.Shape

/-!
# Walks over a tree that is being worked on

A load takes a document as it has been read, or a subtree that has been taken out of another tree
(`NodeTree.Original`). It links the parents, and from then on it detaches nodes and replaces
attributes (`NodeTree.Worked`). Links of detached nodes stay in place, and a node may be detached
again or be below one that has been detached.

* **What is kept** (`NodeTree.Intact`): every node is listed at most once, by a node that stands
  before it, a node that is listed knows the node that lists it, and parents stand before their
  children. So detaching a node takes it out, wherever it was.
* **What the walks list is told node by node** (`NodeTree.Walked`): the list with a node before its
  children, and the list with a node after them. The worklist of the one walk and the accumulated
  list of the other one come to just these lists, and no bound cuts them short.
* Without a detached node **the walks list the same as before, less what is below it**
  (`Walked.thinned`). The induction goes over the walk as it was, and follows the other one.

Main results: `Worked.intact`, `Layers.walked_iff`, `Walked.thinned`, `walks_after_detaching`.
-/

namespace MarkupLoader

namespace NodeTree

variable {t u : NodeTree} {skip : NodeId → Bool} {ids pre post : List NodeId} {id p x : NodeId}

/-! ## Trees in the course of a load -/

/-- Documents as they have been read, and subtrees as they have been taken out of a tree. -/
inductive Original : NodeTree → Prop
  | read {markup : String} {t : NodeTree} (read : NodeTree.read markup = .ok t) : Original t
  | extracted (t : NodeTree) (top : NodeId) : Original (t.extract top)

/-- What a load makes of a tree: parents are linked, and then nodes are detached and attributes
replaced, in any order. -/
inductive Worked (t : NodeTree) : NodeTree → Prop
  | linked : Worked t t.linkParents
  | detached {u : NodeTree} (worked : Worked t u) (id : NodeId) : Worked t (u.detach id)
  | rewritten {u : NodeTree} (worked : Worked t u) (id : NodeId) (attributes : List Attribute) :
    Worked t (u.setAttributes id attributes)

/-- A tree that is as a load leaves it. -/
structure Intact (t : NodeTree) : Prop where
  proper : t.Proper
  tied : t.Tied
  /-- Also a node that is no longer listed stands behind its parent. -/
  rising : t.Rising

theorem Original.laid (original : t.Original) : t.Laid := by
  cases original with
  | read read =>
    obtain ⟨outer, below, ignorable, -, -, -, rfl⟩ := forest_of_read read
    exact laid_ofForest outer below ignorable
  | extracted t top => exact laid_ofForest _ _ _

theorem Laid.intact_linkParents (laid : t.Laid) : t.linkParents.Intact where
  proper := laid.proper.linkParents
  tied := laid.tied_linkParents
  rising i q above := laid.proper.later q i (laid.listed_of_parent above)

/-- Detaching a node takes it out and leaves all links in place. -/
theorem Intact.detach (intact : t.Intact) (id : NodeId) : (t.detach id).Intact := by
  rw [intact.tied.detach]
  refine ⟨intact.proper.without [id], ?_, fun i q above => ?_⟩
  · exact intact.tied.of_touches (touches_without t [id]) fun i => by rw [node_without]
  · rw [node_without] at above
    exact intact.rising i q above

theorem Intact.setAttributes (intact : t.Intact) (id : NodeId) (attributes : List Attribute) :
    (t.setAttributes id attributes).Intact := by
  have node := fun i => node_setAttributes t id i attributes
  refine ⟨?_, ?_, fun i q above => ?_⟩
  · exact intact.proper.of_children (size_modify _ _ _) fun i => by rw [node]
  · exact intact.tied.of_touches (touches_setAttributes t id attributes) fun i => by rw [node]
  · rw [node] at above
    exact intact.rising i q above

/-- All that a load makes of a tree is intact. -/
theorem Worked.intact (original : t.Original) (worked : t.Worked u) : u.Intact := by
  induction worked with
  | linked => exact original.laid.intact_linkParents
  | detached _ id ih => exact ih.detach id
  | rewritten _ id attributes ih => exact ih.setAttributes id attributes

/-! ## Walks node by node -/

/-- **The walks over some nodes and what is below them**: the list that has each node before its
children, and the list that has it after them. What is below a node to be skipped is on neither. -/
inductive Walked (t : NodeTree) (skip : NodeId → Bool) :
    List NodeId → List NodeId → List NodeId → Prop
  | nil : Walked t skip [] [] []
  | skips {id : NodeId} {rest pre post : List NodeId} (skips : skip id = true)
    (later : Walked t skip rest pre post) : Walked t skip (id :: rest) (id :: pre) (id :: post)
  | enters {id : NodeId} {rest first last pre post : List NodeId} (enters : skip id = false)
    (below : Walked t skip (t.node id).children first last)
    (later : Walked t skip rest pre post) :
    Walked t skip (id :: rest) (id :: (first ++ pre)) (last ++ id :: post)

namespace Walked

/-- Both lists are determined by the nodes. -/
theorem unique {pre' post' : List NodeId} (walked : t.Walked skip ids pre post)
    (walked' : t.Walked skip ids pre' post') : pre' = pre ∧ post' = post := by
  induction walked generalizing pre' post' with
  | nil =>
    cases walked'
    exact ⟨rfl, rfl⟩
  | skips skips _ ih =>
    cases walked' with
    | skips _ later =>
      obtain ⟨rfl, rfl⟩ := ih later
      exact ⟨rfl, rfl⟩
    | enters enters => exact absurd (enters.symm.trans skips) Bool.false_ne_true
  | enters enters _ _ ihBelow ih =>
    cases walked' with
    | skips skips => exact absurd (enters.symm.trans skips) Bool.false_ne_true
    | enters _ below later =>
      obtain ⟨rfl, rfl⟩ := ihBelow below
      obtain ⟨rfl, rfl⟩ := ih later
      exact ⟨rfl, rfl⟩

/-- Both lists have the same nodes. -/
theorem perm (walked : t.Walked skip ids pre post) : pre.Perm post := by
  induction walked with
  | nil => exact .refl _
  | skips _ _ ih => exact ih.cons _
  | enters _ _ _ ihBelow ih => exact ((ihBelow.append ih).cons _).trans List.perm_middle.symm

/-- What is listed is reached from one of the nodes. -/
theorem reaches (walked : t.Walked skip ids pre post) (mem : x ∈ pre) :
    ∃ id ∈ ids, t.Reaches skip id x := by
  induction walked with
  | nil => cases mem
  | skips _ _ ih =>
    obtain rfl | mem := List.mem_cons.1 mem
    · exact ⟨x, List.mem_cons_self, .top⟩
    · obtain ⟨id, here, reached⟩ := ih mem
      exact ⟨id, List.mem_cons_of_mem _ here, reached⟩
  | enters enters _ _ ihBelow ih =>
    obtain rfl | mem := List.mem_cons.1 mem
    · exact ⟨x, List.mem_cons_self, .top⟩
    obtain mem | mem := List.mem_append.1 mem
    · obtain ⟨c, listed, reached⟩ := ihBelow mem
      exact ⟨_, List.mem_cons_self, reaches_iff.2 (.inr ⟨enters, c, listed, reached⟩)⟩
    · obtain ⟨id, here, reached⟩ := ih mem
      exact ⟨id, List.mem_cons_of_mem _ here, reached⟩

/-- Siblings are listed in their order. -/
theorem siblings (walked : t.Walked skip ids pre post) : ids.Sublist pre ∧ ids.Sublist post := by
  induction walked with
  | nil => exact ⟨.refl _, .refl _⟩
  | skips _ _ ih => exact ⟨ih.1.cons_cons _, ih.2.cons_cons _⟩
  | enters _ _ _ _ ih =>
    exact ⟨(ih.1.trans (List.sublist_append_right _ _)).cons_cons _,
      (ih.2.cons_cons _).trans (List.sublist_append_right _ _)⟩

/-- A node that is entered is listed before its children in the one list and after them in the
other. -/
theorem children (walked : t.Walked skip ids pre post) (mem : p ∈ pre) (enters : skip p = false) :
    (p :: (t.node p).children).Sublist pre ∧ ((t.node p).children ++ [p]).Sublist post := by
  induction walked with
  | nil => cases mem
  | skips skips _ ih =>
    obtain rfl | mem := List.mem_cons.1 mem
    · exact absurd (enters.symm.trans skips) Bool.false_ne_true
    · exact ⟨(ih mem).1.cons _, (ih mem).2.cons _⟩
  | enters _ below _ ihBelow ih =>
    obtain rfl | mem := List.mem_cons.1 mem
    · exact ⟨(below.siblings.1.trans (List.sublist_append_left _ _)).cons_cons p,
        below.siblings.2.append (List.singleton_sublist.2 List.mem_cons_self)⟩
    obtain mem | mem := List.mem_append.1 mem
    · exact ⟨((ihBelow mem).1.trans (List.sublist_append_left _ _)).cons _,
        (ihBelow mem).2.trans (List.sublist_append_left _ _)⟩
    · exact ⟨((ih mem).1.trans (List.sublist_append_right _ _)).cons _,
        ((ih mem).2.cons _).trans (List.sublist_append_right _ _)⟩

/-- **Where a node is taken out, just what is below it is no longer listed.** None of the nodes that
the walks begin with is below the one that is taken out, unless it is that node itself. -/
theorem thinned {pre' post' : List NodeId} (proper : t.Proper)
    (walked : t.Walked skip ids pre post)
    (apart : ∀ id ∈ ids, id ≠ x → ¬ t.Reaches (fun _ => false) x id)
    (walked' : (t.without [x]).Walked skip (ids.filter fun id => !List.contains [x] id) pre' post') :
    Thinned (fun id => ¬ t.Reaches (fun _ => false) x id) pre pre' ∧
    Thinned (fun id => ¬ t.Reaches (fun _ => false) x id) post post' := by
  induction walked generalizing pre' post' with
  | nil =>
    cases walked'
    exact ⟨.nil, .nil⟩
  | @skips id rest _ _ skips _ ih =>
    obtain ⟨here, later⟩ := List.forall_mem_cons.1 apart
    by_cases is : id = x
    · subst is
      rw [List.filter_cons_of_neg (by simp)] at walked'
      obtain ⟨first, last⟩ := ih later walked'
      exact ⟨.drop (fun out => out .top) first, .drop (fun out => out .top) last⟩
    · rw [List.filter_cons_of_pos (by simpa using is)] at walked'
      cases walked' with
      | enters enters => exact absurd (enters.symm.trans skips) Bool.false_ne_true
      | skips _ walked' =>
        obtain ⟨first, last⟩ := ih later walked'
        exact ⟨.keep (here is) first, .keep (here is) last⟩
  | @enters id rest below below' _ _ enters walkedBelow _ ihBelow ih =>
    obtain ⟨here, later⟩ := List.forall_mem_cons.1 apart
    by_cases is : id = x
    · subst is
      rw [List.filter_cons_of_neg (by simp)] at walked'
      obtain ⟨first, last⟩ := ih later walked'
      have out : ∀ n ∈ below, ¬ ¬ t.Reaches (fun _ => false) id n := by
        intro n mem stays
        obtain ⟨c, listed, reached⟩ := walkedBelow.reaches mem
        exact stays (reaches_iff.2 (.inr ⟨rfl, c, listed, reached.all⟩))
      have out' : ∀ n ∈ below', ¬ ¬ t.Reaches (fun _ => false) id n :=
        fun n mem => out n (walkedBelow.perm.mem_iff.2 mem)
      exact ⟨.drop (fun stays => stays .top) ((thinned_nil out).append first),
        (thinned_nil out').append (.drop (fun stays => stays .top) last)⟩
    · rw [List.filter_cons_of_pos (by simpa using is)] at walked'
      cases walked' with
      | skips skips => exact absurd (enters.symm.trans skips) Bool.false_ne_true
      | enters _ walkedBelow' walked' =>
        rw [node_without] at walkedBelow'
        -- What leads to a child leads to the node itself first.
        have apartBelow : ∀ c ∈ (t.node id).children, c ≠ x →
            ¬ t.Reaches (fun _ => false) x c := fun c listed ne reached =>
          here is (proper.reaches_of_listed reached ne listed).1
        obtain ⟨firstBelow, lastBelow⟩ := ihBelow apartBelow walkedBelow'
        obtain ⟨first, last⟩ := ih later walked'
        exact ⟨.keep (here is) (firstBelow.append first), lastBelow.append (.keep (here is) last)⟩

end Walked

/-! ## The walks of a tree -/

section Layers

variable {level : NodeId → Nat} (layers : t.Layers level)

include layers

theorem Layers.walked_of_children
    (below : ∀ id ∈ ids, t.Walked skip (t.node id).children
      ((t.node id).children.flatMap (t.descend skip t.size))
      ((t.node id).children.flatMap (t.postorderFrom skip t.size))) :
    t.Walked skip ids (ids.flatMap (t.descend skip t.size))
      (ids.flatMap (t.postorderFrom skip t.size)) := by
  induction ids with
  | nil => exact .nil
  | cons id rest ih =>
    obtain ⟨here, later⟩ := List.forall_mem_cons.1 below
    rw [List.flatMap_cons, List.flatMap_cons, descend_size layers, postorderFrom_size layers]
    cases enters : skip id with
    | true => exact .skips enters (ih later)
    | false =>
      rw [List.append_assoc]
      exact .enters enters here (ih later)

/-- The walks that follow the children come to these lists. The induction is on the number of levels
below the nodes. -/
theorem Layers.walked {depth : Nat} (deep : ∀ id ∈ ids, t.size ≤ level id + depth) :
    t.Walked skip ids (ids.flatMap (t.descend skip t.size))
      (ids.flatMap (t.postorderFrom skip t.size)) := by
  induction depth generalizing ids with
  | zero =>
    refine layers.walked_of_children fun id mem => ?_
    rw [layers.leaf (Nat.le_succ_of_le (deep id mem))]
    exact .nil
  | succ depth ih =>
    exact layers.walked_of_children fun id mem =>
      ih fun c listed => (layers.children (deep id mem) c listed).2

/-- **The walks list what is told node by node.** -/
theorem Layers.walked_iff : t.Walked skip [root] pre post ↔
    pre = t.preorder skip ∧ post = t.postorder skip := by
  have walked : t.Walked skip [root] (t.preorder skip) (t.postorder skip) := by
    have deep : ∀ id ∈ [root], t.size ≤ level id + t.size := fun id _ => Nat.le_add_left _ _
    have all : t.Walked skip [root] _ _ := layers.walked deep
    rwa [List.flatMap_singleton, List.flatMap_singleton, ← preorder_eq layers skip] at all
  refine ⟨fun other => walked.unique other, ?_⟩
  rintro ⟨rfl, rfl⟩
  exact walked

/-- The worklist is empty when the walk ends, so that more steps list no more nodes. -/
theorem Layers.preorder_ended (more : Nat) :
    t.preorderFrom skip ((t.preorder skip).length + more) [root] = t.preorder skip := by
  have all : [root].flatMap (t.descend skip t.size) = t.preorder skip := by
    rw [List.flatMap_singleton, preorder_eq layers]
  rw [preorderFrom_eq layers (by rw [all]; omega), all]

end Layers

/-- **What holds of the walks over a tree**, whatever nodes are skipped. -/
structure WalksWell (t : NodeTree) (skip : NodeId → Bool) : Prop where
  /-- The walks list what is told node by node. -/
  recursive : ∀ pre post, t.Walked skip [root] pre post ↔
    pre = t.preorder skip ∧ post = t.postorder skip
  /-- The worklist of the first walk gets empty. -/
  ended : ∀ more, t.preorderFrom skip ((t.preorder skip).length + more) [root] = t.preorder skip
  /-- The second walk follows the children to the end. -/
  deep : ∀ more, t.postorderFrom skip (t.size + more) root = t.postorder skip
  same : (t.postorder skip).Perm (t.preorder skip)
  once : (t.preorder skip).Nodup ∧ (t.postorder skip).Nodup
  /-- The children of a node that is entered are listed in their order, the first time after the
  node and the second time before it. -/
  children : ∀ p ∈ t.postorder skip, skip p = false →
    (p :: (t.node p).children).Sublist (t.preorder skip) ∧
    ((t.node p).children ++ [p]).Sublist (t.postorder skip)
  /-- Detaching a node takes from both walks just what is below it. -/
  detached : ∀ id ∈ t.reachable, id ≠ root →
    Thinned (fun n => ¬ t.Reaches (fun _ => false) id n) (t.preorder skip)
      ((t.detach id).preorder skip) ∧
    Thinned (fun n => ¬ t.Reaches (fun _ => false) id n) (t.postorder skip)
      ((t.detach id).postorder skip)

theorem Intact.walksWell (intact : t.Intact) (skip : NodeId → Bool) : t.WalksWell skip := by
  have layers := intact.proper.layers
  have walked : t.Walked skip [root] _ _ := layers.walked_iff.2 ⟨rfl, rfl⟩
  have once : (t.postorder skip).Nodup := nodup_postorder intact.proper
  constructor
  case recursive => exact fun pre post => layers.walked_iff
  case ended => exact layers.preorder_ended
  case deep => exact fun more => postorderFrom_deeper layers (by omega) (by omega)
  case same => exact walked.perm.symm
  case once => exact ⟨walked.perm.nodup_iff.2 once, once⟩
  case children => exact fun p mem => walked.children (walked.perm.mem_iff.2 mem)
  case detached =>
    intro id _ inner
    have without : (t.detach id).Walked skip [root] _ _ :=
      (intact.detach id).proper.layers.walked_iff.2 ⟨rfl, rfl⟩
    rw [intact.tied.detach] at without ⊢
    refine walked.thinned intact.proper (fun top is _ reached => ?_) ?_
    · -- Nothing but the outermost node comes before it.
      obtain rfl := List.mem_singleton.1 is
      exact inner (Nat.le_zero.1 (intact.proper.le_of_reaches reached))
    · rwa [List.filter_cons_of_pos (by simpa using Ne.symm inner), List.filter_nil]

/--
**Walks and detaching.** Take a document as it has been read, or a subtree as it has been taken out
of a tree, link the parents, and detach any nodes in any order, whatever becomes of the attributes.
Whatever nodes are skipped, the walk with the worklist and the walk that follows the children list
what is told node by node, each node once, and siblings in their order. Detaching one more node that
can be reached takes from both walks just the nodes of its subtree and leaves the others in place.
-/
theorem walks_after_detaching (original : t.Original) (worked : t.Worked u) (skip : NodeId → Bool) :
    u.WalksWell skip :=
  (worked.intact original).walksWell skip

/-- The last child is detached, and then the first one with what is below it. -/
theorem walks_after_detaching_child :
    let t : NodeTree := ⟨#[⟨⟨.root, ⟨"", "A"⟩, [], [], [], ⟨1, 1⟩⟩, [1, 3], none⟩,
      ⟨⟨.element, ⟨"", "B"⟩, [], [], [], ⟨1, 4⟩⟩, [2], none⟩,
      ⟨⟨.element, ⟨"", "C"⟩, [], [], [], ⟨1, 7⟩⟩, [], none⟩,
      ⟨⟨.element, ⟨"", "D"⟩, [], [], [], ⟨1, 15⟩⟩, [], none⟩], []⟩
    let u := t.linkParents.detach 3
    (NodeTree.read "<A><B><C/></B><D/></A>" = .ok t ∧ t.Worked u) ∧
      u.preorder (fun _ => false) = [0, 1, 2] ∧ u.postorder (fun _ => false) = [2, 1, 0] ∧
      u.preorder (· == 1) = [0, 1] ∧ (u.detach 1).postorder (fun _ => false) = [0] ∧
      u.WalksWell fun _ => false := by
  intro t u
  have read : NodeTree.read "<A><B><C/></B><D/></A>" = .ok t :=
    NodeTree.read_of_toOption (by decide +kernel)
  have worked : t.Worked u := .detached .linked 3
  exact ⟨⟨read, worked⟩, by decide +kernel, by decide +kernel, by decide +kernel, by decide +kernel,
    walks_after_detaching (.read read) worked _⟩

end NodeTree

end MarkupLoader
