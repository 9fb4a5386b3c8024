import MarkupLoader.Document.Tree
import Mathlib.Data.List.Flatten
import Mathlib.Data.List.Nodup
import Mathlib.Data.List.Perm.Basic

/-!
# Walks over proper trees

A tree is **proper** (`NodeTree.Proper`) if every node is listed as a child at most once and stands
after the node that lists it. Both walks down then list the same nodes, each of them once:

* the nodes that **can be reached** from a place (`NodeTree.Reaches`) by going from node to child
  and entering no node that is to be skipped.

The walk in document order is driven by a worklist, which no induction on the tree can follow;
`preorder_eq` shows that it is the walk that follows the children (`NodeTree.descend`). All it takes
is that nodes stand on levels (`NodeTree.Layers`), which holds of any tree without cycles.

Main results: `mem_postorder`, `nodup_postorder`, `preorder_eq`, `mem_preorder`, `proper_ofForest`.
-/

namespace MarkupLoader

namespace NodeTree

/-! ## Proper trees -/

/-- Every node is listed at most once, by a node that stands before it. -/
structure Proper (t : NodeTree) : Prop where
  nonempty : 0 < t.size
  later : ∀ p c : Nat, c ∈ (t.node p).children → p < c
  inside : ∀ p c : Nat, c ∈ (t.node p).children → c < t.size
  once : ∀ p q c, c ∈ (t.node p).children → c ∈ (t.node q).children → p = q
  nodup : ∀ p, (t.node p).children.Nodup

/-- The nodes that can be reached from a place without entering a node to be skipped. -/
inductive Reaches (t : NodeTree) (skip : NodeId → Bool) (top : NodeId) : NodeId → Prop
  | top : Reaches t skip top top
  | child {p c : NodeId} (above : Reaches t skip top p) (enters : skip p = false)
      (listed : c ∈ (t.node p).children) : Reaches t skip top c

section Reaching

variable {t : NodeTree} {skip : NodeId → Bool} {top id : Nat}

/-- Seen from above: a place is reached at once or through one of the children. -/
theorem reaches_iff : t.Reaches skip top id ↔
    id = top ∨ skip top = false ∧ ∃ c ∈ (t.node top).children, t.Reaches skip c id := by
  constructor
  · intro reaches
    induction reaches with
    | top => exact .inl rfl
    | child above enters listed ih =>
      rcases ih with rfl | ⟨enters', c, first, below⟩
      · exact .inr ⟨enters, _, listed, .top⟩
      · exact .inr ⟨enters', c, first, .child below enters listed⟩
  · rintro (rfl | ⟨enters, c, first, below⟩)
    · exact .top
    · induction below with
      | top => exact .child .top enters first
      | child _ enters' listed ih => exact .child ih enters' listed

/-- What is reached while some nodes are skipped is reached while none are. -/
theorem Reaches.all (reaches : t.Reaches skip top id) : t.Reaches (fun _ => false) top id := by
  induction reaches with
  | top => exact .top
  | child _ _ listed ih => exact .child ih rfl listed

theorem Proper.le_of_reaches (proper : t.Proper) (reaches : t.Reaches skip top id) : top ≤ id := by
  induction reaches with
  | top => exact Nat.le_refl _
  | child _ _ listed ih => exact Nat.le_trans ih (Nat.le_of_lt (proper.later _ _ listed))

/-- The node that lists a place below another one is reached on the way. -/
theorem Proper.reaches_of_listed (proper : t.Proper) {p : NodeId}
    (reaches : t.Reaches skip top id) (ne : id ≠ top) (listed : id ∈ (t.node p).children) :
    t.Reaches skip top p ∧ skip p = false := by
  cases reaches with
  | top => exact absurd rfl ne
  | child above enters listed' =>
    obtain rfl := proper.once _ _ _ listed listed'
    exact ⟨above, enters⟩

/-- Of two places from which one place is reached, one is reached from the other. -/
theorem Proper.comparable (proper : t.Proper) {a b : NodeId} (first : t.Reaches skip a id)
    (second : t.Reaches skip b id) : t.Reaches skip a b ∨ t.Reaches skip b a := by
  induction first with
  | top => exact .inr second
  | @child p c above enters listed ih =>
    by_cases same : c = b
    · subst same
      exact .inl (.child above enters listed)
    · exact ih (proper.reaches_of_listed second same listed).1

/-- Subtrees of two children have no node in common. -/
theorem Proper.disjoint_children (proper : t.Proper) {p a b : Nat}
    (listedA : a ∈ (t.node p).children) (listedB : b ∈ (t.node p).children) (ne : a ≠ b)
    (first : t.Reaches skip a id) (second : t.Reaches skip b id) : False := by
  -- A path from one child to the other would come back to their parent.
  have back : ∀ {a b : Nat}, a ∈ (t.node p).children → b ∈ (t.node p).children → a ≠ b →
      t.Reaches skip a b → False := by
    intro a b listedA listedB ne reaches
    have above := (proper.reaches_of_listed reaches (Ne.symm ne) listedB).1
    have later := proper.later _ _ listedA
    have := proper.le_of_reaches above
    omega
  rcases proper.comparable first second with below | below
  · exact back listedA listedB ne below
  · exact back listedB listedA (Ne.symm ne) below

end Reaching

/-! ## Layers -/

/-- Levels on which the nodes of a tree stand: the children of a node are deeper than the node, and
there are no more levels than nodes. -/
structure Layers (t : NodeTree) (level : NodeId → Nat) : Prop where
  deeper : ∀ p c, c ∈ (t.node p).children → level p < level c
  inside : ∀ p c, c ∈ (t.node p).children → level c < t.size

/-- In a proper tree the places can be taken for levels. -/
theorem Proper.layers {t : NodeTree} (proper : t.Proper) : t.Layers fun id : Nat => id :=
  ⟨proper.later, proper.inside⟩

namespace Layers

variable {t : NodeTree} {level : NodeId → Nat} {id : NodeId} (layers : t.Layers level)

include layers

/-- Nothing is below a node on the last level. -/
theorem leaf (deepest : t.size ≤ level id + 1) : (t.node id).children = [] := by
  refine List.eq_nil_iff_forall_not_mem.2 fun c listed => ?_
  have := layers.deeper _ _ listed
  have := layers.inside _ _ listed
  omega

/-- There is a level less below the children of a node than below the node. -/
theorem children {depth : Nat} (deep : t.size ≤ level id + (depth + 1)) :
    ∀ c ∈ (t.node id).children, level c < t.size ∧ t.size ≤ level c + depth := by
  intro c listed
  have := layers.deeper _ _ listed
  have := layers.inside _ _ listed
  omega

theorem children_size (id : NodeId) :
    ∀ c ∈ (t.node id).children, level c < t.size ∧ t.size ≤ level c + t.size :=
  layers.children (by omega)

end Layers

/-! ## The walk upwards -/

section Postorder

variable {t : NodeTree} {skip : NodeId → Bool} {level : NodeId → Nat}

theorem mem_postorderFrom (layers : t.Layers level) {depth : Nat} {top id : NodeId}
    (deep : t.size ≤ level top + depth + 1) :
    id ∈ t.postorderFrom skip depth top ↔ t.Reaches skip top id := by
  induction depth generalizing top with
  | zero =>
    rw [postorderFrom, List.mem_singleton, reaches_iff, layers.leaf deep]
    refine ⟨.inl, fun reaches => reaches.resolve_right ?_⟩
    rintro ⟨-, c, listed, -⟩
    cases listed
  | succ depth ih =>
    rw [postorderFrom, List.mem_append, List.mem_singleton, reaches_iff]
    cases skips : skip top with
    | true => simp
    | false =>
      have each : ∀ c ∈ (t.node top).children,
          (id ∈ t.postorderFrom skip depth c ↔ t.Reaches skip c id) := by
        intro c listed
        have := layers.deeper _ _ listed
        exact ih (by omega)
      simp only [Bool.false_eq_true, if_false, List.mem_flatMap, true_and]
      constructor
      · rintro (⟨c, listed, mem⟩ | rfl)
        · exact .inr ⟨c, listed, (each c listed).1 mem⟩
        · exact .inl rfl
      · rintro (rfl | ⟨c, listed, below⟩)
        · exact .inr rfl
        · exact .inl ⟨c, listed, (each c listed).2 below⟩

theorem nodup_postorderFrom (proper : t.Proper) {depth top : Nat}
    (deep : t.size ≤ top + depth + 1) : (t.postorderFrom skip depth top).Nodup := by
  induction depth generalizing top with
  | zero => exact List.nodup_singleton _
  | succ depth ih =>
    rw [postorderFrom]
    cases skips : skip top with
    | true => exact List.nodup_singleton _
    | false =>
      have deeper : ∀ c ∈ (t.node top).children, t.size ≤ c + depth + 1 := by
        intro c listed
        have := proper.later _ _ listed
        omega
      rw [if_neg Bool.false_ne_true, List.nodup_append]
      refine ⟨?_, List.nodup_singleton _, ?_⟩
      · rw [List.nodup_flatMap]
        refine ⟨fun c listed => ih (deeper c listed), ?_⟩
        refine (proper.nodup top).imp_of_mem fun listedA listedB ne id memA memB => ?_
        exact proper.disjoint_children listedA listedB ne
          ((mem_postorderFrom proper.layers (deeper _ listedA)).1 memA)
          ((mem_postorderFrom proper.layers (deeper _ listedB)).1 memB)
      · intro id mem top' is
        obtain rfl := List.mem_singleton.1 is
        obtain ⟨c, listed, mem⟩ := List.mem_flatMap.1 mem
        have below := (mem_postorderFrom proper.layers (deeper c listed)).1 mem
        have := proper.later _ _ listed
        have := proper.le_of_reaches below
        intro same
        subst same
        omega

theorem mem_postorder (proper : t.Proper) {id : NodeId} :
    id ∈ t.postorder skip ↔ t.Reaches skip root id :=
  mem_postorderFrom proper.layers (by simp [root])

theorem nodup_postorder (proper : t.Proper) : (t.postorder skip).Nodup :=
  nodup_postorderFrom proper (by simp [root])

end Postorder

/-! ## The walk in document order -/

/-- The nodes at and below a place, each before its children, no further down than `depth` levels.
Nodes in `skip` are listed and not entered. -/
def descend (t : NodeTree) (skip : NodeId → Bool) : Nat → NodeId → List NodeId
  | 0, id => [id]
  | depth + 1, id =>
    id :: if skip id then [] else (t.node id).children.flatMap (t.descend skip depth)

section Preorder

variable {t : NodeTree} {skip : NodeId → Bool} {level : NodeId → Nat}

/-- Both walks list the same nodes. -/
theorem perm_descend (t : NodeTree) (skip : NodeId → Bool) (depth : Nat) (top : NodeId) :
    (t.descend skip depth top).Perm (t.postorderFrom skip depth top) := by
  induction depth generalizing top with
  | zero => exact .refl _
  | succ depth ih =>
    rw [descend, postorderFrom]
    split
    · exact .refl _
    · refine .trans (.cons top ?_) (List.perm_append_singleton top _).symm
      exact List.Perm.flatMap_left _ fun c _ => ih c

/-- Skipping more nodes lists fewer. -/
theorem descend_sublist (t : NodeTree) (skip : NodeId → Bool) (depth : Nat) (top : NodeId) :
    (t.descend skip depth top).Sublist (t.descend (fun _ => false) depth top) := by
  induction depth generalizing top with
  | zero => exact .refl _
  | succ depth ih =>
    rw [descend, descend]
    refine .cons_cons top ?_
    split
    · exact List.nil_sublist _
    · exact List.Sublist.flatMap_right _ fun c _ => ih c

/-- Levels that no node is on do not matter. -/
theorem descend_deeper (layers : t.Layers level) {depth deeper : Nat} {top : NodeId}
    (deep : t.size ≤ level top + depth + 1) (le : depth ≤ deeper) :
    t.descend skip deeper top = t.descend skip depth top := by
  induction depth generalizing top deeper with
  | zero =>
    cases deeper with
    | zero => rfl
    | succ deeper =>
      simp [descend, layers.leaf deep]
  | succ depth ih =>
    obtain ⟨deeper, rfl⟩ : ∃ d, deeper = d + 1 := ⟨deeper - 1, by omega⟩
    rw [descend, descend]
    congr 1
    split
    · rfl
    · refine List.flatMap_congr fun c listed => ?_
      have := layers.deeper _ _ listed
      exact ih (by omega) (by omega)

/-- At the full depth a place comes before what is below its children. -/
theorem descend_size (layers : t.Layers level) (top : NodeId) :
    t.descend skip t.size top =
      top :: if skip top then [] else (t.node top).children.flatMap (t.descend skip t.size) := by
  have deeper : t.descend skip (t.size + 1) top = t.descend skip t.size top :=
    descend_deeper layers (by omega) (by omega)
  rw [← deeper, descend]

/-- Levels that no node is on do not matter on the way upwards either. -/
theorem postorderFrom_deeper (layers : t.Layers level) {depth deeper : Nat} {top : NodeId}
    (deep : t.size ≤ level top + depth + 1) (le : depth ≤ deeper) :
    t.postorderFrom skip deeper top = t.postorderFrom skip depth top := by
  induction depth generalizing top deeper with
  | zero =>
    cases deeper with
    | zero => rfl
    | succ deeper =>
      simp [postorderFrom, layers.leaf deep]
  | succ depth ih =>
    obtain ⟨deeper, rfl⟩ : ∃ d, deeper = d + 1 := ⟨deeper - 1, by omega⟩
    rw [postorderFrom, postorderFrom]
    congr 1
    split
    · rfl
    · refine List.flatMap_congr fun c listed => ?_
      have := layers.deeper _ _ listed
      exact ih (by omega) (by omega)

/-- At the full depth a place comes after what is below its children. -/
theorem postorderFrom_size (layers : t.Layers level) (top : NodeId) :
    t.postorderFrom skip t.size top =
      (if skip top then [] else (t.node top).children.flatMap (t.postorderFrom skip t.size)) ++
        [top] := by
  have deeper : t.postorderFrom skip (t.size + 1) top = t.postorderFrom skip t.size top :=
    postorderFrom_deeper layers (by omega) (by omega)
  rw [← deeper, postorderFrom]

/-- The worklist is worked off subtree by subtree. -/
theorem preorderFrom_eq (layers : t.Layers level) {fuel : Nat} {pending : List NodeId}
    (enough : (pending.flatMap (t.descend skip t.size)).length ≤ fuel) :
    t.preorderFrom skip fuel pending = pending.flatMap (t.descend skip t.size) := by
  induction fuel generalizing pending with
  | zero =>
    rw [List.eq_nil_of_length_eq_zero (Nat.le_zero.1 enough)]
    rfl
  | succ fuel ih =>
    cases pending with
    | nil => rfl
    | cons id rest =>
      have below : ((if skip id then [] else (t.node id).children) ++ rest).flatMap
          (t.descend skip t.size) =
          (if skip id then [] else (t.node id).children.flatMap (t.descend skip t.size)) ++
            rest.flatMap (t.descend skip t.size) := by
        rw [List.flatMap_append]
        split <;> rfl
      rw [List.flatMap_cons, descend_size layers id, List.cons_append] at enough ⊢
      rw [preorderFrom, ih, below]
      rw [below]
      exact Nat.le_of_succ_le_succ enough

/-- The walk with a worklist is the walk that follows the children. -/
theorem preorder_eq (layers : t.Layers level) (skip : NodeId → Bool) :
    t.preorder skip = t.descend skip t.size root := by
  rw [preorder, preorderFrom_eq layers]
  · exact List.flatMap_singleton _ _
  · rw [List.flatMap_singleton]
    refine Nat.le_trans (descend_sublist t skip t.size root).length_le ?_
    exact Nat.le_of_eq (perm_descend t _ t.size root).length_eq

theorem perm_preorder (layers : t.Layers level) (skip : NodeId → Bool) :
    (t.preorder skip).Perm (t.postorder skip) := by
  rw [preorder_eq layers]
  exact perm_descend t skip t.size root

theorem Layers.mem_preorder (layers : t.Layers level) {id : NodeId} :
    id ∈ t.preorder skip ↔ t.Reaches skip root id := by
  rw [(perm_preorder layers skip).mem_iff, postorder, mem_postorderFrom layers (by omega)]

theorem mem_preorder (proper : t.Proper) {id : NodeId} :
    id ∈ t.preorder skip ↔ t.Reaches skip root id := proper.layers.mem_preorder

end Preorder

end NodeTree

/-! ## Documents are proper trees -/

/-- In a layout every place is listed exactly once, as an outermost node or as a child. -/
theorem Forest.perm_listed (f : Forest) (base : Nat) :
    (f.roots base ++ (f.nodes base).flatMap (·.children)).Perm (List.range' base f.size) := by
  induction f generalizing base with
  | nil => exact .refl _
  | cons body children siblings below after =>
    have rest := (below (base + 1)).append (after (base + 1 + children.size))
    have range : List.range' base (cons body children siblings).size =
        base :: (List.range' (base + 1) children.size ++
          List.range' (base + 1 + children.size) siblings.size) := by
      have split : (cons body children siblings).size = (children.size + siblings.size) + 1 := by
        simp only [size]
        omega
      rw [split, List.range'_succ, List.range'_append_1]
    rw [range]
    simp only [roots, nodes, List.flatMap_cons, List.flatMap_append, List.cons_append]
    refine .cons base (.trans ?_ rest)
    -- The siblings come before what is below the first node; elsewhere they come after it.
    simp only [← List.append_assoc]
    refine .append_right _ ?_
    rw [List.append_assoc]
    exact List.perm_append_comm

/-- In a layout the children of a node stand after it. -/
theorem Forest.child_bounds {f : Forest} {base i : Nat} {n : Node} (here : (f.nodes base)[i]? = some n)
    {c : Nat} (listed : c ∈ n.children) : base + i < c ∧ c < base + f.size := by
  induction f generalizing base i with
  | nil => simp [nodes] at here
  | cons body children siblings below after =>
    simp only [nodes, size] at here ⊢
    cases i with
    | zero =>
      cases here
      have := mem_roots listed
      omega
    | succ i =>
      rw [List.getElem?_cons_succ] at here
      by_cases inside : i < children.size
      · rw [List.getElem?_append_left (by rwa [length_nodes])] at here
        have := below here
        omega
      · have len := length_nodes children (base + 1)
        rw [List.getElem?_append_right (by omega), len] at here
        have := after here
        omega

namespace NodeTree

/-- A node with children is in the array. -/
theorem getElem?_of_listed {t : NodeTree} {p c : NodeId} (listed : c ∈ (t.node p).children) :
    t.nodes[p]? = some (t.node p) := by
  unfold node at listed ⊢
  cases here : t.nodes[p]? with
  | some n => rfl
  | none =>
    rw [here] at listed
    cases listed

/-- A document is a proper tree. -/
theorem proper_ofForest (body : NodeBody) (below : Forest) (ignorable : List String) :
    (ofForest body below ignorable).Proper := by
  have size := size_ofForest body below ignorable
  have listed : ((⟨body, below.roots 1, none⟩ :: below.nodes 1 : List Node).flatMap
      (·.children)).Nodup := by
    rw [List.flatMap_cons]
    exact (below.perm_listed 1).nodup_iff.2 List.nodup_range'
  obtain ⟨each, apart⟩ := List.nodup_flatMap.1 listed
  have here : ∀ {p c : NodeId}, c ∈ ((ofForest body below ignorable).node p).children →
      (⟨body, below.roots 1, none⟩ :: below.nodes 1 : List Node)[p]? =
        some ((ofForest body below ignorable).node p) := by
    intro p c mem
    rw [← getElem?_of_listed mem]
    simp [ofForest]
  have bounds : ∀ p c : Nat, c ∈ ((ofForest body below ignorable).node p).children →
      p < c ∧ c < (ofForest body below ignorable).size := by
    intro p c mem
    cases p with
    | zero =>
      have := Forest.mem_roots (show c ∈ below.roots 1 from mem)
      omega
    | succ p =>
      have := Forest.child_bounds (here mem) mem
      omega
  refine ⟨by omega, fun p c mem => (bounds p c mem).1, fun p c mem => (bounds p c mem).2, ?_, ?_⟩
  · intro p q c memP memQ
    obtain ⟨insideP, isP⟩ := List.getElem?_eq_some_iff.1 (here memP)
    obtain ⟨insideQ, isQ⟩ := List.getElem?_eq_some_iff.1 (here memQ)
    have apart := List.pairwise_iff_getElem.1 apart
    rcases Nat.lt_trichotomy p q with less | same | less
    · exact absurd (isQ ▸ memQ) (apart p q insideP insideQ less (isP ▸ memP))
    · exact same
    · exact absurd (isP ▸ memP) (apart q p insideQ insideP less (isQ ▸ memQ))
  · intro p
    by_cases leaf : ((ofForest body below ignorable).node p).children = []
    · rw [leaf]
      exact List.nodup_nil
    · obtain ⟨c, mem⟩ := List.exists_mem_of_ne_nil _ leaf
      exact each _ (List.mem_of_getElem? (here mem))

end NodeTree

end MarkupLoader
