import MarkupLoader.Load.Creation
import MarkupLoader.Proofs.Copies
import MarkupLoader.Proofs.Shape

/-!
# Routes in a document

The route to a place (`NodeTree.route`) has one number for every node on the way down to it, and
routes are compared number by number. A place comes before all that is below it, and of two
children the one that comes first is first with all that is below it.

The order is that of the document, but for **the arguments of a constructor**: they come before
everything else in their element, wherever they stand in it. They are used up when the object is
made, and so an object has what they gave it before it gets anything from its other children.

* **Ordered trees** (`NodeTree.Ordered`) list children in the order of their places, as a document
  does that has been read.
* **The walk in document order** meets the children of a node in this order.

Main results: `Linked.route_child`, `ordered_of_read`, `Ordered.lt_of_preorder`.
-/

namespace MarkupLoader

namespace NodeTree

/-! ## Trees that list their children in order -/

/-- Every node lists its children in the order of their places. -/
def Ordered (t : NodeTree) : Prop := ∀ p, (t.node p).children.Pairwise (· < ·)

end NodeTree

/-- The outermost nodes of a layout come in the order of their places. -/
theorem Forest.pairwise_roots (f : Forest) (base : Nat) : (f.roots base).Pairwise (· < ·) := by
  induction f generalizing base with
  | nil => exact .nil
  | cons body children siblings below after =>
    refine .cons (fun (id : Nat) mem => ?_) (after _)
    have bound := (mem_roots mem).1
    exact Nat.lt_of_lt_of_le (by omega) bound

theorem Forest.pairwise_children {f : Forest} {base : Nat} {n : Node} (mem : n ∈ f.nodes base) :
    n.children.Pairwise (· < ·) := by
  induction f generalizing base with
  | nil => cases mem
  | cons body children siblings below after =>
    rcases List.mem_cons.1 mem with rfl | mem
    · exact children.pairwise_roots (base + 1)
    · rcases List.mem_append.1 mem with inside | later
      · exact below inside
      · exact after later

namespace NodeTree

theorem ordered_ofForest (body : NodeBody) (below : Forest) (ignorable : List String) :
    (ofForest body below ignorable).Ordered := by
  intro p
  -- What lists a child is the outermost node or one of the layout.
  by_cases leaf : ((ofForest body below ignorable).node p).children = []
  · rw [leaf]
    exact .nil
  · obtain ⟨c, listed⟩ := List.exists_mem_of_ne_nil _ leaf
    have here := getElem?_of_listed listed
    have mem : (ofForest body below ignorable).node p ∈
        (⟨body, below.roots 1, none⟩ :: below.nodes 1 : List Node) := by
      refine List.mem_of_getElem? (i := p) ?_
      rw [← here]
      simp [ofForest]
    rcases List.mem_cons.1 mem with is | later
    · rw [is]
      exact below.pairwise_roots 1
    · exact Forest.pairwise_children later

/-- A document that has been read lists children in order. -/
theorem ordered_of_read {markup : String} {tree : NodeTree}
    (read : NodeTree.read markup = .ok tree) : tree.Ordered := by
  obtain ⟨outer, below, ignorable, -, -, -, rfl⟩ := forest_of_read read
  exact ordered_ofForest outer below ignorable

variable {t : NodeTree} {p c : NodeId}

/-- Taking nodes out leaves the others in order. -/
theorem Ordered.without (ordered : t.Ordered) (gone : List NodeId) : (t.without gone).Ordered := by
  intro p
  rw [node_without]
  exact (ordered p).sublist List.filter_sublist

/-! ## Routes -/

/-- Whether a node holds the arguments of a constructor. -/
def isArguments (t : NodeTree) (id : NodeId) : Bool :=
  match (t.node id).kind with
  | .property name => name.isDirective "Arguments"
  | _ => false

theorem isArguments_of_arguments? {holder : NodeId} (is : t.arguments? p = some holder) :
    holder ∈ (t.node p).children ∧ t.isArguments holder = true :=
  ⟨List.mem_of_find?_eq_some is, List.find?_some is⟩

theorem isArguments_of_isObject {id : NodeId} (object : (t.node id).isObject = true) :
    t.isArguments id = false := by
  unfold isArguments
  split
  case h_1 kind =>
    rw [NodeBody.isObject, kind] at object
    cases object
  case h_2 => rfl

/-- The number of a node among its siblings. Arguments come first. -/
def step (t : NodeTree) (id : NodeId) : Nat := if t.isArguments id then 0 else id + 1

/-- The numbers of the nodes on the way down to a place. -/
def route (t : NodeTree) (id : NodeId) : List Nat :=
  (t.selfAndAncestors id).reverse.map t.step

/-- The way to a child goes through its parent. -/
theorem Linked.route_child (linked : t.Linked) (proper : t.Proper)
    (above : t.Reaches (fun _ => false) NodeTree.root p) (listed : c ∈ (t.node p).children) :
    t.route c = t.route p ++ [t.step c] := by
  simp only [route, selfAndAncestors, linked.ancestors_child proper above listed,
    List.reverse_cons, List.map_append, List.map_cons, List.map_nil]

/-- Arguments come before all other children. -/
theorem step_lt_of_isArguments {other : NodeId} (first : t.isArguments c = true)
    (second : t.isArguments other = false) : t.step c < t.step other := by
  simp [step, first, second]

/-- A child comes before the later ones, unless these are arguments. -/
theorem step_lt_of_lt {c other : Nat} (later : c < other) (second : t.isArguments other = false) :
    t.step c < t.step other := by
  simp only [step, second]
  split <;> simp [later]

end NodeTree

/-! ## Comparing routes -/

section Comparing

variable (l : List Nat) {m m' : List Nat} {a b : Nat}

/-- A longer way on from a place comes later. -/
theorem lt_append_cons (a : Nat) (m : List Nat) : l < l ++ a :: m := by
  have longer : l ++ [] < l ++ a :: m := List.append_left_lt (List.nil_lt_cons a m)
  rwa [List.append_nil] at longer

/-- Where two ways part, the smaller number comes first. -/
theorem append_cons_lt (less : a < b) : l ++ a :: m < l ++ b :: m' :=
  List.append_left_lt (List.cons_lt_cons_iff.2 (.inl less))

end Comparing

namespace NodeTree

/-- What a document offers whose places are told apart by their routes. -/
structure Routed (t : NodeTree) : Prop where
  proper : t.Proper
  linked : t.Linked
  ordered : t.Ordered

namespace Routed

variable {t : NodeTree} {p c other : NodeId} (routed : t.Routed)
  (above : t.Reaches (fun _ => false) root p)

include routed above

/-- A place comes before what is below it. -/
theorem lt_child (listed : c ∈ (t.node p).children) : t.route p < t.route c := by
  rw [routed.linked.route_child routed.proper above listed]
  exact lt_append_cons _ _ _

/-- Children come in the order of their numbers. -/
theorem lt_sibling (listed : c ∈ (t.node p).children) (listed' : other ∈ (t.node p).children)
    (first : t.step c < t.step other) : t.route c < t.route other := by
  rw [routed.linked.route_child routed.proper above listed,
    routed.linked.route_child routed.proper above listed']
  exact append_cons_lt _ first

/-- What is below a child comes before the next child. -/
theorem grandchild_lt_sibling {e : NodeId} (listed : c ∈ (t.node p).children)
    (listed' : other ∈ (t.node p).children) (first : t.step c < t.step other)
    (below : e ∈ (t.node c).children) : t.route e < t.route other := by
  have reached : t.Reaches (fun _ => false) root c := .child above rfl listed
  rw [routed.linked.route_child routed.proper reached below,
    routed.linked.route_child routed.proper above listed,
    routed.linked.route_child routed.proper above listed', List.append_assoc, List.singleton_append]
  exact append_cons_lt _ first

/-- In front of all children but the arguments there is room for one place more. -/
theorem room_lt_child (listed : c ∈ (t.node p).children) (other : t.isArguments c = false) :
    t.route p ++ [0] < t.route c := by
  rw [routed.linked.route_child routed.proper above listed]
  refine append_cons_lt _ ?_
  simp [step, other]

end Routed

/-! ## The walk in document order -/

section Walk

variable {t : NodeTree} {skip : NodeId → Bool} {level : NodeId → Nat}

/-- Each of the lists that are joined is part of the whole. -/
theorem sublist_flatMap_of_mem {α β : Type} {list : List α} {a : α} (f : α → List β)
    (mem : a ∈ list) : (f a).Sublist (list.flatMap f) := by
  rw [List.flatMap_def]
  exact List.sublist_flatten_of_mem (List.mem_map_of_mem mem)

/-- The walk meets what is at and below a place in the order of the walk from there. -/
theorem descend_sublist_of_reaches (layers : t.Layers level) {top id : NodeId}
    (reached : t.Reaches skip top id) :
    (t.descend skip t.size id).Sublist (t.descend skip t.size top) := by
  induction reached with
  | top => exact .refl _
  | @child p c _ enters listed ih =>
    refine .trans ?_ ih
    rw [descend_size layers p, enters]
    exact (sublist_flatMap_of_mem _ listed).cons p

/-- The walk meets the children of a node in the order in which they are listed. -/
theorem children_sublist_preorder (layers : t.Layers level) {p : NodeId}
    (reached : t.Reaches skip root p) (enters : skip p = false) :
    (t.node p).children.Sublist (t.preorder skip) := by
  -- Each child is where the walk from it begins.
  have heads : ∀ list : List NodeId, list.Sublist (list.flatMap (t.descend skip t.size)) := by
    intro list
    induction list with
    | nil => exact .refl _
    | cons c rest ih =>
      rw [List.flatMap_cons, descend_size layers c, List.cons_append]
      exact (ih.trans (List.sublist_append_right _ _)).cons_cons c
  rw [preorder_eq layers]
  refine .trans ?_ (descend_sublist_of_reaches layers reached)
  rw [descend_size layers p, enters]
  exact (heads _).cons p

/-- Of two children of a node the walk meets the one with the smaller place first. -/
theorem Ordered.lt_of_preorder (ordered : t.Ordered) (proper : t.Proper) {done rest : List NodeId}
    {p c other : NodeId} (walk : t.preorder skip = done ++ c :: rest) (later : other ∈ rest)
    (listed : c ∈ (t.node p).children) (listed' : other ∈ (t.node p).children) : c < other := by
  -- The walk meets no node twice.
  have nodup : (done ++ c :: rest).Nodup := by
    rw [← walk, (perm_preorder proper.layers skip).nodup_iff]
    exact nodup_postorder proper
  obtain ⟨-, nodup', apart⟩ := List.nodup_append.1 nodup
  have fresh := (List.nodup_cons.1 nodup').1
  have reached : t.Reaches skip root c := by
    rw [← mem_preorder proper, walk]
    exact List.mem_append_right _ List.mem_cons_self
  have below : c ≠ root := by
    rintro rfl
    exact absurd (proper.later p root listed) (Nat.not_lt_zero p)
  obtain ⟨above, enters⟩ := proper.reaches_of_listed reached below listed
  -- The children are met in order, so none that is met after this one is listed before it.
  have whole := children_sublist_preorder proper.layers above enters
  rw [walk] at whole
  obtain ⟨first, second, is, before, after⟩ := List.sublist_append_iff.1 whole
  have mem : ∀ n ∈ (t.node p).children, n ∈ c :: rest → n ∈ second := by
    intro n listed here
    rw [is] at listed
    rcases List.mem_append.1 listed with early | late
    · exact absurd rfl (apart n (before.subset early) n here)
    · exact late
  have there := mem c listed List.mem_cons_self
  have there' := mem other listed' (List.mem_cons_of_mem _ later)
  rcases List.sublist_cons_iff.1 after with skipped | ⟨others, rfl, -⟩
  · exact absurd (skipped.subset there) fresh
  · have ne : other ≠ c := by
      rintro rfl
      exact fresh later
    have sorted := (List.pairwise_append.1 (is ▸ ordered p)).2.1
    exact (List.pairwise_cons.1 sorted).1 other ((List.mem_cons.1 there').resolve_left ne)

end Walk

end NodeTree

end MarkupLoader
