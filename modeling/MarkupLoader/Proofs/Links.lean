import MarkupLoader.Proofs.Thinning

/-!
# Links between nodes and their parents

After linking, every node that can be reached **knows its parent** (`NodeTree.Linked`): the node
that lists it. So detaching a node takes it out of the tree (`detach_eq`), what is kept stays
linked, and looking up from a place asks the same nodes as before.

Main results: `detach_eq`, `linked_linkParents`, `thins_linkParents`, `lookUpNamespace_congr`.
-/

namespace MarkupLoader

namespace NodeTree

/-! ## Trees as functions of their nodes -/

section Nodes

variable {t u : NodeTree} {id : NodeId}

/-- A tree is known by its nodes. -/
theorem eq_of_node (size : u.size = t.size) (ignorable : u.ignorable = t.ignorable)
    (node : ∀ id, u.node id = t.node id) : u = t := by
  obtain ⟨nodes, names⟩ := t
  obtain ⟨nodes', names'⟩ := u
  obtain rfl : names' = names := ignorable
  congr 1
  refine Array.ext size fun id inside inside' => ?_
  simpa [NodeTree.node, inside, inside'] using node id

theorem node_of_size_le (outside : t.size ≤ id) : t.node id = default := by
  have outside' : t.nodes.size ≤ id := outside
  simp [node, outside']

/-- Only which nodes are taken out counts. -/
theorem without_congr {gone others : List NodeId} (same : ∀ id, id ∈ gone ↔ id ∈ others) :
    t.without others = t.without gone := by
  have size : (t.without others).size = (t.without gone).size := by
    rw [size_without, size_without]
  refine eq_of_node size rfl fun id => ?_
  rw [node_without, node_without]
  have filters : (t.node id).children.filter (fun c => !others.contains c) =
      (t.node id).children.filter fun c => !gone.contains c :=
    List.filter_congr fun c _ => by simp [same c]
  rw [filters]

theorem without_without (t : NodeTree) (gone more : List NodeId) :
    (t.without gone).without more = t.without (gone ++ more) := by
  refine eq_of_node (by simp) rfl fun id => ?_
  simp only [node_without, List.filter_filter, List.contains_append, Bool.not_or]
  congr 2
  exact funext fun c => Bool.and_comm _ _

/-- Detaching a node takes it out, if whoever lists it is linked as its parent. -/
theorem detach_eq (linked : ∀ p, id ∈ (t.node p).children → (t.node id).parent = some p) :
    t.detach id = t.without [id] := by
  -- Where the node is not listed there is nothing to take out.
  have idle : ∀ p, id ∉ (t.node p).children → (t.without [id]).node p = t.node p := by
    intro p absent
    rw [node_without]
    have same : ((t.node p).children.filter fun c => !List.contains [id] c) = (t.node p).children :=
      List.filter_eq_self.2 fun c listed => by
        have : c ≠ id := fun is => absent (is ▸ listed)
        simpa using this
    rw [same]
  unfold detach
  split
  case h_1 top =>
    refine eq_of_node (by simp) rfl fun p => (idle p fun listed => ?_).symm
    rw [linked p listed] at top
    cases top
  case h_2 parent above =>
    refine eq_of_node (by simp) rfl fun p => ?_
    by_cases here : p = parent
    · subst here
      by_cases inside : p < t.size
      · rw [node_modify _ inside, node_without]
        congr 1
        exact List.filter_congr fun c _ => by
          simp only [bne, List.contains_cons, List.contains_nil, Bool.or_false]
      · have leaf : t.node p = default := node_of_size_le (Nat.le_of_not_lt inside)
        rw [node_without, leaf, node_of_size_le (by simpa using Nat.le_of_not_lt inside)]
        rfl
    · rw [node_modify_of_ne _ here, idle p fun listed => ?_]
      have other := linked p listed
      rw [above] at other
      exact here (Option.some.inj other).symm

end Nodes

/-! ## Links -/

/-- Every node that can be reached has the node that lists it as its parent. -/
structure Linked (t : NodeTree) : Prop where
  root : (t.node root).parent = none
  child : ∀ p c, t.Reaches (fun _ => false) NodeTree.root p → c ∈ (t.node p).children →
    (t.node c).parent = some p

section Linking

variable {t : NodeTree}

theorem node_linkChildren (proper : t.Proper) (p id : NodeId) :
    (t.linkChildren p).node id =
      { t.node id with parent :=
        if id ∈ (t.node p).children then some p else (t.node id).parent } := by
  have each : ∀ (children : List NodeId) (u : NodeTree), (∀ c ∈ children, c < u.size) →
      (children.foldl (fun u c => u.modify c fun n => { n with parent := some p }) u).node id =
        { u.node id with parent := if id ∈ children then some p else (u.node id).parent } := by
    intro children
    induction children with
    | nil => exact fun u _ => by simp
    | cons c rest ih =>
      intro u inside
      obtain ⟨here, later⟩ := List.forall_mem_cons.1 inside
      rw [List.foldl_cons, ih _ (by simpa using later)]
      by_cases same : id = c
      · subst same
        rw [node_modify _ here]
        simp
      · rw [node_modify_of_ne _ same]
        simp [same]
  exact each _ t fun c listed => proper.inside p c listed

theorem size_linkChildren (t : NodeTree) (p : NodeId) : (t.linkChildren p).size = t.size := by
  have each : ∀ (children : List NodeId) (u : NodeTree),
      (children.foldl (fun u c => u.modify c fun n => { n with parent := some p }) u).size =
        u.size := by
    intro children
    induction children with
    | nil => exact fun u => rfl
    | cons c rest ih => exact fun u => (ih _).trans (size_modify _ _ _)
  exact each _ t

theorem ignorable_linkChildren (t : NodeTree) (p : NodeId) :
    (t.linkChildren p).ignorable = t.ignorable := by
  have each : ∀ (children : List NodeId) (u : NodeTree),
      (children.foldl (fun u c => u.modify c fun n => { n with parent := some p }) u).ignorable =
        u.ignorable := by
    intro children
    induction children with
    | nil => exact fun u => rfl
    | cons c rest ih => exact fun u => ih _
  exact each _ t

/-- What linking the children of some nodes does: the first of the nodes to list a place becomes
its parent. In a proper tree no other does. -/
theorem node_foldl_linkChildren (proper : t.Proper) (list : List NodeId) (id : NodeId) :
    (list.foldl linkChildren t).node id =
      { t.node id with parent :=
        (list.find? fun p => (t.node p).children.contains id).or (t.node id).parent } := by
  induction list generalizing t with
  | nil => rfl
  | cons p rest ih =>
    have children : ∀ q, ((t.linkChildren p).node q).children = (t.node q).children :=
      fun q => by rw [node_linkChildren proper]
    have proper' : (t.linkChildren p).Proper := by
      have size := size_linkChildren t p
      refine ⟨size ▸ proper.nonempty, fun q c => ?_, fun q c => ?_, fun q r c => ?_, fun q => ?_⟩
      · rw [children]; exact proper.later q c
      · rw [children, size]; exact proper.inside q c
      · rw [children, children]; exact proper.once q r c
      · rw [children]; exact proper.nodup q
    rw [List.foldl_cons, ih proper']
    simp only [children]
    rw [node_linkChildren proper, List.find?_cons]
    by_cases listed : id ∈ (t.node p).children
    · -- A later one that lists the place is the same node.
      have first : (rest.find? fun q => (t.node q).children.contains id).or (some p) = some p := by
        cases found : rest.find? fun q => (t.node q).children.contains id with
        | none => rfl
        | some q =>
          have listed' := List.find?_some found
          simp only [List.contains_eq_mem, decide_eq_true_eq] at listed'
          rw [proper.once q p id listed' listed]
          rfl
      have hit : (t.node p).children.contains id = true := by simpa using listed
      rw [if_pos listed, first]
      simp only [hit]
      rfl
    · simp [listed]

theorem size_foldl_linkChildren (list : List NodeId) (t : NodeTree) :
    (list.foldl linkChildren t).size = t.size := by
  induction list generalizing t with
  | nil => rfl
  | cons p rest ih => exact (ih _).trans (size_linkChildren t p)

theorem ignorable_foldl_linkChildren (list : List NodeId) (t : NodeTree) :
    (list.foldl linkChildren t).ignorable = t.ignorable := by
  induction list generalizing t with
  | nil => rfl
  | cons p rest ih => exact (ih _).trans (ignorable_linkChildren t p)

/-- A tree with the same children everywhere is just as proper. -/
theorem Proper.of_children {u : NodeTree} (proper : t.Proper) (size : u.size = t.size)
    (children : ∀ id, (u.node id).children = (t.node id).children) : u.Proper where
  nonempty := size ▸ proper.nonempty
  later p c listed := proper.later p c (children p ▸ listed)
  inside p c listed := size ▸ proper.inside p c (children p ▸ listed)
  once p q c listedP listedQ := proper.once p q c (children p ▸ listedP) (children q ▸ listedQ)
  nodup p := children p ▸ proper.nodup p

/-- Linking changes parents only. -/
theorem node_linkParents (proper : t.Proper) (id : NodeId) :
    ∃ parent, t.linkParents.node id = { t.node id with parent := parent } := by
  have top : ∀ n, ∃ parent, (t.modify root fun n => { n with parent := none }).node n =
      { t.node n with parent := parent } := by
    intro n
    by_cases is : n = root
    · rw [is]
      exact ⟨none, node_modify _ proper.nonempty⟩
    · rw [node_modify_of_ne _ is]
      exact ⟨(t.node n).parent, rfl⟩
  have proper' : (t.modify root fun n => { n with parent := none }).Proper :=
    proper.of_children (size_modify _ _ _) fun n => by
      obtain ⟨parent, is⟩ := top n
      rw [is]
  obtain ⟨parent, is⟩ := top id
  rw [linkParents, node_foldl_linkChildren proper', is]
  exact ⟨_, rfl⟩

theorem body_linkParents (proper : t.Proper) (id : NodeId) :
    (t.linkParents.node id).toNodeBody = (t.node id).toNodeBody := by
  obtain ⟨parent, is⟩ := node_linkParents proper id
  rw [is]

theorem children_linkParents (proper : t.Proper) (id : NodeId) :
    (t.linkParents.node id).children = (t.node id).children := by
  obtain ⟨parent, is⟩ := node_linkParents proper id
  rw [is]

theorem size_linkParents (t : NodeTree) : t.linkParents.size = t.size :=
  (size_foldl_linkChildren _ _).trans (size_modify _ _ _)

theorem ignorable_linkParents (t : NodeTree) : t.linkParents.ignorable = t.ignorable :=
  ignorable_foldl_linkChildren _ _

theorem isIgnorable_linkParents (t : NodeTree) : t.linkParents.isIgnorable = t.isIgnorable := by
  funext uri
  rw [isIgnorable, isIgnorable, ignorable_linkParents]

theorem isIgnorableNode_linkParents (proper : t.Proper) :
    t.linkParents.isIgnorableNode = t.isIgnorableNode := by
  funext id
  rw [isIgnorableNode, isIgnorableNode, isIgnorable_linkParents, body_linkParents proper]

theorem Proper.linkParents (proper : t.Proper) : t.linkParents.Proper :=
  proper.of_children (size_linkParents t) (children_linkParents proper)

/-- After linking, all nodes that can be reached know their parents. -/
theorem linked_linkParents (proper : t.Proper) : t.linkParents.Linked := by
  have children := children_linkParents proper
  have top : ∀ id, ((t.modify root fun n => { n with parent := none }).node id).children =
      (t.node id).children := by
    intro id
    by_cases is : id = root
    · rw [is, root, node_modify _ proper.nonempty]
    · rw [node_modify_of_ne _ is]
  have proper' := proper.of_children (u := t.modify root fun n => { n with parent := none })
    (size_modify _ _ _) top
  refine ⟨?_, fun p c reached listed => ?_⟩
  · -- Nobody lists the outermost element.
    rw [linkParents, node_foldl_linkChildren proper']
    have unlisted : ((t.postorder fun _ => false).reverse.find? fun p =>
        ((t.modify root fun n => { n with parent := none }).node p).children.contains root) =
          none := by
      refine List.find?_eq_none.2 fun p _ lists => ?_
      rw [top] at lists
      exact absurd (proper.later p root (by simpa using lists)) (Nat.not_lt_zero p)
    rw [unlisted]
    exact congrArg Node.parent (node_modify _ proper.nonempty)
  · rw [children] at listed
    have reached' : t.Reaches (fun _ => false) root p :=
      reached.congr fun n _ => ⟨(children n).symm, rfl⟩
    rw [linkParents, node_foldl_linkChildren proper']
    cases found : (t.postorder fun _ => false).reverse.find? fun p =>
        ((t.modify root fun n => { n with parent := none }).node p).children.contains c with
    | none =>
      have mem : p ∈ (t.postorder fun _ => false).reverse :=
        List.mem_reverse.2 ((mem_postorder proper).2 reached')
      exact absurd (by simpa [top] using listed) (List.find?_eq_none.1 found p mem)
    | some q =>
      have listed' := List.find?_some found
      rw [top] at listed'
      have same : q = p := proper.once q p c (by simpa using listed') listed
      rw [same]
      rfl

/-- Whoever lists a node that can be reached is its parent. -/
theorem Linked.parent_of_reaches (linked : t.Linked) (proper : t.Proper) {p id : NodeId}
    (reached : t.Reaches (fun _ => false) NodeTree.root id) (listed : id ∈ (t.node p).children) :
    (t.node id).parent = some p := by
  cases reached with
  | top => exact absurd (proper.later p NodeTree.root listed) (Nat.not_lt_zero p)
  | child above _ listed' =>
    rw [proper.once p _ _ listed listed']
    exact linked.child _ _ above listed'

/-- Detaching a node that can be reached takes it out, also after others have been taken out. -/
theorem detach_without (linked : t.Linked) (proper : t.Proper) (gone : List NodeId) {id : NodeId}
    (reached : t.Reaches (fun _ => false) NodeTree.root id) :
    (t.without gone).detach id = t.without (gone ++ [id]) := by
  rw [detach_eq fun p listed => ?_, without_without]
  rw [node_without]
  exact linked.parent_of_reaches proper reached (mem_children_without.1 listed).1

/-- A node that is kept knows its parent, which is kept as well. -/
theorem Linked.keeps_parent (linked : t.Linked) {gone : List NodeId}
    {id parent : NodeId} (keeps : t.Keeps gone id) (above : (t.node id).parent = some parent) :
    t.Keeps gone parent := by
  cases keeps with
  | top =>
    rw [linked.root] at above
    cases above
  | child reached _ listed =>
    have known := linked.child _ _ (Keeps.reaches reached) (mem_children_without.1 listed).1
    obtain rfl := Option.some.inj (known.symm.trans above)
    exact reached

theorem Linked.without (linked : t.Linked) (gone : List NodeId) : (t.without gone).Linked where
  root := by
    rw [node_without]
    exact linked.root
  child p c reached listed := by
    rw [node_without]
    exact linked.child p c (Keeps.reaches reached) (mem_children_without.1 listed).1

/-- A node that can be reached is listed by its parent. -/
theorem Linked.listed_of_parent (linked : t.Linked) {id parent : NodeId}
    (reached : t.Reaches (fun _ => false) NodeTree.root id)
    (above : (t.node id).parent = some parent) : id ∈ (t.node parent).children := by
  cases reached with
  | top =>
    rw [linked.root] at above
    cases above
  | child reached _ listed =>
    obtain rfl := Option.some.inj ((linked.child _ _ reached listed).symm.trans above)
    exact listed

theorem Linked.reaches_parent (linked : t.Linked) {id parent : NodeId}
    (reached : t.Reaches (fun _ => false) NodeTree.root id)
    (above : (t.node id).parent = some parent) :
    t.Reaches (fun _ => false) NodeTree.root parent := by
  rw [← without_nil t]
  exact linked.keeps_parent (by unfold Keeps; rwa [without_nil]) above

/-- Linking commutes with taking nodes out. -/
theorem thins_linkParents (proper : t.Proper) (gone : List NodeId) :
    t.linkParents.Thins (t.without gone).linkParents gone := by
  have linked := linked_linkParents proper
  have linked' := linked_linkParents (proper.without gone)
  have body := node_linkParents proper
  have body' := node_linkParents (proper.without gone)
  refine ⟨?_, ?_, fun id keeps => ?_⟩
  · rw [size_linkParents, size_linkParents, size_without]
  · rw [ignorable_linkParents, ignorable_linkParents]
    rfl
  have parents : ((t.without gone).linkParents.node id).parent = (t.linkParents.node id).parent := by
    cases keeps with
    | top => rw [linked.root, linked'.root]
    | @child p _ reached _ listed =>
      obtain ⟨listed, stays⟩ := mem_children_without.1 listed
      rw [linked.child _ _ (Keeps.reaches reached) listed]
      refine linked'.child _ _ ?_ ?_
      · refine Reaches.congr reached fun n _ => ⟨?_, rfl⟩
        obtain ⟨parent, is⟩ := body n
        obtain ⟨parent', is'⟩ := body' n
        rw [is', node_without, node_without, is]
      · obtain ⟨parent, is⟩ := body p
        obtain ⟨parent', is'⟩ := body' p
        rw [is', mem_children_without]
        rw [is] at listed
        exact ⟨listed, stays⟩
  obtain ⟨parent, is⟩ := body id
  obtain ⟨parent', is'⟩ := body' id
  rw [is, is'] at parents
  rw [node_without, is, is', node_without, show parent' = parent from parents]

/-! ## Looking up -/

/-- Looking up depends only on a place and what is above it. -/
theorem ancestorsFrom_congr {u : NodeTree} {P : NodeId → Prop}
    (up : ∀ id parent, P id → (t.node id).parent = some parent → P parent)
    (same : ∀ id, P id → (u.node id).parent = (t.node id).parent) (fuel : Nat) {id : NodeId}
    (here : P id) :
    u.ancestorsFrom fuel id = t.ancestorsFrom fuel id ∧ ∀ n ∈ t.ancestorsFrom fuel id, P n := by
  induction fuel generalizing id with
  | zero => exact ⟨rfl, nofun⟩
  | succ fuel ih =>
    rw [ancestorsFrom, ancestorsFrom, same id here]
    cases above : (t.node id).parent with
    | none => exact ⟨rfl, nofun⟩
    | some parent =>
      have holds' := up id parent here above
      obtain ⟨equal, all⟩ := ih holds'
      exact ⟨congrArg _ equal, List.forall_mem_cons.2 ⟨holds', all⟩⟩

theorem selfAndAncestors_congr {u : NodeTree} {P : NodeId → Prop} (size : u.size = t.size)
    (up : ∀ id parent, P id → (t.node id).parent = some parent → P parent)
    (same : ∀ id, P id → (u.node id).parent = (t.node id).parent) {id : NodeId}
    (here : P id) :
    u.selfAndAncestors id = t.selfAndAncestors id ∧ ∀ n ∈ t.selfAndAncestors id, P n := by
  obtain ⟨equal, all⟩ := ancestorsFrom_congr up same t.size here
  unfold selfAndAncestors ancestors
  rw [size, equal]
  exact ⟨rfl, List.forall_mem_cons.2 ⟨here, all⟩⟩

theorem lookUpNamespace_congr {u : NodeTree} {P : NodeId → Prop} (size : u.size = t.size)
    (up : ∀ id parent, P id → (t.node id).parent = some parent → P parent)
    (same : ∀ id, P id → (u.node id).parent = (t.node id).parent ∧
      (u.node id).namespaces = (t.node id).namespaces) {id : NodeId} (here : P id) :
    u.lookUpNamespace id = t.lookUpNamespace id := by
  obtain ⟨equal, all⟩ := selfAndAncestors_congr size up (fun n h => (same n h).1) here
  funext key
  unfold lookUpNamespace
  rw [equal]
  rw [← List.head?_filterMap, ← List.head?_filterMap]
  exact congrArg List.head? (List.filterMap_congr fun n mem => by rw [(same n (all n mem)).2])

theorem lookUpNamespace_without (t : NodeTree) (gone : List NodeId) (id : NodeId) :
    (t.without gone).lookUpNamespace id = t.lookUpNamespace id := by
  refine lookUpNamespace_congr (P := fun _ => True) (t.size_without gone) (fun _ _ _ _ => trivial)
    (fun n _ => ?_) trivial
  rw [node_without]
  exact ⟨rfl, rfl⟩

theorem Thins.lookUpNamespace {u : NodeTree} {gone : List NodeId} (thins : t.Thins u gone)
    (linked : t.Linked) {id : NodeId} (keeps : t.Keeps gone id) :
    u.lookUpNamespace id = t.lookUpNamespace id :=
  lookUpNamespace_congr (P := t.Keeps gone) thins.size
    (fun _ _ keeps above => linked.keeps_parent keeps above)
    (fun _ keeps => ⟨thins.parent keeps, congrArg NodeBody.namespaces (thins.body keeps)⟩) keeps

end Linking

end NodeTree

end MarkupLoader
