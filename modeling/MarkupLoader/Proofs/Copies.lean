import MarkupLoader.Proofs.Links

/-!
# Subtrees as documents of their own

A subtree that is taken out (`NodeTree.extract`) is **a copy** of what stands in the document
(`NodeTree.Copies`): each of its places stands for a place at or below the old one, and the nodes
there say the same and have the same children, in the same order. Only the outermost node differs,
since it declares all the prefixes that are declared around it.

Hence **looking up a prefix** in the copy gives what it gives in the document.

Main results: `copies_extract`, `Copies.lookUpNamespace`.
-/

namespace MarkupLoader

namespace NodeTree

variable {t : NodeTree}

/-! ## Layouts of subtrees -/

section Layouts

variable {level : NodeId → Nat}

/-- The places at and below some places, in document order. -/
def below (t : NodeTree) (ids : List NodeId) : List NodeId :=
  ids.flatMap (t.descend (fun _ => false) t.size)

theorem below_cons (layers : t.Layers level) (id : NodeId) (rest : List NodeId) :
    t.below (id :: rest) = id :: (t.below (t.node id).children ++ t.below rest) := by
  rw [below, List.flatMap_cons, descend_size layers id]
  rfl

theorem below_singleton (layers : t.Layers level) (id : NodeId) :
    t.below [id] = id :: t.below (t.node id).children := by
  rw [below_cons layers]
  exact congrArg _ (List.append_nil _)

theorem forestOf_cons (depth : Nat) (id : NodeId) (rest : List NodeId) :
    t.forestOf (depth + 1) (id :: rest) =
      .cons (t.node id).toNodeBody (t.forestOf depth (t.node id).children)
        (t.forestOf (depth + 1) rest) := rfl

/-- A forest has the nodes at and below the places that it is made of, if it is deep enough. -/
theorem size_forestOf (layers : t.Layers level) {depth : Nat} {ids : List NodeId}
    (deep : ∀ id ∈ ids, level id < t.size ∧ t.size ≤ level id + depth) :
    (t.forestOf depth ids).size = (t.below ids).length := by
  induction depth generalizing ids with
  | zero =>
    cases ids with
    | nil => rfl
    | cons id rest =>
      have := deep id List.mem_cons_self
      omega
  | succ depth ih =>
    induction ids with
    | nil => rfl
    | cons id rest later =>
      obtain ⟨⟨-, here⟩, others⟩ := List.forall_mem_cons.1 deep
      have children := layers.children here
      rw [forestOf_cons, below_cons layers, Forest.size, ih children, later others]
      simp only [List.length_cons, List.length_append]
      omega

/-- A forest of some places, laid out: the nodes stand for these places and those below them. -/
theorem nodes_forestOf (layers : t.Layers level) {depth base : Nat} {ids : List NodeId}
    {place : NodeId → NodeId} (deep : ∀ id ∈ ids, level id < t.size ∧ t.size ≤ level id + depth)
    (agree : (List.range' base (t.below ids).length).map place = t.below ids) :
    ((t.forestOf depth ids).roots base).map place = ids ∧
      ∀ (i : Nat) n, ((t.forestOf depth ids).nodes base)[i]? = some n →
        n.toNodeBody = (t.node (place (base + i))).toNodeBody ∧
          n.children.map place = (t.node (place (base + i))).children := by
  -- The induction follows the recursion of `forestOf`: on the depth for what is below a node, and on
  -- the list for what comes after it.
  induction depth generalizing ids base with
  | zero =>
    cases ids with
    | nil => exact ⟨rfl, nofun⟩
    | cons id rest =>
      -- There is no node so deep.
      have := deep id List.mem_cons_self
      omega
  | succ depth ih =>
    induction ids generalizing base with
    | nil => exact ⟨rfl, nofun⟩
    | cons id rest later =>
      obtain ⟨⟨-, here⟩, others⟩ := List.forall_mem_cons.1 deep
      have children := layers.children here
      have size := size_forestOf layers children
      -- The places go to the node, to what is below it, and to its siblings.
      rw [below_cons layers, List.length_cons, List.length_append, List.range'_succ,
        ← List.range'_append_1, List.map_cons, List.map_append] at agree
      obtain ⟨first, rest'⟩ := List.cons.inj agree
      obtain ⟨inner, outer⟩ := List.append_inj rest' (by simp)
      obtain ⟨innerRoots, innerNodes⟩ := ih children inner
      obtain ⟨outerRoots, outerNodes⟩ := later others outer
      rw [← size] at outerRoots outerNodes
      rw [forestOf_cons]
      refine ⟨?_, fun i n found => ?_⟩
      · rw [Forest.roots, List.map_cons, first, outerRoots]
      · cases i with
        | zero =>
          cases found
          have here : place (base + 0) = id := first
          rw [here]
          exact ⟨rfl, innerRoots⟩
        | succ i =>
          rw [Forest.nodes, List.getElem?_cons_succ] at found
          have length := Forest.length_nodes (t.forestOf depth (t.node id).children) (base + 1)
          by_cases inside : i < (t.forestOf depth (t.node id).children).size
          · rw [List.getElem?_append_left (by omega)] at found
            have place' : base + (i + 1) = base + 1 + i := by omega
            rw [place']
            exact innerNodes i n found
          · rw [List.getElem?_append_right (by omega), length] at found
            have place' : base + (i + 1) =
                base + 1 + (t.forestOf depth (t.node id).children).size +
                  (i - (t.forestOf depth (t.node id).children).size) := by omega
            rw [place']
            exact outerNodes _ n found

end Layouts

/-! ## Copies -/

/-- A tree that is the subtree at a place over again. Each of its places stands for one at or below
that place. -/
structure Copies (t : NodeTree) (top : NodeId) (u : NodeTree) (place : NodeId → NodeId) : Prop where
  proper : u.Proper
  ignorable : u.ignorable = t.ignorable
  start : place root = top
  first : (u.node root).toNodeBody =
    { (t.node top).toNodeBody with kind := .root, namespaces := t.declarationsAt top }
  body : ∀ i < u.size, i ≠ root → (u.node i).toNodeBody = (t.node (place i)).toNodeBody
  children : ∀ i < u.size, (u.node i).children.map place = (t.node (place i)).children
  reached : ∀ i < u.size, u.Reaches (fun _ => false) root i

/-- Every node of a document is the outermost one or listed by a node before it. -/
theorem listed_ofForest {body : NodeBody} {below : Forest} {ignorable : List String} {i : Nat}
    (inside : i < (ofForest body below ignorable).size) (ne : i ≠ root) :
    ∃ p : Nat, i ∈ ((ofForest body below ignorable).node p).children := by
  have mem : i ∈ below.roots 1 ++ (below.nodes 1).flatMap (·.children) := by
    rw [(below.perm_listed 1).mem_iff, List.mem_range'_1]
    rw [size_ofForest] at inside
    have : i ≠ 0 := ne
    omega
  rcases List.mem_append.1 mem with first | later
  · exact ⟨0, first⟩
  · obtain ⟨n, there, listed⟩ := List.mem_flatMap.1 later
    obtain ⟨p, here⟩ := List.mem_iff_getElem?.1 there
    refine ⟨p + 1, ?_⟩
    have node : (ofForest body below ignorable).node (p + 1) = n := by
      simp [node, ofForest, here]
    rwa [node]

/-- All nodes of a document can be reached. -/
theorem reaches_ofForest {body : NodeBody} {below : Forest} {ignorable : List String} {i : Nat}
    (inside : i < (ofForest body below ignorable).size) :
    (ofForest body below ignorable).Reaches (fun _ => false) root i := by
  induction i using Nat.strongRecOn with
  | ind i ih =>
    by_cases top : i = root
    · rw [top]
      exact .top
    · obtain ⟨p, listed⟩ := listed_ofForest inside top
      have later := (proper_ofForest body below ignorable).later p i listed
      exact .child (ih p later (Nat.lt_trans later inside)) rfl listed

/-- The place that a node of an extracted subtree comes from. -/
def placeOf (t : NodeTree) (top i : NodeId) : NodeId := (t.below [top]).getD i root

/-- **An extracted subtree is a copy** of what stands in the document. -/
theorem copies_extract {level : NodeId → Nat} (layers : t.Layers level) (top : NodeId) :
    t.Copies top (t.extract top) (t.placeOf top) := by
  have deep := layers.children_size top
  have places := below_singleton layers top
  have agree : (List.range' 1 (t.below (t.node top).children).length).map (t.placeOf top) =
      t.below (t.node top).children := by
    refine List.ext_getElem (by simp) fun i _ _ => ?_
    simp only [List.getElem_map, List.getElem_range', placeOf, places]
    rw [Nat.one_mul, Nat.add_comm, List.getD_cons_succ]
    rw [List.getD_eq_getElem?_getD, List.getElem?_eq_getElem, Option.getD_some]
  obtain ⟨roots, nodes⟩ := nodes_forestOf layers deep agree
  have first : t.placeOf top root = top := by
    rw [placeOf, places]
    rfl
  -- The nodes below the outermost one are those of the forest.
  have later : ∀ i, i + 1 < (t.extract top).size →
      ((t.forestOf t.size (t.node top).children).nodes 1)[i]? =
        some ((t.extract top).node (i + 1)) := by
    intro i inside
    rw [extract, size_ofForest, Nat.add_lt_add_iff_right] at inside
    rw [← Forest.length_nodes _ 1] at inside
    have node : (t.extract top).node (i + 1) =
        (((t.forestOf t.size (t.node top).children).nodes 1)[i]?).getD default := by
      simp only [extract, NodeTree.node, ofForest, List.getElem?_toArray, List.getElem?_cons_succ]
    rw [node, List.getElem?_eq_getElem inside, Option.getD_some]
  refine ⟨proper_ofForest _ _ _, rfl, first, rfl, fun i inside ne => ?_, fun i inside => ?_,
    fun i inside => reaches_ofForest inside⟩
  · obtain ⟨j, rfl⟩ := Nat.exists_eq_succ_of_ne_zero ne
    have same := (nodes j _ (later j inside)).1
    rwa [Nat.add_comm 1 j] at same
  · cases i with
    | zero =>
      have here : t.placeOf top 0 = top := first
      rw [here]
      exact roots
    | succ j =>
      have same := (nodes j _ (later j inside)).2
      rwa [Nat.add_comm 1 j] at same

/-- What is reached from a place that is reached. -/
theorem Reaches.trans {skip : NodeId → Bool} {a b c : NodeId} (first : t.Reaches skip a b)
    (second : t.Reaches skip b c) : t.Reaches skip a c := by
  induction second with
  | top => exact first
  | child _ enters listed ih => exact .child ih enters listed

section Copying

variable {u : NodeTree} {place : NodeId → NodeId} {top : NodeId} {i : Nat}
  (copies : t.Copies top u place)
include copies

/-- A walk through a copy goes where a walk goes that enters the same places. -/
theorem Copies.reaches_of_reaches {skip skip' : NodeId → Bool}
    (same : ∀ i < u.size, skip' i = skip (place i)) (reached : u.Reaches skip' root i) :
    i < u.size ∧ t.Reaches skip top (place i) := by
  induction reached with
  | top =>
    rw [copies.start]
    exact ⟨copies.proper.nonempty, .top⟩
  | @child p c _ enters listed ih =>
    obtain ⟨inside, walk⟩ := ih
    refine ⟨copies.proper.inside p c listed, .child walk ((same p inside).symm.trans enters) ?_⟩
    rw [← copies.children p inside]
    exact List.mem_map_of_mem listed

/-- The nodes of a copy stand for places at or below the one that it is a copy of. -/
theorem Copies.reaches_place (inside : i < u.size) : t.Reaches (fun _ => false) top (place i) :=
  (copies.reaches_of_reaches (fun _ _ => rfl) (copies.reached i inside)).2

end Copying

/-! ## Looking up -/

section LookingUp

variable {id p c : Nat}

/-- No more levels have to be gone up than there are places in front. -/
theorem ancestorsFrom_deeper (proper : t.Proper) (linked : t.Linked)
    (reached : t.Reaches (fun _ => false) NodeTree.root id) {fuel : Nat} (enough : id ≤ fuel) :
    t.ancestorsFrom fuel id = t.ancestorsFrom id id := by
  induction reached generalizing fuel with
  | top =>
    have none : ∀ fuel, t.ancestorsFrom fuel NodeTree.root = [] := by
      intro fuel
      cases fuel with
      | zero => rfl
      | succ fuel => rw [ancestorsFrom, linked.root]
    rw [none, none]
  | @child p c above _ listed ih =>
    -- Parents stand in front, so that one level less has to be gone up from the parent.
    have later := proper.later p c listed
    have step : ∀ {fuel : Nat}, p < fuel → t.ancestorsFrom fuel c = p :: t.ancestorsFrom p p := by
      intro fuel enough
      obtain ⟨fuel, rfl⟩ := Nat.exists_eq_add_one_of_ne_zero (Nat.ne_zero_of_lt enough)
      rw [ancestorsFrom, linked.child p c above listed]
      exact congrArg (p :: ·) (ih (Nat.le_of_lt_succ enough))
    rw [step (Nat.lt_of_lt_of_le later enough), step later]

/-- Above the outermost element there is nothing. -/
theorem Linked.ancestors_root (linked : t.Linked) : t.ancestors NodeTree.root = [] := by
  unfold ancestors
  cases t.size with
  | zero => rfl
  | succ fuel => rw [ancestorsFrom, linked.root]

/-- Above a child there are its parent and what is above that. -/
theorem Linked.ancestors_child (linked : t.Linked) (proper : t.Proper)
    (above : t.Reaches (fun _ => false) NodeTree.root p) (listed : c ∈ (t.node p).children) :
    t.ancestors c = p :: t.ancestors p := by
  have later := proper.later p c listed
  have inside := proper.inside p c listed
  have reached : t.Reaches (fun _ => false) NodeTree.root c := .child above rfl listed
  unfold ancestors
  rw [ancestorsFrom_deeper proper linked reached (Nat.le_of_lt inside),
    ancestorsFrom_deeper proper linked above (by omega)]
  obtain ⟨depth, rfl⟩ := Nat.exists_eq_add_one_of_ne_zero (Nat.ne_zero_of_lt later)
  rw [ancestorsFrom, linked.child p _ above listed]
  exact congrArg (p :: ·) (ancestorsFrom_deeper proper linked above (by omega))

/-- A prefix is looked up at a child, and then where the child stands. -/
theorem Linked.lookUpNamespace_child (linked : t.Linked) (proper : t.Proper)
    (above : t.Reaches (fun _ => false) NodeTree.root p) (listed : c ∈ (t.node p).children)
    (key : String) :
    t.lookUpNamespace c key =
      ((t.node c).namespaces.lookup key).or (t.lookUpNamespace p key) := by
  simp only [lookUpNamespace, selfAndAncestors, linked.ancestors_child proper above listed,
    List.findSome?_cons]
  cases (t.node c).namespaces.lookup key <;> rfl

/-- A prefix that is declared is declared once, further in. -/
theorem lookup_declare (inner : List (String × String)) (declared uri key : String) :
    (if inner.any (·.1 == declared) then inner else inner ++ [(declared, uri)]).lookup key =
      (inner.lookup key).or ([(declared, uri)].lookup key) := by
  split
  case isTrue hidden =>
    by_cases same : key = declared
    · have found : (inner.lookup key).isSome = true := by
        obtain ⟨there, mem, is⟩ := List.any_eq_true.1 hidden
        rw [List.lookup_isSome_iff, same]
        exact ⟨there, mem, beq_iff_eq.2 (beq_iff_eq.1 is).symm⟩
      rw [Option.or_of_isSome found]
    · rw [List.lookup_cons, beq_false_of_ne same, List.lookup_nil, Option.or_none]
  case isFalse => exact List.lookup_append

/-- What an inner element declares hides what the outer one does. -/
theorem lookup_declareOuter (inner outer : List (String × String)) (key : String) :
    (declareOuter inner outer).lookup key = (inner.lookup key).or (outer.lookup key) := by
  unfold declareOuter
  induction outer generalizing inner with
  | nil => simp
  | cons declaration rest ih =>
    obtain ⟨declared, uri⟩ := declaration
    have split : (declared, uri) :: rest = [(declared, uri)] ++ rest := rfl
    rw [List.foldl_cons, ih, split, List.lookup_append, ← Option.or_assoc]
    exact congrArg (Option.or · _) (lookup_declare inner declared uri key)

/-- The declarations in force at a place are what a look-up finds there. -/
theorem lookup_declarationsAt (t : NodeTree) (id : NodeId) (key : String) :
    (t.declarationsAt id).lookup key = t.lookUpNamespace id key := by
  have fold : ∀ (nodes : List NodeId) (first : List (String × String)),
      (nodes.foldl (fun declared n => declareOuter declared (t.node n).namespaces) first).lookup
          key =
        (first.lookup key).or (nodes.findSome? fun n => (t.node n).namespaces.lookup key) := by
    intro nodes
    induction nodes with
    | nil => simp
    | cons n rest ih =>
      intro first
      rw [List.foldl_cons, ih, lookup_declareOuter, Option.or_assoc, List.findSome?_cons]
      cases (t.node n).namespaces.lookup key <;> rfl
  rw [declarationsAt, fold, lookUpNamespace, selfAndAncestors, List.findSome?_cons]
  cases (t.node id).namespaces.lookup key <;> rfl

/-- **Looking up a prefix in a copy gives what it gives in the document.** -/
theorem Copies.lookUpNamespace {u : NodeTree} {place : NodeId → NodeId} {top : NodeId}
    (copies : t.Copies top u place) (proper : t.Proper) (linked : t.Linked)
    (reached : t.Reaches (fun _ => false) root top) (inside : id < u.size) :
    u.linkParents.lookUpNamespace id = t.lookUpNamespace (place id) := by
  have linked' := linked_linkParents copies.proper
  have children := children_linkParents copies.proper
  have namespaces : ∀ n, (u.linkParents.node n).namespaces = (u.node n).namespaces := by
    intro n
    rw [body_linkParents copies.proper]
  funext key
  have here := copies.reached id inside
  induction here with
  | top =>
    -- The outermost node of the copy declares everything itself.
    have alone : u.linkParents.ancestors NodeTree.root = [] := by
      unfold ancestors
      cases u.linkParents.size with
      | zero => rfl
      | succ fuel => rw [ancestorsFrom, linked'.root]
    rw [NodeTree.lookUpNamespace, selfAndAncestors, alone, List.findSome?_singleton, namespaces,
      copies.first, copies.start]
    exact lookup_declarationsAt t top key
  | @child p c above _ listed ih =>
    have later := copies.proper.later p c listed
    have insideP : p < u.size := Nat.lt_trans later inside
    have reachedP : t.Reaches (fun _ => false) NodeTree.root (place p) :=
      reached.trans (copies.reaches_place insideP)
    have listedP : place c ∈ (t.node (place p)).children := by
      rw [← copies.children p insideP]
      exact List.mem_map_of_mem listed
    have aboveP : u.linkParents.Reaches (fun _ => false) NodeTree.root p :=
      above.congr fun n _ => ⟨children n, rfl⟩
    rw [linked'.lookUpNamespace_child copies.proper.linkParents aboveP (by rwa [children]),
      linked.lookUpNamespace_child proper reachedP listedP, namespaces,
      copies.body c inside (Nat.ne_zero_of_lt later), ih insideP]

end LookingUp

end NodeTree

end MarkupLoader
