import MarkupLoader.Proofs.Contents

/-!
# Expanding and pruning in either order

What may be ignored has no say in how a document is expanded. Expanding a pruned tree does what
expanding the tree does, **step by step**, so that both orders give the same tree and record the
same failures in the same order, and fail alike if they fail.

* **An attribute is quiet** (`NodeTree.Quiet`) if expansion leaves it as it is: it is no longer text
  as it was written, or it may be ignored. What is expanded is quiet, in any load and at any place.
* **A node is settled** (`NodeTree.Settled`) if all its attributes are quiet or if it is not
  expanded anyway. Expansion settles node after node, up to the one at which it fails.

So a second run changes nothing, and what a template keeps of an expanded document is not expanded
again when the template is instantiated. Nothing is asked of the tree but that it has no cycles.

Main results: `start_expandMarkup_prune`, `start_expandMarkup_again`, `start_expandMarkup_content`.
-/

namespace MarkupLoader

namespace NodeTree

variable {t u : NodeTree} {extensions : Extensions} {id : NodeId} {a b : Attribute}

/-! ## Quiet attributes -/

/-- An attribute on which expansion has nothing to do. -/
def Quiet (t : NodeTree) (a : Attribute) : Prop :=
  ∀ text, a.value = .raw text → t.isIgnorable a.name.namespaceUri = true

/-- A node on which expansion has nothing to do. -/
def Settled (t : NodeTree) (id : NodeId) : Prop :=
  t.isIgnorableNode id = false → ∀ a ∈ (t.node id).attributes, t.Quiet a

/-- Expansion leaves a quiet attribute as it is. -/
theorem Quiet.expandAttribute (quiet : t.Quiet a) (extensions : Extensions) (id : NodeId) :
    t.expandAttribute extensions id a = .ok a := by
  unfold NodeTree.expandAttribute
  split
  case h_1 => rfl
  case h_2 => rfl
  case h_3 text is => rw [if_pos (quiet text is)]

/-- What has been expanded is quiet. -/
theorem quiet_of_expandAttribute (expanded : t.expandAttribute extensions id a = .ok b) :
    t.Quiet b := by
  intro text is
  by_contra counts
  exact value_of_expandAttribute expanded (Bool.eq_false_iff.2 counts) text is

theorem quiet_of_isIgnorable (ignored : t.isIgnorable a.name.namespaceUri = true) : t.Quiet a :=
  fun _ _ => ignored

theorem Retouches.quiet_iff (retouches : t.Retouches u) : u.Quiet a ↔ t.Quiet a := by
  unfold Quiet
  rw [retouches.isIgnorable]

theorem Retouches.expandAttribute (retouches : t.Retouches u) (extensions : Extensions)
    (id : NodeId) : u.expandAttribute extensions id = t.expandAttribute extensions id :=
  expandAttribute_congr retouches.ignorable (retouches.lookUpNamespace id) extensions

theorem expandAttribute_prune (t : NodeTree) (extensions : Extensions) (id : NodeId) :
    t.prune.expandAttribute extensions id = t.expandAttribute extensions id :=
  expandAttribute_congr t.ignorable_prune (t.lookUpNamespace_prune id) extensions

theorem setAttributes_self (t : NodeTree) (id : NodeId) :
    t.setAttributes id (t.node id).attributes = t := by
  refine eq_of_node (size_modify _ _ _) rfl fun other => ?_
  rw [node_setAttributes]
  split
  case isTrue here => rw [here.1]
  case isFalse => rfl

end NodeTree

theorem NodeTree.Acyclic.inside_of_reaches {t : NodeTree} (acyclic : t.Acyclic)
    {skip : NodeId → Bool} {id : NodeId} (reached : t.Reaches skip NodeTree.root id) :
    id < t.size := by
  cases reached with
  | top => exact acyclic.nonempty
  | child _ _ listed => exact acyclic.inside _ _ listed

/-- A state with its tree pruned. -/
def LoadState.pruned (s : LoadState) : LoadState := s.withTree s.tree.prune

/-- Attributes that pruning leaves are as quiet as before. -/
theorem NodeTree.Settled.prune {t : NodeTree} {id : NodeId} (settled : t.Settled id) :
    t.prune.Settled id := by
  intro counts a mem
  rw [NodeTree.isIgnorableNode_prune] at counts
  rw [NodeTree.node_prune] at mem
  have quiet := settled counts a (List.mem_filter.1 mem).1
  unfold NodeTree.Quiet
  rwa [NodeTree.isIgnorable_prune]

/-- What is reached in a pruned tree is reached in the tree. -/
theorem NodeTree.Reaches.of_prune {t : NodeTree} {skip : NodeId → Bool} {top id : NodeId}
    (reached : t.prune.Reaches skip top id) : t.Reaches skip top id := by
  induction reached with
  | top => exact .top
  | child _ enters listed ih =>
    rw [NodeTree.node_prune] at listed
    exact .child ih enters (List.mem_filter.1 listed).1

/-- **A subtree with settled nodes is settled** as a document of its own. -/
theorem NodeTree.settled_extract {t : NodeTree} {level : NodeId → Nat} (layers : t.Layers level)
    (settled : ∀ id, t.Reaches t.isIgnorableNode root id → t.Settled id) {top : NodeId}
    (above : t.Reaches t.isIgnorableNode root top) {i : NodeId}
    (reached : (t.extract top).linkParents.Reaches (t.extract top).linkParents.isIgnorableNode
      root i) : (t.extract top).linkParents.Settled i := by
  let u := (t.extract top).linkParents
  have copies := copies_extract layers top
  -- The outermost node of a copy differs in its kind and its declarations, and all nodes differ in
  -- their links; neither matters here.
  have body : ∀ i < (t.extract top).size,
      (u.node i).typeName = (t.node (t.placeOf top i)).typeName ∧
        (u.node i).attributes = (t.node (t.placeOf top i)).attributes := by
    intro i inside
    rw [body_linkParents copies.proper]
    by_cases first : i = root
    · rw [first, copies.first, copies.start]
      exact ⟨rfl, rfl⟩
    · rw [copies.body i inside first]
      exact ⟨rfl, rfl⟩
  have names : u.isIgnorable = t.isIgnorable := by
    funext uri
    rw [isIgnorable_linkParents, isIgnorable, isIgnorable, copies.ignorable]
  have ignored : ∀ i < (t.extract top).size,
      u.isIgnorableNode i = t.isIgnorableNode (t.placeOf top i) := by
    intro i inside
    rw [isIgnorableNode, isIgnorableNode, names, (body i inside).1]
  have unlinked : (t.extract top).Reaches u.isIgnorableNode root i :=
    reached.congr fun n _ => ⟨(children_linkParents copies.proper n).symm, rfl⟩
  obtain ⟨inside, walk⟩ := copies.reaches_of_reaches ignored unlinked
  intro counts a mem
  have quiet := settled _ (above.trans walk) ((ignored i inside).symm.trans counts) a
    ((body i inside).2 ▸ mem)
  unfold Quiet
  rwa [names]

namespace Load

variable (env : Environment)

/-! ## Running expansion again -/

/-- Quiet attributes are passed over. -/
theorem start_expandAttributes_quiet (id : NodeId) (s : LoadState) {quiet : List Attribute}
    (rest : List Attribute) : ∀ (done : List Attribute), (∀ a ∈ quiet, s.tree.Quiet a) →
      (expandAttributes env id done (quiet ++ rest)).start s =
        (expandAttributes env id (done ++ quiet) rest).start s := by
  induction quiet with
  | nil => intro done _; rw [List.append_nil, List.nil_append]
  | cons a quiet ih =>
    intro done all
    obtain ⟨here, later⟩ := List.forall_mem_cons.1 all
    rw [List.cons_append, expandAttributes, start_get_bind, here.expandAttribute]
    exact (ih (done ++ [a]) later).trans (by rw [List.append_assoc]; rfl)

/-- **Expanding the attributes of a node** replaces them by others. They are quiet, unless it
failed, and expanding them again ends as before. -/
theorem start_expandAttributes_again (id : NodeId) (rest : List Attribute) :
    ∀ (done : List Attribute) (s : LoadState), (∀ a ∈ done, s.tree.Quiet a) →
      let run := (expandAttributes env id done rest).start s
      ∃ left, run.2.tree = s.tree.setAttributes id left ∧
        (run.1 = .ok () → ∀ a ∈ left, s.tree.Quiet a) ∧
        (expandAttributes env id [] left).start run.2 = run := by
  induction rest with
  | nil =>
    intro done s quiet
    -- All that is left has been expanded, so that a second run passes it over.
    let last := s.withTree (s.tree.setAttributes id done)
    have retouches := s.tree.retouches_setAttributes id done
    have again := start_expandAttributes_quiet env id last [] []
      fun a mem => retouches.quiet_iff.2 (quiet a mem)
    refine ⟨done, rfl, fun _ => quiet, ?_⟩
    rw [List.append_nil] at again
    refine again.trans ?_
    show (_, s.withTree ((s.tree.setAttributes id done).setAttributes id done)) = _
    rw [NodeTree.setAttributes_setAttributes]
    rfl
  | cons a rest ih =>
    intro done s quiet
    cases outcome : s.tree.expandAttribute env.extensions id a with
    | ok b =>
      have quiet' : ∀ a ∈ done ++ [b], s.tree.Quiet a := by
        intro a mem
        rcases List.mem_append.1 mem with mem | mem
        · exact quiet a mem
        · exact List.mem_singleton.1 mem ▸ NodeTree.quiet_of_expandAttribute outcome
      rw [start_expandAttributes_ok env done rest outcome]
      exact ih (done ++ [b]) s quiet'
    | error error =>
      let all := done ++ a :: rest
      let stuck := s.withTree (s.tree.setAttributes id all)
      have retouches : s.tree.Retouches stuck.tree := s.tree.retouches_setAttributes id all
      rw [start_expandAttributes_error env done rest outcome]
      have still : ∀ a ∈ done, stuck.tree.Quiet a :=
        fun a mem => retouches.quiet_iff.2 (quiet a mem)
      have recovers := start_recover error stuck
      cases passes : stuck.context.recover error with
      | ok context =>
        -- The attributes that are left are those of a run without the failed one.
        rw [passes] at recovers
        rw [start_bind_of_ok recovers]
        obtain ⟨left, tree, settled, again⟩ :=
          ih done { stuck with context := context } still
        refine ⟨left, tree.trans ?_, fun ok a mem => ?_, again⟩
        · exact NodeTree.setAttributes_setAttributes s.tree id all left
        · exact retouches.quiet_iff.1 (settled ok a mem)
      | error error' =>
        -- The same attribute fails again, with the same attributes around it.
        rw [passes] at recovers
        rw [start_bind_of_error recovers]
        refine ⟨all, rfl, nofun, ?_⟩
        have outcome' : stuck.tree.expandAttribute env.extensions id a = .error error := by
          rw [retouches.expandAttribute, outcome]
        have same : stuck.withTree (stuck.tree.setAttributes id all) = stuck := by
          show s.withTree ((s.tree.setAttributes id all).setAttributes id all) = _
          rw [NodeTree.setAttributes_setAttributes]
        show (expandAttributes env id [] (done ++ a :: rest)).start stuck = _
        rw [start_expandAttributes_quiet env id stuck (a :: rest) [] still,
          List.nil_append, start_expandAttributes_error env done rest outcome']
        show (recover error >>= _).start (stuck.withTree (stuck.tree.setAttributes id all)) = _
        rw [same, start_bind_of_error recovers]

/-- A settled node is passed over. -/
theorem start_expandNode_settled {id : NodeId} {s : LoadState} (settled : s.tree.Settled id) :
    (expandNode env id).start s = (.ok (), s) := by
  rw [expandNode, start_get_bind]
  cases ignored : s.tree.isIgnorableNode id with
  | true => rfl
  | false =>
    have quiet := start_expandAttributes_quiet env id s [] [] (settled ignored)
    rw [List.append_nil] at quiet
    refine quiet.trans ?_
    show (_, s.withTree (s.tree.setAttributes id (s.tree.node id).attributes)) = _
    rw [NodeTree.setAttributes_self]
    rfl

/-- **Expanding a node** settles it, unless it fails, and leaves other nodes alone. Expanding it
again ends as before. -/
theorem start_expandNode_again {id : NodeId} {s : LoadState} (inside : id < s.tree.size) :
    let run := (expandNode env id).start s
    (∃ left, run.2.tree = s.tree.setAttributes id left) ∧
      (run.1 = .ok () → run.2.tree.Settled id) ∧ (expandNode env id).start run.2 = run := by
  cases ignored : s.tree.isIgnorableNode id with
  | true =>
    have idle : s.tree.Settled id := fun counts => absurd (ignored.symm.trans counts) nofun
    rw [start_expandNode_settled env idle]
    exact ⟨⟨_, (s.tree.setAttributes_self id).symm⟩, fun _ => idle,
      start_expandNode_settled env idle⟩
  | false =>
    -- A second run begins with the attributes that the first one has left.
    have step : ∀ {u : LoadState}, s.tree.Retouches u.tree →
        (expandNode env id).start u =
          (expandAttributes env id [] (u.tree.node id).attributes).start u := by
      intro u retouches
      rw [expandNode, start_get_bind, retouches.isIgnorableNode, ignored]
      rfl
    obtain ⟨left, tree, settled, again⟩ := start_expandAttributes_again env id
      (s.tree.node id).attributes [] s (List.forall_mem_nil _)
    have attributes : ((s.tree.setAttributes id left).node id).attributes = left := by
      rw [NodeTree.node_setAttributes, if_pos ⟨rfl, inside⟩]
    have retouches := s.tree.retouches_setAttributes id left
    rw [step (.refl _)]
    refine ⟨⟨left, tree⟩, fun ok => ?_, ?_⟩
    · rw [tree]
      intro _ a mem
      rw [attributes] at mem
      exact retouches.quiet_iff.2 (settled ok a mem)
    · rw [step (tree ▸ retouches), tree, attributes]
      exact again

/-- **Expanding some nodes** changes attributes only. It settles all of them, unless it fails, and
unsettles none. Expanding them again ends as before. -/
theorem start_expandNodes_again (ids : List NodeId) :
    ∀ (s : LoadState), (∀ id ∈ ids, id < s.tree.size) →
      let run := (ids.forM (expandNode env)).start s
      s.tree.Retouches run.2.tree ∧
        (∀ id, s.tree.Settled id → run.2.tree.Settled id) ∧
        (run.1 = .ok () → ∀ id ∈ ids, run.2.tree.Settled id) ∧
        (ids.forM (expandNode env)).start run.2 = run := by
  induction ids with
  | nil => exact fun s _ => ⟨.refl _, fun _ => id, fun _ => List.forall_mem_nil _, rfl⟩
  | cons id rest ih =>
    intro s inside
    obtain ⟨here, later⟩ := List.forall_mem_cons.1 inside
    obtain ⟨⟨left, tree⟩, settles, again⟩ := start_expandNode_again env here
    rw [start_forM_cons]
    rcases first : (expandNode env id).start s with ⟨outcome, next⟩
    rw [first] at tree settles again
    have retouches : s.tree.Retouches next.tree := tree ▸ s.tree.retouches_setAttributes id left
    -- The node itself was settled only if it has been passed over.
    have keeps : ∀ other, s.tree.Settled other → next.tree.Settled other := by
      intro other settled
      by_cases same : other = id
      · subst same
        rw [start_expandNode_settled env settled] at first
        cases first
        exact settled
      · intro counts a mem
        rw [retouches.isIgnorableNode] at counts
        rw [tree, NodeTree.node_setAttributes, if_neg fun h => same h.1] at mem
        exact retouches.quiet_iff.2 (settled counts a mem)
    cases outcome with
    | error error =>
      -- A second run fails at the same node, before it comes to any other.
      rw [start_bind_of_error first]
      refine ⟨retouches, keeps, nofun, ?_⟩
      rw [start_forM_cons, start_bind_of_error again]
    | ok =>
      rw [start_bind_of_ok first]
      obtain ⟨retouches', keeps', settled, again'⟩ :=
        ih next fun other mem => retouches.size ▸ later other mem
      have here := keeps' id (settles rfl)
      refine ⟨retouches.trans retouches', fun other settled => keeps' other (keeps other settled),
        fun ok => List.forall_mem_cons.2 ⟨here, settled ok⟩, ?_⟩
      rw [start_forM_cons, start_bind_of_ok (start_expandNode_settled env here)]
      exact again'

/-- Expansion goes through the nodes that it would go through with other attributes. -/
theorem start_expandMarkup_of_retouches {s u : LoadState} (retouches : s.tree.Retouches u.tree) :
    (expandMarkup env).start u =
      ((s.tree.preorder s.tree.isIgnorableNode).forM (expandNode env)).start u := by
  show ((u.tree.preorder u.tree.isIgnorableNode).forM (expandNode env)).start u = _
  rw [retouches.isIgnorableNode, retouches.preorder]

/-- **What a run of expansion leaves**, also when it fails: the same tree with other attributes, on
which another run would end in the same way. If the run does not fail, all nodes are settled that
are not inside something that may be ignored. -/
theorem start_expandMarkup_again {s : LoadState} (acyclic : s.tree.Acyclic) :
    let run := (expandMarkup env).start s
    s.tree.Retouches run.2.tree ∧
      (run.1 = .ok () → ∀ id, s.tree.Reaches s.tree.isIgnorableNode NodeTree.root id →
        run.2.tree.Settled id) ∧
      (expandMarkup env).start run.2 = run := by
  obtain ⟨level, layers⟩ := acyclic.layers
  have inside : ∀ id ∈ s.tree.preorder s.tree.isIgnorableNode, id < s.tree.size :=
    fun id mem => acyclic.inside_of_reaches (layers.mem_preorder.1 mem)
  obtain ⟨retouches, -, settled, again⟩ := start_expandNodes_again env _ s inside
  rw [start_expandMarkup_of_retouches env (.refl s.tree)]
  refine ⟨retouches, fun ok id reached => settled ok id (layers.mem_preorder.2 reached), ?_⟩
  rw [start_expandMarkup_of_retouches env retouches, again]

/-- Nothing is done to a tree whose nodes are settled. -/
theorem start_expandMarkup_settled {s : LoadState} {level : NodeId → Nat}
    (layers : s.tree.Layers level)
    (settled : ∀ id, s.tree.Reaches s.tree.isIgnorableNode NodeTree.root id → s.tree.Settled id) :
    (expandMarkup env).start s = (.ok (), s) := by
  have idle : ∀ ids : List NodeId, (∀ id ∈ ids, s.tree.Settled id) →
      (ids.forM (expandNode env)).start s = (.ok (), s) := by
    intro ids
    induction ids with
    | nil => exact fun _ => rfl
    | cons id rest ih =>
      intro all
      obtain ⟨here, later⟩ := List.forall_mem_cons.1 all
      rw [start_forM_cons, start_bind_of_ok (start_expandNode_settled env here), ih later]
  exact idle _ fun id mem => settled id (layers.mem_preorder.1 mem)

/-! ## Expanding a pruned tree -/

/-- How a run ends, with the tree pruned afterwards. -/
def thenPruned (run : Except LoadError Unit × LoadState) : Except LoadError Unit × LoadState :=
  (run.1, run.2.pruned)

/-- Recovering from a failure has nothing to do with the tree. -/
theorem start_recover_pruned (error : LoadError) (s : LoadState) :
    (recover error).start s.pruned = thenPruned ((recover error).start s) := by
  rw [start_recover, start_recover, show s.pruned.context = s.context from rfl]
  cases s.context.recover error <;> rfl

/-- A run goes on after pruning as it goes on before. -/
theorem start_bind_pruned {first second first' second' : Load Unit} {s : LoadState}
    (step : first'.start s.pruned = thenPruned (first.start s))
    (next : ∀ u, first.start s = (.ok (), u) →
      second'.start u.pruned = thenPruned (second.start u)) :
    (first' >>= fun _ => second').start s.pruned =
      thenPruned ((first >>= fun _ => second).start s) := by
  rw [start_bind, start_bind, step]
  rcases outcome : first.start s with ⟨error | _, u⟩
  · rfl
  · exact next u outcome

/-- Attributes are sifted alike, whether they are set before pruning or after it. -/
theorem pruned_withAttributes (s : LoadState) (n : NodeId) (attributes : List Attribute) :
    s.pruned.withTree (s.pruned.tree.setAttributes n (s.tree.sift n attributes)) =
      (s.withTree (s.tree.setAttributes n attributes)).pruned := by
  show s.withTree (s.tree.prune.setAttributes n _) = _
  rw [← NodeTree.prune_setAttributes]
  rfl

/-- **Expanding what pruning leaves of some attributes** leaves what pruning leaves of the expanded
ones. -/
theorem start_expandAttributes_prune (n : NodeId) (rest : List Attribute) :
    ∀ (done : List Attribute) (s : LoadState),
      (expandAttributes env n (s.tree.sift n done) (s.tree.sift n rest)).start s.pruned =
        thenPruned ((expandAttributes env n done rest).start s) := by
  induction rest with
  | nil =>
    intro done s
    exact congrArg (Except.ok (), ·) (pruned_withAttributes s n done)
  | cons a rest ih =>
    intro done s
    by_cases out : s.tree.drops n a = true
    · -- The attribute is not there, and would have been left as it is.
      have ignored : s.tree.isIgnorable a.name.namespaceUri = true :=
        (Bool.and_eq_true_iff.1 out).2
      have quiet := NodeTree.quiet_of_isIgnorable ignored
      have gone : s.tree.sift n (a :: rest) = s.tree.sift n rest := by simp [NodeTree.sift, out]
      have gone' : s.tree.sift n (done ++ [a]) = s.tree.sift n done := by simp [NodeTree.sift, out]
      rw [gone, start_expandAttributes_ok env done rest (quiet.expandAttribute _ _), ← ih, gone']
    · have kept : s.tree.sift n (a :: rest) = a :: s.tree.sift n rest := by
        simp [NodeTree.sift, out]
      rw [kept]
      have same : s.pruned.tree.expandAttribute env.extensions n =
          s.tree.expandAttribute env.extensions n := s.tree.expandAttribute_prune _ _
      cases outcome : s.tree.expandAttribute env.extensions n a with
      | ok b =>
        have kept' : s.tree.sift n (done ++ [b]) = s.tree.sift n done ++ [b] := by
          have out' : ¬ s.tree.drops n b = true := by
            rwa [NodeTree.drops, NodeTree.name_of_expandAttribute outcome]
          simp [NodeTree.sift, out']
        rw [start_expandAttributes_ok env done rest outcome, ← ih, kept',
          start_expandAttributes_ok env _ _ (by rw [same, outcome])]
      | error error =>
        -- Both runs stop here, one with the pruned tree of the other.
        rw [start_expandAttributes_error env done rest outcome,
          start_expandAttributes_error env _ _ (by rw [same, outcome])]
        let stuck := s.withTree (s.tree.setAttributes n (done ++ a :: rest))
        have retouches : s.tree.Retouches stuck.tree := s.tree.retouches_setAttributes n _
        have left : s.tree.sift n done ++ a :: s.tree.sift n rest =
            s.tree.sift n (done ++ a :: rest) := by
          rw [← kept, NodeTree.sift, NodeTree.sift, ← List.filter_append]
          rfl
        have pruned : s.pruned.withTree (s.pruned.tree.setAttributes n
            (s.tree.sift n done ++ a :: s.tree.sift n rest)) = stuck.pruned := by
          rw [left]
          exact pruned_withAttributes s n (done ++ a :: rest)
        rw [pruned]
        refine start_bind_pruned (start_recover_pruned error stuck) fun u recovered => ?_
        have tree : u.tree = stuck.tree := by
          rw [ok_of_recover recovered]
          rfl
        have sift : u.tree.sift n = s.tree.sift n := by rw [tree, retouches.sift]
        rw [← ih, sift]

theorem start_expandNode_prune (n : NodeId) (s : LoadState) :
    (expandNode env n).start s.pruned = thenPruned ((expandNode env n).start s) := by
  have ignored : s.pruned.tree.isIgnorableNode n = s.tree.isIgnorableNode n := by
    rw [← NodeTree.isIgnorableNode_prune s.tree]
    rfl
  have attributes : (s.pruned.node n).attributes = s.tree.sift n (s.node n).attributes := by
    show (s.tree.prune.node n).attributes = _
    rw [NodeTree.node_prune]
    rfl
  rw [expandNode, start_get_bind, start_get_bind, ignored, attributes]
  split
  · rfl
  · exact start_expandAttributes_prune env n (s.node n).attributes [] s

theorem start_expandNodes_prune (ids : List NodeId) : ∀ s : LoadState,
    (ids.forM (expandNode env)).start s.pruned =
      thenPruned ((ids.forM (expandNode env)).start s) := by
  induction ids with
  | nil => exact fun _ => rfl
  | cons n rest ih =>
    intro s
    rw [start_forM_cons, start_forM_cons]
    exact start_bind_pruned (start_expandNode_prune env n s) fun u _ => ih u

/-- Nodes that may be ignored can be left out of the loop. -/
theorem start_expandNodes_filter (ids : List NodeId) :
    ∀ s : LoadState, (∀ n ∈ ids, n < s.tree.size) → (ids.forM (expandNode env)).start s =
      ((ids.filter (!s.tree.isIgnorableNode ·)).forM (expandNode env)).start s := by
  induction ids with
  | nil => exact fun _ _ => rfl
  | cons n rest ih =>
    intro s inside
    obtain ⟨here, later⟩ := List.forall_mem_cons.1 inside
    cases ignored : s.tree.isIgnorableNode n with
    | true =>
      have idle : s.tree.Settled n := fun counts => absurd (ignored.symm.trans counts) nofun
      rw [start_forM_cons, start_bind_of_ok (start_expandNode_settled env idle), ih s later,
        List.filter_cons_of_neg (by simp [ignored])]
    | false =>
      -- What may be ignored later on does not depend on the attributes that are expanded here.
      obtain ⟨⟨left, tree⟩, -⟩ := start_expandNode_again env here
      have retouches := s.tree.retouches_setAttributes n left
      rw [← tree] at retouches
      rw [List.filter_cons_of_pos (by simp [ignored]), start_forM_cons, start_forM_cons, start_bind,
        start_bind]
      rcases first : (expandNode env n).start s with ⟨error | _, next⟩
      · rfl
      · rw [first] at retouches
        dsimp only
        rw [ih next fun m mem => retouches.size ▸ later m mem, retouches.isIgnorableNode]

/-- **Expanding a pruned tree** ends as expanding the tree does, and leaves the pruned tree of what
that leaves, with the same failures recorded. -/
theorem start_expandMarkup_prune {s : LoadState} (acyclic : s.tree.Acyclic) :
    (expandMarkup env).start s.pruned = thenPruned ((expandMarkup env).start s) := by
  have inside : ∀ {t : NodeTree}, t.Acyclic → ∀ skip, ∀ n ∈ t.preorder skip, n < t.size := by
    intro t acyclic skip n mem
    obtain ⟨level, layers⟩ := acyclic.layers
    exact acyclic.inside_of_reaches (layers.mem_preorder.1 mem)
  have acyclic' : s.pruned.tree.Acyclic := acyclic.prune
  have ignored : s.pruned.tree.isIgnorableNode = s.tree.isIgnorableNode :=
    s.tree.isIgnorableNode_prune
  -- Both runs go through the nodes that may not be ignored, which are the same in both trees.
  rw [start_expandMarkup_of_retouches env (.refl s.tree),
    start_expandMarkup_of_retouches env (.refl s.pruned.tree),
    start_expandNodes_filter env _ s (inside acyclic _),
    start_expandNodes_filter env _ s.pruned (inside acyclic' _), ignored,
    show s.pruned.tree = s.tree.prune from rfl, NodeTree.filter_preorder_prune acyclic]
  exact start_expandNodes_prune env _ s

/-- **What has been expanded and pruned is not expanded again** when a part of it is kept as a
document of its own, whatever load that document goes into. -/
theorem start_expandMarkup_content {s u : LoadState} (acyclic : s.tree.Acyclic)
    (ran : (expandMarkup env).start s = (.ok (), u)) {top : NodeId}
    (above : u.tree.prune.Reaches u.tree.prune.isIgnorableNode NodeTree.root top)
    (inner : Environment) {content : LoadState}
    (tree : content.tree = (u.tree.prune.extract top).linkParents) :
    (expandMarkup inner).start content = (.ok (), content) := by
  obtain ⟨retouches, settled, -⟩ := start_expandMarkup_again env acyclic
  rw [ran] at retouches settled
  -- Pruning only takes away, so all nodes that it leaves in reach are settled still.
  have settled' : ∀ id, u.tree.prune.Reaches u.tree.prune.isIgnorableNode NodeTree.root id →
      u.tree.prune.Settled id := by
    intro id reached
    rw [NodeTree.isIgnorableNode_prune, retouches.isIgnorableNode] at reached
    refine (settled rfl id ?_).prune
    exact reached.of_prune.congr fun n _ => ⟨(retouches.children n).symm, rfl⟩
  obtain ⟨level, layers⟩ := (retouches.acyclic acyclic).prune.layers
  have proper := (NodeTree.copies_extract layers top).proper.linkParents
  rw [← tree] at proper
  refine start_expandMarkup_settled inner proper.layers fun id reached => ?_
  rw [tree] at reached ⊢
  exact NodeTree.settled_extract layers settled' above reached

/-! ## The two passes -/

/-- Two passes, one after the other. -/
def inOrder (first second : Pass) : Load Unit := do
  runPass env first
  runPass env second

/-- **Expanding and pruning commute, and both are idempotent.** Whatever may be ignored in a tree
without cycles, expanding it and then pruning it ends as pruning and then expanding does: both fail
with the same failure, or both leave the same state, with the same nodes at every place and the same
failures recorded. A tolerant load does not fail. A pass that is run again ends as it did before and
changes nothing. So a subtree of what both passes leave, kept as a document of its own, is left
alone by expansion in any load. -/
theorem expanding_and_pruning_commute {s : LoadState} (acyclic : s.tree.Acyclic) :
    let expandFirst := (inOrder env .markupExpansion .pruneIgnored).start s
    let pruneFirst := (inOrder env .pruneIgnored .markupExpansion).start s
    pruneFirst.1 = expandFirst.1 ∧
      (expandFirst.1 = .ok () → pruneFirst.2 = expandFirst.2) ∧
      (s.context.tolerant = true → expandFirst.1 = .ok ()) ∧
      (∀ pass ∈ [Pass.markupExpansion, .pruneIgnored],
        (runPass env pass).start ((runPass env pass).start s).2 = (runPass env pass).start s) ∧
      (expandFirst.1 = .ok () → ∀ top,
        expandFirst.2.tree.Reaches expandFirst.2.tree.isIgnorableNode NodeTree.root top →
        ∀ (inner : Environment) (content : LoadState),
          content.tree = (expandFirst.2.tree.extract top).linkParents →
          (runPass inner .markupExpansion).start content = (.ok (), content)) := by
  intro expandFirst pruneFirst
  have pruned : pruneFirst = thenPruned ((expandMarkup env).start s) := by
    show (runPass env .pruneIgnored >>= fun _ => runPass env .markupExpansion).start s = _
    rw [start_bind]
    exact start_expandMarkup_prune env acyclic
  have idempotent : ∀ pass ∈ [Pass.markupExpansion, .pruneIgnored],
      (runPass env pass).start ((runPass env pass).start s).2 = (runPass env pass).start s := by
    intro pass mem
    rcases List.mem_pair.1 mem with rfl | rfl
    · exact (start_expandMarkup_again env acyclic).2.2
    · show (_, s.withTree s.tree.prune.prune) = _
      rw [NodeTree.prune_prune acyclic]
      rfl
  have tolerated : s.context.tolerant = true → ((expandMarkup env).start s).1 = .ok () :=
    tolerated_expandMarkup
  rcases run : (expandMarkup env).start s with ⟨error | _, u⟩
  · -- Pruning cannot fail, so that in either order the failure is the one of expansion.
    have failed : expandFirst = (.error error, u) := start_bind_of_error run
    rw [run] at pruned tolerated
    rw [pruned, failed]
    exact ⟨rfl, nofun, tolerated, idempotent, nofun⟩
  · have done : expandFirst = (.ok (), u.pruned) := start_bind_of_ok run
    rw [run] at pruned
    rw [pruned, done]
    exact ⟨rfl, fun _ => rfl, fun _ => rfl, idempotent,
      fun _ _ above inner _ tree => start_expandMarkup_content env acyclic run above inner tree⟩

/-- An element with an attribute that may be ignored and could not be expanded, an attribute that
escapes a brace, and an element inside that may be ignored. -/
theorem expanding_and_pruning_commute_design :
    let env : Environment := ⟨.controls, .builtIn⟩
    let note : Attribute := ⟨⟨"urn:d", "Note"⟩, .raw "\x7b", ⟨1, 7⟩⟩
    let text (value : AttributeValue) : Attribute := ⟨⟨"", "Text"⟩, value, ⟨1, 19⟩⟩
    let element : NodeBody := ⟨.root, ⟨formsNamespace, "Label"⟩, [],
      [note, text (.raw "\x7b\x7d\x7ba\x7d")], [("", formsNamespace), ("d", "urn:d")], ⟨1, 1⟩⟩
    let data : NodeBody := ⟨.element, ⟨"urn:d", "Data"⟩, [], [text (.raw "\x7b")], [], ⟨1, 33⟩⟩
    let tree := (NodeTree.ofForest element (.cons data .nil .nil) ["urn:d"]).linkParents
    let s : LoadState := ⟨tree, none, .start none false [], .empty⟩
    let expandFirst := (inOrder env .markupExpansion .pruneIgnored).start s
    let pruneFirst := (inOrder env .pruneIgnored .markupExpansion).start s
    tree.Acyclic ∧ pruneFirst.2 = expandFirst.2 ∧
      (pruneFirst.2.tree.node NodeTree.root).attributes = [text (.literal "\x7ba\x7d")] ∧
      pruneFirst.2.tree.reachable = [NodeTree.root] := by
  intro env note text element data tree s expandFirst pruneFirst
  have acyclic : tree.Acyclic := (NodeTree.proper_ofForest _ _ _).linkParents.acyclic
  have ok : expandFirst.1 = .ok () := by decide +kernel
  exact ⟨acyclic, (expanding_and_pruning_commute env (s := s) acyclic).2.1 ok, by decide +kernel,
    by decide +kernel⟩

end Load

end MarkupLoader
