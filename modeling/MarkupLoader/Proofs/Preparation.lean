import MarkupLoader.Load.Passes
import MarkupLoader.Proofs.Pruning

/-!
# What is done before values are created

The passes before the creation of values (`Load.prepare`) link the nodes of a document to those
above them, expand and prune it, and give every node a name scope. None of them fails in a
tolerant load, and each does to a node what only the nodes above it have a say in.

* **Expanding** (`NodeTree.Expands`) changes attributes only, and **pruning** takes out nodes and
  attributes.
* All nodes that are loaded share **the first scope** (`LoadState.Scoped`), since a scope is opened
  only for what is inside a template.

So what is prepared of a document without some nodes is what is prepared of the document, without
those nodes.

Main results: `start_prepare`, `Prepares.thins`.
-/

namespace MarkupLoader

/-! ## Expanding -/

namespace NodeTree

/-- The attributes of a node that can be expanded, expanded. -/
def expandedAttributes (t : NodeTree) (extensions : Extensions) (id : NodeId) : List Attribute :=
  (t.node id).attributes.filterMap fun a => (t.expandAttribute extensions id a).toOption

/-- A tree with the attributes of some nodes expanded, unless these may be ignored. -/
structure Expands (extensions : Extensions) (t : NodeTree) (ids : List NodeId) (u : NodeTree) :
    Prop where
  size : u.size = t.size
  ignorable : u.ignorable = t.ignorable
  node : ∀ id, u.node id =
    { t.node id with attributes :=
        if id ∈ ids ∧ t.isIgnorableNode id = false then t.expandedAttributes extensions id
        else (t.node id).attributes }

section Expanding

variable {t : NodeTree}

/-- What becomes of an attribute does not depend on the attributes of the tree. -/
theorem expandAttribute_congr {u : NodeTree} (ignorable : u.ignorable = t.ignorable)
    {id other : NodeId} (lookUp : u.lookUpNamespace id = t.lookUpNamespace other)
    (extensions : Extensions) :
    u.expandAttribute extensions id = t.expandAttribute extensions other := by
  funext a
  unfold expandAttribute expandText settle isIgnorable
  rw [ignorable, lookUp]

/-- A failed expansion is never fatal. -/
theorem name_of_expandAttribute {extensions : Extensions} {id : NodeId} {a b : Attribute}
    (expanded : t.expandAttribute extensions id a = .ok b) : b.name = a.name := by
  unfold expandAttribute at expanded
  split at expanded
  · cases expanded
    rfl
  · cases expanded
    rfl
  · split at expanded
    · cases expanded
      rfl
    · split at expanded
      · cases expanded
        rfl
      · split at expanded
        · cases expanded
          rfl
        · cases expanded

theorem isFatal_expandAttribute {extensions : Extensions} {id : NodeId} {a : Attribute}
    {error : LoadError} (failed : t.expandAttribute extensions id a = .error error) :
    error.isFatal = false := by
  unfold expandAttribute at failed
  split at failed
  · cases failed
  · cases failed
  · split at failed
    · cases failed
    · split at failed
      · cases failed
      · split at failed <;> cases failed
        rfl

theorem Expands.nil (extensions : Extensions) (t : NodeTree) : Expands extensions t [] t :=
  ⟨rfl, rfl, fun id => by simp⟩

section Expanded

variable {u : NodeTree} {extensions : Extensions} {ids : List NodeId}

theorem Expands.retouches (expands : Expands extensions t ids u) : t.Retouches u :=
  ⟨expands.size, expands.ignorable, fun id => by rw [expands.node id]⟩

/-- A node that may be ignored stays as it is. -/
theorem Expands.ignored (expands : Expands extensions t ids u) {id : NodeId}
    (ignored : t.isIgnorableNode id = true) : Expands extensions t (ids ++ [id]) u := by
  refine ⟨expands.size, expands.ignorable, fun other => ?_⟩
  rw [expands.node other]
  by_cases here : other = id
  · subst here
    simp [ignored]
  · simp [here]

/-- One more node is expanded, as it was at first. -/
theorem Expands.expanded (expands : Expands extensions t ids u) {id : NodeId} (new : id ∉ ids)
    (counts : t.isIgnorableNode id = false) :
    Expands extensions t (ids ++ [id]) (u.setAttributes id (u.expandedAttributes extensions id)) := by
  have unchanged : (u.node id).attributes = (t.node id).attributes := by
    rw [expands.node id, if_neg fun h => new h.1]
  have same : u.expandedAttributes extensions id = t.expandedAttributes extensions id := by
    unfold expandedAttributes
    rw [unchanged, expandAttribute_congr expands.ignorable (expands.retouches.lookUpNamespace id)]
  refine ⟨(size_modify _ _ _).trans expands.size, expands.ignorable, fun other => ?_⟩
  rw [node_setAttributes, same, expands.node other, expands.size]
  by_cases here : other = id
  · subst here
    by_cases inside : other < t.size
    · simp [inside, counts]
    · -- There is no such node, so there is nothing to expand.
      have bare : (t.node other).attributes = [] := by
        rw [node_of_size_le (Nat.le_of_not_lt inside)]
        rfl
      have none : t.expandedAttributes extensions other = [] := by
        rw [expandedAttributes, bare]
        rfl
      simp [inside, none, bare]
  · simp [here]

theorem Expands.proper (expands : Expands extensions t ids u) (proper : t.Proper) : u.Proper :=
  proper.of_children expands.size expands.retouches.children

theorem Expands.linked (expands : Expands extensions t ids u) (linked : t.Linked) : u.Linked where
  root := by
    rw [expands.node root]
    exact linked.root
  child p c reached listed := by
    rw [expands.node c]
    rw [expands.retouches.children] at listed
    exact linked.child p c ((reaches_congr fun n _ => ⟨expands.retouches.children n, rfl⟩).1 reached) listed

end Expanded

/-- Expanding commutes with taking nodes out. -/
theorem thins_expands {t t' u u' : NodeTree} {gone : List NodeId} {extensions : Extensions}
    (thins : t.Thins t' gone) (proper : t.Proper) (proper' : t'.Proper) (linked : t.Linked)
    (expands : Expands extensions t (t.preorder t.isIgnorableNode) u)
    (expands' : Expands extensions t' (t'.preorder t'.isIgnorableNode) u') : u.Thins u' gone := by
  refine ⟨?_, ?_, fun id keeps => ?_⟩
  · rw [expands'.size, expands.size, thins.size]
  · rw [expands'.ignorable, expands.ignorable, thins.ignorable]
  have keeps : t.Keeps gone id := (keeps_congr gone expands.retouches.children).1 keeps
  have counts : t'.isIgnorableNode id = t.isIgnorableNode id := thins.isIgnorableNode keeps
  have walked : id ∈ t'.preorder t'.isIgnorableNode ↔ id ∈ t.preorder t.isIgnorableNode := by
    rw [mem_preorder proper', mem_preorder proper,
      thins.reaches proper fun n keeps => thins.isIgnorableNode keeps]
    exact ⟨And.right, fun reached => ⟨keeps, reached⟩⟩
  have same : t'.expandedAttributes extensions id = t.expandedAttributes extensions id := by
    unfold expandedAttributes
    rw [thins.body keeps,
      expandAttribute_congr thins.ignorable (thins.lookUpNamespace linked keeps)]
  rw [expands'.node id, node_without, expands.node id, thins.node id keeps, node_without, same,
    counts]
  simp only [walked]

end Expanding

end NodeTree

/-! ## Pruning -/

namespace NodeTree

section Pruning

variable {t : NodeTree}

theorem mem_prunedNodes (proper : t.Proper) {id : NodeId} :
    id ∈ t.prunedNodes ↔ t.Reaches t.isIgnorableNode root id ∧ t.isPrunable id = true := by
  rw [prunedNodes, List.mem_filter, mem_preorder proper]

theorem pruneNodes_eq (proper : t.Proper) (linked : t.Linked) :
    t.pruneNodes = t.without t.prunedNodes := by
  have each : ∀ (ids gone : List NodeId),
      (∀ id ∈ ids, t.Reaches (fun _ => false) root id) →
        ids.foldl detach (t.without gone) = t.without (gone ++ ids) := by
    intro ids
    induction ids with
    | nil =>
      intro gone _
      rw [List.append_nil]
      rfl
    | cons id rest ih =>
      intro gone reached
      obtain ⟨here, later⟩ := List.forall_mem_cons.1 reached
      rw [List.foldl_cons, detach_without linked proper gone here, ih _ later, List.append_assoc]
      rfl
  have all := each t.prunedNodes [] fun id mem => ((mem_prunedNodes proper).1 mem).1.all
  rwa [without_nil] at all

/-- What pruning leaves of a node, if all nodes know their parents. -/
theorem node_prune_of_linked (proper : t.Proper) (linked : t.Linked) (id : NodeId) :
    t.prune.node id =
      { (t.without t.prunedNodes).node id with
        attributes := if id ∈ (t.without t.prunedNodes).reachable then t.prunedAttributes id
          else (t.node id).attributes } := by
  unfold prune
  split
  case isTrue none =>
    have none := List.isEmpty_iff.1 none
    have all : t.prunedAttributes id = (t.node id).attributes := by
      refine List.filter_eq_self.2 fun a _ => ?_
      simp [isIgnorable, none]
    rw [prunedNodes_eq_nil none, without_nil, all, ite_self]
  case isFalse =>
    have same : (t.without t.prunedNodes).prunedAttributes id = t.prunedAttributes id := by
      unfold prunedAttributes
      rw [node_without]
      rfl
    rw [pruneNodes_eq proper linked, node_foldl_pruneAttributes, same, node_without]

theorem children_prune (proper : t.Proper) (linked : t.Linked) (id : NodeId) :
    (t.prune.node id).children = ((t.without t.prunedNodes).node id).children := by
  rw [node_prune_of_linked proper linked]

theorem proper_prune (proper : t.Proper) (linked : t.Linked) : t.prune.Proper := by
  refine (proper.without t.prunedNodes).of_children ?_ (children_prune proper linked)
  rw [size_prune, size_without]

theorem linked_prune (proper : t.Proper) (linked : t.Linked) : t.prune.Linked where
  root := by
    rw [node_prune_of_linked proper linked, node_without]
    exact linked.root
  child p c reached listed := by
    rw [children_prune proper linked] at listed
    have reached : t.Keeps t.prunedNodes p :=
      (reaches_congr fun n _ => ⟨children_prune proper linked n, rfl⟩).1 reached
    rw [node_prune_of_linked proper linked, node_without]
    exact linked.child p c reached.reaches (mem_children_without.1 listed).1

/-- Pruning commutes with taking nodes out. -/
theorem thins_prune {t' : NodeTree} {gone : List NodeId} (thins : t.Thins t' gone)
    (proper : t.Proper) (proper' : t'.Proper) (linked : t.Linked) (linked' : t'.Linked) :
    t.prune.Thins t'.prune gone := by
  -- A child that has not been taken out is pruned on both sides or on neither.
  have pruned : ∀ {id}, t.Keeps gone id → (id ∈ t'.prunedNodes ↔ id ∈ t.prunedNodes) := by
    intro id keeps
    have prunable : t'.isPrunable id = t.isPrunable id := by
      unfold isPrunable
      rw [thins.body keeps, thins.isIgnorableNode keeps]
    rw [mem_prunedNodes proper', mem_prunedNodes proper, prunable,
      thins.reaches proper fun n keeps => thins.isIgnorableNode keeps]
    exact ⟨fun ⟨⟨_, reached⟩, is⟩ => ⟨reached, is⟩, fun ⟨reached, is⟩ => ⟨⟨keeps, reached⟩, is⟩⟩
  have both : ∀ {id}, t.prune.Keeps gone id →
      t.Keeps gone id ∧ t.Keeps t.prunedNodes id ∧ t'.Keeps t'.prunedNodes id := by
    intro id keeps
    unfold Keeps at keeps
    induction keeps with
    | top => exact ⟨.top, .top, .top⟩
    | child _ _ listed ih =>
      obtain ⟨keeps, left, left'⟩ := ih
      obtain ⟨listed, stays⟩ := mem_children_without.1 listed
      rw [children_prune proper linked] at listed
      obtain ⟨listed, whole⟩ := mem_children_without.1 listed
      have keeps' := keeps.child listed stays
      refine ⟨keeps', left.child listed whole, ?_⟩
      refine left'.child ((thins.mem_children keeps).2 ⟨listed, stays⟩) ?_
      rwa [pruned keeps']
  refine ⟨?_, ?_, fun id keeps => ?_⟩
  · rw [size_prune, size_prune, thins.size]
  · rw [ignorable_prune, ignorable_prune, thins.ignorable]
  obtain ⟨keeps, left, left'⟩ := both keeps
  have children : ((t.node id).children.filter fun c => !gone.contains c).filter
        (fun c => !t'.prunedNodes.contains c) =
      ((t.node id).children.filter fun c => !t.prunedNodes.contains c).filter
        fun c => !gone.contains c := by
    rw [List.filter_filter, List.filter_filter]
    refine List.filter_congr fun c listed => ?_
    by_cases out : c ∈ gone
    · simp [out]
    · simp [out, pruned (keeps.child listed out)]
  have names : t'.isIgnorable = t.isIgnorable := by
    funext uri
    rw [isIgnorable, isIgnorable, thins.ignorable]
  have walked : id ∈ (t.without t.prunedNodes).reachable :=
    (mem_preorder (proper.without _)).2 left
  have walked' : id ∈ (t'.without t'.prunedNodes).reachable :=
    (mem_preorder (proper'.without _)).2 left'
  have left : t.prune.node id = { t.node id with
      attributes := t.prunedAttributes id
      children := (t.node id).children.filter fun c => !t.prunedNodes.contains c } := by
    rw [node_prune_of_linked proper linked, if_pos walked, node_without]
  have left' : t'.prune.node id = { t'.node id with
      attributes := t'.prunedAttributes id
      children := (t'.node id).children.filter fun c => !t'.prunedNodes.contains c } := by
    rw [node_prune_of_linked proper' linked', if_pos walked', node_without]
  rw [left', node_without, left, prunedAttributes, prunedAttributes, thins.node id keeps,
    node_without, names, ← children]

end Pruning

end NodeTree

/-! ## Running expansion -/

/-- A state with another tree. -/
def LoadState.withTree (s : LoadState) (t : NodeTree) : LoadState := { s with tree := t }

namespace Load

section Attributes

variable (env : Environment) {id : NodeId} {s : LoadState} {a : Attribute}

/-- An attribute that can be expanded is done. -/
theorem start_expandAttributes_ok {b : Attribute} (done rest : List Attribute)
    (expands : s.tree.expandAttribute env.extensions id a = .ok b) :
    (expandAttributes env id done (a :: rest)).start s =
      (expandAttributes env id (done ++ [b]) rest).start s := by
  rw [expandAttributes, start_get_bind, expands]

/-- An attribute that cannot be expanded is dropped, if that is tolerated. -/
theorem start_expandAttributes_error {error : LoadError} (done rest : List Attribute)
    (fails : s.tree.expandAttribute env.extensions id a = .error error) :
    (expandAttributes env id done (a :: rest)).start s =
      (recover error >>= fun _ => expandAttributes env id done rest).start
        (s.withTree (s.tree.setAttributes id (done ++ a :: rest))) := by
  rw [expandAttributes, start_get_bind, fails]
  rfl

end Attributes

section Running

variable {env : Environment}

/-- Attributes that are expanded without a failure that counts become those that can be expanded. -/
theorem ok_of_expandAttributes {id : NodeId} {u : LoadState} (rest : List Attribute) :
    ∀ {done : List Attribute} {s : LoadState},
      (expandAttributes env id done rest).start s = (.ok (), u) →
      ∃ diagnostics, u = (s.withTree (s.tree.setAttributes id (done ++ rest.filterMap fun a =>
        (s.tree.expandAttribute env.extensions id a).toOption))).withRecord diagnostics := by
  induction rest with
  | nil =>
    intro done s ran
    cases ran
    refine ⟨s.context.diagnostics, ?_⟩
    rw [List.filterMap_nil, List.append_nil]
    rfl
  | cons a rest ih =>
    intro done s ran
    rw [List.filterMap_cons]
    cases expands : s.tree.expandAttribute env.extensions id a with
    | ok b =>
      rw [start_expandAttributes_ok env done rest expands] at ran
      obtain ⟨diagnostics, is⟩ := ih ran
      refine ⟨diagnostics, is.trans ?_⟩
      rw [List.append_assoc, List.singleton_append]
      rfl
    | error error =>
      -- The attribute is dropped, which does not change what becomes of those after it.
      rw [start_expandAttributes_error env done rest expands] at ran
      obtain ⟨_, dropped, recovers, ran⟩ := ok_of_start_bind ran
      obtain ⟨diagnostics, is⟩ := ih ran
      have retouches := s.tree.retouches_setAttributes id (done ++ a :: rest)
      have tree : dropped.tree = s.tree.setAttributes id (done ++ a :: rest) := by
        rw [ok_of_recover recovers]
        rfl
      have others : ∀ t, (dropped.withTree t).withRecord diagnostics =
          (s.withTree t).withRecord diagnostics := by
        rw [ok_of_recover recovers]
        exact fun _ => rfl
      have same := NodeTree.expandAttribute_congr retouches.ignorable
        (retouches.lookUpNamespace id) env.extensions
      refine ⟨diagnostics, ?_⟩
      rw [is, others, tree, same, NodeTree.setAttributes_setAttributes]
      rfl

theorem ok_of_expandNodes {t : NodeTree} {u : LoadState} (ids : List NodeId) :
    ∀ {done : List NodeId} {s : LoadState}, (done ++ ids).Nodup →
      NodeTree.Expands env.extensions t done s.tree →
      (ids.forM (expandNode env)).start s = (.ok (), u) →
      ∃ expanded diagnostics, u = (s.withTree expanded).withRecord diagnostics ∧
        NodeTree.Expands env.extensions t (done ++ ids) expanded := by
  induction ids with
  | nil =>
    intro done s _ expands ran
    cases ran
    exact ⟨u.tree, u.context.diagnostics, rfl, by rwa [List.append_nil]⟩
  | cons id rest ih =>
    intro done s nodup expands ran
    have nodup' : (done ++ [id] ++ rest).Nodup := by rwa [List.append_assoc]
    have new : id ∉ done := fun mem =>
      (List.nodup_append.1 nodup).2.2 id mem id List.mem_cons_self rfl
    rw [start_forM_cons] at ran
    obtain ⟨_, next, first, ran⟩ := ok_of_start_bind ran
    rw [expandNode, start_get_bind, expands.retouches.isIgnorableNode] at first
    cases counts : t.isIgnorableNode id with
    | true =>
      rw [counts] at first
      cases first
      obtain ⟨expanded, diagnostics, is, after⟩ := ih nodup' (expands.ignored counts) ran
      refine ⟨expanded, diagnostics, is, ?_⟩
      rwa [List.append_assoc] at after
    | false =>
      rw [counts] at first
      obtain ⟨noted, rfl⟩ := ok_of_expandAttributes _ first
      obtain ⟨expanded, diagnostics, is, after⟩ := ih nodup' (expands.expanded new counts) ran
      refine ⟨expanded, diagnostics, is, ?_⟩
      rwa [List.append_assoc] at after

/-- **Expanding changes nothing but attributes**, if it does not fail. -/
theorem ok_of_expandMarkup {s u : LoadState} (proper : s.tree.Proper)
    (ran : (expandMarkup env).start s = (.ok (), u)) :
    ∃ expanded diagnostics, u = (s.withTree expanded).withRecord diagnostics ∧
      NodeTree.Expands env.extensions s.tree (s.tree.preorder s.tree.isIgnorableNode) expanded := by
  have nodup := (NodeTree.perm_preorder proper.layers s.tree.isIgnorableNode).nodup_iff.2
    (NodeTree.nodup_postorder proper)
  exact ok_of_expandNodes _ nodup (.nil _ _) ran

/-- A failure to expand an attribute is passed over in a tolerant load. -/
theorem tolerated_expandAttributes {id : NodeId} (rest : List Attribute) :
    ∀ (done : List Attribute) (s : LoadState), s.context.tolerant = true →
      ((expandAttributes env id done rest).start s).1 = .ok () := by
  induction rest with
  | nil => exact fun _ _ _ => rfl
  | cons a rest ih =>
    intro done s tolerant
    cases expands : s.tree.expandAttribute env.extensions id a with
    | ok b =>
      rw [start_expandAttributes_ok env done rest expands]
      exact ih _ s tolerant
    | error error =>
      let dropped := s.withTree (s.tree.setAttributes id (done ++ a :: rest))
      have tolerant' : dropped.context.tolerant = true := tolerant
      rw [start_expandAttributes_error env done rest expands, start_bind_of_ok
        (start_recover_tolerant tolerant' (NodeTree.isFatal_expandAttribute expands))]
      exact ih done _ tolerant

/-- Expanding never fails in a tolerant load. -/
theorem tolerated_expandMarkup {s : LoadState} (tolerant : s.context.tolerant = true) :
    ((expandMarkup env).start s).1 = .ok () := by
  have each : ∀ (ids : List NodeId) (s : LoadState), s.context.tolerant = true →
      ((ids.forM (expandNode env)).start s).1 = .ok () := by
    intro ids
    induction ids with
    | nil => exact fun _ _ => rfl
    | cons id rest ih =>
      intro s tolerant
      rw [start_forM_cons]
      cases ignored : s.tree.isIgnorableNode id with
      | true =>
        have idle : (expandNode env id).start s = (.ok (), s) := by
          rw [expandNode, start_get_bind, ignored]
          rfl
        rw [start_bind_of_ok idle, ih s tolerant]
      | false =>
        have step : (expandNode env id).start s =
            (expandAttributes env id [] (s.node id).attributes).start s := by
          rw [expandNode, start_get_bind, ignored]
          rfl
        have ran := step.trans (start_of_ok (tolerated_expandAttributes _ [] s tolerant))
        rw [start_bind_of_ok ran]
        refine ih _ ?_
        -- What is recorded does not make the load less tolerant.
        obtain ⟨diagnostics, is⟩ := ok_of_expandAttributes _ (step.symm.trans ran)
        rw [is]
        exact tolerant
  exact each _ s tolerant

end Running

/-- Expanding succeeds in a tolerant load and changes nothing but attributes. -/
theorem start_expandMarkup (env : Environment) {s : LoadState} (proper : s.tree.Proper)
    (tolerant : s.context.tolerant = true) :
    ∃ u diagnostics, (expandMarkup env).start s =
      (.ok (), { s with tree := u }.withRecord diagnostics) ∧
        NodeTree.Expands env.extensions s.tree (s.tree.preorder s.tree.isIgnorableNode) u := by
  have ran : (expandMarkup env).start s = _ := start_of_ok (tolerated_expandMarkup tolerant)
  obtain ⟨expanded, diagnostics, is, expands⟩ := ok_of_expandMarkup proper ran
  exact ⟨expanded, diagnostics, ran.trans (by rw [is]; rfl), expands⟩

end Load

/-! ## Scoping -/

/-- A state with other name scopes. -/
def LoadState.withScopes (s : LoadState) (scopes : Array NameScope)
    (nodeScopes : Table NodeId ScopeId) : LoadState :=
  { s with context := { s.context with scopes := scopes, nodeScopes := nodeScopes } }

/-- All nodes that are loaded share the first scope, which is outermost and holds no names. -/
structure LoadState.Scoped (s : LoadState) (env : Environment) : Prop where
  opened : 0 < s.context.scopes.size
  scope : s.context.scope 0 = ⟨none, .empty⟩
  nodes : ∀ id, s.tree.Reaches (s.isTemplate env) NodeTree.root id →
    s.context.nodeScope? id = some 0

/-- The name scopes when those in `done` have got theirs. -/
structure LoadState.Scoping (env : Environment) (s : LoadState) (done : List NodeId) : Prop where
  opened : 0 < s.context.scopes.size
  scope : s.context.scope 0 = ⟨none, .empty⟩
  nodes : ∀ id, s.tree.Reaches (s.isTemplate env) NodeTree.root id →
    s.context.nodeScope? id = none ∨ s.context.nodeScope? id = some 0
  done : ∀ id ∈ done, s.context.nodeScope? id ≠ none

section Scopes

variable {env : Environment} {s : LoadState}

/-- The node above a node that is loaded is loaded and no template. -/
theorem LoadState.loaded_parent (s : LoadState) (linked : s.tree.Linked) {id parent : NodeId}
    (loaded : s.tree.Reaches (s.isTemplate env) NodeTree.root id)
    (above : (s.node id).parent = some parent) :
    s.tree.Reaches (s.isTemplate env) NodeTree.root parent ∧ s.isTemplate env parent = false := by
  cases loaded with
  | top =>
    rw [LoadState.node, linked.root] at above
    cases above
  | child reached enters listed =>
    obtain rfl := Option.some.inj ((linked.child _ _ reached.all listed).symm.trans above)
    exact ⟨reached, enters⟩

theorem Context.nodeScope?_setNodeScope (c : Context) (id other : NodeId) (scope : ScopeId) :
    (c.setNodeScope id scope).nodeScope? other =
      if other = id then some scope else c.nodeScope? other := by
  unfold Context.setNodeScope Context.nodeScope?
  by_cases here : other = id
  · rw [if_pos here, here, Table.get?_insert_self]
  · rw [if_neg here, Table.get?_insert_of_ne _ _ here]

/-- One more node gets a scope, which is the first one if the node is loaded. -/
theorem LoadState.Scoping.step {done : List NodeId} (scoping : s.Scoping env done) {id : NodeId}
    {scope : ScopeId} (more : Array NameScope)
    (first : s.tree.Reaches (s.isTemplate env) NodeTree.root id → scope = 0) :
    (s.withScopes (s.context.scopes ++ more)
      (s.context.nodeScopes.insert id scope)).Scoping env (done ++ [id]) where
  opened := by
    show 0 < (s.context.scopes ++ more).size
    rw [Array.size_append]
    exact Nat.lt_of_lt_of_le scoping.opened (Nat.le_add_right _ _)
  scope := by
    show (s.context.scopes ++ more)[0]?.getD default = _
    rw [Array.getElem?_append_left scoping.opened]
    exact scoping.scope
  nodes other loaded := by
    have now := s.context.nodeScope?_setNodeScope id other scope
    by_cases here : other = id
    · rw [if_pos here] at now
      subst here
      exact .inr (now.trans (congrArg some (first loaded)))
    · rw [if_neg here] at now
      exact (scoping.nodes other loaded).imp now.trans now.trans
  done other mem := by
    have now := s.context.nodeScope?_setNodeScope id other scope
    by_cases here : other = id
    · rw [if_pos here] at now
      exact fun none => Option.some_ne_none _ (now.symm.trans none)
    · rw [if_neg here] at now
      rcases List.mem_append.1 mem with mem | mem
      · exact fun none => scoping.done other mem (now.symm.trans none)
      · exact absurd (List.mem_singleton.1 mem) here

end Scopes

namespace Load

section Scoping

variable {env : Environment} {s : LoadState}

/-- The content of a template gets a scope that is open already or a new one. -/
theorem start_contentScope (opened : Table NodeId ScopeId) (template : NodeId) (around : ScopeId)
    (s : LoadState) :
    ∃ scope opened' more, (contentScope opened template around).start s =
      (.ok (scope, opened'), s.withScopes (s.context.scopes ++ more) s.context.nodeScopes) := by
  unfold contentScope
  cases opened.get? template with
  | some scope => exact ⟨scope, opened, #[], by rw [Array.append_empty]; rfl⟩
  | none => exact ⟨s.context.scopes.size, opened.insert template _, #[⟨some around, .empty⟩], rfl⟩

theorem start_assignScope (linked : s.tree.Linked) {done : List NodeId}
    (scoping : s.Scoping env done) (root : NodeTree.root ∈ done) (opened : Table NodeId ScopeId)
    {id : NodeId} (reached : s.tree.Reaches (fun _ => false) NodeTree.root id) :
    ∃ opened' scopes nodeScopes, (assignScope env 0 opened id).start s =
        (.ok opened', s.withScopes scopes nodeScopes) ∧
      (s.withScopes scopes nodeScopes).Scoping env (done ++ [id]) := by
  rw [assignScope, start_get_bind]
  cases above : (s.node id).parent with
  | none =>
    -- Only the outermost element has nothing above it, and it has its scope.
    refine ⟨opened, s.context.scopes, s.context.nodeScopes, rfl, ?_⟩
    have top : id = NodeTree.root := by
      cases reached with
      | top => rfl
      | child reached _ listed =>
        exact absurd (above.symm.trans (linked.child _ _ reached listed)) nofun
    subst top
    refine ⟨scoping.opened, scoping.scope, scoping.nodes, fun other mem => ?_⟩
    rcases List.mem_append.1 mem with mem | mem
    · exact scoping.done other mem
    · exact List.mem_singleton.1 mem ▸ scoping.done _ root
  | some parent =>
    dsimp only
    cases template : s.isTemplate env parent with
    | true =>
      obtain ⟨scope, opened', more, run⟩ :=
        start_contentScope opened parent ((s.context.nodeScope? parent).getD 0) s
      refine ⟨opened', s.context.scopes ++ more, s.context.nodeScopes.insert id scope,
        (start_bind_of_ok run).trans rfl, scoping.step more fun loaded => ?_⟩
      exact absurd ((s.loaded_parent linked loaded above).2.symm.trans template) nofun
    | false =>
      refine ⟨opened, s.context.scopes ++ #[], _, by rw [Array.append_empty]; rfl,
        scoping.step #[] fun loaded => ?_⟩
      rcases scoping.nodes parent (s.loaded_parent linked loaded above).1 with none | some
      · rw [none]
        rfl
      · rw [some]
        rfl

/-- Scoping begins with the first scope, for the outermost element, and goes over all nodes. -/
theorem start_assignScopes_foldlM (env : Environment) (fresh : s.context.scopes = #[])
    (bare : s.context.nodeScopes = .empty) :
    (assignScopes env).start s =
      (s.tree.reachable.foldlM (assignScope env 0) Table.empty >>= fun _ => pure ()).start
        (s.withScopes #[⟨none, .empty⟩] (Table.empty.insert NodeTree.root 0)) := by
  rw [assignScopes, start_get_bind, Context.newScope, fresh]
  unfold Context.setNodeScope
  rw [bare]
  rfl

/-- Scoping gives all nodes that are loaded the first scope, and changes nothing but scopes. -/
theorem start_assignScopes (env : Environment) (proper : s.tree.Proper) (linked : s.tree.Linked)
    (fresh : s.context.scopes = #[]) (bare : s.context.nodeScopes = .empty) :
    ∃ scopes nodeScopes, (assignScopes env).start s = (.ok (), s.withScopes scopes nodeScopes) ∧
      (s.withScopes scopes nodeScopes).Scoped env := by
  let first : LoadState :=
    s.withScopes #[⟨none, .empty⟩] (Table.empty.insert NodeTree.root 0)
  have start : first.Scoping env [NodeTree.root] := by
    have now := Context.nodeScope?_setNodeScope { s.context with nodeScopes := .empty } NodeTree.root
    refine ⟨Nat.zero_lt_one, rfl, fun id _ => ?_, fun id mem => ?_⟩
    · by_cases here : id = NodeTree.root
      · exact .inr ((now id 0).trans (if_pos here))
      · exact .inl ((now id 0).trans (if_neg here))
    · have given := (now id 0).trans (if_pos (List.mem_singleton.1 mem))
      exact fun none => Option.some_ne_none _ (given.symm.trans none)
  -- The outermost element has its scope before the walk begins.
  obtain ⟨opened, _, run, ⟨scopes, nodeScopes, rfl⟩, after⟩ :
      ∃ opened t, (s.tree.reachable.foldlM (assignScope env 0) .empty).start first =
          (.ok opened, t) ∧ (∃ scopes nodeScopes, t = s.withScopes scopes nodeScopes) ∧
        t.Scoping env (NodeTree.root :: s.tree.reachable) := by
    refine foldlM_along (P := fun done _ t => (∃ scopes nodeScopes,
      t = s.withScopes scopes nodeScopes) ∧ t.Scoping env (NodeTree.root :: done))
      (fun done id rest opened t walk both => ?_) ⟨⟨_, _, rfl⟩, start⟩
    obtain ⟨⟨scopes, nodeScopes, rfl⟩, scoping⟩ := both
    have mem : id ∈ s.tree.reachable := walk ▸ List.mem_append_right _ List.mem_cons_self
    obtain ⟨opened', scopes', nodeScopes', run, scoping'⟩ :=
      start_assignScope (s := s.withScopes scopes nodeScopes) linked scoping List.mem_cons_self
        opened ((NodeTree.mem_preorder proper).1 mem)
    exact ⟨opened', _, run, ⟨scopes', nodeScopes', rfl⟩, scoping'⟩
  refine ⟨scopes, nodeScopes, ?_, after.opened, after.scope, fun id loaded => ?_⟩
  · rw [start_assignScopes_foldlM env fresh bare, start_bind_of_ok run]
    rfl
  · have given := after.done id (.tail _ ((NodeTree.mem_preorder proper).2 loaded.all))
    exact (after.nodes id loaded).resolve_left given

end Scoping

end Load

/-! ## Preparing -/

/-- The passes before the creation of values. -/
def Load.prepare (env : Environment) : Load Unit :=
  [Pass.parentLinking, .markupExpansion, .pruneIgnored, .namescoping].forM (completePass env)

/-- What becomes of a state when its document is prepared. -/
structure Prepares (env : Environment) (s after : LoadState) : Prop where
  tree : ∃ expanded, after.tree = expanded.prune ∧
    NodeTree.Expands env.extensions s.tree.linkParents
      (s.tree.linkParents.preorder s.tree.linkParents.isIgnorableNode) expanded
  heap : after.heap = s.heap
  rootInstance : after.rootInstance = s.rootInstance
  rootElement : after.context.rootElement = s.context.rootElement
  tolerant : after.context.tolerant = s.context.tolerant
  values : after.context.values = s.context.values
  outerScope : after.context.outerScope = s.context.outerScope
  passes : after.context.passes =
    s.context.passes ++ [.parentLinking, .markupExpansion, .pruneIgnored, .namescoping]
  inFirstScope : after.Scoped env

namespace Prepares

variable {env : Environment} {s after : LoadState}

theorem proper (prepares : Prepares env s after) (proper : s.tree.Proper) :
    after.tree.Proper ∧ after.tree.Linked := by
  obtain ⟨expanded, pruned, expands⟩ := prepares.tree
  have proper' := expands.proper proper.linkParents
  have linked' := expands.linked (NodeTree.linked_linkParents proper)
  rw [pruned]
  exact ⟨NodeTree.proper_prune proper' linked', NodeTree.linked_prune proper' linked'⟩

/-- Preparing leaves a node its kind and its name. -/
theorem kind (prepares : Prepares env s after) (proper : s.tree.Proper) (id : NodeId) :
    (after.node id).kind = (s.node id).kind ∧ (after.node id).typeName = (s.node id).typeName := by
  obtain ⟨expanded, pruned, expands⟩ := prepares.tree
  have linked := NodeTree.linked_linkParents proper
  obtain ⟨parent, is⟩ := NodeTree.node_linkParents proper id
  unfold LoadState.node
  rw [pruned, NodeTree.node_prune_of_linked (expands.proper proper.linkParents) (expands.linked linked),
    NodeTree.node_without, expands.node, is]
  exact ⟨rfl, rfl⟩

/-- Prefixes stand for the same namespaces as in the document that has been linked. -/
theorem lookUpNamespace (prepares : Prepares env s after) (id : NodeId) :
    after.tree.lookUpNamespace id = s.tree.linkParents.lookUpNamespace id := by
  obtain ⟨expanded, pruned, expands⟩ := prepares.tree
  rw [pruned, NodeTree.lookUpNamespace_prune, expands.retouches.lookUpNamespace]

/-- What pruning takes out does not depend on the attributes and on the links to parents. -/
theorem children (prepares : Prepares env s after) (proper : s.tree.Proper) (id : NodeId) :
    (after.node id).children = ((s.tree.without s.tree.prunedNodes).node id).children := by
  obtain ⟨expanded, pruned, expands⟩ := prepares.tree
  have properE := expands.proper proper.linkParents
  have linkedE := expands.linked (NodeTree.linked_linkParents proper)
  have node : ∀ n, (expanded.node n).kind = (s.node n).kind ∧
      (expanded.node n).typeName = (s.node n).typeName ∧
      (expanded.node n).children = (s.node n).children := by
    intro n
    obtain ⟨parent, is⟩ := NodeTree.node_linkParents proper n
    rw [expands.node, is]
    exact ⟨rfl, rfl, rfl⟩
  have names : expanded.ignorable = s.tree.ignorable :=
    expands.ignorable.trans (NodeTree.ignorable_linkParents s.tree)
  have ignored : ∀ n, expanded.isIgnorableNode n = s.tree.isIgnorableNode n := by
    intro n
    unfold NodeTree.isIgnorableNode NodeTree.isIgnorable
    rw [names, (node n).2.1]
    rfl
  have prunable : ∀ n, expanded.isPrunable n = s.tree.isPrunable n := by
    intro n
    unfold NodeTree.isPrunable
    rw [(node n).1, ignored]
    rfl
  have reaches : ∀ n, expanded.Reaches expanded.isIgnorableNode NodeTree.root n ↔
      s.tree.Reaches s.tree.isIgnorableNode NodeTree.root n := by
    intro n
    constructor
    · exact fun reached => reached.congr fun m _ => ⟨(node m).2.2.symm, (ignored m).symm⟩
    · exact fun reached => reached.congr fun m _ => ⟨(node m).2.2, ignored m⟩
  unfold LoadState.node
  rw [pruned, NodeTree.children_prune properE linkedE, NodeTree.node_without,
    NodeTree.node_without, (node id).2.2]
  refine List.filter_congr fun c _ => ?_
  have same : c ∈ expanded.prunedNodes ↔ c ∈ s.tree.prunedNodes := by
    rw [NodeTree.mem_prunedNodes properE, NodeTree.mem_prunedNodes proper, reaches, prunable]
  simp [same]

/-- The attributes that are left are attributes of the document, as they were or expanded. -/
theorem attribute_origin (prepares : Prepares env s after) (proper : s.tree.Proper) (id : NodeId) :
    ∀ a ∈ (after.node id).attributes, ∃ b ∈ (s.node id).attributes,
      a = b ∨ s.tree.linkParents.expandAttribute env.extensions id b = .ok a := by
  obtain ⟨expanded, pruned, expands⟩ := prepares.tree
  obtain ⟨parent, is⟩ := NodeTree.node_linkParents proper id
  have attributes : (s.tree.linkParents.node id).attributes = (s.node id).attributes := by
    rw [is]
    rfl
  have origin : ∀ a ∈ (expanded.node id).attributes, ∃ b ∈ (s.node id).attributes,
      a = b ∨ s.tree.linkParents.expandAttribute env.extensions id b = .ok a := by
    intro a mem
    rw [expands.node] at mem
    dsimp only at mem
    split at mem
    · obtain ⟨b, mem, becomes⟩ := List.mem_filterMap.1 mem
      refine ⟨b, attributes ▸ mem, .inr ?_⟩
      cases expand : s.tree.linkParents.expandAttribute env.extensions id b with
      | error _ =>
        rw [expand] at becomes
        cases becomes
      | ok a' =>
        rw [expand] at becomes
        cases becomes
        rfl
    · exact ⟨a, attributes ▸ mem, .inl rfl⟩
  intro a mem
  unfold LoadState.node at mem
  rw [pruned, NodeTree.node_prune_of_linked (expands.proper proper.linkParents)
    (expands.linked (NodeTree.linked_linkParents proper))] at mem
  dsimp only at mem
  split at mem
  · exact origin a (List.mem_filter.1 mem).1
  · exact origin a mem

/-- Preparing commutes with taking nodes out. -/
theorem thins {s' after' : LoadState} {gone : List NodeId} (prepares : Prepares env s after)
    (prepares' : Prepares env s' after') (proper : s.tree.Proper)
    (thinned : s'.tree = s.tree.without gone) : after.tree.Thins after'.tree gone := by
  obtain ⟨expanded, pruned, expands⟩ := prepares.tree
  obtain ⟨expanded', pruned', expands'⟩ := prepares'.tree
  rw [thinned] at expands'
  have linked := NodeTree.linked_linkParents proper
  have linked' := NodeTree.linked_linkParents (proper.without gone)
  have proper' := (proper.without gone).linkParents
  rw [pruned, pruned']
  exact NodeTree.thins_prune
    (NodeTree.thins_expands (NodeTree.thins_linkParents proper gone) proper.linkParents proper'
      linked expands expands')
    (expands.proper proper.linkParents) (expands'.proper proper') (expands.linked linked)
    (expands'.linked linked')

end Prepares

namespace Load

/-- Preparing a document succeeds in a tolerant load. -/
theorem start_prepare (env : Environment) {s : LoadState} (proper : s.tree.Proper)
    (tolerant : s.context.tolerant = true) (fresh : s.context.scopes = #[])
    (bare : s.context.nodeScopes = .empty) :
    ∃ after, (prepare env).start s = (.ok (), after) ∧ Prepares env s after := by
  have linked := NodeTree.linked_linkParents proper
  let first : LoadState := { s with
    tree := s.tree.linkParents, context := s.context.completed .parentLinking }
  obtain ⟨expanded, noted, expand, expands⟩ :=
    start_expandMarkup env (s := first) proper.linkParents tolerant
  have proper' := expands.proper proper.linkParents
  have linked' := expands.linked linked
  let second : LoadState := { s with
    tree := expanded
    context := { first.context with
      diagnostics := noted, passes := first.context.passes ++ [.markupExpansion] } }
  let third : LoadState := { s with
    tree := expanded.prune
    context := second.context.completed .pruneIgnored }
  obtain ⟨scopes, nodeScopes, scope, shared⟩ := start_assignScopes (s := third) env
    (NodeTree.proper_prune proper' linked') (NodeTree.linked_prune proper' linked') fresh bare
  let last : LoadState := { s with
    tree := expanded.prune
    context := (third.withScopes scopes nodeScopes).context.completed .namescoping }
  have linking : (completePass env .parentLinking).start s = (.ok (), first) := rfl
  have expanding : (completePass env .markupExpansion).start first = (.ok (), second) :=
    @start_bind_of_ok _ _ (runPass env .markupExpansion) _ _ _ _ expand
  have pruning : (completePass env .pruneIgnored).start second = (.ok (), third) := rfl
  have scoping : (completePass env .namescoping).start third = (.ok (), last) :=
    @start_bind_of_ok _ _ (runPass env .namescoping) _ _ _ _ scope
  refine ⟨last, ?_, ?_⟩
  · unfold prepare
    rw [start_forM_cons, start_bind_of_ok linking, start_forM_cons, start_bind_of_ok expanding,
      start_forM_cons, start_bind_of_ok pruning, start_forM_cons, start_bind_of_ok scoping]
    rfl
  · have passes : last.context.passes = s.context.passes ++
        [.parentLinking, .markupExpansion, .pruneIgnored, .namescoping] := by
      show (((s.context.passes ++ [Pass.parentLinking]) ++ [.markupExpansion]) ++ [.pruneIgnored]) ++
        [.namescoping] = _
      simp only [List.append_assoc, List.cons_append, List.nil_append]
    exact ⟨⟨expanded, rfl, expands⟩, rfl, rfl, rfl, rfl, rfl, rfl, passes,
      shared.opened, shared.scope, shared.nodes⟩

end Load

end MarkupLoader
