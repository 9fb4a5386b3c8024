import MarkupLoader.Load.Loader
import MarkupLoader.Proofs.Failures
import MarkupLoader.Proofs.Preparation
import MarkupLoader.Proofs.Shape
import MarkupLoader.Proofs.Soundness
import MarkupLoader.Proofs.AlikePasses

/-!
# What a tolerant load leaves out

A tolerant load takes the elements out of the document that it cannot create, and goes on without
them. **It is as if they had never been there**: the load of the document without these elements
leaves nothing out, ends in the same way, and gives objects that match.

* **What is left out** (`Load.omitted`) is what the creation of values has detached.
* **Up to the creation of values** both loads have the same objects; from then on they are twins.

Main results: `ends_finish`, `omitted_leaves_nothing`.
-/

namespace MarkupLoader

/-! ## What is left out -/

/-- The nodes that are listed as children in a tree and are not in a later one. -/
def NodeTree.detached (before after : NodeTree) : List NodeId :=
  (List.range before.size).flatMap fun p =>
    (before.node p).children.filter fun c => !(after.node p).children.contains c

namespace Load

/-- The nodes that the creation of values detaches in a load from a state, if the load gets that
far. -/
def omitted (env : Environment) (s : LoadState) : List NodeId :=
  match (createRoot env >>= fun _ => prepare env).start s with
  | (.ok _, before) => before.tree.detached ((createValues env).start before).2.tree
  | (.error _, _) => []

/-- The passes from the creation of values on. -/
def finish (env : Environment) : Load Unit :=
  [Pass.valueCreation, .nameRegistration, .resourceDictionaryFill, .propertyApplication].forM
    (completePass env)

end Load

namespace NodeTree

variable {t : NodeTree}

theorem detached_self (t : NodeTree) : t.detached t = [] := by
  unfold detached
  refine List.flatMap_eq_nil_iff.2 fun p _ => List.filter_eq_nil_iff.2 fun c listed => ?_
  simpa using listed

/-- Nodes that have been taken out are detached, if they were listed. -/
theorem mem_detached_without {gone : List NodeId} {c : NodeId} :
    c ∈ t.detached (t.without gone) ↔ (∃ p, c ∈ (t.node p).children) ∧ c ∈ gone := by
  unfold detached
  rw [List.mem_flatMap]
  constructor
  · rintro ⟨p, -, mem⟩
    obtain ⟨listed, out⟩ := List.mem_filter.1 mem
    refine ⟨⟨p, listed⟩, Decidable.byContradiction fun stays => ?_⟩
    have still : c ∈ ((t.without gone).node p).children := mem_children_without.2 ⟨listed, stays⟩
    simp [still] at out
  · rintro ⟨⟨p, listed⟩, out⟩
    have inside : p < t.size := Decidable.byContradiction fun outside => by
      rw [node_of_size_le (Nat.le_of_not_lt outside)] at listed
      cases listed
    refine ⟨p, List.mem_range.2 inside, List.mem_filter.2 ⟨listed, ?_⟩⟩
    have left : c ∉ ((t.without gone).node p).children :=
      fun mem => (mem_children_without.1 mem).2 out
    rw [List.contains_eq_mem, decide_eq_false left]
    rfl

end NodeTree

namespace Load

/-! ## The later passes -/

section Finishing

variable {env : Environment} {kept : NodeTree} {M : Matching} {a b : LoadState}

theorem start_runPasses (env : Environment) (s : LoadState) :
    (runPasses env).start s = (prepare env >>= fun _ => finish env).start s :=
  start_forM_append (completePass env)
    [.parentLinking, .markupExpansion, .pruneIgnored, .namescoping]
    [.valueCreation, .nameRegistration, .resourceDictionaryFill, .propertyApplication] s

/-- Loads that end the creation of values alike end alike. -/
theorem ends_finish (natural : env.extensions.Natural)
    (created : EndsDone (Aligned env kept) M ((createValues env).start a)
      ((createValues env).start b)) :
    EndsDone (Aligned env kept) M ((finish env).start a) ((finish env).start b) := by
  have all := simulates_aligned env kept
  have fills := all.toSimulates
  unfold finish
  rw [start_forM_cons, start_forM_cons]
  refine Ends.bind (ends_completePass fills created) fun _ _ _ _ _ _ aligned _ => ?_
  rw [start_forM_cons, start_forM_cons]
  refine Ends.bind (ends_completePass fills (ends_registerNames fills aligned))
    fun _ _ _ _ _ _ aligned _ => ?_
  rw [start_forM_cons, start_forM_cons]
  refine Ends.bind (ends_completePass fills (ends_fillResources fills aligned))
    fun _ _ _ _ _ _ aligned _ => ?_
  rw [start_forM_cons, start_forM_cons]
  refine Ends.bind (ends_completePass fills (ends_applyProperties all aligned natural))
    fun _ _ _ _ _ _ aligned _ => ends_done aligned

end Finishing

end Load

/-! ## Up to the creation of values -/

/-- The context of a tolerant load that has not given anything to a node yet. -/
structure Context.Untouched (c : Context) : Prop where
  tolerant : c.tolerant = true
  values : c.values = .empty
  scopes : c.scopes = #[]
  nodeScopes : c.nodeScopes = .empty

/-- No node of a document that has been prepared has a value yet. -/
theorem Prepares.value?_eq_none {env : Environment} {s before : LoadState}
    (prepares : Prepares env s before) (untouched : s.context.Untouched) (id : NodeId) :
    before.context.value? id = none := by
  unfold Context.value?
  rw [prepares.values, untouched.values]
  rfl

/-- Two loads that have not begun to create values, one of them without some of the nodes. -/
structure Beside (gone : List NodeId) (M : Matching) (a b : LoadState) : Prop where
  tree : b.tree = a.tree.without gone
  heaps : M.Heaps a.heap b.heap
  left : a.context.Untouched
  right : b.context.Untouched
  rootElement : Option.Rel M.rel a.context.rootElement b.context.rootElement
  rootInstance : Option.Rel M.rel a.rootInstance b.rootInstance
  outerScope : List.Forall₂ M.rel a.context.outerScope b.context.outerScope
  passes : a.context.passes = b.context.passes

section Beginning

variable {env : Environment} {gone : List NodeId} {M : Matching} {a b : LoadState}

/-- Both loads make the object of the outermost element first, or leave it for later. -/
theorem Beside.createRoot (beside : Beside gone M a b) (natural : env.registry.Natural)
    (objects : ∀ c ∈ gone, (a.tree.node c).isObject = true)
    (template : env.registry.isTemplate (a.node NodeTree.root).typeName = true → gone = [])
    {next : LoadState} (run : (Load.createRoot env).start a = (.ok (), next)) :
    ∃ N next', (Load.createRoot env).start b = (.ok (), next') ∧ M.Within N ∧
      Beside gone N next next' ∧ next.tree = a.tree := by
  have instances := beside.rootInstance
  cases known : a.rootInstance with
  | some id =>
    rw [known] at instances
    obtain ⟨id', known', related⟩ : ∃ id', b.rootInstance = some id' ∧ M.rel id id' := by
      generalize b.rootInstance = other at instances
      cases instances with
      | some related => exact ⟨_, rfl, related⟩
    rw [Load.start_createRoot_known known] at run
    cases run
    refine ⟨M, b.about id', Load.start_createRoot_known known', .refl M, ?_, rfl⟩
    exact { beside with
      left := ⟨beside.left.tolerant, beside.left.values, beside.left.scopes,
        beside.left.nodeScopes⟩
      right := ⟨beside.right.tolerant, beside.right.values, beside.right.scopes,
        beside.right.nodeScopes⟩
      rootElement := .some related }
  | none =>
    have known' : b.rootInstance = none := by
      have := Matching.isSome_of_rel instances
      rw [known] at this
      exact Option.not_isSome_iff_eq_none.1 (by rw [← this]; decide)
    have arguments : b.tree.arguments? NodeTree.root = a.tree.arguments? NodeTree.root := by
      rw [beside.tree, NodeTree.arguments?_without objects]
    cases bare : a.tree.arguments? NodeTree.root with
    | some holder =>
      rw [Load.start_createRoot_later known bare] at run
      cases run
      exact ⟨M, b, Load.start_createRoot_later known' (arguments.trans bare), .refl M, beside, rfl⟩
    | none =>
      have body : (b.node NodeTree.root).toNodeBody = (a.node NodeTree.root).toNodeBody := by
        rw [LoadState.node, beside.tree, NodeTree.node_without]
        rfl
      have text : b.tree.textContent NodeTree.root = a.tree.textContent NodeTree.root := by
        rw [beside.tree, NodeTree.textContent_without objects]
      have given : List.Forall₂ M.Values (a.argumentValues NodeTree.root)
          (b.argumentValues NodeTree.root) := by
        unfold LoadState.argumentValues
        rw [arguments, bare]
        exact .nil
      have alike := alike_make_of natural beside.heaps body text given fun is => by
        -- Nothing is left out of a template.
        have same : b.tree = a.tree := by
          rw [beside.tree, template is, NodeTree.without_nil]
        unfold LoadState.templateContent LoadState.node
        rw [same]
      rw [Load.start_createRoot_new known bare] at run
      rw [Load.start_createRoot_new known' (arguments.trans bare)]
      generalize a.make env NodeTree.root = made at alike run
      generalize b.make env NodeTree.root = made' at alike
      cases alike with
      | error error => cases run
      | ok matched =>
        cases matched with
        | scalar value => cases run
        | @object o p objects =>
          cases run
          obtain ⟨N, within, related, heaps⟩ := beside.heaps.alloc objects
          refine ⟨N, _, rfl, within, ?_, rfl⟩
          exact ⟨beside.tree, heaps, ⟨beside.left.tolerant, beside.left.values, beside.left.scopes,
            beside.left.nodeScopes⟩, ⟨beside.right.tolerant, beside.right.values,
            beside.right.scopes, beside.right.nodeScopes⟩, .some related, .some related,
            beside.outerScope.imp within, beside.passes⟩

variable (env) in
/-- The documents of two such loads, prepared. -/
theorem Beside.prepared (beside : Beside gone M a b) (proper : a.tree.Proper) :
    ∃ before before', (Load.prepare env).start a = (.ok (), before) ∧
      (Load.prepare env).start b = (.ok (), before') ∧ Prepares env a before ∧
      Prepares env b before' ∧ before.tree.Thins before'.tree gone ∧
      Twins env (before.tree.without gone) M before before' := by
  have proper' : b.tree.Proper := by
    rw [beside.tree]
    exact proper.without gone
  obtain ⟨before, run, prepares⟩ := Load.start_prepare env proper beside.left.tolerant
    beside.left.scopes beside.left.nodeScopes
  obtain ⟨before', run', prepares'⟩ := Load.start_prepare env proper' beside.right.tolerant
    beside.right.scopes beside.right.nodeScopes
  have thins := prepares.thins prepares' proper beside.tree
  obtain ⟨properBefore, linkedBefore⟩ := prepares.proper proper
  have templates : (before.tree.without gone).templates env = before.tree.templates env := by
    funext id
    unfold NodeTree.templates
    rw [NodeTree.node_without]
  have steady : ∀ (s : LoadState), s.context.tolerant = true → s.Scoped env →
      (∀ id, (before.tree.without gone).Reaches ((before.tree.without gone).templates env)
        NodeTree.root id → s.tree.Reaches (s.isTemplate env) NodeTree.root id) →
      s.Steady env (before.tree.without gone) := fun s tolerant shared reaches =>
    ⟨tolerant, shared.opened, by rw [shared.scope], fun id reached => shared.nodes id (reaches id reached)⟩
  refine ⟨before, before', run, run', prepares, prepares', thins, ?_⟩
  exact {
    proper := properBefore.without gone
    linked := linkedBefore.without gone
    left := steady before (prepares.tolerant.trans beside.left.tolerant) prepares.inFirstScope
      fun id reached => by
        rw [templates] at reached
        exact (properBefore.reaches_without reached.all).1 reached
    right := steady before' (prepares'.tolerant.trans beside.right.tolerant)
      prepares'.inFirstScope fun id reached => by
        rw [templates] at reached
        have same : ∀ n, before.tree.Keeps gone n →
            before'.isTemplate env n = before.tree.templates env n := by
          intro n keeps
          show env.isTemplate (before'.tree.node n).toNodeBody = _
          rw [thins.body keeps]
          rfl
        exact (thins.reaches properBefore same).2
          ⟨reached.all, (properBefore.reaches_without reached.all).1 reached⟩
    size := thins.size.trans (NodeTree.size_without _ _).symm
    ignorable := thins.ignorable
    node := thins.node
    heaps := by
      rw [prepares.heap, prepares'.heap]
      exact beside.heaps
    values := fun id _ => by
      rw [prepares.value?_eq_none beside.left, prepares'.value?_eq_none beside.right]
      exact .none
    rootElement := by
      rw [prepares.rootElement, prepares'.rootElement]
      exact beside.rootElement
    rootInstance := by
      rw [prepares.rootInstance, prepares'.rootInstance]
      exact beside.rootInstance
    outerScope := by
      rw [prepares.outerScope, prepares'.outerScope]
      exact beside.outerScope
    names := by
      rw [prepares.inFirstScope.scope, prepares'.inFirstScope.scope]
      exact Matching.tables_empty
    passes := by
      rw [prepares.passes, prepares'.passes, beside.passes] }

end Beginning

/-! ## Whole loads -/

/-- Two runs that end in the same way and leave matching objects and names. -/
structure Matching.Runs (M : Matching) (x y : Run) : Prop where
  ended : y.ended = x.ended
  heaps : M.Heaps x.state.heap y.state.heap
  rootElement : Option.Rel M.rel x.state.context.rootElement y.state.context.rootElement
  names : M.Tables x.state.names y.state.names
  passes : x.state.context.passes = y.state.context.passes

section Whole

variable {env : Environment} {M : Matching} {s : LoadState}

theorem LoadState.Steady.names {kept : NodeTree} (steady : s.Steady env kept) :
    s.names = (s.context.scope 0).names := by
  have opened : ¬ s.context.scopes.isEmpty = true := fun empty =>
    Nat.ne_of_gt steady.opened (Array.isEmpty_iff_size_eq_zero.1 empty)
  rw [LoadState.names, Context.rootScope?, if_neg opened]

theorem Ends.runs {kept : NodeTree} {step step' : Load Unit} {a b : LoadState}
    (ends : EndsDone (Aligned env kept) M (step.start a) (step'.start b)) :
    ∃ N, M.Within N ∧ N.Runs (.ofStep step a) (.ofStep step' b) := by
  obtain ⟨N, within, aligned, alike⟩ := ends
  refine ⟨N, within, ?_, aligned.heaps, aligned.rootElement, ?_, aligned.passes⟩
  · show (step'.start b).1 = (step.start a).1
    generalize (step.start a).1 = x at alike
    generalize (step'.start b).1 = y at alike
    cases alike <;> rfl
  · show N.Tables (step.start a).2.names (step'.start b).2.names
    rw [aligned.left.names, aligned.right.names]
    exact aligned.names

/-- A load that does not get to make the object of the outermost element has done nothing. -/
theorem createRoot_failed {error : LoadError} {next : LoadState}
    (run : (Load.createRoot env).start s = (.error error, next)) : next = s := by
  cases known : s.rootInstance with
  | some id =>
    rw [Load.start_createRoot_known known] at run
    cases run
  | none =>
    cases bare : s.tree.arguments? NodeTree.root with
    | some holder =>
      rw [Load.start_createRoot_later known bare] at run
      cases run
    | none =>
      rw [Load.start_createRoot_new known bare] at run
      split at run <;> cases run <;> rfl

/-- What is detached from a prepared document are its failures. -/
theorem detached_of_prepares {next before : LoadState} (prepares : Prepares env next before)
    (proper : next.tree.Proper) (untouched : next.context.Untouched) :
    let failed := Load.failures env (before.loadedUpwards env) before
    ((Load.createValues env).start before).2.tree = before.tree.without failed ∧
      Omittable before.tree env failed ∧
      ∀ c, c ∈ before.tree.detached (before.tree.without failed) ↔ c ∈ failed := by
  intro failed
  obtain ⟨properBefore, linkedBefore⟩ := prepares.proper proper
  have walked : ∀ id ∈ before.loadedUpwards env,
      before.tree.Reaches (before.tree.templates env) NodeTree.root id :=
    fun id mem => (NodeTree.mem_postorder properBefore).1 mem
  obtain ⟨tree, elements⟩ := Load.start_createList env properBefore linkedBefore
    (before.loadedUpwards env) [] before (NodeTree.without_nil _).symm
    (prepares.tolerant.trans untouched.tolerant) (NodeTree.nodup_postorder properBefore)
    (fun id _ => prepares.value?_eq_none untouched id) fun id mem => (walked id mem).all
  have loaded : ∀ c ∈ failed, before.tree.Reaches (before.tree.templates env) NodeTree.root c :=
    fun c mem => walked c ((Load.failures_sublist env _ _).subset mem)
  refine ⟨tree, ⟨loaded, fun c mem => (elements c mem).1, fun mem => (elements _ mem).2 rfl⟩, ?_⟩
  intro c
  rw [NodeTree.mem_detached_without]
  refine ⟨And.right, fun mem => ⟨?_, mem⟩⟩
  cases loaded c mem with
  | top => exact absurd rfl (elements _ mem).2
  | child _ _ listed => exact ⟨_, listed⟩

/-- Whoever has failed is halfway when nothing has been done. -/
theorem halfway_of_prepares {next before : LoadState} (prepares : Prepares env next before)
    (proper : next.tree.Proper) (untouched : next.context.Untouched) {gone : List NodeId}
    (whole : ∀ c, c ∈ gone ↔ c ∈ Load.failures env (before.loadedUpwards env) before) :
    Load.Halfway env before.tree gone [] (before.loadedUpwards env) before := by
  have wanted : ∀ c, c ∈ gone ↔
      c ∈ ([] : List NodeId) ∨ c ∈ Load.failures env (before.loadedUpwards env) before := by
    intro c
    rw [whole c]
    simp
  have apart : ∀ c ∈ ([] : List NodeId), c ∉ before.loadedUpwards env :=
    List.forall_mem_nil _
  have bare := prepares.value?_eq_none untouched
  exact ⟨(NodeTree.without_nil _).symm, wanted, fun c _ => bare c,
    NodeTree.nodup_postorder (prepares.proper proper).1, apart, fun c _ => bare c⟩

/-- What is left out of a prepared document was an element before. -/
theorem Omittable.object_of_prepares {next before : LoadState} {gone : List NodeId}
    (omittable : Omittable before.tree env gone) (prepares : Prepares env next before)
    (proper : next.tree.Proper) : ∀ c ∈ gone, (next.tree.node c).isObject = true := by
  intro c mem
  have object := omittable.object c mem
  unfold NodeBody.isObject at object ⊢
  have kind : (before.tree.node c).kind = (next.tree.node c).kind := (prepares.kind proper c).1
  rwa [← kind]

/-- Nothing is left out of a template. -/
theorem Omittable.eq_nil_of_template {next before : LoadState} {gone : List NodeId}
    (omittable : Omittable before.tree env gone) (prepares : Prepares env next before)
    (proper : next.tree.Proper) (object : (next.node NodeTree.root).isObject = true)
    (is : env.registry.isTemplate (next.node NodeTree.root).typeName = true) : gone = [] := by
  have skips : before.tree.templates env NodeTree.root = true := by
    obtain ⟨kind, name⟩ := prepares.kind proper NodeTree.root
    unfold NodeTree.templates Environment.isTemplate NodeBody.isObject
    unfold NodeBody.isObject at object
    unfold LoadState.node at kind name object is
    rw [kind, name, Bool.and_eq_true]
    exact ⟨object, is⟩
  refine List.eq_nil_iff_forall_not_mem.2 fun c mem => ?_
  have reached := omittable.loaded c mem
  have ne : c ≠ NodeTree.root := fun same => omittable.below (same ▸ mem)
  exact (prepares.proper proper).1.not_reaches_below skips reached.all ne reached

section Prepared

variable {next before : LoadState} (created : (Load.createRoot env).start s = (.ok (), next))
  (prepared : (Load.prepare env).start next = (.ok (), before))

include created prepared

/-- What is left out of a document that has been prepared. -/
theorem omitted_of_prepared : Load.omitted env s =
    before.tree.detached ((Load.createValues env).start before).2.tree := by
  rw [Load.omitted, Load.start_bind_of_ok created, prepared]

/-- What is left to be done when the document has been prepared. -/
theorem start_createThenRun_of_prepared :
    (Loader.createThenRun env).start s = (Load.finish env).start before := by
  rw [Loader.createThenRun, Load.start_bind_of_ok created, Load.start_runPasses,
    Load.start_bind_of_ok prepared]

end Prepared

/-- A load that is given up at once leaves nothing out. -/
theorem runs_without_omitted_of_failed (beside : Beside [] M s s) {error : LoadError}
    {next : LoadState} (failed : (Load.createRoot env).start s = (.error error, next)) :
    Load.omitted env s = [] ∧
      M.Runs (.ofStep (Loader.createThenRun env) s) (.ofStep (Loader.createThenRun env) s) := by
  obtain rfl := createRoot_failed failed
  refine ⟨by rw [Load.omitted, Load.start_bind_of_error failed], ?_⟩
  have run : Run.ofStep (Loader.createThenRun env) next = ⟨.error error, next⟩ := by
    unfold Run.ofStep Loader.createThenRun
    rw [Load.start_bind_of_error failed]
  have names : next.names = .empty := by
    rw [LoadState.names, Context.rootScope?, beside.left.scopes]
    rfl
  rw [run]
  exact ⟨rfl, beside.heaps, beside.rootElement, names ▸ Matching.tables_empty, rfl⟩

/-- A load without what it leaves out leaves nothing out and ends in the same way. -/
theorem runs_without_omitted (extensions : env.extensions.Natural)
    (registry : env.registry.Natural) (proper : s.tree.Proper)
    (object : (s.node NodeTree.root).isObject = true) (beside : Beside [] M s s) :
    let thinned : LoadState := { s with tree := s.tree.without (Load.omitted env s) }
    Load.omitted env thinned = [] ∧ ∃ N, M.Within N ∧
      N.Runs (.ofStep (Loader.createThenRun env) s) (.ofStep (Loader.createThenRun env) thinned) := by
  intro thinned
  rcases created : (Load.createRoot env).start s with ⟨error | _, next⟩
  · obtain ⟨none, runs⟩ := runs_without_omitted_of_failed beside created
    have same : thinned = s := by
      show { s with tree := s.tree.without (Load.omitted env s) } = s
      rw [none, NodeTree.without_nil]
    rw [same]
    exact ⟨none, M, .refl M, runs⟩
  · obtain ⟨_, _, _, _, first, sameTree⟩ :=
      beside.createRoot registry (List.forall_mem_nil _) (fun _ => rfl) created
    have properNext : next.tree.Proper := sameTree ▸ proper
    obtain ⟨before, prepared, prepares⟩ := Load.start_prepare env properNext first.left.tolerant
      first.left.scopes first.left.nodeScopes
    obtain ⟨properBefore, linkedBefore⟩ := prepares.proper properNext
    obtain ⟨tree, omittable, whole⟩ := detached_of_prepares prepares properNext first.left
    have omitted : Load.omitted env s = before.tree.detached
        (before.tree.without (Load.failures env (before.loadedUpwards env) before)) :=
      (omitted_of_prepared created prepared).trans (congrArg before.tree.detached tree)
    rw [← omitted] at whole
    have omittable := omittable.mono fun c mem => (whole c).1 mem
    -- Both loads are prepared, with what is left out and without.
    have sameNode : next.node NodeTree.root = s.node NodeTree.root := by
      rw [LoadState.node, sameTree]
      rfl
    have besides : Beside (Load.omitted env s) M s thinned := { beside with tree := rfl }
    obtain ⟨N, next', created', within, besides, -⟩ := besides.createRoot registry
      (sameTree ▸ omittable.object_of_prepares prepares properNext)
      (fun is => omittable.eq_nil_of_template prepares properNext (sameNode.symm ▸ object)
        (sameNode.symm ▸ is)) created
    obtain ⟨before₂, before', prepared₂, prepared', -, prepares', thins, twins⟩ :=
      besides.prepared env properNext
    obtain rfl : before = before₂ := congrArg Prod.snd (prepared.symm.trans prepared₂)
    have thinnedWalk : NodeTree.Thinned (before.tree.Keeps (Load.omitted env s))
        (before.loadedUpwards env) (before'.loadedUpwards env) := by
      refine NodeTree.thinned_postorder thins properBefore fun n keeps => ?_
      show env.isTemplate (before'.tree.node n).toNodeBody = _
      rw [thins.body keeps]
      rfl
    have proper' : before'.tree.Proper := by
      refine (prepares'.proper ?_).1
      rw [besides.tree]
      exact properNext.without _
    obtain ⟨ends, same⟩ := Load.ends_createList registry omittable properBefore linkedBefore
      thinnedWalk (halfway_of_prepares prepares properNext first.left whole) twins
      (fun id mem => ((NodeTree.mem_postorder properBefore).1 mem).all)
      (NodeTree.nodup_postorder proper') fun id _ => prepares'.value?_eq_none besides.right id
    refine ⟨?_, ?_⟩
    · rw [omitted_of_prepared created' prepared']
      exact (congrArg before'.tree.detached same).trans (NodeTree.detached_self _)
    · obtain ⟨O, within', runs⟩ := Ends.runs (Load.ends_finish extensions ends)
      refine ⟨O, within.trans within', ?_⟩
      unfold Run.ofStep at runs ⊢
      rwa [start_createThenRun_of_prepared created prepared,
        start_createThenRun_of_prepared created' prepared']

end Whole

/-! ## Loads of markup -/

/-- Loads about matched objects give reports that go together, or both give none. -/
theorem LoadState.alike_report {M : Matching} {r : Report → Report → Prop} {a b : LoadState}
    (roots : Option.Rel M.rel a.context.rootElement b.context.rootElement)
    (reports : ∀ i j, M.rel i j → r ⟨i, a.names, a.context.diagnostics, a.context.passes⟩
      ⟨j, b.names, b.context.diagnostics, b.context.passes⟩) : Alike r a.report b.report := by
  unfold report
  generalize a.context.rootElement = root at roots
  generalize b.context.rootElement = root' at roots
  cases roots with
  | none => exact .error _
  | some related => exact .ok (reports _ _ related)

namespace Run

/-- Runs that end alike give alike results, if their reports are alike. -/
theorem alike_result {r : Report → Report → Prop} {x y : Run}
    (ended : Alike (fun _ _ => True) x.ended y.ended)
    (report : Alike r x.state.report y.state.report) :
    Alike r x.outcome.result y.outcome.result := by
  unfold outcome
  generalize x.ended = first at ended
  generalize y.ended = second at ended
  cases ended with
  | error error => exact .error error
  | ok _ => exact report

end Run

namespace Matching

/-- Reports about matched objects, with matching names. -/
structure Reports (M : Matching) (r q : Report) : Prop where
  root : M.rel r.root q.root
  names : M.Tables r.names q.names
  passes : r.passes = q.passes

/-- Outcomes that are the same failure, or reports that match, with heaps that match. -/
structure Outcomes (M : Matching) (x y : Outcome) : Prop where
  result : Alike M.Reports x.result y.result
  heaps : M.Heaps x.heap y.heap

variable {M : Matching}

theorem Runs.outcomes {x y : Run} (runs : M.Runs x y) : M.Outcomes x.outcome y.outcome where
  result := by
    refine Run.alike_result ?_ ?_
    · rw [runs.ended]
      cases x.ended with
      | error error => exact .error error
      | ok _ => exact .ok trivial
    · exact LoadState.alike_report runs.rootElement fun _ _ related =>
        ⟨related, runs.names, runs.passes⟩
  heaps := by
    rw [Run.heap_outcome, Run.heap_outcome]
    exact runs.heaps

end Matching

/-- The built-in factories cannot tell objects apart. -/
theorem Registry.Regular.natural {r : Registry} (regular : r.Regular) : r.Natural := by
  intro typeName d known name factory found
  obtain ⟨rfl | rfl, -⟩ := regular.factories typeName d known name factory found
  · exact Color.natural_fromHex
  · exact Color.natural_fromRgba

namespace Loader

/-- The state in which a tolerant load of a tree begins: into an object, or one that makes a new
object. -/
def begin (h : Heap) (target : Option ObjectId) (tree : NodeTree) : LoadState :=
  .initial tree target (.start target true []) h

/-- The run of a tolerant load of a tree. -/
def runTolerant (env : Environment) (h : Heap) (target : Option ObjectId) (tree : NodeTree) :
    Run :=
  match target with
  | none => (Loader.mk env true).runCreate h tree true
  | some id => (Loader.mk env true).runInto h id tree

/-- An object to load into is there already, so that nothing is made first. -/
theorem runTolerant_eq (env : Environment) (h : Heap) (target : Option ObjectId)
    (tree : NodeTree) :
    runTolerant env h target tree = .ofStep (createThenRun env) (begin h target tree) := by
  cases target with
  | none => rfl
  | some id =>
    have known : (begin h (some id) tree).rootInstance = some id := rfl
    unfold Run.ofStep createThenRun
    rw [Load.start_bind_of_ok (Load.start_createRoot_known known)]
    rfl

/-- The state in which a load begins, beside itself. -/
theorem beside_begin {h : Heap} (closed : h.Closed) {target : Option ObjectId}
    (within : ∀ id ∈ target, id < h.size) (tree : NodeTree) :
    Beside [] (.identity h.size) (begin h target tree) (begin h target tree) := by
  have root : Option.Rel (Matching.identity h.size).rel target target := by
    cases target with
    | none => exact .none
    | some id => exact .some ⟨rfl, within id rfl⟩
  exact {
    tree := (NodeTree.without_nil _).symm
    heaps := closed.heaps
    left := ⟨rfl, rfl, rfl, rfl⟩
    right := ⟨rfl, rfl, rfl, rfl⟩
    rootElement := root
    rootInstance := root
    outerScope := .nil
    passes := rfl }

/--
**What a tolerant load leaves out might as well never have been there.** Take the elements that the
creation of values detached out of the document and load it again: nothing is left out, the load
ends in the same way, and both loads have the same outcome, up to a matching of their objects that
is the identity on those that were there before.
-/
theorem omitted_leaves_nothing {env : Environment} (extensions : env.extensions.Natural)
    (registry : env.registry.Natural) {h : Heap} (closed : h.Closed) {target : Option ObjectId}
    (within : ∀ id ∈ target, id < h.size) {markup : String} {tree : NodeTree}
    (read : NodeTree.read markup = .ok tree) :
    let thinned := tree.without (Load.omitted env (begin h target tree))
    let first := runTolerant env h target tree
    let second := runTolerant env h target thinned
    Load.omitted env (begin h target thinned) = [] ∧
      ∃ M : Matching, (∀ id < h.size, M.rel id id) ∧ M.Runs first second ∧
        M.Outcomes first.outcome second.outcome := by
  intro thinned first second
  obtain ⟨proper, object⟩ := NodeTree.proper_of_read read
  obtain ⟨nothing, M, keeps, runs⟩ := runs_without_omitted (s := begin h target tree)
    extensions registry proper object (beside_begin closed within tree)
  have same : M.Runs first second := by
    rw [show first = _ from runTolerant_eq env h target tree,
      show second = _ from runTolerant_eq env h target thinned]
    exact runs
  exact ⟨nothing, M, fun id inside => keeps id id ⟨rfl, inside⟩, same, same.outcomes⟩

/-- An unknown element is left out of a label. -/
theorem omitted_leaves_nothing_label :
    let env : Environment := ⟨.controls, .builtIn⟩
    let h := (Heap.empty.alloc (.ofType Controls.label)).2
    env.extensions.Natural ∧ env.registry.Natural ∧ h.Closed ∧ (∀ id ∈ some 0, id < h.size) ∧
      ∃ tree, NodeTree.read "<Label><Nothing/></Label>" = .ok tree ∧
        let thinned := tree.without (Load.omitted env (begin h (some 0) tree))
        let first := runTolerant env h (some 0) tree
        let second := runTolerant env h (some 0) thinned
        Load.omitted env (begin h (some 0) thinned) = [] ∧
          ∃ M : Matching, (∀ id < h.size, M.rel id id) ∧ M.Runs first second ∧
            M.Outcomes first.outcome second.outcome := by
  intro env h
  have registry : env.registry.Natural := controls_regular.natural
  have only : ∀ id < h.size, id = 0 := by
    intro id (inside : id < 1)
    omega
  have closed : h.Closed := by
    refine ⟨fun id inside => ?_, fun id inside => ?_, List.forall_mem_nil _⟩
    · rw [only id inside]
      decide +kernel
    · rw [only id inside]
      decide +kernel
  have within : ∀ id ∈ some 0, id < h.size := by decide +kernel
  refine ⟨Extensions.natural_builtIn, registry, closed, within, ?_⟩
  have reads : (NodeTree.read "<Label><Nothing/></Label>").isOk = true := by decide +kernel
  cases read : NodeTree.read "<Label><Nothing/></Label>" with
  | error fault =>
    rw [read] at reads
    cases reads
  | ok tree =>
    exact ⟨tree, rfl,
      omitted_leaves_nothing Extensions.natural_builtIn registry closed within read⟩

end Loader

end MarkupLoader
