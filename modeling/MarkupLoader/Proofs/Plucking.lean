import MarkupLoader.Proofs.AbreastPasses
import MarkupLoader.Proofs.Commutation
import MarkupLoader.Proofs.Creating
import MarkupLoader.Proofs.LiteralMarkup
import MarkupLoader.Proofs.Stages

/-!
# Documents with an attribute less

Before properties are applied, an attribute that is no directive of the language is looked at twice
only: it is expanded, and it is pruned if it may be ignored. **A load of a document without that
attribute** (`NodeTree.Plucked`) does all else the same, step by step.

* **While the document is prepared**, both trees change, and stay the same but for the attribute
  (`LoadState.Plucked`).
* **From then on** a strict load leaves its tree alone, so both states are one state with two trees
  (`LoadState.Alongside`).

Only strict loads are compared: what a tolerant one leaves out would have to be followed as well.

Main results: `plucked_populate`, `alongside_fill`, `alongside_applyNode`.
-/

namespace MarkupLoader

/-! ## Trees -/

namespace NodeTree

/-- **A tree without the last attribute** of `e`, which is `c`. -/
structure Plucked (t u : NodeTree) (e : NodeId) (c : Attribute) : Prop where
  retouches : t.Retouches u
  last : (t.node e).attributes = (u.node e).attributes ++ [c]
  other : ∀ i, i ≠ e → (u.node i).attributes = (t.node i).attributes

theorem Retouches.touches {t u : NodeTree} (retouches : t.Retouches u) : t.Touches u [] where
  size := retouches.size
  ignorable := retouches.ignorable
  body i := by rw [retouches.node i]
  children i := by simp [retouches.children i]

theorem Laid.of_retouches {t u : NodeTree} (laid : t.Laid) (retouches : t.Retouches u) :
    u.Laid where
  proper := laid.proper.of_children retouches.size retouches.children
  reached i inside := (laid.reached i (retouches.size ▸ inside)).congr
    fun n _ => ⟨retouches.children n, rfl⟩
  unlinked i := (retouches.parent i).trans (laid.unlinked i)

namespace Plucked

variable {t u : NodeTree} {e i : NodeId} {c : Attribute} (plucked : t.Plucked u e c)

include plucked

/-- Any other node is the same. -/
theorem node_of_ne (other : i ≠ e) : u.node i = t.node i := by
  rw [plucked.retouches.node i, plucked.other i other]

theorem isTemplate (env : Environment) (i : NodeId) :
    env.isTemplate (u.node i).toNodeBody = env.isTemplate (t.node i).toNodeBody := by
  rw [plucked.retouches.node i]
  rfl

/-- What is no directive is not found as one. -/
theorem directive? (plain : isLanguage c.name.namespaceUri = false) (i : NodeId)
    (directive : String) :
    (u.node i).directive? directive = (t.node i).directive? directive := by
  by_cases here : i = e
  · subst here
    unfold NodeBody.directive?
    rw [plucked.last, List.find?_append]
    simp [QName.isDirective, plain]
  · rw [plucked.node_of_ne here]

theorem directiveText? (plain : isLanguage c.name.namespaceUri = false) (i : NodeId)
    (directive : String) :
    (u.node i).directiveText? directive = (t.node i).directiveText? directive := by
  unfold NodeBody.directiveText?
  rw [plucked.directive? plain]

theorem elements (i : NodeId) : u.elements i = t.elements i := by
  unfold NodeTree.elements
  rw [plucked.retouches.children]
  refine List.filter_congr fun d _ => ?_
  rw [plucked.retouches.node d]
  rfl

theorem arguments? (i : NodeId) : u.arguments? i = t.arguments? i := by
  unfold NodeTree.arguments?
  rw [plucked.retouches.children]
  refine congrArg (List.find? · _) (funext fun d => ?_)
  rw [plucked.retouches.node d]

theorem textContent (i : NodeId) : u.textContent i = t.textContent i :=
  plucked.retouches.touches.textContent nofun i

/-! ### Changes to both trees -/

/-- The attributes of another node are set in both trees. -/
theorem setAttributes (other : i ≠ e) (attributes : List Attribute) :
    (t.setAttributes i attributes).Plucked (u.setAttributes i attributes) e c := by
  have size := plucked.retouches.size
  refine ⟨⟨?_, plucked.retouches.ignorable, fun j => ?_⟩, ?_, fun j apart => ?_⟩
  · rw [NodeTree.setAttributes, NodeTree.setAttributes, size_modify, size_modify, size]
  · rw [node_setAttributes, node_setAttributes, plucked.retouches.node j]
  · rw [node_setAttributes, node_setAttributes, if_neg fun h => other h.1.symm,
      if_neg fun h => other h.1.symm]
    exact plucked.last
  · rw [node_setAttributes, node_setAttributes, size, plucked.other j apart]

/-- The attributes of the node itself are set, with one more in the first tree. -/
theorem setLast (inside : e < t.size) (attributes : List Attribute) (d : Attribute) :
    (t.setAttributes e (attributes ++ [d])).Plucked (u.setAttributes e attributes) e d := by
  have size := plucked.retouches.size
  refine ⟨⟨?_, plucked.retouches.ignorable, fun j => ?_⟩, ?_, fun j apart => ?_⟩
  · rw [NodeTree.setAttributes, NodeTree.setAttributes, size_modify, size_modify, size]
  · rw [node_setAttributes, node_setAttributes, plucked.retouches.node j]
  · rw [node_setAttributes, node_setAttributes, if_pos ⟨rfl, inside⟩,
      if_pos ⟨rfl, size ▸ inside⟩]
  · rw [node_setAttributes, node_setAttributes, if_neg fun h => apart h.1,
      if_neg fun h => apart h.1, plucked.other j apart]

/-- Links to parents do not depend on attributes. -/
theorem linkParents (laid : t.Laid) (laid' : u.Laid) :
    t.linkParents.Plucked u.linkParents e c := by
  have body : ∀ j, (t.linkParents.node j).toNodeBody = (t.node j).toNodeBody :=
    body_linkParents laid.proper
  have body' : ∀ j, (u.linkParents.node j).toNodeBody = (u.node j).toNodeBody :=
    body_linkParents laid'.proper
  have children := plucked.retouches.children
  have parent : ∀ j, (u.linkParents.node j).parent = (t.linkParents.node j).parent := by
    intro j
    have tied := laid.tied_linkParents
    have tied' := laid'.tied_linkParents
    refine Option.ext fun q => ⟨fun above => ?_, fun above => ?_⟩
    · have listed := laid'.listed_of_parent above
      exact tied.child q j (by rwa [children_linkParents laid.proper, ← children])
    · have listed := laid.listed_of_parent above
      exact tied'.child q j (by rwa [children_linkParents laid'.proper, children])
  refine ⟨⟨?_, ?_, fun j => ?_⟩, ?_, fun j apart => ?_⟩
  · rw [size_linkParents, size_linkParents, plucked.retouches.size]
  · rw [ignorable_linkParents, ignorable_linkParents, plucked.retouches.ignorable]
  · have written : (u.linkParents.node j).toNodeBody =
        { (t.linkParents.node j).toNodeBody with
          attributes := (u.linkParents.node j).attributes } := by
      rw [body, body', plucked.retouches.node j]
    have lists : (u.linkParents.node j).children = (t.linkParents.node j).children := by
      rw [children_linkParents laid.proper, children_linkParents laid'.proper, children]
    have above := parent j
    generalize u.linkParents.node j = n at written lists above ⊢
    generalize t.linkParents.node j = m at written lists above ⊢
    obtain ⟨_, _, _⟩ := n
    dsimp only at written lists above
    subst lists above
    exact congrArg (Node.mk · _ _) written
  · rw [body, body']
    exact plucked.last
  · rw [body, body']
    exact plucked.other j apart

/-- Both trees are pruned alike, if the attribute may not be ignored. -/
theorem prune (counts : t.isIgnorable c.name.namespaceUri = false) :
    t.prune.Plucked u.prune e c := by
  have retouches := plucked.retouches
  refine ⟨⟨?_, ?_, fun j => ?_⟩, ?_, fun j apart => ?_⟩
  · rw [size_prune, size_prune, retouches.size]
  · rw [ignorable_prune, ignorable_prune, retouches.ignorable]
  · rw [node_prune, node_prune, retouches.keptChildren, retouches.node j]
  · have stays : t.sift e [c] = [c] := by simp [sift, drops, counts]
    rw [node_prune, node_prune, retouches.sift, plucked.last]
    show t.sift e (_ ++ [c]) = t.sift e _ ++ [c]
    rw [sift, List.filter_append]
    exact congrArg (_ ++ ·) stays
  · rw [node_prune, node_prune, retouches.sift, plucked.other j apart]

end Plucked

end NodeTree

/-! ## One state with two trees -/

/-- Strict loads that are in one state, but for their trees. -/
structure LoadState.Alongside (t u : NodeTree) (a b : LoadState) : Prop where
  tree : a.tree = t
  same : b = a.withTree u
  strict : a.context.tolerant = false

namespace Load

open LoadState (Alongside)

section Rules

variable {R : LoadState → LoadState → Prop} {t u : NodeTree} {a b : LoadState}

/-- No failure is passed over in strict loads. -/
theorem together_recover_strict {e f : LoadError} (strict : a.context.tolerant = false)
    (strict' : b.context.tolerant = false) (kind : e.SameKind f) :
    TogetherDone R ((recover e).start a) ((recover f).start b) := by
  rw [start_recover_strict strict, start_recover_strict strict']
  exact .error kind

/-- Loops that carry a result along go together, round by round. -/
theorem together_foldlM {α ι : Type} {step step' : α → ι → Load α} (list : List ι)
    (steps : ∀ x, ∀ i ∈ list, ∀ a b, R a b →
      Together R Eq ((step x i).start a) ((step' x i).start b))
    (both : R a b) (x : α) :
    Together R Eq ((list.foldlM step x).start a) ((list.foldlM step' x).start b) := by
  induction list generalizing a b x with
  | nil => exact .ok rfl both
  | cons i rest ih =>
    rw [List.foldlM_cons, List.foldlM_cons]
    refine Together.bind (steps x i List.mem_cons_self a b both) ?_
    rintro y _ a' b' - both rfl
    exact ih (fun x j mem => steps x j (List.mem_cons_of_mem i mem)) both y

/-- Loops over one list go together, round by round. -/
theorem together_forM_same {ι : Type} {step step' : ι → Load Unit} (list : List ι)
    (steps : ∀ i ∈ list, ∀ a b, R a b → TogetherDone R ((step i).start a) ((step' i).start b))
    (both : R a b) :
    TogetherDone R ((list.forM step).start a) ((list.forM step').start b) := by
  induction list generalizing a b with
  | nil => exact together_done both
  | cons i rest ih =>
    obtain ⟨here, later⟩ := List.forall_mem_cons.1 steps
    rw [start_forM_cons, start_forM_cons]
    exact Together.bind (here a b both) fun _ _ _ _ _ both _ => ih later both

/-- Any change but that of the tree is made to both states. -/
theorem alongside_set {α : Type} {x : α} {next : LoadState} (both : Alongside t u a b)
    (tree : next.tree = t) (strict : next.context.tolerant = a.context.tolerant) :
    Together (Alongside t u) Eq (.ok x, next) (.ok x, next.withTree u) :=
  .ok rfl ⟨tree, rfl, strict.trans both.strict⟩

end Rules

section Passes

variable {env : Environment} {t u : NodeTree} {e i : NodeId} {c : Attribute} {a b : LoadState}
  (plucked : t.Plucked u e c)

include plucked in
/-- The same nodes are loaded. -/
theorem alongside_loaded (both : Alongside t u a b) :
    b.loaded env = a.loaded env ∧ b.loadedUpwards env = a.loadedUpwards env := by
  have size : b.tree.size = a.tree.size := by
    rw [both.same, both.tree]
    exact plucked.retouches.size
  have same : ∀ n, (b.tree.node n).children = (a.tree.node n).children ∧
      b.isTemplate env n = a.isTemplate env n := fun n => by
    rw [LoadState.isTemplate, LoadState.isTemplate, LoadState.node, LoadState.node, both.same,
      both.tree]
    exact ⟨plucked.retouches.children n, plucked.isTemplate env n⟩
  exact ⟨NodeTree.preorder_congr size fun n _ => same n,
    NodeTree.postorder_congr size fun n _ => same n⟩

section Values

/-! ### Values -/

theorem alongside_settleMade (both : Alongside t u a b) (made : Made) :
    Together (Alongside t u) Eq ((settleMade made).start a) ((settleMade made).start b) := by
  obtain ⟨tree, rfl, strict⟩ := both
  cases made with
  | scalar value => exact alongside_set ⟨tree, rfl, strict⟩ tree rfl
  | object o => exact alongside_set ⟨tree, rfl, strict⟩ tree rfl

theorem alongside_adoptRoot (both : Alongside t u a b) (n : ObjectId) :
    TogetherDone (Alongside t u) ((adoptRoot n).start a) ((adoptRoot n).start b) :=
  together_done ⟨both.tree, by rw [both.same]; rfl, both.strict⟩

theorem alongside_setValue (both : Alongside t u a b) (i : NodeId) (value : Value) :
    TogetherDone (Alongside t u) ((setValue i value).start a) ((setValue i value).start b) := by
  obtain ⟨tree, rfl, strict⟩ := both
  rw [start_setValue, start_setValue, show (a.withTree u).context = a.context from rfl]
  split
  · exact .error rfl
  · exact together_done ⟨tree, rfl, strict⟩

include plucked

variable (plain : isLanguage c.name.namespaceUri = false)
  (outside : ∀ q, env.isTemplate (t.node q).toNodeBody = true →
    ¬ t.Reaches (fun _ => false) q e)

include plain outside

/-- **What a node makes** does not depend on the attribute. -/
theorem make_of_plucked {s : LoadState} (tree : s.tree = t) (object : (s.node i).isObject = true) :
    (s.withTree u).make env i = s.make env i := by
  have retouches := plucked.retouches
  have node : (s.withTree u).node i = { s.node i with attributes := (u.node i).attributes } := by
    rw [LoadState.node, LoadState.node, tree]
    exact retouches.node i
  have text : (s.withTree u).tree.textContent i = s.tree.textContent i := by
    rw [tree]
    exact plucked.textContent i
  have method : ((s.withTree u).node i).directiveText? "FactoryMethod" =
      (s.node i).directiveText? "FactoryMethod" := by
    rw [LoadState.node, LoadState.node, tree]
    exact plucked.directiveText? plain i _
  have given : (s.withTree u).argumentValues i = s.argumentValues i := by
    unfold LoadState.argumentValues LoadState.node LoadState.withTree
    dsimp only
    rw [tree, plucked.arguments?]
    cases t.arguments? i with
    | none => rfl
    | some holder =>
      dsimp only
      rw [retouches.children]
  have content : env.registry.isTemplate (s.node i).typeName = true →
      (s.withTree u).templateContent i = s.templateContent i := by
    intro template
    have is : env.isTemplate (t.node i).toNodeBody = true := by
      rw [LoadState.node, tree] at object template
      rw [Environment.isTemplate, object, template]
      rfl
    refine templateContent_congr (P := fun _ => True) tree retouches.size retouches.ignorable
      (fun _ _ _ _ => trivial) (fun n _ => ⟨retouches.parent n, ?_⟩) (fun n below => ?_)
      fun _ _ => trivial
    · exact congrArg (·.namespaces) (retouches.node n)
    · -- The attribute is not in the template, so all that is in it is the same.
      have other : n ≠ e := by
        rintro rfl
        exact outside i is below
      show (u.node n).toNodeBody = _ ∧ (u.node n).children = _
      rw [plucked.node_of_ne other]
      exact ⟨rfl, rfl⟩
  have made : (s.withTree u).makeObject env i = s.makeObject env i := by
    unfold LoadState.makeObject
    dsimp only
    rw [method, given, node]
    dsimp only
    cases known : env.registry.get? (s.node i).typeName with
    | none => rfl
    | some d =>
      dsimp only
      rw [show (s.withTree u).heap = s.heap from rfl]
      cases d.make s.heap (s.argumentValues i) ((s.node i).directiveText? "FactoryMethod") with
      | error fault => rfl
      | ok o =>
        dsimp only
        split
        case isTrue is =>
          rw [content (by simp [Registry.isTemplate, known, is])]
        case isFalse => rfl
  unfold LoadState.make
  dsimp only
  rw [made, text, node]

theorem alongside_createRoot (both : Alongside t u a b)
    (object : (a.node NodeTree.root).isObject = true) :
    TogetherDone (Alongside t u) ((createRoot env).start a) ((createRoot env).start b) := by
  have made : b.make env NodeTree.root = a.make env NodeTree.root := by
    rw [both.same]
    exact make_of_plucked plucked plain outside both.tree object
  have takes : b.tree.arguments? NodeTree.root = a.tree.arguments? NodeTree.root := by
    rw [both.same, both.tree]
    exact plucked.arguments? NodeTree.root
  unfold createRoot
  rw [start_get_bind, start_get_bind, made, takes,
    show b.rootInstance = a.rootInstance by rw [both.same]; rfl]
  cases a.rootInstance with
  | some n => exact together_done ⟨both.tree, by rw [both.same]; rfl, both.strict⟩
  | none =>
    dsimp only
    split
    · exact together_done both
    · cases a.make env NodeTree.root with
      | error error => exact .error rfl
      | ok m =>
        refine Together.bind (.ok rfl both : Together (Alongside t u) Eq _ _) ?_
        rintro m' _ a' b' - both rfl
        refine Together.bind (alongside_settleMade both m') ?_
        rintro value _ a'' b'' - both rfl
        cases value with
        | object n => exact alongside_adoptRoot both n
        | _ => exact .error rfl

theorem alongside_createNode (both : Alongside t u a b) (object : (a.node i).isObject = true) :
    TogetherDone (Alongside t u) ((createNode env i).start a) ((createNode env i).start b) := by
  have made : b.make env i = a.make env i := by
    rw [both.same]
    exact make_of_plucked plucked plain outside both.tree object
  unfold createNode
  rw [start_get_bind, start_get_bind, made]
  cases a.make env i with
  | ok m =>
    refine Together.bind (alongside_settleMade both m) ?_
    rintro value _ a' b' - both rfl
    by_cases outermost : i = NodeTree.root
    · simp only [if_pos outermost]
      cases value with
      | object n =>
        exact Together.bind (alongside_adoptRoot both n) fun _ _ _ _ _ both _ =>
          alongside_setValue both i _
      | _ => exact alongside_setValue both i _
    · simp only [if_neg outermost]
      exact alongside_setValue both i value
  | error error =>
    by_cases outermost : i = NodeTree.root
    · simp only [if_pos outermost]
      exact .error rfl
    · simp only [if_neg outermost]
      have strict' : b.context.tolerant = false := by rw [both.same]; exact both.strict
      exact Together.bind (together_recover_strict (R := fun _ _ => False) both.strict strict' rfl)
        fun _ _ _ _ _ none _ => none.elim

theorem alongside_createValue (both : Alongside t u a b) :
    TogetherDone (Alongside t u) ((createValue env i).start a) ((createValue env i).start b) := by
  have object : (b.node i).isObject = (a.node i).isObject := by
    rw [both.same, LoadState.node, LoadState.node, both.tree]
    show (u.node i).isObject = _
    rw [plucked.retouches.node i]
    rfl
  unfold createValue
  rw [start_get_bind, start_get_bind, object,
    show b.rootInstance = a.rootInstance by rw [both.same]; rfl]
  cases is : (a.node i).isObject with
  | false => exact together_done both
  | true =>
    have creates := alongside_createNode plucked plain outside both is
    rw [if_neg (by simp)]
    cases a.rootInstance with
    | none => exact creates
    | some n =>
      by_cases outermost : i = NodeTree.root
      · simp only [if_pos outermost]
        refine Together.bind (alongside_setValue both NodeTree.root (.object n)) ?_
        exact fun _ _ _ _ _ both _ =>
          together_done ⟨both.tree, by rw [both.same]; rfl, both.strict⟩
      · simp only [if_neg outermost]
        exact creates

theorem alongside_createValues (both : Alongside t u a b) :
    TogetherDone (Alongside t u) ((createValues env).start a) ((createValues env).start b) := by
  unfold createValues
  rw [start_get_bind, start_get_bind, (alongside_loaded plucked both).2]
  exact together_forM_same _ (fun i _ a b both => alongside_createValue plucked plain outside both)
    both

end Values

/-! ### Name scopes -/

theorem alongside_contentScope (both : Alongside t u a b) (opened : Table NodeId ScopeId)
    (q : NodeId) (around : ScopeId) :
    Together (Alongside t u) Eq ((contentScope opened q around).start a)
      ((contentScope opened q around).start b) := by
  obtain ⟨tree, rfl, strict⟩ := both
  unfold contentScope
  cases opened.get? q with
  | some scope => exact .ok rfl ⟨tree, rfl, strict⟩
  | none => exact .ok rfl ⟨tree, rfl, strict⟩

include plucked in
/-- Parents and templates are the same in both trees. -/
theorem alongside_assignScope (both : Alongside t u a b) (first : ScopeId)
    (opened : Table NodeId ScopeId) (i : NodeId) :
    Together (Alongside t u) Eq ((assignScope env first opened i).start a)
      ((assignScope env first opened i).start b) := by
  obtain ⟨tree, rfl, strict⟩ := both
  have parent : ((a.withTree u).node i).parent = (a.node i).parent := by
    rw [LoadState.node, LoadState.node, tree]
    exact plucked.retouches.parent i
  unfold assignScope
  rw [start_get_bind, start_get_bind, parent]
  cases (a.node i).parent with
  | none => exact .ok rfl ⟨tree, rfl, strict⟩
  | some q =>
    have template : (a.withTree u).isTemplate env q = a.isTemplate env q := by
      rw [LoadState.isTemplate, LoadState.isTemplate, LoadState.node, LoadState.node, tree]
      exact plucked.isTemplate env q
    have rest : ∀ (found : ScopeId × Table NodeId ScopeId) a b, Alongside t u a b →
        Together (Alongside t u) Eq
          ((modifyContext (·.setNodeScope i found.1) >>= fun _ => pure found.2).start a)
          ((modifyContext (·.setNodeScope i found.1) >>= fun _ => pure found.2).start b) :=
      fun found a b both => .ok rfl ⟨both.tree, by rw [both.same]; rfl, both.strict⟩
    dsimp only
    rw [template, show (a.withTree u).context = a.context from rfl]
    split
    · refine Together.bind (alongside_contentScope ⟨tree, rfl, strict⟩ opened q _) ?_
      rintro found _ a' b' - both rfl
      exact rest found a' b' both
    · exact rest _ _ _ ⟨tree, rfl, strict⟩

include plucked in
theorem alongside_assignScopes (both : Alongside t u a b) :
    TogetherDone (Alongside t u) ((assignScopes env).start a) ((assignScopes env).start b) := by
  have lists : b.tree.reachable = a.tree.reachable := by
    rw [both.same, both.tree]
    exact plucked.retouches.preorder _
  obtain ⟨tree, rfl, strict⟩ := both
  unfold assignScopes
  rw [start_get_bind, start_get_bind, lists]
  have opening : TogetherDone (Alongside t u)
      ((set { a with context :=
        (a.context.newScope none).2.setNodeScope NodeTree.root (a.context.newScope none).1 } :
          Load Unit).start a)
      ((set { a.withTree u with context :=
        (a.context.newScope none).2.setNodeScope NodeTree.root (a.context.newScope none).1 } :
          Load Unit).start (a.withTree u)) := together_done ⟨tree, rfl, strict⟩
  refine Together.bind opening fun _ _ a' b' _ both _ => ?_
  refine Together.bind (together_foldlM _ (fun opened i _ a b both =>
    alongside_assignScope plucked both _ opened i) both _) ?_
  exact fun _ _ _ _ _ both _ => together_done both

/-! ### Names and dictionaries -/

section Filling

theorem alongside_modifyHeap (both : Alongside t u a b) (change : Heap → Heap) :
    TogetherDone (Alongside t u) ((modifyHeap change).start a) ((modifyHeap change).start b) :=
  together_done ⟨both.tree, by rw [both.same]; rfl, both.strict⟩

theorem alongside_recover (both : Alongside t u a b) (error : LoadError)
    {R : LoadState → LoadState → Prop} :
    TogetherDone R ((recover error).start a) ((recover error).start b) :=
  together_recover_strict both.strict (by rw [both.same]; exact both.strict) rfl

include plucked

variable (plain : isLanguage c.name.namespaceUri = false)

include plain in
theorem alongside_registerNames (both : Alongside t u a b) :
    TogetherDone (Alongside t u) ((registerNames env).start a)
      ((registerNames env).start b) := by
  unfold registerNames
  rw [start_get_bind, start_get_bind, (alongside_loaded plucked both).1]
  refine together_forM_same _ (fun i _ a b both => ?_) both
  obtain ⟨tree, rfl, strict⟩ := both
  have naming : (a.withTree u).naming? i = a.naming? i := by
    unfold LoadState.naming? LoadState.node
    rw [show (a.withTree u).tree = u from rfl, tree, plucked.directive? plain]
    rfl
  unfold registerName
  rw [start_get_bind, start_get_bind, naming]
  cases a.naming? i with
  | none => exact together_done ⟨tree, rfl, strict⟩
  | some n =>
    dsimp only
    rw [show (a.withTree u).context = a.context from rfl]
    cases registers : a.context.register n.scope n.name n.value with
    | none => exact alongside_recover ⟨tree, rfl, strict⟩ _
    | some context =>
      refine together_done ⟨tree, rfl, ?_⟩
      rw [Context.eq_of_register registers]
      exact strict

include plain in
theorem alongside_fillDictionary (both : Alongside t u a b) (dictionary : ObjectId)
    (nodes : List NodeId) :
    TogetherDone (Alongside t u) ((fillDictionary dictionary nodes).start a)
      ((fillDictionary dictionary nodes).start b) := by
  refine together_forM_same _ (fun i _ a b both => ?_) both
  obtain ⟨tree, rfl, strict⟩ := both
  have key : ((a.withTree u).node i).directiveText? "Key" = (a.node i).directiveText? "Key" := by
    rw [LoadState.node, LoadState.node, tree]
    exact plucked.directiveText? plain i _
  have node : (a.withTree u).node i = { a.node i with attributes := (u.node i).attributes } := by
    rw [LoadState.node, LoadState.node, tree]
    exact plucked.retouches.node i
  have element : ((a.withTree u).node i).isElement = (a.node i).isElement := by rw [node]; rfl
  unfold fillEntry
  rw [start_get_bind, start_get_bind]
  dsimp only
  rw [key, element, show (a.withTree u).context = a.context from rfl]
  split
  · exact together_done ⟨tree, rfl, strict⟩
  · cases a.context.value? i with
    | none => exact together_done ⟨tree, rfl, strict⟩
    | some value =>
      dsimp only
      cases (a.node i).directiveText? "Key" with
      | some key => exact alongside_modifyHeap ⟨tree, rfl, strict⟩ _
      | none => exact together_recover_strict strict strict rfl

omit plucked in
theorem alongside_dictionaryFor (both : Alongside t u a b) (owner : ObjectId) (property : String)
    (position position' : Position) :
    Together (Alongside t u) Eq ((dictionaryFor env owner property position).start a)
      ((dictionaryFor env owner property position').start b) := by
  obtain ⟨tree, rfl, strict⟩ := both
  unfold dictionaryFor
  rw [start_get_bind, start_get_bind, show (a.withTree u).heap = a.heap from rfl]
  dsimp only
  cases ((a.heap.get? owner property).filter (a.heap.isOfKind .dictionary)).bind Value.object? with
  | some id => exact .ok rfl ⟨tree, rfl, strict⟩
  | none =>
    dsimp only
    cases env.registry.get? resourceDictionaryName with
    | none =>
      exact Together.bind (together_recover_strict (R := fun _ _ => False) strict strict rfl)
        fun _ _ _ _ _ none _ => none.elim
    | some d => exact .ok rfl ⟨tree, rfl, strict⟩

include plain in
theorem alongside_fillProperty (both : Alongside t u a b) (i : NodeId) (owner : ObjectId)
    (property : String) :
    TogetherDone (Alongside t u) ((fillProperty env i owner property).start a)
      ((fillProperty env i owner property).start b) := by
  have elements : b.tree.elements i = a.tree.elements i := by
    rw [both.same, both.tree]
    exact plucked.elements i
  have only : b.onlyDictionary? i = a.onlyDictionary? i := by
    unfold LoadState.onlyDictionary?
    rw [elements, both.same]
    rfl
  unfold fillProperty
  rw [start_get_bind, start_get_bind, elements, only]
  cases a.onlyDictionary? i with
  | some dictionary => exact alongside_modifyHeap both _
  | none =>
    refine Together.bind (alongside_dictionaryFor both owner property _ _) ?_
    rintro dictionary _ a' b' - both rfl
    cases dictionary with
    | none => exact together_done both
    | some d => exact alongside_fillDictionary plucked plain both d _

include plain in
theorem alongside_fillNode (both : Alongside t u a b) (i : NodeId) :
    TogetherDone (Alongside t u) ((fillNode env i).start a) ((fillNode env i).start b) := by
  have node : b.node i = { a.node i with attributes := (u.node i).attributes } := by
    rw [both.same, LoadState.node, LoadState.node, both.tree]
    exact plucked.retouches.node i
  have context : b.context = a.context := by rw [both.same]; rfl
  have heap : b.heap = a.heap := by rw [both.same]; rfl
  unfold fillNode
  rw [start_get_bind, start_get_bind, node, context, heap]
  dsimp only
  cases (a.node i).kind with
  | text content => exact together_done both
  | property name =>
    dsimp only
    unfold fillPropertyElement
    rw [start_get_bind, start_get_bind, node, context, heap]
    dsimp only
    cases (a.node i).parent.bind a.context.object? with
    | none => exact together_done both
    | some owner =>
      dsimp only
      split
      · split
        · exact alongside_fillProperty plucked plain both i owner _
        · exact together_done both
      · exact together_done both
  | root | element =>
    dsimp only
    cases a.context.object? i with
    | none => exact together_done both
    | some o =>
      dsimp only
      split
      · exact alongside_fillDictionary plucked plain both o _
      · exact together_done both

include plain in
theorem alongside_fillResources (both : Alongside t u a b) :
    TogetherDone (Alongside t u) ((fillResources env).start a)
      ((fillResources env).start b) := by
  unfold fillResources
  rw [start_get_bind, start_get_bind, (alongside_loaded plucked both).1]
  exact together_forM_same _ (fun i _ a b both => alongside_fillNode plucked plain both i) both

omit plucked in
theorem alongside_completePass (pass : Pass) (passes : TogetherDone (Alongside t u)
    ((runPass env pass).start a) ((runPass env pass).start b)) :
    TogetherDone (Alongside t u) ((completePass env pass).start a)
      ((completePass env pass).start b) :=
  Together.bind passes fun _ _ _ _ _ both _ =>
    together_done ⟨both.tree, by rw [both.same]; rfl, both.strict⟩

include plain in
/-- **Names are registered and dictionaries filled alike.** -/
theorem alongside_fill (both : Alongside t u a b) : TogetherDone (Alongside t u)
    (([Pass.nameRegistration, .resourceDictionaryFill].forM (completePass env)).start a)
    (([Pass.nameRegistration, .resourceDictionaryFill].forM (completePass env)).start b) := by
  rw [start_forM_cons, start_forM_cons]
  refine Together.bind (alongside_completePass .nameRegistration
    (alongside_registerNames plucked plain both)) fun _ _ a b _ both _ => ?_
  rw [start_forM_cons, start_forM_cons]
  refine Together.bind (alongside_completePass .resourceDictionaryFill
    (alongside_fillResources plucked plain both)) fun _ _ a b _ both _ => ?_
  exact together_done both

end Filling

/-! ### Assigning -/

section Assigning

include plucked

theorem selfAndAncestors_of_plucked (both : Alongside t u a b) (i : NodeId) :
    b.tree.selfAndAncestors i = a.tree.selfAndAncestors i := by
  rw [both.same, both.tree]
  have retouches := plucked.retouches
  exact (NodeTree.selfAndAncestors_congr (P := fun _ => True) retouches.size
    (fun _ _ _ _ => trivial) (fun n _ => retouches.parent n) trivial).1

/-- Both sites give the same answers. -/
theorem services_of_plucked (both : Alongside t u a b) (i : NodeId) :
    (b.site env i).services = (a.site env i).services := by
  have above := selfAndAncestors_of_plucked plucked both i
  have lookUp : b.tree.lookUpNamespace i = a.tree.lookUpNamespace i := by
    rw [both.same, both.tree]
    exact plucked.retouches.lookUpNamespace i
  unfold LoadState.site Site.services Site.resource? Site.named? Site.scope? Site.typeName?
  dsimp only
  rw [above, lookUp, both.same]
  rfl

theorem target_of_plucked (both : Alongside t u a b) (i : NodeId) :
    (b.site env i).target = (a.site env i).target := by
  refine Site.target_congr rfl ?_ ?_
  · show b.tree.lookUpNamespace i = a.tree.lookUpNamespace i
    rw [both.same, both.tree]
    exact plucked.retouches.lookUpNamespace i
  · show (b.tree.node i).typeName = (a.tree.node i).typeName
    rw [both.same, both.tree]
    exact congrArg (·.typeName) (plucked.retouches.node i)

theorem applyAttribute_of_plucked (both : Alongside t u a b) (i : NodeId) (object : ObjectId)
    (d : Attribute) : (b.site env i).applyAttribute env.extensions object d =
      (a.site env i).applyAttribute env.extensions object d := by
  have value : (b.site env i).attributeValue env.extensions d =
      (a.site env i).attributeValue env.extensions d := by
    unfold Site.attributeValue Extensions.evaluate
    rw [services_of_plucked plucked both]
  unfold Site.applyAttribute
  rw [value, target_of_plucked plucked both, show (b.site env i).heap = (a.site env i).heap by
    rw [both.same]; rfl]

theorem applyChild_of_plucked (both : Alongside t u a b) (i : NodeId) (object : ObjectId)
    (child : NodeId) : (b.site env i).applyChild object child =
      (a.site env i).applyChild object child := by
  have node : ∀ n, (b.site env i).tree.node n =
      { (a.site env i).tree.node n with attributes := (u.node n).attributes } := by
    intro n
    show b.tree.node n = _
    rw [both.same, show (a.site env i).tree = t from both.tree]
    exact plucked.retouches.node n
  have values : (b.site env i).elementValues child = (a.site env i).elementValues child := by
    unfold Site.elementValues
    simp only [node]
    rw [both.same]
    rfl
  have heap : (b.site env i).heap = (a.site env i).heap := by rw [both.same]; rfl
  have inside : (b.site env i).applyObject object child =
      (a.site env i).applyObject object child := by
    rw [both.same]
    rfl
  have content : (b.site env i).assignContent = (a.site env i).assignContent := by
    rw [both.same]
    rfl
  unfold Site.applyChild Site.applyElement
  rw [node, heap, values, inside, content, target_of_plucked plucked both]

omit plucked in
theorem alongside_changeHeap (both : Alongside t u a b) (change : Except LoadError Heap) :
    TogetherDone (Alongside t u) ((changeHeap change).start a) ((changeHeap change).start b) := by
  cases change with
  | ok heap => exact alongside_modifyHeap both fun _ => heap
  | error error => exact alongside_recover both error

theorem alongside_applyAttribute (both : Alongside t u a b) (i : NodeId) (object : ObjectId)
    (d : Attribute) : TogetherDone (Alongside t u) ((applyAttribute env i object d).start a)
      ((applyAttribute env i object d).start b) := by
  unfold applyAttribute
  rw [start_get_bind, start_get_bind, applyAttribute_of_plucked plucked both]
  exact alongside_changeHeap both _

theorem alongside_enterNode (both : Alongside t u a b) (i : NodeId) (object : ObjectId) :
    TogetherDone (Alongside t u) ((enterNode env i object).start a)
      ((enterNode env i object).start b) := by
  have scope : (b.site env i).outerScope = (a.site env i).outerScope := by
    show (b.tree.ancestors i).filterMap b.context.object? ++ b.context.outerScope = _
    rw [(List.cons.inj (selfAndAncestors_of_plucked plucked both i)).2, both.same]
    rfl
  unfold enterNode
  rw [start_get_bind, start_get_bind, scope, show b.heap = a.heap by rw [both.same]; rfl]
  split
  · exact alongside_modifyHeap both _
  · exact together_done both

theorem alongside_applyChildren (both : Alongside t u a b) (i : NodeId) (object : ObjectId) :
    TogetherDone (Alongside t u) ((applyChildren env i object).start a)
      ((applyChildren env i object).start b) := by
  have children : (b.node i).children = (a.node i).children := by
    rw [both.same, LoadState.node, LoadState.node, both.tree]
    exact plucked.retouches.children i
  have content : TogetherDone (Alongside t u)
      (((a.node i).children.forM fun child => do
        let s ← get
        changeHeap ((s.site env i).applyChild object child) : Load Unit).start a)
      (((a.node i).children.forM fun child => do
        let s ← get
        changeHeap ((s.site env i).applyChild object child) : Load Unit).start b) := by
    refine together_forM_same _ (fun child _ s s' both => ?_) both
    rw [start_get_bind, start_get_bind, applyChild_of_plucked plucked both]
    exact alongside_changeHeap both _
  unfold applyChildren
  rw [start_get_bind, start_get_bind, children, show b.heap = a.heap by rw [both.same]; rfl]
  cases a.heap.kind object with
  | dictionary | template => exact together_done both
  | plain | collection => exact content

/-- A node is applied alike, with whatever attributes. -/
theorem alongside_applying (both : Alongside t u a b) (i : NodeId) (object : ObjectId)
    (attributes : List Attribute) :
    TogetherDone (Alongside t u)
      ((enterNode env i object >>= fun _ =>
        attributes.forM (applyAttribute env i object) >>= fun _ =>
          applyChildren env i object).start a)
      ((enterNode env i object >>= fun _ =>
        attributes.forM (applyAttribute env i object) >>= fun _ =>
          applyChildren env i object).start b) := by
  refine Together.bind (alongside_enterNode plucked both i object) fun _ _ _ _ _ both _ => ?_
  refine Together.bind (together_forM_same _ (fun d _ _ _ both =>
    alongside_applyAttribute plucked both i object d) both) fun _ _ _ _ _ both _ => ?_
  exact alongside_applyChildren plucked both i object

/-- **Any other node is applied alike**, with the attributes that it has. -/
theorem alongside_applyNode (both : Alongside t u a b) (other : i ≠ e) :
    TogetherDone (Alongside t u) ((applyNode env i).start a) ((applyNode env i).start b) := by
  have object : b.context.object? i = a.context.object? i := by rw [both.same]; rfl
  have attributes : (b.node i).attributes = (a.node i).attributes := by
    rw [both.same, LoadState.node, LoadState.node, both.tree]
    exact plucked.other i other
  cases has : a.context.object? i with
  | none =>
    unfold applyNode
    rw [start_get_bind, start_get_bind, object, has]
    exact together_done both
  | some o =>
    rw [start_applyNode has, start_applyNode (object.trans has), attributes]
    exact alongside_applying plucked both i o _

end Assigning

end Passes

end Load

/-! ## Both documents are prepared -/

/-- **Strict loads of two documents** of which the second one lacks the last attribute of `e`, a
property that is given a text. The attribute may not be ignored, and the node is not in a
template. -/
structure LoadState.Plucked (env : Environment) (e : NodeId) (name : QName) (text : String)
    (a b : LoadState) : Prop where
  same : b = a.withTree b.tree
  strict : a.context.tolerant = false
  inside : e < a.tree.size
  counts : a.tree.isIgnorable name.namespaceUri = false
  /-- The text may have been expanded already. -/
  lost : ∃ c, a.tree.Plucked b.tree e c ∧ c.name = name ∧
    (c.value = .raw (AttributeText.literal text) ∨ c.value = .literal text)
  outside : ∀ q, env.isTemplate (a.tree.node q).toNodeBody = true →
    ¬ a.tree.Reaches (fun _ => false) q e

namespace LoadState.Plucked

variable {env : Environment} {e : NodeId} {name : QName} {text : String} {a b a' b' : LoadState}

/-- What leaves the trees alone is done to one state. -/
theorem alongside (both : Plucked env e name text a b) : Alongside a.tree b.tree a b :=
  ⟨rfl, both.same, both.strict⟩

theorem of_alongside (both : Plucked env e name text a b) (later : Alongside a.tree b.tree a' b') :
    Plucked env e name text a' b' where
  same := by rw [later.same]; rfl
  strict := later.strict
  inside := later.tree ▸ both.inside
  counts := later.tree ▸ both.counts
  lost := by
    rw [later.tree, later.same]
    exact both.lost
  outside := later.tree ▸ both.outside

theorem strict' (both : Plucked env e name text a b) : b.context.tolerant = false := by
  rw [both.same]
  exact both.strict

/-- The same is done to both trees, which leaves of the first one what counts. -/
theorem withTrees (both : Plucked env e name text a b) {t u : NodeTree}
    (size : t.size = a.tree.size) (ignorable : t.ignorable = a.tree.ignorable)
    (fewer : ∀ n, env.isTemplate (t.node n).toNodeBody = env.isTemplate (a.tree.node n).toNodeBody ∧
      (t.node n).children ⊆ (a.tree.node n).children)
    {c : Attribute} (plucked : t.Plucked u e c) (named : c.name = name)
    (gives : c.value = .raw (AttributeText.literal text) ∨ c.value = .literal text) :
    Plucked env e name text (a.withTree t) (b.withTree u) where
  same := by rw [both.same]; rfl
  strict := both.strict
  inside := Nat.lt_of_lt_of_eq both.inside size.symm
  counts := by
    rw [← both.counts, NodeTree.isIgnorable, NodeTree.isIgnorable, ← ignorable]
    rfl
  lost := ⟨c, plucked, named, gives⟩
  outside q template below :=
    both.outside q ((fewer q).1.symm.trans template) (below.of_children fun n => (fewer n).2)

/-- Attributes and links to parents are not what counts. -/
theorem withTouched (both : Plucked env e name text a b) {t u : NodeTree}
    (touches : a.tree.Touches t []) {c : Attribute} (plucked : t.Plucked u e c)
    (named : c.name = name)
    (gives : c.value = .raw (AttributeText.literal text) ∨ c.value = .literal text) :
    Plucked env e name text (a.withTree t) (b.withTree u) := by
  refine both.withTrees touches.size touches.ignorable (fun n => ⟨?_, ?_⟩) plucked named gives
  · rw [touches.body]
    rfl
  · rw [touches.children]
    exact List.filter_subset_self _

end LoadState.Plucked

namespace Load

variable {env : Environment} {e i : NodeId} {name : QName} {text : String} {a b : LoadState}

open LoadState (Plucked Alongside)

/-- A pass is completed on both sides. -/
theorem plucked_completePass (pass : Pass)
    (passes : TogetherDone (Plucked env e name text) ((runPass env pass).start a)
      ((runPass env pass).start b)) :
    TogetherDone (Plucked env e name text) ((completePass env pass).start a)
      ((completePass env pass).start b) :=
  Together.bind passes fun _ _ _ _ _ both _ => together_done (both.of_alongside
    ⟨rfl, by rw [both.same]; rfl, both.strict⟩)

/-- A pass that leaves the trees alone. -/
theorem plucked_of_alongside {step : Load Unit} (both : Plucked env e name text a b)
    (passes : TogetherDone (Alongside a.tree b.tree) (step.start a) (step.start b)) :
    TogetherDone (Plucked env e name text) (step.start a) (step.start b) :=
  Together.mono passes fun _ _ later => both.of_alongside later

section Preparing

variable (plain : isLanguage name.namespaceUri = false)

/-- Attributes that both nodes have are expanded alike, and then those that one of them has more. -/
theorem plucked_expandAttributes {R : LoadState → LoadState → Prop}
    (both : Plucked env e name text a b) {more : List Attribute}
    (ends : ∀ done, TogetherDone R ((expandAttributes env i done more).start a)
      ((expandAttributes env i done []).start b)) (shared done : List Attribute) :
    TogetherDone R ((expandAttributes env i done (shared ++ more)).start a)
      ((expandAttributes env i done shared).start b) := by
  obtain ⟨_, plucked, -, -⟩ := both.lost
  have same : b.tree.expandAttribute env.extensions i = a.tree.expandAttribute env.extensions i :=
    plucked.retouches.expandAttribute _ _
  induction shared generalizing done with
  | nil => exact ends done
  | cons d rest ih =>
    rw [List.cons_append]
    cases outcome : a.tree.expandAttribute env.extensions i d with
    | ok d' =>
      rw [start_expandAttributes_ok env done _ outcome,
        start_expandAttributes_ok env done _ (by rw [same, outcome])]
      exact ih _
    | error error =>
      -- A strict load stops at the first attribute that cannot be expanded.
      rw [start_expandAttributes_error env done _ outcome,
        start_expandAttributes_error env done _ (by rw [same, outcome])]
      exact Together.bind (together_recover_strict (R := fun _ _ => False) both.strict both.strict'
        rfl) fun _ _ _ _ _ none _ => none.elim

include plain

/-- **Both documents are expanded alike.** The attribute that one of them has more cannot fail. -/
theorem plucked_expandMarkup
    (both : Plucked env e name text a b) :
    TogetherDone (Plucked env e name text) ((expandMarkup env).start a)
      ((expandMarkup env).start b) := by
  have lists : b.tree.preorder b.tree.isIgnorableNode = a.tree.preorder a.tree.isIgnorableNode := by
    obtain ⟨_, plucked, -, -⟩ := both.lost
    rw [plucked.retouches.isIgnorableNode]
    exact plucked.retouches.preorder _
  unfold expandMarkup
  rw [start_get_bind, start_get_bind, lists]
  refine together_forM_same _ (fun i _ a b both => ?_) both
  obtain ⟨c, plucked, named, gives⟩ := both.lost
  unfold expandNode
  rw [start_get_bind, start_get_bind, plucked.retouches.isIgnorableNode]
  split
  · exact together_done both
  · by_cases here : i = e
    · subst here
      rw [LoadState.node, plucked.last]
      refine plucked_expandAttributes both (fun done => ?_) _ []
      -- The last attribute is read as the text that it gives.
      have expanded : a.tree.expandAttribute env.extensions i c =
          .ok { c with value := .literal text } := by
        have counts := both.counts
        obtain ⟨name', value, position⟩ := c
        obtain rfl : name' = name := named
        unfold NodeTree.expandAttribute
        rcases gives with rfl | rfl
        · dsimp only
          rw [if_neg (by rw [counts]; exact Bool.false_ne_true),
            if_neg (by rw [plain]; exact Bool.false_ne_true), NodeTree.expandText_literal]
        · rfl
      rw [start_expandAttributes_ok env done _ expanded]
      exact together_done (both.withTouched (NodeTree.touches_setAttributes ..)
        (plucked.setLast both.inside done _) named (.inr rfl))
    · have attributes : (b.node i).attributes = (a.node i).attributes := plucked.other i here
      rw [attributes]
      nth_rewrite 1 [← List.append_nil (a.node i).attributes]
      refine plucked_expandAttributes both (fun done => ?_) _ []
      exact together_done (both.withTouched (NodeTree.touches_setAttributes ..)
        (plucked.setAttributes here done) named gives)

/-- **The documents are prepared alike.** -/
theorem plucked_prepare (both : Plucked env e name text a b) (laid : a.tree.Laid)
    (laid' : b.tree.Laid) :
    TogetherDone (Plucked env e name text) ((prepare env).start a) ((prepare env).start b) := by
  have linked : Plucked env e name text (a.withTree a.tree.linkParents)
      (b.withTree b.tree.linkParents) := by
    obtain ⟨c, plucked, named, gives⟩ := both.lost
    exact both.withTouched laid.proper.touches_linkParents (plucked.linkParents laid laid') named
      gives
  have prunes : ∀ a b, Plucked env e name text a b →
      Plucked env e name text (a.withTree a.tree.prune) (b.withTree b.tree.prune) := by
    intro a b both
    obtain ⟨c, plucked, named, gives⟩ := both.lost
    refine both.withTrees a.tree.size_prune a.tree.ignorable_prune (fun n => ?_)
      (plucked.prune (named ▸ both.counts)) named gives
    rw [NodeTree.node_prune]
    exact ⟨rfl, List.filter_subset_self _⟩
  unfold prepare
  rw [start_forM_cons, start_forM_cons]
  refine Together.bind (plucked_completePass .parentLinking (together_done linked))
    fun _ _ a b _ both _ => ?_
  rw [start_forM_cons, start_forM_cons]
  refine Together.bind (plucked_completePass .markupExpansion
    (plucked_expandMarkup plain both)) fun _ _ a b _ both _ => ?_
  rw [start_forM_cons, start_forM_cons]
  refine Together.bind (plucked_completePass .pruneIgnored
    (together_done (prunes a b both))) fun _ _ a b _ both _ => ?_
  rw [start_forM_cons, start_forM_cons]
  obtain ⟨c, plucked, -, -⟩ := both.lost
  refine Together.bind (plucked_completePass .namescoping
    (plucked_of_alongside both (alongside_assignScopes plucked both.alongside)))
    fun _ _ a b _ both _ => ?_
  exact together_done both

/-- **All values are created alike.** -/
theorem plucked_populate (both : Plucked env e name text a b) (laid : a.tree.Laid)
    (laid' : b.tree.Laid) (object : (a.node NodeTree.root).isObject = true) :
    TogetherDone (Plucked env e name text)
      ((createRoot env >>= fun _ => populate env).start a)
      ((createRoot env >>= fun _ => populate env).start b) := by
  obtain ⟨c, plucked, named, -⟩ := both.lost
  have created := alongside_createRoot plucked (named ▸ plain) both.outside both.alongside object
  refine Together.bind created fun _ _ a' b' _ later _ => ?_
  have both := both.of_alongside later
  have trees : a'.tree = a.tree ∧ b'.tree = b.tree := ⟨later.tree, by rw [later.same]; rfl⟩
  refine Together.bind (plucked_prepare plain both (trees.1 ▸ laid) (trees.2 ▸ laid'))
    fun _ _ a b _ both _ => ?_
  obtain ⟨c, plucked, named, -⟩ := both.lost
  exact plucked_completePass .valueCreation (plucked_of_alongside both
    (alongside_createValues plucked (named ▸ plain) both.outside both.alongside))

end Preparing

end Load

end MarkupLoader
