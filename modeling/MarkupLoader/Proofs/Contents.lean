import MarkupLoader.Proofs.Copies
import MarkupLoader.Proofs.Course

/-!
# What templates keep

A template keeps the document inside it, to be instantiated later, apart from the document that it
stands in. **What it keeps is an excerpt** (`NodeTree.Excerpt`) of the prepared document: attributes
have been expanded, what may be ignored has been taken out, and the declarations around the template
have been put on the outermost node, so that every prefix goes on standing for its namespace.

* **A prepared document** (`NodeTree.Prepared`) is one that has gone through the passes before the
  creation of values. A document whose outermost element may be ignored is not entered by them.
* **The template of an element** is made in the creation of values, when elements have perhaps been
  left out, but none inside a template.
* **The outermost element** is made before the first pass, unless it takes arguments. A template at
  that place keeps the document as it was written.

Main results: `Prepared.excerpt`, `Course.content`, `content_as_in_place`.
-/

namespace MarkupLoader

/-! ## Prepared documents -/

/-- A document whose attributes have been expanded and from which has been taken what may be
ignored, as far as it can be reached. -/
structure NodeTree.Prepared (extensions : Extensions) (doc t : NodeTree) : Prop where
  proper : t.Proper
  linked : t.Linked
  size : t.size = doc.size
  ignorable : t.ignorable = doc.ignorable
  parent : ∀ id, (t.node id).parent = (doc.node id).parent
  body : ∀ id, (t.node id).toNodeBody =
    { (doc.node id).toNodeBody with attributes := (t.node id).attributes }
  attributes : ∀ id, t.Reaches (fun _ => false) NodeTree.root id → (t.node id).attributes =
    (doc.expandedAttributes extensions id).filter fun a => !doc.isIgnorable a.name.namespaceUri
  children : ∀ id, t.Reaches (fun _ => false) NodeTree.root id → (t.node id).children =
    (doc.node id).children.filter fun c => !doc.isPrunable c
  clean : ∀ id, t.Reaches (fun _ => false) NodeTree.root id → doc.isIgnorableNode id = true →
    ∃ content, (doc.node id).kind = .text content

namespace NodeTree

variable {doc e : NodeTree} {extensions : Extensions}

/-- What can be reached is in the tree. -/
theorem Proper.inside_of_reaches (proper : doc.Proper) {skip : NodeId → Bool} {id : Nat}
    (reached : doc.Reaches skip root id) : id < doc.size := by
  cases reached with
  | top => exact proper.nonempty
  | child _ _ listed => exact proper.inside _ _ listed

/-- A node that has others below it is no text, and is entered if it is counted in. -/
theorem enters (shaped : doc.Shaped) (proper : doc.Proper)
    (counts : doc.isIgnorableNode root = false) {p c : Nat}
    (text : doc.isIgnorableNode p = true → ∃ content, (doc.node p).kind = .text content)
    (listed : c ∈ (doc.node p).children) : doc.isIgnorableNode p = false := by
  refine Bool.eq_false_iff.2 fun ignored => ?_
  obtain ⟨content, is⟩ := text ignored
  have below : p ≠ root := fun top => absurd ((top ▸ ignored).symm.trans counts) nofun
  have inside := Nat.lt_trans (proper.later p c listed) (proper.inside p c listed)
  rw [shaped.leaf p below inside content is] at listed
  cases listed

/-- What may be ignored and is not taken out is a text. -/
theorem text_of_kept (shaped : doc.Shaped) {c : Nat} (below : c ≠ root) (inside : c < doc.size)
    (ignored : doc.isIgnorableNode c = true) (kept : doc.isPrunable c = false) :
    ∃ content, (doc.node c).kind = .text content := by
  unfold isPrunable at kept
  cases kind : (doc.node c).kind with
  | root => exact absurd kind (shaped.inner c below inside).root
  | element =>
    rw [kind] at kept
    exact absurd (ignored.symm.trans kept) nofun
  | property name =>
    rw [kind] at kept
    exact absurd (ignored.symm.trans kept) nofun
  | text content => exact ⟨content, rfl⟩

section Pruned

variable (proper : doc.Proper) (linked : doc.Linked) (shaped : doc.Shaped)
  (counts : doc.isIgnorableNode root = false)
  (expands : Expands extensions doc (doc.preorder doc.isIgnorableNode) e)

include proper expands in
/-- What is taken out of an expanded document, of what the passes have entered. -/
theorem mem_prunedNodes_of_expands {c : NodeId}
    (reached : doc.Reaches doc.isIgnorableNode root c) :
    c ∈ e.prunedNodes ↔ doc.isPrunable c = true := by
  rw [mem_prunedNodes (expands.proper proper), expands.retouches.isPrunable,
    expands.retouches.isIgnorableNode]
  exact ⟨And.right, fun is => ⟨reached.congr fun n _ => ⟨expands.retouches.children n, rfl⟩, is⟩⟩

include shaped in
/-- What may be ignored has no attributes if it is a text; the outermost element counts. -/
theorem attributes_of_text (counts : doc.isIgnorableNode root = false) {id : NodeId}
    (inside : id < doc.size) (ignored : doc.isIgnorableNode id = true)
    (text : ∃ content, (doc.node id).kind = .text content) : (doc.node id).attributes = [] := by
  obtain ⟨content, is⟩ := text
  refine (shaped.inner id (fun top => ?_) inside).text content is
  exact absurd ((top ▸ ignored).symm.trans counts) nofun

include proper linked shaped counts expands

/-- What can be reached after pruning has been entered by the passes. Only texts are left of what
may be ignored, and nothing is below a text. -/
theorem reaches_of_pruned {id : NodeId} (reached : e.prune.Reaches (fun _ => false) root id) :
    doc.Reaches doc.isIgnorableNode root id ∧
      (doc.isIgnorableNode id = true → ∃ content, (doc.node id).kind = .text content) := by
  induction reached with
  | top => exact ⟨.top, fun is => absurd (is.symm.trans counts) nofun⟩
  | @child p c _ _ mem ih =>
    obtain ⟨reached, text⟩ := ih
    rw [children_prune (expands.proper proper) (expands.linked linked)] at mem
    obtain ⟨mem, stays⟩ := mem_children_without.1 mem
    rw [expands.retouches.children] at mem
    have entered := Reaches.child reached (enters shaped proper counts text mem) mem
    have kept : doc.isPrunable c = false := by
      rw [← Bool.not_eq_true, ← mem_prunedNodes_of_expands proper expands entered]
      exact stays
    have below := Nat.ne_zero_of_lt (proper.later p c mem)
    exact ⟨entered, fun is => text_of_kept shaped below (proper.inside p c mem) is kept⟩

/-- Pruning an expanded document. -/
theorem prepared_prune : Prepared extensions doc e.prune := by
  have properE := expands.proper proper
  have linkedE := expands.linked linked
  have childrenE := children_prune properE linkedE
  have walk : ∀ id, e.prune.Reaches (fun _ => false) root id →
      doc.Reaches doc.isIgnorableNode root id ∧
        (doc.isIgnorableNode id = true → ∃ content, (doc.node id).kind = .text content) :=
    fun _ => reaches_of_pruned proper linked shaped counts expands
  refine {
    proper := proper_prune properE linkedE
    linked := linked_prune properE linkedE
    size := e.size_prune.trans expands.size
    ignorable := e.ignorable_prune.trans expands.ignorable
    parent := fun id => by rw [node_prune_of_linked properE linkedE, node_without, expands.node]
    body := fun id => by rw [node_prune_of_linked properE linkedE, node_without, expands.node]
    attributes := fun id reached => ?_
    children := fun id reached => ?_
    clean := fun id reached => (walk id reached).2 }
  · have kept : id ∈ (e.without e.prunedNodes).reachable := by
      refine (mem_preorder (properE.without _)).2 (reached.congr fun n _ => ⟨?_, rfl⟩)
      exact (childrenE n).symm
    have left : (e.prune.node id).attributes =
        (e.node id).attributes.filter fun a => !doc.isIgnorable a.name.namespaceUri := by
      rw [node_prune_of_linked properE linkedE]
      simp only [if_pos kept, prunedAttributes, isIgnorable, expands.ignorable]
    obtain ⟨entered, text⟩ := walk id reached
    have walked : id ∈ doc.preorder doc.isIgnorableNode := (mem_preorder proper).2 entered
    rw [left, expands.node id]
    -- Expansion passes by what may be ignored, which is a text here.
    by_cases ignored : doc.isIgnorableNode id = true
    · have bare := attributes_of_text shaped counts (proper.inside_of_reaches entered) ignored
        (text ignored)
      simp [ignored, bare, expandedAttributes]
    · simp [walked, ignored]
  · rw [childrenE, node_without, expands.retouches.children]
    refine List.filter_congr fun c mem => ?_
    obtain ⟨entered, text⟩ := walk id reached
    have below := Reaches.child entered (enters shaped proper counts text mem) mem
    simp [mem_prunedNodes_of_expands proper expands below]

end Pruned

/-! ## Excerpts -/

/-- A document kept for an element `top` of another one: the same elements in the same order, with
expanded attributes, without what may be ignored, and with prefixes that stand for the same
namespaces. Each of its places stands for one at or below `top`. -/
structure Excerpt (extensions : Extensions) (doc : NodeTree) (top : NodeId) (u : NodeTree)
    (place : NodeId → NodeId) : Prop where
  start : place root = top
  below : ∀ i < u.size, doc.Reaches (fun _ => false) top (place i)
  reached : ∀ i < u.size, u.Reaches (fun _ => false) root i
  children : ∀ i < u.size, (u.node i).children.map place =
    (doc.node (place i)).children.filter fun c => !doc.isPrunable c
  kind : ∀ i < u.size, (u.node i).kind = if i = root then .root else (doc.node (place i)).kind
  /-- Names, type arguments and positions are those of the document. -/
  body : ∀ i < u.size, (u.node i).toNodeBody = { (doc.node (place i)).toNodeBody with
    kind := (u.node i).kind
    attributes := (u.node i).attributes
    namespaces := (u.node i).namespaces }
  /-- Attributes are expanded as in the document. -/
  attributes : ∀ i < u.size, (u.node i).attributes =
    (doc.expandedAttributes extensions (place i)).filter fun a =>
      !doc.isIgnorable a.name.namespaceUri
  expanded : ∀ i < u.size, ∀ a ∈ (u.node i).attributes, ∀ text, a.value ≠ .raw text
  /-- Nothing but texts is left of what may be ignored. -/
  clean : ∀ i < u.size, u.isIgnorableNode i = true → ∃ content, (u.node i).kind = .text content
  cleanAttributes : ∀ i < u.size, ∀ a ∈ (u.node i).attributes,
    u.isIgnorable a.name.namespaceUri = false
  lookUp : ∀ i < u.size, u.linkParents.lookUpNamespace i = doc.lookUpNamespace (place i)
  /-- Any attribute would be expanded as it would be in the document. -/
  expands : ∀ i < u.size,
    u.linkParents.expandAttribute extensions i = doc.expandAttribute extensions (place i)

/-- An expanded attribute is no text as it was written, unless it may be ignored. -/
theorem value_of_expandAttribute {id : NodeId} {a b : Attribute}
    (expanded : doc.expandAttribute extensions id a = .ok b)
    (counts : doc.isIgnorable b.name.namespaceUri = false) (text : String) :
    b.value ≠ .raw text := by
  unfold expandAttribute at expanded
  -- What is no text as it was written is left alone, so only such a text has to be followed.
  split at expanded
  case h_1 is => cases expanded; rw [is]; exact nofun
  case h_2 is => cases expanded; rw [is]; exact nofun
  case h_3 raw is =>
    split at expanded
    case isTrue ignored =>
      cases expanded
      exact absurd (ignored.symm.trans counts) nofun
    case isFalse =>
      split at expanded
      · cases expanded
        exact nofun
      · unfold expandText at expanded
        split at expanded
        case h_2 => cases expanded
        case h_1 value read =>
          cases expanded
          split at read
          · cases read
          · cases read; exact nofun
          · cases read; exact nofun
          · obtain ⟨_, -, rfl⟩ := ok_of_map read
            exact nofun

/-- The attributes that are left of an expanded element are no texts as they were written. -/
theorem value_of_expandedAttributes {id : NodeId} {a : Attribute}
    (mem : a ∈ (doc.expandedAttributes extensions id).filter
      fun a => !doc.isIgnorable a.name.namespaceUri) (text : String) : a.value ≠ .raw text := by
  obtain ⟨mem, counts⟩ := List.mem_filter.1 mem
  obtain ⟨written, -, is⟩ := List.mem_filterMap.1 mem
  cases expanded : doc.expandAttribute extensions id written with
  | error _ =>
    rw [expanded] at is
    cases is
  | ok _ =>
    rw [expanded] at is
    cases is
    exact value_of_expandAttribute expanded (by simpa using counts) text

/-- What a prepared document has is in the document. -/
theorem Prepared.reaches {t : NodeTree} (prepared : Prepared extensions doc t) {top id : NodeId}
    (above : t.Reaches (fun _ => false) root top) (reached : t.Reaches (fun _ => false) top id) :
    doc.Reaches (fun _ => false) top id := by
  induction reached with
  | top => exact .top
  | @child p c before _ listed ih =>
    rw [prepared.children p (above.trans before)] at listed
    exact .child ih rfl (List.mem_filter.1 listed).1

theorem Prepared.lookUpNamespace {t : NodeTree} (prepared : Prepared extensions doc t)
    (id : NodeId) : t.lookUpNamespace id = doc.lookUpNamespace id := by
  refine lookUpNamespace_congr (P := fun _ => True) prepared.size (fun _ _ _ _ => trivial)
    (fun n _ => ⟨prepared.parent n, ?_⟩) trivial
  rw [prepared.body n]

/-- **A subtree of a prepared document is an excerpt** of the document. -/
theorem Prepared.excerpt {t : NodeTree} (prepared : Prepared extensions doc t) {top : Nat}
    (above : t.Reaches (fun _ => false) root top)
    (element : ∀ content, (doc.node top).kind ≠ .text content) :
    Excerpt extensions doc top (t.extract top) (t.placeOf top) := by
  have copies := copies_extract prepared.proper.layers top
  have reached : ∀ i < (t.extract top).size, t.Reaches (fun _ => false) root (t.placeOf top i) :=
    fun i inside => above.trans (copies.reaches_place inside)
  -- The outermost node differs from the one that it stands for in its kind and its declarations.
  have body : ∀ i < (t.extract top).size, ((t.extract top).node i).toNodeBody =
      { (t.node (t.placeOf top i)).toNodeBody with
        kind := ((t.extract top).node i).kind
        namespaces := ((t.extract top).node i).namespaces } := by
    intro i inside
    by_cases first : i = root
    · rw [first, copies.first, copies.start]
    · rw [copies.body i inside first]
  have kind : ∀ i < (t.extract top).size, ((t.extract top).node i).kind =
      if i = root then .root else (doc.node (t.placeOf top i)).kind := by
    intro i inside
    by_cases first : i = root
    · rw [if_pos first, first, copies.first]
    · rw [if_neg first, copies.body i inside first, prepared.body]
  have attributes : ∀ i < (t.extract top).size, ((t.extract top).node i).attributes =
      (doc.expandedAttributes extensions (t.placeOf top i)).filter
        fun a => !doc.isIgnorable a.name.namespaceUri := by
    intro i inside
    rw [body i inside, ← prepared.attributes _ (reached i inside)]
  have ignorable : (t.extract top).isIgnorable = doc.isIgnorable := by
    unfold isIgnorable
    rw [copies.ignorable, prepared.ignorable]
  have lookUp : ∀ i < (t.extract top).size,
      (t.extract top).linkParents.lookUpNamespace i = doc.lookUpNamespace (t.placeOf top i) := by
    intro i inside
    rw [copies.lookUpNamespace prepared.proper prepared.linked above inside,
      prepared.lookUpNamespace]
  exact {
    start := copies.start
    below := fun i inside => prepared.reaches above (copies.reaches_place inside)
    reached := copies.reached
    children := fun i inside => by
      rw [copies.children i inside, prepared.children _ (reached i inside)]
    kind := kind
    body := fun i inside => by
      conv_lhs => rw [body i inside, prepared.body]
      rw [body i inside]
    attributes := attributes
    expanded := fun i inside a mem =>
      value_of_expandedAttributes (attributes i inside ▸ mem)
    clean := fun i inside ignored => by
      have same : (t.extract top).isIgnorableNode i = doc.isIgnorableNode (t.placeOf top i) := by
        rw [isIgnorableNode, isIgnorableNode, ignorable, body i inside, prepared.body]
      obtain ⟨content, is⟩ := prepared.clean _ (reached i inside) (same ▸ ignored)
      have below : i ≠ root := fun first => element content (by rwa [first, copies.start] at is)
      exact ⟨content, by rw [kind i inside, if_neg below, is]⟩
    cleanAttributes := fun i inside a mem => by
      rw [attributes i inside] at mem
      rw [ignorable]
      simpa using (List.mem_filter.1 mem).2
    lookUp := lookUp
    expands := fun i inside => expandAttribute_congr
      ((ignorable_linkParents _).trans (copies.ignorable.trans prepared.ignorable))
      (lookUp i inside) extensions }

/-- Linking changes nothing about where nodes stand. -/
theorem Shaped.linkParents {t : NodeTree} (shaped : t.Shaped) (proper : t.Proper) :
    t.linkParents.Shaped := by
  have size := size_linkParents t
  refine ⟨?_, fun id below inside => ?_, fun id below inside content is => ?_⟩
  · rw [body_linkParents proper]
    exact shaped.root
  · rw [body_linkParents proper]
    exact shaped.inner id below (size ▸ inside)
  · rw [children_linkParents proper]
    rw [body_linkParents proper] at is
    exact shaped.leaf id below (size ▸ inside) content is

end NodeTree

section Templates

variable {env : Environment} {s before u : LoadState} {gone : List NodeId} {id : NodeId}
  {o : Object}

/-- What is prepared of a document whose outermost element counts. -/
theorem Prepares.prepared (prepares : Prepares env s before) (proper : s.tree.Proper)
    (shaped : s.tree.Shaped) (counts : s.tree.isIgnorableNode NodeTree.root = false) :
    s.tree.linkParents.Prepared env.extensions before.tree := by
  obtain ⟨expanded, pruned, expands⟩ := prepares.tree
  rw [pruned]
  refine NodeTree.prepared_prune proper.linkParents (NodeTree.linked_linkParents proper)
    (shaped.linkParents proper) ?_ expands
  rwa [NodeTree.isIgnorableNode_linkParents proper]

/-- A template that a node makes has the content that the node has in the prepared document. -/
theorem LoadState.Makes.templateContent (makes : u.Makes env id o) (template : o.kind = .template)
    (tree : u.tree = before.tree.without gone) (omittable : Omittable before.tree env gone)
    (proper : before.tree.Proper) (object : (before.node id).isObject = true) :
    before.templateContent id = .ok o.template := by
  have body : (u.node id).toNodeBody = (before.node id).toNodeBody := by
    rw [LoadState.node, tree, NodeTree.node_without]
    rfl
  have templates : before.tree.templates env id = true := by
    have known := makes.known
    rw [body] at known
    show ((before.node id).isObject && env.registry.isTemplate (before.node id).typeName) = true
    rw [object, Registry.isTemplate, known]
    exact decide_eq_true template
  rw [← makes.content template]
  -- Nothing has been left out of what is below the template.
  refine (templateContent_congr (P := fun _ => True) rfl ?_ ?_ (fun _ _ _ _ => trivial)
    (fun n _ => ?_) (fun n reached => ?_) fun _ _ => trivial).symm
  · rw [tree, NodeTree.size_without]
  · rw [tree]
    rfl
  · rw [tree, NodeTree.node_without]
    exact ⟨rfl, rfl⟩
  · rw [tree]
    exact omittable.same_below proper templates reached

/-- The elements of a node that are left in a prepared document. -/
theorem NodeTree.Prepared.elements {extensions : Extensions} {doc t : NodeTree}
    (prepared : doc.Prepared extensions t) (reached : t.Reaches (fun _ => false) NodeTree.root id) :
    t.elements id = (doc.elements id).filter fun c => !doc.isIgnorableNode c := by
  have kinds : ∀ c, (t.node c).isElement = (doc.node c).isElement := by
    intro c
    rw [prepared.body c]
    rfl
  unfold NodeTree.elements
  rw [prepared.children id reached, List.filter_filter, List.filter_filter]
  refine List.filter_congr fun c _ => ?_
  rw [kinds]
  -- Elements are taken out if and only if they may be ignored.
  cases is : (doc.node c).kind with
  | element => simp [NodeBody.isElement, NodeTree.isPrunable, is]
  | _ => simp [NodeBody.isElement, is]

/-- What a template keeps that has its content from a prepared document. -/
theorem NodeTree.Prepared.kept {extensions : Extensions} {doc : NodeTree}
    (prepared : doc.Prepared extensions before.tree)
    (reached : before.tree.Reaches (fun _ => false) NodeTree.root id)
    {content stored : Option Template}
    (keeps : before.templateContent id = .ok content)
    (same : stored.map (·.tree) = content.map (·.tree)) :
    let elements := (doc.elements id).filter fun c => !doc.isIgnorableNode c
    (elements = [] ∧ stored = none) ∨
      ∃ top kept place, elements = [top] ∧ stored = some kept ∧
        doc.Excerpt extensions top kept.tree place := by
  intro elements
  have left : before.tree.elements id = elements := prepared.elements reached
  -- A template keeps nothing, its only element, or fails to be made.
  unfold LoadState.templateContent at keeps
  split at keeps
  case h_1 none =>
    cases keeps
    exact .inl ⟨left.symm.trans none, Option.map_eq_none_iff.1 same⟩
  case h_2 top only =>
    cases keeps
    obtain ⟨kept, rfl, tree⟩ := Option.map_eq_some_iff.1 same
    have mem : top ∈ before.tree.elements id := only ▸ List.mem_singleton_self top
    obtain ⟨listed, element⟩ := List.mem_filter.1 mem
    refine .inr ⟨top, kept, before.tree.placeOf top, left.symm.trans only, rfl, ?_⟩
    rw [tree]
    refine prepared.excerpt (.child reached rfl listed) fun text is => ?_
    rw [prepared.body top, NodeBody.isElement, is] at element
    cases element
  case h_3 => cases keeps

/-- What a load leaves as the content of a template that a node has made. -/
theorem Load.Course.content {tolerant : Bool} {created filled last : LoadState} {n : ObjectId}
    (course : Load.Course env tolerant s before created filled last) (proper : s.tree.Proper)
    (shaped : s.tree.Shaped) (counts : s.tree.isIgnorableNode NodeTree.root = false)
    (has : last.context.object? id = some n)
    (new : id = NodeTree.root → s.rootInstance = none)
    (template : last.heap.kind n = .template) :
    let doc := s.tree.linkParents
    let elements := (doc.elements id).filter fun c => !doc.isIgnorableNode c
    (elements = [] ∧ (last.heap.object n).template = none) ∨
      ∃ top content place, elements = [top] ∧ (last.heap.object n).template = some content ∧
        doc.Excerpt env.extensions top content.tree place := by
  have prepared := course.prepares.prepared proper shaped counts
  cases course.origin prepared.proper has with
  | given top known =>
    rw [course.prepares.rootInstance, new top] at known
    cases known
  | made makes tree omittable _ object reached _ inside =>
    -- The later passes change neither the type of the object nor what it keeps.
    have retains : created.heap.Retains last.heap := course.heap ▸ course.settled.heap
    have type : (created.heap.object n).descriptor = last.heap.descriptor n :=
      (retains.descriptor n inside).symm
    have kind : (created.heap.object n).kind = .template := by
      rw [← template]
      exact congrArg TypeDescriptor.kind type
    exact prepared.kept reached.all
      (makes.templateContent kind tree omittable prepared.proper object) (retains.content n inside)

end Templates

/-! ## Requests -/

namespace Request

/--
**Templates keep their content as it would be in place.** Whatever markup is loaded without failing,
whether into a new object or into one that is there, and whether failures are tolerated: a template
that the load makes for an element keeps nothing if there is nothing in the element but what may be
ignored, and otherwise keeps an excerpt of the document. In it all attributes are expanded as they
are in the document, nothing is left that may be ignored, and every prefix stands for the same
namespace, so that any attribute would be expanded as it would be in place.

This asks for two things, since the content is taken out of the document before anything is done to
it, or nothing is done to it at all:

* the template is not made before the passes, which is when an outermost element without arguments
  is made, and
* the outermost element is not of a namespace that may be ignored.
-/
theorem content_as_in_place (env : Environment) (tolerant : Bool) (h : Heap) {request : Request}
    {markup : String} {tree : NodeTree} {run : Run} {id : NodeId} {n : ObjectId}
    (read : NodeTree.read markup = .ok tree)
    (loads : request = .create markup ∨ ∃ target < h.size, request = .loadInto target markup)
    (ran : request.run env tolerant h = .ok run) (ended : run.ended = .ok ())
    (counts : tree.isIgnorableNode NodeTree.root = false)
    (has : run.state.context.object? id = some n)
    (late : id ≠ NodeTree.root ∨
      request = .create markup ∧ (tree.arguments? NodeTree.root).isSome = true)
    (template : run.state.heap.kind n = .template) :
    let doc := tree.linkParents
    let elements := (doc.elements id).filter fun c => !doc.isIgnorableNode c
    (elements = [] ∧ (run.state.heap.object n).template = none) ∨
      ∃ top content place, elements = [top] ∧
        (run.state.heap.object n).template = some content ∧
        doc.Excerpt env.extensions top content.tree place := by
  have proper := (NodeTree.proper_of_read read).1
  have shaped := NodeTree.shaped_of_read read
  obtain ⟨ended', last⟩ := run
  obtain rfl : ended' = .ok () := ended
  rcases loads with rfl | ⟨target, inside, rfl⟩
  · obtain ⟨s, before, created, filled, begun, -, course⟩ :=
      Load.course_of_create proper (start_of_create read ran)
    have new : id = NodeTree.root → s.rootInstance = none := by
      intro top
      cases begun with
      | later => rfl
      | made bare =>
        have takes := (late.resolve_left fun below => below top).2
        rw [bare] at takes
        cases takes
    have is := begun.tree
    subst is
    exact course.content proper shaped counts has new template
  · obtain ⟨before, created, filled, course⟩ :=
      Load.course_of_loadInto proper inside (start_of_loadInto read ran)
    refine course.content proper shaped counts has (fun top => ?_) template
    have no := (late.resolve_left fun below => below top).1
    cases no

/-- A template among views, with an expression in it that is looked up when it is instantiated. -/
theorem content_as_in_place_views :
    let env : Environment := ⟨.controls, .builtIn⟩
    let markup := "<Grid xmlns=\"http://xamarin.com/schemas/2014/forms\"><DataTemplate>" ++
      "<Label Text=\"\x7bStaticResource k\x7d\"/></DataTemplate></Grid>"
    let text : Attribute := ⟨⟨"", "Text"⟩, .raw "\x7bStaticResource k\x7d", ⟨1, 74⟩⟩
    let tree : NodeTree := ⟨#[
      ⟨⟨.root, ⟨formsNamespace, "Grid"⟩, [], [], [("", formsNamespace)], ⟨1, 1⟩⟩, [1], none⟩,
      ⟨⟨.element, ⟨formsNamespace, "DataTemplate"⟩, [], [], [], ⟨1, 53⟩⟩, [2], none⟩,
      ⟨⟨.element, ⟨formsNamespace, "Label"⟩, [], [text], [], ⟨1, 67⟩⟩, [], none⟩], []⟩
    let run := Run.ofStep (Loader.createThenRun env) (Loader.unrooted .empty tree false)
    NodeTree.read markup = .ok tree ∧ (create markup).run env false .empty = .ok run ∧
      run.ended = .ok () ∧ tree.isIgnorableNode NodeTree.root = false ∧
      run.state.context.object? 1 = some 1 ∧ run.state.heap.kind 1 = .template ∧
      ∃ content place, (run.state.heap.object 1).template = some content ∧
        tree.linkParents.Excerpt env.extensions 2 content.tree place := by
  intro env markup text tree run
  have read : NodeTree.read markup = .ok tree := NodeTree.read_of_toOption (by decide +kernel)
  have ran : (create markup).run env false .empty = .ok run := run_create read
  -- What the run leaves is worked out once.
  obtain ⟨ended, counts, has, template, elements⟩ :
      run.ended = .ok () ∧ tree.isIgnorableNode NodeTree.root = false ∧
      run.state.context.object? 1 = some 1 ∧ run.state.heap.kind 1 = .template ∧
      ((tree.linkParents.elements 1).filter fun c =>
        !tree.linkParents.isIgnorableNode c) = [2] := by
    decide +kernel
  refine ⟨read, ran, ended, counts, has, template, ?_⟩
  obtain ⟨none, -⟩ | ⟨top, content, place, only, kept, excerpt⟩ :=
    content_as_in_place env false .empty read (.inl rfl) ran ended counts has (.inl nofun) template
  · rw [elements] at none
    cases none
  · rw [elements] at only
    cases only
    exact ⟨content, place, kept, excerpt⟩

/-- The outermost template is made before anything is expanded: an attribute in it stays as it was
written, and the default namespace is not declared any more. -/
theorem content_of_outermost_stays_raw :
    let env : Environment := ⟨.controls, .builtIn⟩
    let markup := "<DataTemplate xmlns=\"http://xamarin.com/schemas/2014/forms\">" ++
      "<Label Text=\"a\"/></DataTemplate>"
    let tree : NodeTree := ⟨#[
      ⟨⟨.root, ⟨formsNamespace, "DataTemplate"⟩, [], [], [("", formsNamespace)], ⟨1, 1⟩⟩, [1],
        none⟩,
      ⟨⟨.element, ⟨formsNamespace, "Label"⟩, [], [⟨⟨"", "Text"⟩, .raw "a", ⟨1, 68⟩⟩], [],
        ⟨1, 61⟩⟩, [], none⟩], []⟩
    let run := Run.ofStep (Loader.createThenRun env) (Loader.unrooted .empty tree false)
    let content := (run.state.heap.object 0).template.map (·.tree)
    NodeTree.read markup = .ok tree ∧
      (create markup).run env false .empty = .ok run ∧ run.ended = .ok () ∧
      run.state.context.object? NodeTree.root = some 0 ∧ run.state.heap.kind 0 = .template ∧
      content.map (fun t => (t.node 0).attributes.map (·.value)) = some [.raw "a"] ∧
      content.map (fun t => t.linkParents.lookUpNamespace 0 "") = some none ∧
      tree.linkParents.lookUpNamespace 1 "" = some formsNamespace := by
  intro env markup tree run content
  have read : NodeTree.read markup = .ok tree := NodeTree.read_of_toOption (by decide +kernel)
  have ran : (create markup).run env false .empty = .ok run := run_create read
  refine ⟨read, ran, ?_⟩
  decide +kernel

end Request

end MarkupLoader
