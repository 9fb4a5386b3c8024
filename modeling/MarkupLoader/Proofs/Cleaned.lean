import MarkupLoader.Proofs.Contents

/-!
# What the first passes leave of a document

The first three passes of a load (`Load.cleanUp`) look at the text of a document only: they link its
nodes, expand the attributes and take out what may be ignored.

* **Attributes have been expanded** (`Attribute.Expanded`): to texts that stand for themselves, or
  to expressions whose prefixes are resolved where they stand (`Expression.Resolved`) and whose
  extensions are known.
* **What survives** (`NodeTree.survives`) are the nodes that neither are taken out nor are below one
  that is, in the same order as before.
* **The outermost element is the exception.** Expansion leaves an element that may be ignored to
  pruning, and does not enter it; pruning does not take out the outermost element, and does not
  enter it either. A document whose outermost element may be ignored loses attributes that may be
  ignored, and nothing else is done to it.

Main results: `Prepared.reachable`, `cleaned_document`.
-/

namespace MarkupLoader

/-! ## Resolved expressions -/

/-- The namespaces of all names inside arguments are those that their prefixes stand for. -/
def Args.Resolved (declared : String → Option String) : Args → Prop
  | nil => True
  | text _ _ others => others.Resolved declared
  | nested _ head inner others =>
    declared head.prefixKey = some head.namespaceUri ∧ inner.Resolved declared ∧
      others.Resolved declared

/-- The namespaces of all names in an expression are those that their prefixes stand for. -/
structure Expression.Resolved (declared : String → Option String) (x : Expression) : Prop where
  head : declared x.head.prefixKey = some x.head.namespaceUri
  args : x.args.Resolved declared

/-- Looking up the names of arguments resolves them, unless a prefix is missing. -/
theorem Args.resolved_of_lookUp {declared : String → Option String} (args : Args) :
    ∀ {found : Args}, args.lookUp declared = (found, none) → found.Resolved declared := by
  induction args with
  | nil =>
    intro found is
    cases is
    trivial
  | text key value others ih =>
    intro found is
    rw [lookUp] at is
    rcases rest : others.lookUp declared with ⟨others', missing⟩
    rw [rest] at is
    cases is
    show others'.Resolved declared
    exact ih rest
  | nested key head inner others ihInner ihOthers =>
    -- A prefix that is missing anywhere is what the look-up ends with.
    intro found is
    rw [lookUp] at is
    cases here : declared head.prefixKey with
    | none =>
      rw [here] at is
      cases is
    | some uri =>
      rcases inside : inner.lookUp declared with ⟨inner', missing⟩
      rcases rest : others.lookUp declared with ⟨others', missing'⟩
      rw [here, inside, rest] at is
      cases missing with
      | some missing => cases is
      | none =>
        cases is
        exact ⟨here, ihInner inside, ihOthers rest⟩

theorem Expression.resolved_of_lookUp {declared : String → Option String} {x found : Expression}
    (is : x.lookUp declared = (found, none)) : found.Resolved declared := by
  rw [lookUp] at is
  cases here : declared x.head.prefixKey with
  | none =>
    rw [here] at is
    cases is
  | some uri =>
    rcases inside : x.args.lookUp declared with ⟨args, missing⟩
    rw [here, inside] at is
    cases is
    exact ⟨here, Args.resolved_of_lookUp x.args inside⟩

/-! ## Expanded attributes -/

/-- An attribute that expansion is done with: a text that stands for itself, or an expression that
is resolved at its place and calls known extensions only. -/
def Attribute.Expanded (extensions : Extensions) (t : NodeTree) (id : NodeId) (a : Attribute) :
    Prop :=
  (∃ text, a.value = .literal text) ∨
    ∃ x, a.value = .expression x ∧ x.Resolved (t.lookUpNamespace id) ∧ extensions.check x = .ok ()

namespace NodeTree

variable {t doc : NodeTree} {extensions : Extensions} {id : NodeId}

theorem settled_of_settle {x y : Expression} (settled : t.settle extensions id x = .ok y) :
    y.Resolved (t.lookUpNamespace id) ∧ extensions.check y = .ok () := by
  unfold settle at settled
  split at settled
  case h_1 => cases settled
  case h_2 found is =>
    split at settled
    case h_1 => cases settled
    case h_2 checked =>
      cases settled
      exact ⟨Expression.resolved_of_lookUp is, checked⟩

/-- A text that is expanded is done with, unless it may be ignored. -/
theorem expanded_of_expandAttribute {a b : Attribute} {text : String} (unread : a.value = .raw text)
    (expands : t.expandAttribute extensions id a = .ok b)
    (counts : t.isIgnorable b.name.namespaceUri = false) : b.Expanded extensions t id := by
  rw [name_of_expandAttribute expands] at counts
  unfold expandAttribute at expands
  rw [unread] at expands
  simp only [counts, Bool.false_eq_true, if_false] at expands
  split at expands
  case isTrue =>
    -- Directives keep their texts, whatever these look like.
    cases expands
    exact .inl ⟨text, rfl⟩
  case isFalse =>
    split at expands
    case h_2 => cases expands
    case h_1 value read =>
      cases expands
      unfold expandText at read
      split at read
      case h_1 => cases read
      case h_2 => cases read; exact .inl ⟨_, rfl⟩
      case h_3 => cases read; exact .inl ⟨_, rfl⟩
      case h_4 =>
        obtain ⟨x, settled, rfl⟩ := ok_of_map read
        exact .inr ⟨x, rfl, settled_of_settle settled⟩

/-! ## What survives -/

/-- Whether neither the node at a place nor one above it is taken out; the outermost element never
is. -/
def survives (t : NodeTree) (id : NodeId) : Bool :=
  (t.selfAndAncestors id).all fun n => n == root || !t.isPrunable n

section Surviving

variable (linked : doc.Linked) (proper : doc.Proper)
include linked

theorem survives_root : doc.survives root = true := by
  have top : doc.ancestors root = [] := by
    unfold ancestors
    cases doc.size with
    | zero => rfl
    | succ fuel => rw [ancestorsFrom, linked.root]
  rw [survives, selfAndAncestors, top]
  rfl

include proper

/-- A child survives if its parent does and it is not taken out itself. -/
theorem survives_child {p c : Nat} (above : doc.Reaches (fun _ => false) root p)
    (listed : c ∈ (doc.node p).children) :
    doc.survives c = (!doc.isPrunable c && doc.survives p) := by
  have later := proper.later p c listed
  have below : (c == root) = false := beq_false_of_ne (Nat.ne_zero_of_lt later)
  rw [survives, selfAndAncestors, linked.ancestors_child proper above listed, List.all_cons, below,
    Bool.false_or]
  rfl

/-- Nothing survives below a node that does not survive. -/
theorem survives_below {top n : NodeId} (above : doc.Reaches (fun _ => false) root top)
    (below : doc.Reaches (fun _ => false) top n) (out : doc.survives top = false) :
    doc.survives n = false := by
  induction below with
  | top => exact out
  | child between _ listed ih =>
    rw [survives_child linked proper (above.trans between) listed, ih, Bool.and_false]

end Surviving

/-- What a walk down comes to is below the place that it starts from. -/
theorem reaches_of_mem_descend {skip : NodeId → Bool} {depth : Nat} {top n : NodeId}
    (mem : n ∈ t.descend skip depth top) : t.Reaches skip top n := by
  induction depth generalizing top with
  | zero =>
    rw [List.mem_singleton.1 mem]
    exact .top
  | succ depth ih =>
    rw [descend] at mem
    rcases List.mem_cons.1 mem with rfl | mem
    · exact .top
    · cases enters : skip top with
      | true =>
        rw [enters] at mem
        cases mem
      | false =>
        rw [enters] at mem
        obtain ⟨c, listed, mem⟩ := List.mem_flatMap.1 mem
        exact reaches_iff.2 (.inr ⟨enters, c, listed, ih mem⟩)

section Prepared

variable (prepared : Prepared extensions doc t) (linked : doc.Linked) (proper : doc.Proper)
include prepared linked proper

theorem Prepared.descend {depth : Nat} {top : NodeId} (above : t.Reaches (fun _ => false) root top)
    (survives : doc.survives top = true) :
    t.descend (fun _ => false) depth top =
      (doc.descend (fun _ => false) depth top).filter doc.survives := by
  induction depth generalizing top with
  | zero =>
    rw [NodeTree.descend, NodeTree.descend, List.filter_cons_of_pos survives, List.filter_nil]
  | succ depth ih =>
    have above' : doc.Reaches (fun _ => false) root top := prepared.reaches .top above
    rw [NodeTree.descend, NodeTree.descend, List.filter_cons_of_pos survives,
      prepared.children top above]
    simp only [Bool.false_eq_true, if_false, List.filter_flatMap]
    congr 1
    -- Child by child: one that is taken out has nothing left below it.
    have each : ∀ children : List NodeId, (∀ c ∈ children, c ∈ (doc.node top).children) →
        (children.filter fun c => !doc.isPrunable c).flatMap
            (t.descend (fun _ => false) depth) =
          children.flatMap fun c => (doc.descend (fun _ => false) depth c).filter doc.survives := by
      intro children
      induction children with
      | nil => exact fun _ => rfl
      | cons c rest others =>
        intro listed
        obtain ⟨here, later⟩ := List.forall_mem_cons.1 listed
        have child := survives_child linked proper above' here
        rw [survives, Bool.and_true] at child
        rw [List.flatMap_cons]
        cases out : doc.isPrunable c with
        | true =>
          have reached : doc.Reaches (fun _ => false) root c := .child above' rfl here
          rw [out] at child
          have nothing : (doc.descend (fun _ => false) depth c).filter doc.survives = [] := by
            refine List.filter_eq_nil_iff.2 fun n mem => ?_
            rw [survives_below linked proper reached (reaches_of_mem_descend mem) child]
            exact Bool.false_ne_true
          rw [List.filter_cons_of_neg (by simp [out]), others later, nothing, List.nil_append]
        | false =>
          rw [out] at child
          have kept : c ∈ (t.node top).children := by
            rw [prepared.children top above]
            exact List.mem_filter.2 ⟨here, by simp [out]⟩
          rw [List.filter_cons_of_pos (by simp [out]), List.flatMap_cons, others later,
            ih (.child above rfl kept) child]
    exact each _ fun _ mem => mem

/-- **A prepared document has the nodes that survive**, in the order of the document. -/
theorem Prepared.reachable : t.reachable = doc.reachable.filter doc.survives := by
  unfold NodeTree.reachable
  rw [preorder_eq prepared.proper.layers, preorder_eq proper.layers, prepared.size]
  exact prepared.descend linked proper .top (survives_root linked)

end Prepared

section Prepared

variable (prepared : Prepared extensions doc t)
include prepared

/-- No element and no property element is left that may be ignored. -/
theorem Prepared.isPrunable_eq_false (reached : t.Reaches (fun _ => false) root id) :
    t.isPrunable id = false := by
  refine Bool.eq_false_iff.2 fun prunable => ?_
  have ignored := isIgnorableNode_of_isPrunable prunable
  have body := prepared.body id
  rw [isIgnorableNode, isIgnorable, prepared.ignorable, body] at ignored
  obtain ⟨content, text⟩ := prepared.clean id reached ignored
  rw [isPrunable, body] at prunable
  simp [text] at prunable

/-- No attribute is left that may be ignored. -/
theorem Prepared.isIgnorable_eq_false (reached : t.Reaches (fun _ => false) root id) :
    ∀ a ∈ (t.node id).attributes, t.isIgnorable a.name.namespaceUri = false := by
  intro a mem
  rw [prepared.attributes id reached] at mem
  have counts : doc.isIgnorable a.name.namespaceUri = false := by
    simpa using (List.mem_filter.1 mem).2
  rwa [isIgnorable, prepared.ignorable]

/-- What is left of attributes that were written has been expanded. -/
theorem Prepared.expanded (unread : (doc.node id).Unread)
    (reached : t.Reaches (fun _ => false) root id) :
    ∀ a ∈ (t.node id).attributes, a.Expanded extensions t id := by
  intro a mem
  rw [prepared.attributes id reached] at mem
  obtain ⟨mem, counts⟩ := List.mem_filter.1 mem
  obtain ⟨written, mem, becomes⟩ := List.mem_filterMap.1 mem
  obtain ⟨text, is⟩ := unread written mem
  rw [Attribute.Expanded, prepared.lookUpNamespace]
  cases expands : doc.expandAttribute extensions id written with
  | error _ =>
    rw [expands] at becomes
    cases becomes
  | ok b =>
    rw [expands] at becomes
    cases becomes
    exact expanded_of_expandAttribute is expands (by simpa using counts)

end Prepared

/-! ## Documents that are not entered -/

section Ignored

variable {e : NodeTree} (proper : doc.Proper) (ignored : doc.isIgnorableNode root = true)
include proper ignored

/-- Nothing but an outermost element that may be ignored is come to. -/
theorem preorder_of_ignored : doc.preorder doc.isIgnorableNode = [root] := by
  rw [preorder_eq proper.layers, descend_size proper.layers, if_pos ignored]

theorem expands_of_ignored
    (expands : Expands extensions doc (doc.preorder doc.isIgnorableNode) e) : e = doc := by
  refine eq_of_node expands.size expands.ignorable fun id => ?_
  rw [expands.node, preorder_of_ignored proper ignored, if_neg]
  rintro ⟨mem, counts⟩
  rw [List.mem_singleton.1 mem, ignored] at counts
  cases counts

/-- Pruning takes no node out of such a document, only attributes. -/
theorem prune_of_ignored (shaped : doc.Shaped) :
    doc.prune.reachable = doc.reachable ∧ ∀ id ∈ doc.reachable,
      (doc.prune.node id).attributes = doc.prunedAttributes id := by
  have nothing : doc.prunedNodes = [] := by
    rw [prunedNodes, preorder_of_ignored proper ignored]
    simp [isPrunable, shaped.root]
  have children : ∀ p, doc.keptChildren p = (doc.node p).children := by
    intro p
    simp [keptChildren, nothing]
  have walk : doc.pruneNodes.reachable = doc.reachable :=
    preorder_congr doc.size_pruneNodes fun n _ => ⟨by rw [node_pruneNodes, children], rfl⟩
  refine ⟨preorder_congr doc.size_prune fun n _ => ⟨by rw [node_prune, children], rfl⟩,
    fun id mem => ?_⟩
  rw [node_prune]
  simp [sift, drops, walk, mem, prunedAttributes]

end Ignored

end NodeTree

/-! ## The passes -/

/-- The passes that look at the text of a document only. -/
def Load.cleanUp (env : Environment) : Load Unit :=
  [Pass.parentLinking, .markupExpansion, .pruneIgnored].forM (completePass env)

namespace Load

variable {env : Environment}

/-- What the passes make of a tree, if they do not fail. -/
theorem ok_of_cleanUp {s after : LoadState} (proper : s.tree.Proper)
    (ran : (cleanUp env).start s = (.ok (), after)) :
    ∃ expanded, after.tree = expanded.prune ∧
      NodeTree.Expands env.extensions s.tree.linkParents
        (s.tree.linkParents.preorder s.tree.linkParents.isIgnorableNode) expanded := by
  -- Linking and pruning cannot fail; of expansion it is known that it did not.
  unfold cleanUp at ran
  rw [start_forM_cons] at ran
  obtain ⟨_, linked, first, ran⟩ := ok_of_start_bind ran
  cases first
  rw [start_forM_cons] at ran
  obtain ⟨_, expanded, second, ran⟩ := ok_of_start_bind ran
  obtain ⟨_, completed, expand, second⟩ := ok_of_start_bind second
  cases second
  rw [start_forM_cons] at ran
  obtain ⟨_, pruned, third, ran⟩ := ok_of_start_bind ran
  cases third
  cases ran
  obtain ⟨t, diagnostics, is, expands⟩ := ok_of_expandMarkup proper.linkParents expand
  exact ⟨t, by rw [is]; rfl, expands⟩

/-- **What the first passes leave of a document that has been read**, in any load in which they do
not fail. No attribute is left that may be ignored. If the outermost element may not be ignored,
all attributes that can be reached have been expanded, no element and no property element is left
that may be ignored, and the nodes that can be reached are those that survive, in the same order. If
it may be ignored, all nodes stay, with their attributes as they were written. -/
theorem cleaned_document {markup : String} {doc : NodeTree} {s after : LoadState}
    (read : NodeTree.read markup = .ok doc) (tree : s.tree = doc)
    (ran : (cleanUp env).start s = (.ok (), after)) :
    let linked := doc.linkParents
    (∀ id ∈ after.tree.reachable, ∀ a ∈ (after.tree.node id).attributes,
        after.tree.isIgnorable a.name.namespaceUri = false) ∧
      (doc.isIgnorableNode NodeTree.root = false →
        (∀ id ∈ after.tree.reachable, ∀ a ∈ (after.tree.node id).attributes,
          a.Expanded env.extensions after.tree id) ∧
        (∀ id ∈ after.tree.reachable, id ≠ NodeTree.root → after.tree.isPrunable id = false) ∧
        after.tree.reachable = linked.reachable.filter linked.survives) ∧
      (doc.isIgnorableNode NodeTree.root = true →
        after.tree.reachable = linked.reachable ∧
        ∀ id ∈ linked.reachable, (after.tree.node id).attributes =
          (doc.node id).attributes.filter fun a => !doc.isIgnorable a.name.namespaceUri) := by
  intro linked
  have properDoc := (NodeTree.proper_of_read read).1
  have proper : linked.Proper := properDoc.linkParents
  have parents : linked.Linked := NodeTree.linked_linkParents properDoc
  have shaped : linked.Shaped := (NodeTree.shaped_of_read read).linkParents properDoc
  -- Linking leaves alone what may be ignored, and the attributes.
  have body := NodeTree.body_linkParents properDoc
  have names : linked.isIgnorable = doc.isIgnorable := NodeTree.isIgnorable_linkParents doc
  have same : linked.isIgnorableNode NodeTree.root = doc.isIgnorableNode NodeTree.root :=
    congrFun (NodeTree.isIgnorableNode_linkParents properDoc) NodeTree.root
  subst tree
  obtain ⟨expanded, is, expands⟩ := ok_of_cleanUp properDoc ran
  rw [is]
  cases counts : s.tree.isIgnorableNode NodeTree.root with
  | false =>
    have prepared : NodeTree.Prepared env.extensions linked expanded.prune :=
      NodeTree.prepared_prune proper parents shaped (same.trans counts) expands
    have reached : ∀ id ∈ expanded.prune.reachable,
        expanded.prune.Reaches (fun _ => false) NodeTree.root id :=
      fun id mem => (NodeTree.mem_preorder prepared.proper).1 mem
    have unread : ∀ id, (linked.node id).Unread := by
      intro id
      rw [body]
      exact NodeTree.unread_of_read read id
    exact ⟨fun id mem => prepared.isIgnorable_eq_false (reached id mem),
      fun _ => ⟨fun id mem => prepared.expanded (unread id) (reached id mem),
        fun id mem _ => prepared.isPrunable_eq_false (reached id mem),
        prepared.reachable parents proper⟩, fun other => absurd other Bool.false_ne_true⟩
  | true =>
    obtain rfl := NodeTree.expands_of_ignored proper (same.trans counts) expands
    -- Expansion has done nothing, and pruning has only sifted the attributes.
    obtain ⟨walk, attributes⟩ := NodeTree.prune_of_ignored proper (same.trans counts) shaped
    have left : ∀ id ∈ linked.reachable, (linked.prune.node id).attributes =
        (s.tree.node id).attributes.filter fun a => !s.tree.isIgnorable a.name.namespaceUri := by
      intro id mem
      rw [attributes id mem, NodeTree.prunedAttributes, names, body]
    refine ⟨fun id mem a there => ?_, fun other => absurd other.symm Bool.false_ne_true,
      fun _ => ⟨walk, left⟩⟩
    rw [left id (walk ▸ mem)] at there
    rw [NodeTree.isIgnorable_prune, names]
    simpa using (List.mem_filter.1 there).2

/-- Design-time data: an attribute and an element that may be ignored, neither of which could be
expanded. -/
theorem cleaned_document_label :
    let env : Environment := ⟨.controls, .builtIn⟩
    let markup := "<Label xmlns=\"http://xamarin.com/schemas/2014/forms\"" ++
      " xmlns:mc=\"http://schemas.openxmlformats.org/markup-compatibility/2006\"" ++
      " xmlns:d=\"urn:d\" mc:Ignorable=\"d\" d:Note=\"\x7b\"" ++
      " Text=\"\x7bStaticResource k\x7d\"><d:Data/></Label>"
    let declared := [("", formsNamespace), ("mc", compatibilityNamespace), ("d", "urn:d")]
    let doc : NodeTree := ⟨#[
      ⟨⟨.root, ⟨formsNamespace, "Label"⟩, [], [⟨⟨"urn:d", "Note"⟩, .raw "\x7b", ⟨1, 158⟩⟩,
        ⟨⟨"", "Text"⟩, .raw "\x7bStaticResource k\x7d", ⟨1, 169⟩⟩], declared, ⟨1, 1⟩⟩, [1], none⟩,
      ⟨⟨.element, ⟨"urn:d", "Data"⟩, [], [], [], ⟨1, 195⟩⟩, [], none⟩], ["urn:d"]⟩
    let run := (cleanUp env).start ⟨doc, none, .start none false [], .empty⟩
    NodeTree.read markup = .ok doc ∧ run.1 = .ok () ∧
      doc.isIgnorableNode NodeTree.root = false ∧
      (∀ id ∈ run.2.tree.reachable, ∀ a ∈ (run.2.tree.node id).attributes,
        a.Expanded env.extensions run.2.tree id) ∧
      doc.linkParents.reachable.filter doc.linkParents.survives = [NodeTree.root] ∧
      run.2.tree.reachable = [NodeTree.root] := by
  intro env markup declared doc run
  have read : NodeTree.read markup = .ok doc := NodeTree.read_of_toOption (by decide +kernel)
  have ok : run.1 = .ok () := by decide +kernel
  have counts : doc.isIgnorableNode NodeTree.root = false := by decide +kernel
  have left : doc.linkParents.reachable.filter doc.linkParents.survives = [NodeTree.root] := by
    decide +kernel
  have ran : run = (.ok (), run.2) := start_of_ok ok
  have cleaned := (cleaned_document read rfl ran).2.1 counts
  exact ⟨read, ok, counts, cleaned.1, left, cleaned.2.2.trans left⟩

/-- Nothing is expanded in a document whose outermost element may be ignored. -/
theorem cleaned_document_ignorable :
    let env : Environment := ⟨.controls, .builtIn⟩
    let markup := "<d:A xmlns:d=\"urn:d\"" ++
      " xmlns:mc=\"http://schemas.openxmlformats.org/markup-compatibility/2006\"" ++
      " mc:Ignorable=\"d\" Text=\"x\"/>"
    let text : Attribute := ⟨⟨"", "Text"⟩, .raw "x", ⟨1, 110⟩⟩
    let doc : NodeTree := ⟨#[⟨⟨.root, ⟨"urn:d", "A"⟩, [], [text],
      [("d", "urn:d"), ("mc", compatibilityNamespace)], ⟨1, 1⟩⟩, [], none⟩], ["urn:d"]⟩
    let run := (cleanUp env).start ⟨doc, none, .start none false [], .empty⟩
    NodeTree.read markup = .ok doc ∧ run.1 = .ok () ∧ NodeTree.root ∈ run.2.tree.reachable ∧
      text ∈ (run.2.tree.node NodeTree.root).attributes ∧
      ¬text.Expanded env.extensions run.2.tree NodeTree.root := by
  intro env markup text doc run
  have read : NodeTree.read markup = .ok doc := NodeTree.read_of_toOption (by decide +kernel)
  refine ⟨read, by decide +kernel, by decide +kernel, by decide +kernel, ?_⟩
  rintro (⟨_, is⟩ | ⟨_, is, _⟩) <;> cases is

end Load

end MarkupLoader
