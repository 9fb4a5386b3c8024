import MarkupLoader.Proofs.Contents
import MarkupLoader.Proofs.Copies
import MarkupLoader.Proofs.Creating
import MarkupLoader.Proofs.Rooting
import MarkupLoader.Proofs.Shape

/-!
# What an extracted subtree says

A subtree may be taken out of any document, also out of one that has been taken out before
(`NodeTree.Obtained`). **It is transcribed** (`NodeTree.Transcribes`): its places are numbered in
document order, and each of them stands for the node of the subtree that is met at that number.

* **Nodes** say the same, have the same children in the same order, and stand at the same positions
  of the text. Only the outermost one is of another kind, and declares what has been declared around
  it.
* **Prefixes** stand for the same namespaces everywhere, though nothing that is around the subtree
  comes along.

Whoever keeps a subtree goes on with the tree that it has been taken from.

Main results: `map_reachable_extract`, `Obtained.transcribes`, `extract_transcribes`.
-/

namespace MarkupLoader

/-- An element is made without touching the document, also if it is a template, which keeps a part
of the document. -/
theorem Load.tree_createNode {env : Environment} {s : LoadState} {id : NodeId} {made : Made}
    (makes : s.make env id = .ok made) : ((createNode env id).start s).2.tree = s.tree := by
  have setting : ∀ (value : Value) (t : LoadState),
      ((setValue id value).start t).2.tree = t.tree := by
    intro value t
    rw [start_setValue]
    split <;> rfl
  rw [createNode, start_get_bind, makes]
  by_cases top : id = NodeTree.root
  · simp only [if_pos top]
    cases made with
    | scalar value => cases value <;> exact setting _ _
    | object o => exact setting _ ((s.withObject o).adopting s.heap.size)
  · simp only [if_neg top]
    cases made with
    | scalar value => exact setting value s
    | object o => exact setting _ (s.withObject o)

namespace NodeTree

variable {t u : NodeTree} {top id i : Nat}

/-! ## Places in document order -/

/-- A node is met once among those at and below a place. -/
theorem nodup_below (proper : t.Proper) (top : NodeId) : (t.below [top]).Nodup := by
  rw [below, List.flatMap_singleton, (perm_descend t _ t.size top).nodup_iff]
  exact nodup_postorderFrom proper (by omega)

/-- A subtree has as many places as it has nodes. -/
theorem size_extract (proper : t.Proper) (top : NodeId) :
    (t.extract top).size = (t.below [top]).length := by
  rw [extract, size_ofForest, size_forestOf proper.layers (proper.layers.children_size top),
    below_singleton proper.layers, List.length_cons]

/-- The place with a number is met at that number. -/
theorem placeOf_eq {place : NodeId} (met : (t.below [top])[i]? = some place) :
    t.placeOf top i = place := by
  rw [placeOf, List.getD_eq_getElem?_getD, met]
  rfl

/-- A walk over a copy follows the walk over what it is a copy of. -/
theorem Copies.map_descend {place : NodeId → NodeId} (copies : t.Copies top u place) (depth : Nat)
    (inside : i < u.size) :
    (u.descend (fun _ => false) depth i).map place = t.descend (fun _ => false) depth (place i) := by
  induction depth generalizing i with
  | zero => rfl
  | succ depth ih =>
    have below : ∀ c ∈ (u.node i).children, (u.descend (fun _ => false) depth c).map place =
        t.descend (fun _ => false) depth (place c) := fun c listed =>
      ih (copies.proper.inside i c listed)
    simp only [descend, List.map_cons, Bool.false_eq_true, if_false]
    rw [List.map_flatMap, List.flatMap_congr below, ← copies.children i inside, List.flatMap_map]

/-- In document order the nodes of an extracted subtree stand for those of the subtree. -/
theorem map_reachable_extract (proper : t.Proper) (top : NodeId) :
    (t.extract top).reachable.map (t.placeOf top) = t.below [top] := by
  have copies := copies_extract proper.layers top
  have deeper : t.descend (fun _ => false) (t.size + (t.extract top).size) top =
      t.descend (fun _ => false) t.size top :=
    descend_deeper proper.layers (by omega) (Nat.le_add_right _ _)
  have deeper' : (t.extract top).descend (fun _ => false) (t.size + (t.extract top).size) root =
      (t.extract top).descend (fun _ => false) (t.extract top).size root :=
    descend_deeper copies.proper.layers (by omega) (Nat.le_add_left _ _)
  rw [reachable, preorder_eq copies.proper.layers, ← deeper',
    copies.map_descend (i := root) _ copies.proper.nonempty, copies.start, deeper, below,
    List.flatMap_singleton]

/-- The places of an extracted subtree are numbered in document order. -/
theorem reachable_extract (proper : t.Proper) (top : NodeId) :
    (t.extract top).reachable = List.range (t.extract top).size := by
  have copies := copies_extract proper.layers top
  have size := size_extract proper top
  have map := map_reachable_extract proper top
  have length : (t.extract top).reachable.length = (t.extract top).size := by
    rw [size, ← map, List.length_map]
  refine List.ext_getElem (by rw [length, List.length_range]) fun n inside inside' => ?_
  rw [List.getElem_range]
  -- Both sides stand for what is met at this number, and nothing is met twice.
  have bound : (t.extract top).reachable[n] < (t.extract top).size :=
    copies.proper.inside_of_reaches ((mem_preorder copies.proper).1 (List.getElem_mem inside))
  have met : (t.below [top])[n]? = some (t.placeOf top (t.extract top).reachable[n]) := by
    rw [← map, List.getElem?_map, List.getElem?_eq_getElem inside]
    rfl
  have here : (t.extract top).reachable[n] < (t.below [top]).length := size ▸ bound
  have itself : t.placeOf top (t.extract top).reachable[n] =
      (t.below [top])[(t.extract top).reachable[n]] :=
    placeOf_eq (List.getElem?_eq_getElem here)
  obtain ⟨there, is⟩ := List.getElem?_eq_some_iff.1 met
  exact ((nodup_below proper top).getElem_inj_iff.1 (is.trans itself)).symm

/-! ## Transcripts -/

/-- **A tree that says what the subtree at a place says**, numbered in document order. -/
structure Transcribes (t : NodeTree) (top : NodeId) (u : NodeTree) : Prop where
  size : u.size = (t.below [top]).length
  numbered : u.reachable = List.range u.size
  linked : u.Linked
  ignorable : u.ignorable = t.ignorable
  outermost : (u.node root).kind = .root
  kind : ∀ i place, (t.below [top])[i]? = some place → i ≠ root →
    (u.node i).kind = (t.node place).kind
  typeName : ∀ i place, (t.below [top])[i]? = some place →
    (u.node i).typeName = (t.node place).typeName ∧
      (u.node i).typeArguments = (t.node place).typeArguments
  attributes : ∀ i place, (t.below [top])[i]? = some place →
    (u.node i).attributes = (t.node place).attributes
  position : ∀ i place, (t.below [top])[i]? = some place →
    (u.node i).position = (t.node place).position
  /-- The children of a node stand for the children of what the node stands for, in their order. -/
  children : ∀ i place, (t.below [top])[i]? = some place →
    (u.node i).children.map (fun c => (t.below [top])[c]?) = (t.node place).children.map some
  /-- Only the outermost node may declare more than before. -/
  declares : ∀ i place, (t.below [top])[i]? = some place → i ≠ root →
    (u.node i).namespaces = (t.node place).namespaces
  lookUp : ∀ i place, (t.below [top])[i]? = some place →
    ∀ key, u.lookUpNamespace i key = t.lookUpNamespace place key

/-- An extracted subtree of a document whose nodes know their parents is a transcript. -/
theorem transcribes_extract (proper : t.Proper) (linked : t.Linked)
    (reached : t.Reaches (fun _ => false) root top) :
    t.Transcribes top (t.extract top).linkParents := by
  have copies := copies_extract proper.layers top
  have size := size_extract proper top
  have children := children_linkParents copies.proper
  have body := body_linkParents copies.proper
  have bound : ∀ i place, (t.below [top])[i]? = some place → i < (t.extract top).size :=
    fun i place met => size ▸ (List.getElem?_eq_some_iff.1 met).1
  -- Below the outermost node bodies are copied as they are.
  have inner : ∀ i place, (t.below [top])[i]? = some place → i ≠ root →
      ((t.extract top).linkParents.node i).toNodeBody = (t.node place).toNodeBody := by
    intro i place met below
    rw [body, copies.body i (bound i place met) below, placeOf_eq met]
  have first : ∀ place, (t.below [top])[root]? = some place → place = top := fun place met =>
    (placeOf_eq met).symm.trans copies.start
  have each : ∀ {α : Type} (part : NodeBody → α),
      part ((t.extract top).node root).toNodeBody = part (t.node top).toNodeBody →
      ∀ i place, (t.below [top])[i]? = some place →
        part ((t.extract top).linkParents.node i).toNodeBody = part (t.node place).toNodeBody := by
    intro α part outermost i place met
    by_cases is : i = root
    · subst is
      rw [first place met, body, outermost]
    · rw [inner i place met is]
  refine
    { size := (size_linkParents _).trans size
      numbered := ?_
      linked := linked_linkParents copies.proper
      ignorable := (ignorable_linkParents _).trans copies.ignorable
      outermost := (congrArg NodeBody.kind (body root)).trans (congrArg NodeBody.kind copies.first)
      kind := fun i place met below => congrArg NodeBody.kind (inner i place met below)
      typeName := fun i place met => ⟨each NodeBody.typeName (by rw [copies.first]) i place met,
        each NodeBody.typeArguments (by rw [copies.first]) i place met⟩
      attributes := each NodeBody.attributes (by rw [copies.first])
      position := each NodeBody.position (by rw [copies.first])
      children := fun i place met => ?_
      declares := fun i place met below => congrArg NodeBody.namespaces (inner i place met below)
      lookUp := fun i place met key => ?_ }
  · rw [size_linkParents, ← reachable_extract proper top]
    exact preorder_congr (size_linkParents _) fun n _ => ⟨children n, rfl⟩
  · have listed : ∀ c ∈ ((t.extract top).node i).children,
        (t.below [top])[c]? = some (t.placeOf top c) := by
      intro c listed
      have inside : c < (t.below [top]).length := size ▸ copies.proper.inside i c listed
      rw [List.getElem?_eq_getElem inside, placeOf_eq (List.getElem?_eq_getElem inside)]
    rw [children, List.map_congr_left listed, ← placeOf_eq met, ← copies.children i (bound i place met),
      List.map_map]
    rfl
  · rw [copies.lookUpNamespace proper linked reached (bound i place met), placeOf_eq met]

/-! ## Documents taken out of documents -/

/-- Documents that have been read, and subtrees that have been taken out of documents, before their
parents have been linked or after. -/
inductive Obtained : NodeTree → Prop
  | read {markup : String} {t : NodeTree} (read : NodeTree.read markup = .ok t) : Obtained t
  | linked {t : NodeTree} (obtained : Obtained t) : Obtained t.linkParents
  | extracted {t : NodeTree} (obtained : Obtained t) {top : NodeId} (inside : top < t.size) :
    Obtained (t.extract top)

/-- All places of such a document are those of nodes that can be reached. -/
theorem Obtained.reached (obtained : t.Obtained) :
    t.Proper ∧ ∀ i : Nat, i < t.size → t.Reaches (fun _ => false) root i := by
  induction obtained with
  | read read =>
    obtain ⟨outer, below, ignorable, -, -, -, rfl⟩ := forest_of_read read
    exact ⟨proper_ofForest outer below ignorable, fun i inside => reaches_ofForest inside⟩
  | @linked t _ ih =>
    obtain ⟨proper, reached⟩ := ih
    refine ⟨proper.linkParents, fun i inside => ?_⟩
    rw [size_linkParents] at inside
    exact (reached i inside).congr fun n _ => ⟨children_linkParents proper n, rfl⟩
  | @extracted t _ top _ ih =>
    have copies := copies_extract ih.1.layers top
    exact ⟨copies.proper, copies.reached⟩

/--
**A subtree keeps its meaning when it is extracted.** Wherever it is taken from, once parents are
linked it has the nodes of the subtree in document order, which say what they have said, and every
prefix stands for the same namespace at every node as it does there.

What is made from the tree keeps subtrees of it, if it is a template, and leaves the tree as it is.
-/
theorem extract_transcribes (obtained : t.Obtained) (inside : top < t.size) :
    t.linkParents.Transcribes top (t.linkParents.extract top).linkParents ∧
      ∀ (env : Environment) (s : LoadState) (id : NodeId) (made : Made),
        s.tree = t.linkParents → s.make env id = .ok made →
          ((Load.createNode env id).start s).2.tree = t.linkParents := by
  obtain ⟨proper, reached⟩ := obtained.linked.reached
  refine ⟨transcribes_extract proper (linked_linkParents obtained.reached.1)
    (reached top (by rwa [size_linkParents])), fun env s id made tree makes => ?_⟩
  rw [Load.tree_createNode makes, tree]

/-- The content of a template declares a prefix again. It is taken out, and then what is in it. -/
theorem extract_transcribes_twice :
    let controls := "http://xamarin.com/schemas/2014/forms"
    let text := "<DataTemplate xmlns=\"http://xamarin.com/schemas/2014/forms\" xmlns:p=\"v\">" ++
      "<p:b xmlns:p=\"w\" xmlns:q=\"z\"><Label p:k=\"1\">x</Label></p:b></DataTemplate>"
    let t : NodeTree := ⟨#[
      ⟨⟨.root, ⟨controls, "DataTemplate"⟩, [], [], [("", controls), ("p", "v")], ⟨1, 1⟩⟩, [1], none⟩,
      ⟨⟨.element, ⟨"w", "b"⟩, [], [], [("p", "w"), ("q", "z")], ⟨1, 73⟩⟩, [2], none⟩,
      ⟨⟨.element, ⟨controls, "Label"⟩, [], [⟨⟨"w", "k"⟩, .raw "1", ⟨1, 109⟩⟩], [], ⟨1, 102⟩⟩, [3],
        none⟩,
      ⟨.ofText "x" ⟨1, 117⟩, [], none⟩], []⟩
    let outer := t.linkParents.extract 1
    let inner := (outer.linkParents.extract 1).linkParents
    let env : Environment := ⟨.controls, .builtIn⟩
    let s := LoadState.initial t.linkParents none default .empty
    NodeTree.read text = .ok t ∧ 1 < t.size ∧ 1 < outer.size ∧
      t.linkParents.Transcribes 1 outer.linkParents ∧ outer.linkParents.Transcribes 1 inner ∧
      inner.size = 2 ∧
      ["", "p", "q", "r"].map (inner.lookUpNamespace 1 ·) =
        [some controls, some "w", some "z", none] ∧
      s.isTemplate env root = true ∧ ∃ made, s.make env root = .ok made ∧
        ((Load.createNode env root).start s).2.tree = t.linkParents := by
  intro controls text t outer inner env s
  have read : NodeTree.read text = .ok t := NodeTree.read_of_toOption (by decide +kernel)
  obtain ⟨inside, inside', size, prefixes, template, makes⟩ :
      1 < t.size ∧ 1 < outer.size ∧ inner.size = 2 ∧
        ["", "p", "q", "r"].map (inner.lookUpNamespace 1 ·) =
          [some controls, some "w", some "z", none] ∧
        s.isTemplate env root = true ∧ (s.make env root).toOption.isSome = true := by
    decide +kernel
  have tree : s.tree = t.linkParents := by
    show (LoadState.initial t.linkParents none default .empty).tree = _
    rw [LoadState.initial]
  have obtained : outer.Obtained :=
    .extracted (.linked (.read read)) (Nat.lt_of_lt_of_eq inside (size_linkParents t).symm)
  clear_value s
  obtain ⟨transcribes, unchanged⟩ := extract_transcribes (.read read) inside
  refine ⟨read, inside, inside', transcribes, (extract_transcribes obtained inside').1, size, prefixes,
    template, ?_⟩
  cases is : s.make env root with
  | ok made => exact ⟨made, rfl, unchanged env s root made tree is⟩
  | error e => rw [is] at makes; cases makes

end NodeTree

end MarkupLoader
