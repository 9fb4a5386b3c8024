import MarkupLoader.Proofs.Readings
import MarkupLoader.Proofs.Walks

/-!
# The shape of documents that have been read

What a reader puts into a document, besides listing every node once:

* **texts** have nothing inside and no attributes;
* **property elements** are named like their elements;
* no node but the first is an **outermost** one.

Main results: `NodeTree.proper_of_read`, `NodeTree.shaped_of_read`.
-/

namespace MarkupLoader

/-- A node as it may stand inside a document. -/
structure NodeBody.Inner (n : NodeBody) : Prop where
  root : n.kind ≠ .root
  property : ∀ name, n.kind = .property name → n.typeName = name
  text : ∀ content, n.kind = .text content → n.attributes = []

namespace Forest

/-- A forest of nodes as they may stand inside a document, of which texts have nothing below. -/
def Shaped : Forest → Prop
  | nil => True
  | cons body children siblings =>
    body.Inner ∧ (∀ content, body.kind = .text content → children = nil) ∧
      children.Shaped ∧ siblings.Shaped

/-- A text stands in front of other nodes. -/
theorem shaped_text (content : String) (position : Position) {siblings : Forest}
    (shaped : siblings.Shaped) : (cons (.ofText content position) nil siblings).Shaped :=
  ⟨⟨nofun, nofun, fun _ _ => rfl⟩, fun _ _ => rfl, trivial, shaped⟩

theorem Shaped.nodes {f : Forest} (shaped : f.Shaped) {base : NodeId} {n : Node}
    (mem : n ∈ f.nodes base) :
    n.Inner ∧ ∀ content, n.kind = .text content → n.children = [] := by
  induction f generalizing base with
  | nil => cases mem
  | cons body children siblings below after =>
    obtain ⟨inner, leaf, shapedBelow, shapedAfter⟩ := shaped
    rcases List.mem_cons.1 mem with rfl | mem
    · exact ⟨inner, fun content is => by rw [leaf content is]; rfl⟩
    · rcases List.mem_append.1 mem with mem | mem
      · exact below shapedBelow mem
      · exact after shapedAfter mem

end Forest

/-! ## Reading -/

/-- An element inside the outermost one is an ordinary element or named like its property. -/
theorem kind_of_readOpenTag_inner {scopes : Scopes} {c after : Cursor} {opened : OpenTag}
    (read : readOpenTag scopes false c = .ok (opened, after)) :
    opened.body.kind = .element ∨ opened.body.kind = .property opened.body.typeName := by
  obtain ⟨-, meant, -⟩ := readOpenTag_eq_ok_iff.1 read
  obtain ⟨name, given, -, -, is, -⟩ := StartTag.body_eq_ok_iff.1 meant
  have either : ∀ name, StartTag.kindOf false name = .element ∨
      StartTag.kindOf false name = .property name := by
    intro name
    rw [StartTag.kindOf, if_neg Bool.false_ne_true]
    split
    · exact .inr rfl
    · exact .inl rfl
  rw [is]
  exact either name

/-- An element inside the outermost one may stand there, with anything below it. -/
theorem Forest.shaped_element {scopes : Scopes} {c after : Cursor} {opened : OpenTag}
    (read : readOpenTag scopes false c = .ok (opened, after)) {children siblings : Forest}
    (below : children.Shaped) (later : siblings.Shaped) :
    (Forest.cons opened.body children siblings).Shaped := by
  have kind := kind_of_readOpenTag_inner read
  have no_text : ∀ content, opened.body.kind ≠ .text content := by
    intro content is
    rcases kind with kind | kind <;> cases kind.symm.trans is
  refine ⟨⟨?_, ?_, fun content is => absurd is (no_text content)⟩,
    fun content is => absurd is (no_text content), below, later⟩
  · rcases kind with kind | kind <;> rw [kind] <;> exact nofun
  · intro name is
    rcases kind with kind | kind
    · cases kind.symm.trans is
    · exact NodeKind.property.inj (kind.symm.trans is)

theorem text_of_readCharacterData {c after : Cursor} {text : NodeBody}
    (read : readCharacterData c = .ok (text, after)) :
    ∃ content, text = .ofText content c.position := by
  obtain ⟨text, -, is⟩ := readCharacterData_eq_ok_iff.1 read
  exact ⟨_, is⟩

theorem text_of_readText {c after : Cursor} {text : NodeBody}
    (read : readText c = .ok (some text, after)) :
    ∃ content, text = .ofText content c.position := by
  obtain ⟨-, ⟨-, none⟩ | ⟨-, decoded, -, is⟩⟩ := readText_eq_ok_iff.1 read
  · cases none
  · exact ⟨_, Option.some.inj is⟩

/-- Forests as a reader builds them: of texts with nothing below and of elements whose start tags
have been read. -/
inductive Forest.Content : Forest → Prop
  | nil : Content nil
  | text (content : String) (position : Position) {siblings : Forest} (later : Content siblings) :
      Content (cons (.ofText content position) nil siblings)
  | element {scopes : Scopes} {c after : Cursor} {opened : OpenTag} {children siblings : Forest}
      (read : readOpenTag scopes false c = .ok (opened, after)) (below : Content children)
      (later : Content siblings) : Content (cons opened.body children siblings)

/-- The content of an element is built like that. -/
theorem Forest.content_of_readContent {fuel : Nat} {tag : StartTag} {scopes : Scopes}
    {c after : Cursor} {f : Forest} (read : readContent tag scopes fuel c = .ok (f, after)) :
    f.Content := by
  induction fuel generalizing tag scopes c after f with
  | zero => cases read
  | succ fuel ih =>
    obtain ⟨-, reads⟩ := readContent_eq_ok_iff.1 read
    cases reads with
    | ending => exact .nil
    | passed _ _ rest | blank _ _ rest => exact ih rest
    | characterData _ taken rest =>
      obtain ⟨content, rfl⟩ := text_of_readCharacterData taken
      exact .text content _ (ih rest)
    | text _ taken rest =>
      obtain ⟨content, rfl⟩ := text_of_readText taken
      exact .text content _ (ih rest)
    | element _ opened below rest =>
      -- Whatever was read below the element, its siblings begin where it ends.
      refine .element opened ?_ (ih rest)
      split at below
      · cases below
        exact .nil
      · exact ih below

/-- What a reader builds is shaped. -/
theorem Forest.Content.shaped {f : Forest} (content : f.Content) : f.Shaped := by
  induction content with
  | nil => trivial
  | text content position _ later => exact shaped_text content position later
  | element read _ _ below later => exact shaped_element read below later

/-! ## Attributes -/

/-- A node whose attributes are texts as they were written. -/
def NodeBody.Unread (n : NodeBody) : Prop := ∀ a ∈ n.attributes, ∃ text, a.value = .raw text

/-- The attribute that is contributed to a node is a text as it was written. -/
theorem RawAttribute.Contributes.unread {scopes : Scopes} {outermost : Bool} {w : RawAttribute}
    {given : Contribution} {a : Attribute}
    (contributed : w.Contributes scopes outermost given)
    (own : given.attribute? = some a) : a.value = .raw w.value := by
  cases contributed with
  | declaration => cases own
  | named _ _ adds =>
    cases adds with
    | ignorable | compatibility => cases own
    | arguments | plain =>
      cases own
      rfl

/-- The attributes that a start tag gives its node are texts as they were written. -/
theorem unread_of_readOpenTag {scopes : Scopes} {outermost : Bool} {c after : Cursor}
    {opened : OpenTag} (read : readOpenTag scopes outermost c = .ok (opened, after)) :
    opened.body.Unread := by
  obtain ⟨-, meant, -⟩ := readOpenTag_eq_ok_iff.1 read
  obtain ⟨name, given, -, contribute, is, -⟩ := StartTag.body_eq_ok_iff.1 meant
  rw [is]
  intro a mem
  obtain ⟨contribution, mem, own⟩ := List.mem_filterMap.1 mem
  obtain ⟨w, -, contributed⟩ := exists_of_forall₂ contribute mem
  exact ⟨w.value, contributed.unread own⟩

/-- All attributes in what a reader builds are texts as they were written. -/
theorem Forest.Content.unread {f : Forest} (content : f.Content) {base : NodeId} {n : Node}
    (mem : n ∈ f.nodes base) : n.Unread := by
  induction content generalizing base with
  | nil => cases mem
  | text content position _ later =>
    rcases List.mem_cons.1 mem with rfl | mem
    · exact List.forall_mem_nil _
    · exact later mem
  | element read _ _ below later =>
    rcases List.mem_cons.1 mem with rfl | mem
    · exact unread_of_readOpenTag read
    · rcases List.mem_append.1 mem with mem | mem
      · exact below mem
      · exact later mem

/-! ## Documents -/

/-- The body of the outermost element is that of a root. -/
theorem kind_of_readOpenTag {scopes : Scopes} {c after : Cursor} {opened : OpenTag}
    (read : readOpenTag scopes true c = .ok (opened, after)) : opened.body.kind = .root := by
  obtain ⟨-, meant, -⟩ := readOpenTag_eq_ok_iff.1 read
  obtain ⟨name, given, -, -, is, -⟩ := StartTag.body_eq_ok_iff.1 meant
  rw [is]
  rfl

/-- What has been read is an outermost element over a forest. -/
theorem NodeTree.forest_of_read {markup : String} {tree : NodeTree}
    (read : NodeTree.read markup = .ok tree) :
    ∃ (outer : NodeBody) (below : Forest) (ignorable : List String), outer.kind = .root ∧
      outer.Unread ∧ below.Content ∧ tree = ofForest outer below ignorable := by
  obtain ⟨start, outer, inside, below, after, -, opened, content, rfl⟩ := read_eq_ok_iff.1 read
  refine ⟨_, below, _, kind_of_readOpenTag opened, unread_of_readOpenTag opened, ?_, rfl⟩
  -- An outermost element that closes itself has nothing below it.
  split at content
  · cases content
    exact .nil
  · exact Forest.content_of_readContent content

/-- A document is a proper tree whose outermost node is an element. -/
theorem NodeTree.proper_of_read {markup : String} {tree : NodeTree}
    (read : NodeTree.read markup = .ok tree) :
    tree.Proper ∧ (tree.node NodeTree.root).isObject = true := by
  obtain ⟨outer, below, ignorable, kind, -, -, rfl⟩ := forest_of_read read
  refine ⟨proper_ofForest _ _ _, ?_⟩
  show outer.isObject = true
  rw [NodeBody.isObject, kind]

/-- A document whose nodes stand where they may. -/
structure NodeTree.Shaped (t : NodeTree) : Prop where
  root : (t.node root).kind = .root
  inner : ∀ id, id ≠ NodeTree.root → id < t.size → (t.node id).Inner
  leaf : ∀ id, id ≠ NodeTree.root → id < t.size →
    ∀ content, (t.node id).kind = .text content → (t.node id).children = []

/-- The nodes of a document below the outermost one are those of the forest. -/
theorem NodeTree.mem_nodes_of_ofForest {outer : NodeBody} {below : Forest} {ignorable : List String}
    {id : NodeId} (ne : id ≠ root) (inside : id < (ofForest outer below ignorable).size) :
    (ofForest outer below ignorable).node id ∈ below.nodes 1 := by
  obtain ⟨i, rfl⟩ := Nat.exists_eq_add_one_of_ne_zero ne
  rw [size_ofForest, Nat.add_lt_add_iff_right, ← Forest.length_nodes below 1] at inside
  simp only [ofForest, node, List.getElem?_toArray, List.getElem?_cons_succ,
    List.getElem?_eq_getElem inside, Option.getD_some]
  exact List.getElem_mem inside

/-- What has been read is shaped. -/
theorem NodeTree.shaped_of_read {markup : String} {tree : NodeTree}
    (read : NodeTree.read markup = .ok tree) : tree.Shaped := by
  obtain ⟨outer, below, ignorable, kind, -, content, rfl⟩ := forest_of_read read
  have shaped := content.shaped
  exact ⟨kind, fun id ne inside => (shaped.nodes (mem_nodes_of_ofForest ne inside)).1,
    fun id ne inside => (shaped.nodes (mem_nodes_of_ofForest ne inside)).2⟩

/-- All attributes of a document that has been read are texts as they were written. -/
theorem NodeTree.unread_of_read {markup : String} {tree : NodeTree}
    (read : NodeTree.read markup = .ok tree) (id : NodeId) : (tree.node id).Unread := by
  obtain ⟨outer, below, ignorable, -, unread, content, rfl⟩ := forest_of_read read
  by_cases top : id = root
  · rw [top]
    exact unread
  by_cases inside : id < (ofForest outer below ignorable).size
  · exact content.unread (mem_nodes_of_ofForest top inside)
  · have nothing : (ofForest outer below ignorable).node id = default := by
      have outside := Nat.le_of_not_lt inside
      unfold size at outside
      simp [node, outside]
    rw [nothing]
    exact List.forall_mem_nil _

end MarkupLoader
