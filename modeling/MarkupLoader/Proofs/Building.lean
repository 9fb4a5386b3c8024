import MarkupLoader.Error
import MarkupLoader.Proofs.Readings

/-!
# Documents built in place

A reader may give the nodes of a document their places as it comes by them: it keeps **one tree**,
which is not there before the outermost element has been read, and **one stack** of declarations,
onto which every start tag pushes its own and from which they are popped where the element ends
(`Builder`). An element that is not the outermost one needs the tree to be put into, and a reader
that had none there would be at fault itself.

That does not happen: the builder reads what `NodeTree.read` reads, and fails as that does. The two
are compared at the content of an element. What is below the element as a forest
(`readContent`) is what the builder grafts onto the tree under the element (`NodeTree.graft`),
and the stack is afterwards what it was before.

Main results: `content_eq`, `read_eq`, `read_ne_internal`.
-/

namespace MarkupLoader

/-! ## Grafting -/

namespace NodeTree

/-- A forest laid out behind the nodes that are there, and its outermost nodes put under one of
them. -/
def graft (t : NodeTree) (id : NodeId) (f : Forest) : NodeTree :=
  { t with
    nodes := (t.modify id fun n => { n with children := n.children ++ f.roots t.size }).nodes ++
      (f.nodes t.size).toArray }

/-- A node added as the last child of another. -/
def addUnder (t : NodeTree) (id : NodeId) (body : NodeBody) : NodeTree :=
  (t.add body).2.appendChild id t.size

section Grafting

variable {t u : NodeTree} {id k : NodeId} {f : Forest}

theorem eq_of_nodes (size : t.size = u.size) (ignorable : t.ignorable = u.ignorable)
    (node : ∀ k < t.size, t.node k = u.node k) : t = u := by
  obtain ⟨first, names⟩ := t
  obtain ⟨second, names'⟩ := u
  obtain rfl : names = names' := ignorable
  have same : first = second := by
    refine Array.ext size fun i inside inside' => ?_
    have at_ := node i inside
    simpa [NodeTree.node, inside, inside'] using at_
  rw [same]

@[simp]
theorem size_graft (t : NodeTree) (id : NodeId) (f : Forest) :
    (t.graft id f).size = t.size + f.size := by
  simp [graft, size, modify, Forest.length_nodes]

@[simp]
theorem size_addUnder (t : NodeTree) (id : NodeId) (body : NodeBody) :
    (t.addUnder id body).size = t.size + 1 := by
  simp [addUnder, appendChild, add, size, modify]

/-- The nodes that are there stay, except that one of them gets more children. -/
theorem node_graft (inside : k < t.size) : (t.graft id f).node k =
    if k = id then { t.node k with children := (t.node k).children ++ f.roots t.size }
    else t.node k := by
  have there : k < t.nodes.size := inside
  have kept : (t.graft id f).node k =
      (t.modify id fun n => { n with children := n.children ++ f.roots t.size }).node k := by
    unfold graft node
    rw [Array.getElem?_append_left (by simpa [modify] using there)]
  rw [kept]
  by_cases here : k = id
  · rw [if_pos here, here, node_modify _ (here ▸ inside)]
  · rw [if_neg here, node_modify_of_ne _ here]

/-- Behind them come those of the forest. -/
theorem node_graft_behind (behind : t.size ≤ k) :
    (t.graft id f).node k = (f.nodes t.size)[k - t.size]?.getD default := by
  unfold graft node
  rw [Array.getElem?_append_right (by simpa [modify, size] using behind)]
  simp [modify, size]

theorem node_addUnder (inside : k < t.size) {body : NodeBody} : (t.addUnder id body).node k =
    if k = id then { t.node k with children := (t.node k).children ++ [t.size] }
    else t.node k := by
  have there : k < t.nodes.size := inside
  have kept : (t.add body).2.node k = t.node k := by
    simp [add, node, Array.getElem?_push, Nat.ne_of_lt there]
  have larger : (t.add body).2.size = t.size + 1 := by simp [add, size]
  unfold addUnder appendChild
  by_cases here : k = id
  · subst here
    have inside' : k < (t.add body).2.size := larger ▸ Nat.lt_succ_of_lt inside
    rw [if_pos rfl, node_modify _ inside', kept]
  · rw [if_neg here, node_modify_of_ne _ here, kept]

theorem node_addUnder_new (inside : id < t.size) (body : NodeBody) :
    (t.addUnder id body).node t.size = ⟨body, [], none⟩ := by
  have ne : t.size ≠ id := Nat.ne_of_gt inside
  unfold addUnder appendChild
  rw [node_modify_of_ne _ ne]
  simp [add, node, size]

theorem graft_nil (t : NodeTree) (id : NodeId) : t.graft id .nil = t := by
  refine eq_of_nodes (by simp [Forest.size]) rfl fun k inside => ?_
  have inside : k < t.size := by simpa [Forest.size] using inside
  rw [node_graft inside]
  split <;> simp [Forest.roots]

/-- An element with what is below it and then its siblings are a forest grafted at once. -/
theorem graft_cons (inside : id < t.size) (body : NodeBody) (children siblings : Forest) :
    ((t.addUnder id body).graft t.size children).graft id siblings =
      t.graft id (.cons body children siblings) := by
  have opened : (t.addUnder id body).size = t.size + 1 := size_addUnder _ _ _
  have filled : ((t.addUnder id body).graft t.size children).size =
      t.size + 1 + children.size := by rw [size_graft, opened]
  refine eq_of_nodes ?_ rfl fun k _ => ?_
  · simp only [size_graft, size_addUnder, Forest.size]
    omega
  -- A place is one that was there, that of the element, one below it, or one behind all these.
  rcases Nat.lt_trichotomy k t.size with before | rfl | behind
  · have first : k < (t.addUnder id body).size := by omega
    have second : k < ((t.addUnder id body).graft t.size children).size := by omega
    rw [node_graft second, node_graft first, node_graft before, node_addUnder before,
      if_neg (Nat.ne_of_lt before), filled]
    split
    · simp only [Forest.roots, List.append_assoc, List.singleton_append]
    · rfl
  · have first : t.size < (t.addUnder id body).size := by omega
    have second : t.size < ((t.addUnder id body).graft t.size children).size := by omega
    rw [node_graft second, if_neg (Nat.ne_of_gt inside), node_graft first, if_pos rfl,
      node_addUnder_new inside, node_graft_behind (Nat.le_refl _), opened]
    simp [Forest.nodes]
  · obtain ⟨i, rfl⟩ := Nat.exists_eq_add_of_lt behind
    have place : t.size + i + 1 - t.size = i + 1 := by omega
    rw [node_graft_behind (Nat.le_of_lt behind), place, Forest.nodes, List.getElem?_cons_succ]
    by_cases below : i < children.size
    · have second : t.size + i + 1 < ((t.addUnder id body).graft t.size children).size := by omega
      have first : (t.addUnder id body).size ≤ t.size + i + 1 := by omega
      have ne : t.size + i + 1 ≠ id := Nat.ne_of_gt (Nat.lt_trans inside behind)
      have offset : t.size + i + 1 - (t.size + 1) = i := by omega
      rw [node_graft second, if_neg ne, node_graft_behind first, opened, offset,
        List.getElem?_append_left (by rwa [Forest.length_nodes])]
    · have later : ((t.addUnder id body).graft t.size children).size ≤ t.size + i + 1 := by omega
      have offset : t.size + i + 1 - (t.size + 1 + children.size) = i - children.size := by omega
      have beyond : (children.nodes (t.size + 1)).length ≤ i := by
        rw [Forest.length_nodes]
        omega
      rw [node_graft_behind later, filled, offset, List.getElem?_append_right beyond,
        Forest.length_nodes]

theorem graft_text (inside : id < t.size) (body : NodeBody) (siblings : Forest) :
    (t.addUnder id body).graft id siblings = t.graft id (.cons body .nil siblings) := by
  rw [← graft_cons inside, graft_nil]

/-- A forest under a lone outermost element. -/
theorem graft_ofForest (body : NodeBody) (below : Forest) (ignorable : List String) :
    (ofForest body .nil ignorable).graft root below = ofForest body below ignorable := by
  simp [graft, ofForest, modify, size, Forest.nodes, Forest.roots, root]

end Grafting

end NodeTree

/-! ## The builder -/

/-- A document in the making: its tree, once there is one, the declarations in force, and what is
still to be read. -/
structure Builder where
  tree : Option NodeTree
  scopes : Scopes
  cursor : Cursor

namespace Builder

/-- What is read fails as it does for a reader of documents. -/
def reading {α : Type} (outcome : Except FaultAt α) : Except LoadError α :=
  outcome.mapError .ofFault

@[simp] theorem reading_ok {α : Type} (a : α) : reading (.ok a) = .ok a := rfl

@[simp] theorem reading_error {α : Type} (fault : FaultAt) :
    (reading (.error fault) : Except LoadError α) = .error (.ofFault fault) := rfl

/-- Puts an element into the tree, under another one unless it is the outermost. -/
def place (b : Builder) (parent : Option NodeId) (body : NodeBody) (ignorable : List String) :
    Except LoadError (NodeId × Builder) :=
  match parent with
  | none => .ok (NodeTree.root, { b with tree := some (.ofForest body .nil ignorable) })
  | some parent =>
    match b.tree with
    | none => .error (.internal "child element without a tree")
    | some t => .ok (t.size, { b with tree := some (t.addUnder parent body) })

/-- Puts a text under an element, if there is a tree. -/
def addText (b : Builder) (parent : NodeId) (body : NodeBody) : Builder :=
  { b with tree := b.tree.map fun t => t.addUnder parent body }

/-- Reads a start tag, pushes its declarations, and puts the element in its place. -/
def openElement (b : Builder) (parent : Option NodeId) :
    Except LoadError (StartTag × NodeId × Builder) := do
  let (tag, after) ← reading (StartTag.read b.cursor)
  let pushed := { b with scopes := tag.declarations :: b.scopes, cursor := after }
  let (body, ignorable) ← reading (tag.body pushed.scopes parent.isNone)
  let (id, placed) ← pushed.place parent body ignorable
  return (tag, id, placed)

/-- Pops the declarations of the element that ends. -/
def close (b : Builder) : Builder := { b with scopes := b.scopes.tail }

/-- Reads the content of an element up to and including its closing tag. -/
def content (tag : StartTag) (id : NodeId) : Nat → Builder → Except LoadError Builder
  | 0, _ => reading (.error ⟨.unterminatedElement tag.written, tag.position⟩)
  | fuel + 1, b =>
    if b.cursor.rest.isEmpty then
      reading (.error ⟨.unterminatedElement tag.written, tag.position⟩)
    else match pieceAt b.cursor with
      | .ending => do
        return { b with cursor := ← reading (readEndTag tag.written b.cursor) }
      | .comment => do
        let (_, after) ← reading (b.cursor.through "-->")
        content tag id fuel { b with cursor := after }
      | .instruction => do
        let (_, after) ← reading (b.cursor.through "?>")
        content tag id fuel { b with cursor := after }
      | .characterData => do
        let (text, after) ← reading (readCharacterData b.cursor)
        content tag id fuel ({ b with cursor := after }.addText id text)
      | .text => do
        match ← reading (readText b.cursor) with
        | (none, after) => content tag id fuel { b with cursor := after }
        | (some text, after) => content tag id fuel ({ b with cursor := after }.addText id text)
      | .element => do
        let (inner, child, opened) ← b.openElement (some id)
        let filled ← if inner.closed then pure opened else content inner child fuel opened
        content tag id fuel filled.close

/-- Reads a document. -/
def read (text : String) : Except LoadError NodeTree := do
  let c := Cursor.ofText text
  let start ← reading (readPrologue c.rest.length c)
  let (tag, id, opened) ← openElement ⟨none, [], start⟩ none
  let b ← if tag.closed then pure opened
    else content tag id opened.cursor.rest.length opened
  match b.tree with
  | some tree => return tree
  | none => reading (.error ⟨.noRoot, b.cursor.position⟩)

/-! ## The builder and the reader -/

/-- Where there is a tree, an element is read as by a reader of documents, and put under another
one. -/
theorem openElement_some (t : NodeTree) (scopes : Scopes) (c : Cursor) (id : NodeId) :
    openElement ⟨some t, scopes, c⟩ (some id) =
      reading ((readOpenTag scopes false c).map fun (opened, after) =>
        (opened.tag, t.size, ⟨some (t.addUnder id opened.body), opened.scopes, after⟩)) := by
  unfold openElement readOpenTag
  cases StartTag.read c with
  | error fault => rfl
  | ok first =>
    obtain ⟨tag, after⟩ := first
    simp only [bind, Except.bind, reading_ok, Option.isNone_some]
    cases tag.body (tag.declarations :: scopes) false <;> rfl

/-- The outermost element begins the tree. -/
theorem openElement_none (scopes : Scopes) (c : Cursor) :
    openElement ⟨none, scopes, c⟩ none =
      reading ((readOpenTag scopes true c).map fun (opened, after) =>
        (opened.tag, NodeTree.root,
          ⟨some (.ofForest opened.body .nil opened.ignorable), opened.scopes, after⟩)) := by
  unfold openElement readOpenTag
  cases StartTag.read c with
  | error fault => rfl
  | ok first =>
    obtain ⟨tag, after⟩ := first
    simp only [bind, Except.bind, reading_ok, Option.isNone_none]
    cases tag.body (tag.declarations :: scopes) true <;> rfl

/-- **The content of an element is grafted onto the tree**, and the stack of declarations is
afterwards what it was. -/
theorem content_eq (tag : StartTag) {t : NodeTree} {id : NodeId} (inside : id < t.size)
    (scopes : Scopes) (fuel : Nat) (c : Cursor) :
    content tag id fuel ⟨some t, scopes, c⟩ =
      reading ((readContent tag scopes fuel c).map fun (below, after) =>
        ⟨some (t.graft id below), scopes, after⟩) := by
  induction fuel generalizing tag t id scopes c with
  | zero => rfl
  | succ fuel ih =>
    -- A text is added at once, and what follows it is grafted behind it.
    have texts : ∀ (body : NodeBody) (after : Cursor),
        content tag id fuel (addText ⟨some t, scopes, after⟩ id body) =
          reading ((readContent tag scopes fuel after).map fun (below, after) =>
            ⟨some (t.graft id (.cons body .nil below)), scopes, after⟩) := by
      intro body after
      have inside' : id < (t.addUnder id body).size := by
        rw [NodeTree.size_addUnder]
        exact Nat.lt_succ_of_lt inside
      have same := ih tag inside' scopes after
      simp only [NodeTree.graft_text inside] at same
      exact same
    rw [content, readContent]
    dsimp only
    split
    · rfl
    cases pieceAt c with
    | ending =>
      dsimp only
      cases readEndTag tag.written c with
      | error fault => rfl
      | ok after => simp [Except.map, NodeTree.graft_nil, bind, Except.bind, pure, Except.pure]
    | comment =>
      dsimp only
      cases c.through "-->" with
      | error fault => rfl
      | ok found => exact ih tag inside scopes found.2
    | instruction =>
      dsimp only
      cases c.through "?>" with
      | error fault => rfl
      | ok found => exact ih tag inside scopes found.2
    | characterData =>
      dsimp only
      cases readCharacterData c with
      | error fault => rfl
      | ok found =>
        refine (texts found.1 found.2).trans ?_
        simp only [bind, Except.bind]
        cases readContent tag scopes fuel found.2 <;> rfl
    | text =>
      dsimp only
      cases readText c with
      | error fault => rfl
      | ok found =>
        obtain ⟨kept, after⟩ := found
        cases kept with
        | none => exact ih tag inside scopes after
        | some body =>
          refine (texts body after).trans ?_
          simp only [bind, Except.bind]
          cases readContent tag scopes fuel after <;> rfl
    | element =>
      dsimp only
      rw [openElement_some]
      cases read : readOpenTag scopes false c with
      | error fault => rfl
      | ok found =>
        obtain ⟨opened, start⟩ := found
        obtain ⟨-, -, pushed⟩ := readOpenTag_eq_ok_iff.1 read
        have new : t.size < (t.addUnder id opened.body).size := by
          rw [NodeTree.size_addUnder]
          exact Nat.lt_succ_self _
        -- Whatever has been read below the element, its siblings are read with the stack popped.
        have siblings : ∀ (children : Forest) (after : Cursor),
            content tag id fuel (close ⟨some ((t.addUnder id opened.body).graft t.size children),
              opened.scopes, after⟩) =
            reading ((readContent tag scopes fuel after).map fun (below, after) =>
              ⟨some (t.graft id (.cons opened.body children below)), scopes, after⟩) := by
          intro children after
          have inside' : id < ((t.addUnder id opened.body).graft t.size children).size := by
            rw [NodeTree.size_graft, NodeTree.size_addUnder]
            exact Nat.lt_of_lt_of_le (Nat.lt_succ_of_lt inside) (Nat.le_add_right _ _)
          have same := ih tag inside' scopes after
          simp only [NodeTree.graft_cons inside] at same
          rw [close, pushed]
          exact same
        simp only [bind, Except.bind, reading_ok, Except.map]
        cases opened.tag.closed with
        | true =>
          have later := siblings .nil start
          rw [NodeTree.graft_nil] at later
          refine later.trans ?_
          simp only [if_true, pure, Except.pure]
          cases readContent tag scopes fuel start <;> rfl
        | false =>
          have below := ih opened.tag new opened.scopes start
          simp only [Bool.false_eq_true, if_false]
          rw [below]
          cases readContent opened.tag opened.scopes fuel start with
          | error fault => rfl
          | ok found =>
            obtain ⟨children, after⟩ := found
            refine (siblings children after).trans ?_
            dsimp only
            cases readContent tag scopes fuel after <;> rfl

/-- **The builder reads what the reader of documents reads**, and fails as that does. -/
theorem read_eq (text : String) : read text = reading (NodeTree.read text) := by
  unfold read NodeTree.read
  dsimp only
  cases readPrologue (Cursor.ofText text).rest.length (Cursor.ofText text) with
  | error fault => rfl
  | ok start =>
    simp only [bind, Except.bind, reading_ok]
    rw [openElement_none]
    cases readOpenTag [] true start with
    | error fault => rfl
    | ok found =>
      obtain ⟨opened, inside⟩ := found
      simp only [reading_ok, Except.map]
      cases opened.tag.closed with
      | true => rfl
      | false =>
        have one : NodeTree.root < (NodeTree.ofForest opened.body .nil opened.ignorable).size := by
          rw [NodeTree.size_ofForest]
          exact Nat.succ_pos _
        have below := content_eq opened.tag one opened.scopes inside.rest.length inside
        simp only [Bool.false_eq_true, if_false]
        rw [below]
        cases readContent opened.tag opened.scopes inside.rest.length inside with
        | error fault => rfl
        | ok found =>
          obtain ⟨children, after⟩ := found
          simp only [reading_ok, Except.map, NodeTree.graft_ofForest]
          rfl

/-- No text makes the builder come to an element without a tree to put it into. -/
theorem read_ne_internal (text reason : String) : read text ≠ .error (.internal reason) := by
  rw [read_eq]
  intro failed
  cases fault : NodeTree.read text <;> rw [fault] at failed <;> cases failed

end Builder

end MarkupLoader
