import MarkupLoader.Proofs.Copies
import MarkupLoader.Proofs.Preparation
import MarkupLoader.Proofs.Routes
import MarkupLoader.Proofs.Unplaced
import MarkupLoader.Proofs.Valued

/-!
# Documents with a node more

Two documents may differ in one node that makes no object: one of them has another text beside the
others in a node, or a property element around all that is in it, or an empty one. **The second document has that
node spliced in** (`NodeTree.Splices`): the nodes behind it have moved on by one place
(`NodeTree.moved`), and where it is listed as a child, its own children stand in the first document.

* **Walks** down, and the nodes above a place, are the same in both documents but for the node more
  (`Splices.postorder`, `Splices.preorder`, `Splices.ancestors`), so that prefixes stand for the same
  namespaces.
* **What is done before values are created** is done to both documents alike (`Splices.touches`).
* Positions do not count, nor does how the texts around the new one are divided up; but the texts of
  a scalar have to give the same when they are joined.

Main results: `Splices.walk`, `Splices.ancestors`, `Splices.touches`, `Splices.prune`,
`Splices.extract`.
-/

namespace MarkupLoader

/-! ## Bodies -/

/-- The kind of a node without what a text says. -/
def NodeKind.bare : NodeKind → NodeKind
  | text _ => text ""
  | kind => kind

/-- What a node says, without positions and without what a text says. -/
def NodeBody.bare (n : NodeBody) : NodeBody := { n.unplaced with kind := n.kind.bare }

namespace NodeBody

variable {n m : NodeBody}

theorem typeName_of_bare (same : m.bare = n.bare) : m.typeName = n.typeName :=
  show m.bare.typeName = n.bare.typeName from same ▸ rfl

theorem namespaces_of_bare (same : m.bare = n.bare) : m.namespaces = n.namespaces :=
  show m.bare.namespaces = n.bare.namespaces from same ▸ rfl

theorem attributes_of_bare (same : m.bare = n.bare) :
    m.attributes.map (·.unplaced) = n.attributes.map (·.unplaced) :=
  congrArg NodeBody.attributes same

theorem kind_of_bare (same : m.bare = n.bare) : m.kind.bare = n.kind.bare :=
  congrArg NodeBody.kind same

/-- What is no text is known by its kind. -/
theorem kind_eq_of_bare (same : m.bare = n.bare) (other : ∀ content, n.kind ≠ .text content) :
    m.kind = n.kind := by
  have kinds := kind_of_bare same
  cases is : n.kind with
  | text content => exact absurd is (other content)
  | _ =>
    rw [is] at kinds
    cases is' : m.kind <;> rw [is'] at kinds <;> cases kinds <;> rfl

theorem isText_of_bare (same : m.bare = n.bare) :
    (∃ content, m.kind = .text content) ↔ ∃ content, n.kind = .text content := by
  have kinds := kind_of_bare same
  constructor <;> rintro ⟨content, is⟩ <;> rw [is] at kinds
  · cases is' : n.kind <;> rw [is'] at kinds <;> cases kinds
    exact ⟨_, rfl⟩
  · cases is' : m.kind <;> rw [is'] at kinds <;> cases kinds
    exact ⟨_, rfl⟩

theorem isObject_of_bare (same : m.bare = n.bare) : m.isObject = n.isObject := by
  have bare : ∀ k : NodeBody, k.isObject = k.bare.isObject := fun k => by
    unfold isObject bare
    dsimp only
    cases k.kind <;> rfl
  rw [bare m, same, ← bare n]

theorem isElement_of_bare (same : m.bare = n.bare) : m.isElement = n.isElement := by
  have bare : ∀ k : NodeBody, k.isElement = k.bare.isElement := fun k => by
    unfold isElement bare
    dsimp only
    cases k.kind <;> rfl
  rw [bare m, same, ← bare n]

/-- Bodies of one kind that differ in positions only. -/
theorem unplaced_of_bare (same : m.bare = n.bare) (kind : m.kind = n.kind) :
    m.unplaced = n.unplaced := by
  have all : ∀ k : NodeBody, k.unplaced = { k.bare with kind := k.kind } := fun _ => rfl
  rw [all m, all n, same, kind]

end NodeBody

namespace NodeTree

/-! ## The document with a node more -/

/-- The place that a node has once another one has come in at the place `x`. -/
def moved (x i : Nat) : Nat := if i < x then i else i + 1

section Moving

variable {x i j : Nat}

theorem moved_ne (x i : Nat) : moved x i ≠ x := by
  unfold moved
  split <;> omega

theorem moved_injective (x : Nat) : Function.Injective (moved x) := by
  intro i j same
  unfold moved at same
  split at same <;> split at same <;> omega

/-- Places before the new one stay. -/
theorem moved_of_lt (before : i < x) : moved x i = i := if_pos before

theorem moved_root (later : 0 < x) : moved x root = root := moved_of_lt later

/-- Every other place is that of a node that has moved. -/
theorem exists_moved {c : Nat} (other : c ≠ x) : ∃ i, moved x i = c := by
  by_cases before : c < x
  · exact ⟨c, if_pos before⟩
  · refine ⟨c - 1, ?_⟩
    unfold moved
    rw [if_neg (by omega)]
    omega

end Moving

/-- What stands in place of a child: its own children for the node `x`, and itself for any other. -/
def entering (t : NodeTree) (x c : NodeId) : List NodeId :=
  if c = x then (t.node x).children else [c]

theorem entering_of_ne {t : NodeTree} {x c : NodeId} (other : c ≠ x) : t.entering x c = [c] :=
  if_neg other

theorem flatMap_entering {t : NodeTree} {x : NodeId} {list : List NodeId} (absent : x ∉ list) :
    list.flatMap (t.entering x) = list := by
  have each : ∀ c ∈ list, t.entering x c = [c] := fun c mem =>
    entering_of_ne fun is => absent (is ▸ mem)
  rw [List.flatMap_congr each, List.flatMap_singleton']

/-- What is spliced in at `x` into the node `p`. -/
inductive Splice (t u : NodeTree) (x p : NodeId) : Prop
  /-- Another text. -/
  | text {content : String} (kind : (u.node x).kind = .text content)
    (leaf : (u.node x).children = [])
  /-- A property element around all that is in an element without property elements. -/
  | property {name : QName} (kind : (u.node x).kind = .property name)
    (plain : name.isDirective "Arguments" = false)
    (namespaceUri : (u.node x).typeName.namespaceUri = (t.node p).typeName.namespaceUri)
    (object : (t.node p).isObject = true) (scalar : ¬ (t.node p).toNodeBody.IsScalar)
    (alone : (u.node (moved x p)).children = [x])
    (content : ∀ c ∈ (t.node p).children, ∀ name, (t.node c).kind ≠ .property name)
  /-- A property element with nothing in it. -/
  | empty {name : QName} (kind : (u.node x).kind = .property name)
    (plain : name.isDirective "Arguments" = false)
    (namespaceUri : (u.node x).typeName.namespaceUri = (t.node p).typeName.namespaceUri)
    (leaf : (u.node x).children = [])

/-- **A document with a node more** than another one, at the place `x` in the node `p`, unless it is
not listed there. -/
structure Splices (t u : NodeTree) (x p : NodeId) : Prop where
  later : 0 < x
  places : ∀ i : Nat, moved x i < u.size ↔ i < t.size
  ignorable : u.ignorable = t.ignorable
  body : ∀ i, (u.node (moved x i)).toNodeBody.bare = (t.node i).toNodeBody.bare
  /-- Texts may differ beside the one that has been spliced in. -/
  kind : ∀ i, (u.node (moved x i)).kind = (t.node i).kind ∨
    x ∈ (u.node (moved x p)).children ∧ i ∈ (t.node p).children ∧ ∃ s, (t.node i).kind = .text s
  children : ∀ i, i ≠ p → (u.node (moved x i)).children = (t.node i).children.map (moved x)
  below : (u.node (moved x p)).children.flatMap (u.entering x) = (t.node p).children.map (moved x)
  spliced : x ∈ (u.node (moved x p)).children → Splice t u x p
  attributes : (u.node x).attributes = []
  namespaces : (u.node x).namespaces = []
  /-- A scalar is read from the same text. -/
  joined : (t.node p).isObject = true → (t.node p).toNodeBody.IsScalar →
    u.textContent (moved x p) = t.textContent p

namespace Splices

variable {t u : NodeTree} {x p i : NodeId} (splices : t.Splices u x p)

include splices

theorem typeName (i : NodeId) : (u.node (moved x i)).typeName = (t.node i).typeName :=
  NodeBody.typeName_of_bare (splices.body i)

theorem isObject (i : NodeId) : (u.node (moved x i)).isObject = (t.node i).isObject :=
  NodeBody.isObject_of_bare (splices.body i)

theorem isElement (i : NodeId) : (u.node (moved x i)).isElement = (t.node i).isElement :=
  NodeBody.isElement_of_bare (splices.body i)

theorem root_eq : moved x root = root := moved_root splices.later

theorem isIgnorable : u.isIgnorable = t.isIgnorable := by
  funext uri
  rw [NodeTree.isIgnorable, NodeTree.isIgnorable, splices.ignorable]

theorem isIgnorableNode (i : NodeId) : u.isIgnorableNode (moved x i) = t.isIgnorableNode i := by
  rw [NodeTree.isIgnorableNode, NodeTree.isIgnorableNode, splices.isIgnorable, splices.typeName]

theorem kind_eq (other : ∀ content, (t.node i).kind ≠ .text content) :
    (u.node (moved x i)).kind = (t.node i).kind :=
  NodeBody.kind_eq_of_bare (splices.body i) other

/-- A node stays a text, whatever its content, or is what it was. -/
theorem kind_cases (i : NodeId) :
    (∃ content content', (t.node i).kind = .text content ∧
      (u.node (moved x i)).kind = .text content') ∨
    (u.node (moved x i)).kind = (t.node i).kind := by
  by_cases text : ∃ content, (t.node i).kind = .text content
  · obtain ⟨content, is⟩ := text
    obtain ⟨content', is'⟩ := (NodeBody.isText_of_bare (splices.body i)).2 ⟨content, is⟩
    exact .inl ⟨content, content', is, is'⟩
  · exact .inr (splices.kind_eq fun content is => text ⟨content, is⟩)

theorem isPrunable (i : NodeId) : u.isPrunable (moved x i) = t.isPrunable i := by
  unfold NodeTree.isPrunable
  rw [splices.isIgnorableNode]
  obtain ⟨content, content', is, is'⟩ | same := splices.kind_cases i
  · rw [is, is']
  · rw [same]

theorem isTemplate (env : Environment) (i : NodeId) :
    env.isTemplate (u.node (moved x i)).toNodeBody = env.isTemplate (t.node i).toNodeBody := by
  unfold Environment.isTemplate
  rw [splices.isObject, splices.typeName]

/-- Only the node that it has been spliced into lists the new one. -/
theorem listed_iff : x ∈ (u.node (moved x i)).children ↔
    i = p ∧ x ∈ (u.node (moved x p)).children := by
  constructor
  · intro listed
    by_cases here : i = p
    · exact ⟨here, here ▸ listed⟩
    · rw [splices.children i here] at listed
      obtain ⟨c, -, is⟩ := List.mem_map.1 listed
      exact absurd is (moved_ne x c)
  · rintro ⟨rfl, listed⟩
    exact listed

/-- If the new node is reached, it is listed. -/
theorem listed_of_reaches (proper' : u.Proper) {skip : NodeId → Bool}
    (reached : u.Reaches skip root x) : x ∈ (u.node (moved x p)).children := by
  cases reached with
  | top => exact absurd splices.later (Nat.lt_irrefl 0)
  | @child q _ _ _ listed =>
    have before := proper'.later q x listed
    obtain ⟨q, rfl⟩ := exists_moved (Nat.ne_of_lt before)
    exact (splices.listed_iff.1 listed).2

/-- What stands in place of the children of a node are its children in the first document. -/
theorem listing (i : NodeId) :
    (u.node (moved x i)).children.flatMap (u.entering x) = (t.node i).children.map (moved x) := by
  by_cases here : i = p
  · exact here ▸ splices.below
  · rw [flatMap_entering fun listed => here (splices.listed_iff.1 listed).1,
      splices.children i here]

/-- Where the new node is not listed, all is as in the first document. -/
theorem children_of_not_listed (unlisted : x ∉ (u.node (moved x i)).children) :
    (u.node (moved x i)).children = (t.node i).children.map (moved x) := by
  rw [← splices.listing i, flatMap_entering unlisted]

/-- Around all that is in a node there is what is in the node. -/
theorem children_of_alone (alone : (u.node (moved x p)).children = [x]) :
    (u.node x).children = (t.node p).children.map (moved x) := by
  rw [← splices.below, alone, List.flatMap_singleton, entering, if_pos rfl]

/-- A child is listed by the same node, or inside the new one. -/
theorem listed_moved {c : NodeId} (listed : c ∈ (t.node i).children) :
    moved x c ∈ (u.node (moved x i)).children ∨
      x ∈ (u.node (moved x i)).children ∧ moved x c ∈ (u.node x).children := by
  have mem : moved x c ∈ (u.node (moved x i)).children.flatMap (u.entering x) := by
    rw [splices.listing]
    exact List.mem_map_of_mem listed
  obtain ⟨d, lists, inside⟩ := List.mem_flatMap.1 mem
  unfold entering at inside
  by_cases is : d = x
  · rw [if_pos is] at inside
    exact .inr ⟨is ▸ lists, inside⟩
  · rw [if_neg is, List.mem_singleton] at inside
    exact .inl (inside ▸ lists)

/-- A node that may be ignored is not entered, and what is spliced into it is not reached. -/
theorem ignored_enters (enters : t.isIgnorableNode p = false)
    (listed : x ∈ (u.node (moved x p)).children) (ignored : u.isIgnorableNode x = true) :
    (u.node x).children = [] := by
  cases splices.spliced listed with
  | text _ leaf | empty _ _ _ leaf => exact leaf
  | property _ _ namespaceUri =>
    unfold NodeTree.isIgnorableNode at enters ignored
    rw [splices.isIgnorable, namespaceUri, enters] at ignored
    cases ignored

end Splices

/-! ## Walks -/

section Walking

variable {t u : NodeTree} {x p : NodeId} {skip skip' : NodeId → Bool}

/-- A walk that lists a node before what is below it, or after it. -/
def Walks (t : NodeTree) (skip : NodeId → Bool) (first : Bool) (walk : NodeId → List NodeId) :
    Prop :=
  ∀ i, walk i = (if first then [i] else []) ++
    (if skip i then [] else (t.node i).children.flatMap walk) ++ if first then [] else [i]

theorem Proper.walks_postorder (proper : t.Proper) (skip : NodeId → Bool) :
    t.Walks skip false (t.postorderFrom skip t.size) :=
  fun i => postorderFrom_size proper.layers i

theorem Proper.walks_descend (proper : t.Proper) (skip : NodeId → Bool) :
    t.Walks skip true (t.descend skip t.size) := by
  intro i
  rw [descend_size proper.layers i]
  simp

/-- **A walk over the document with a node more** lists the same nodes in the same order, apart from
that node. -/
theorem Splices.walk (splices : t.Splices u x p) (proper : t.Proper) {first : Bool}
    {walk walk' : NodeId → List NodeId} (walks : t.Walks skip first walk)
    (walks' : u.Walks skip' first walk') (skips : ∀ i, skip' (moved x i) = skip i)
    (enters : skip p = false → x ∈ (u.node (moved x p)).children → skip' x = true →
      (u.node x).children = []) (i : NodeId) :
    (walk' (moved x i)).filter (· ≠ x) = (walk i).map (moved x) := by
  induction size : t.size - i using Nat.strong_induction_on generalizing i with
  | _ size ih =>
  have itself : (if first then [moved x i] else []).filter (· ≠ x) =
      (if first then [i] else []).map (moved x) := by
    cases first <;> simp [moved_ne]
  have itself' : (if first then [] else [moved x i]).filter (· ≠ x) =
      (if first then [] else [i]).map (moved x) := by
    cases first <;> simp [moved_ne]
  have inside : ((if skip' (moved x i) then [] else
        (u.node (moved x i)).children.flatMap walk').filter (· ≠ x)) =
      (if skip i then [] else (t.node i).children.flatMap walk).map (moved x) := by
    rw [skips]
    cases skipped : skip i with
    | true => rfl
    | false =>
      have below : ∀ c ∈ (t.node i).children,
          (walk' (moved x c)).filter (· ≠ x) = (walk c).map (moved x) := fun c listed => by
        have := proper.later i c listed
        have := proper.inside i c listed
        exact ih (t.size - c) (by omega) c rfl
      -- The new node is passed over, and its children stand in its place.
      have each : ∀ c ∈ (u.node (moved x i)).children, (walk' c).filter (· ≠ x) =
          (u.entering x c).flatMap fun c => (walk' c).filter (· ≠ x) := by
        intro c listed
        unfold entering
        by_cases is : c = x
        case neg => simp [is]
        case pos =>
          subst is
          rw [if_pos rfl]
          obtain ⟨rfl, listed⟩ := splices.listed_iff.1 listed
          have none : (if first then [c] else []).filter (· ≠ c) = ([] : List NodeId) := by
            cases first <;> simp
          have none' : (if first then [] else [c]).filter (· ≠ c) = ([] : List NodeId) := by
            cases first <;> simp
          rw [walks' c, List.filter_append, List.filter_append, none, none', List.nil_append,
            List.append_nil, ← List.filter_flatMap]
          split
          · rw [enters skipped listed ‹_›]
            rfl
          · rfl
      rw [if_neg Bool.false_ne_true, if_neg Bool.false_ne_true, List.filter_flatMap,
        List.flatMap_congr each, ← List.flatMap_assoc, splices.listing, List.flatMap_map,
        List.map_flatMap]
      exact List.flatMap_congr below
  rw [walks, walks', List.filter_append, List.filter_append, itself, itself', inside]
  simp only [List.map_append]

end Walking

namespace Splices

variable {t u : NodeTree} {x p : NodeId} {skip skip' : NodeId → Bool} (splices : t.Splices u x p)

include splices

theorem postorder (proper : t.Proper) (proper' : u.Proper)
    (skips : ∀ i, skip' (moved x i) = skip i)
    (enters : skip p = false → x ∈ (u.node (moved x p)).children → skip' x = true →
      (u.node x).children = []) :
    (u.postorder skip').filter (· ≠ x) = (t.postorder skip).map (moved x) := by
  have walk := splices.walk proper (proper.walks_postorder skip) (proper'.walks_postorder skip')
    skips enters root
  rwa [splices.root_eq] at walk

theorem preorder (proper : t.Proper) (proper' : u.Proper)
    (skips : ∀ i, skip' (moved x i) = skip i)
    (enters : skip p = false → x ∈ (u.node (moved x p)).children → skip' x = true →
      (u.node x).children = []) :
    (u.preorder skip').filter (· ≠ x) = (t.preorder skip).map (moved x) := by
  have walk := splices.walk proper (proper.walks_descend skip) (proper'.walks_descend skip')
    skips enters root
  rwa [splices.root_eq, ← preorder_eq proper.layers, ← preorder_eq proper'.layers] at walk

theorem reaches_iff (proper : t.Proper) (proper' : u.Proper)
    (skips : ∀ i, skip' (moved x i) = skip i)
    (enters : skip p = false → x ∈ (u.node (moved x p)).children → skip' x = true →
      (u.node x).children = []) (i : NodeId) :
    u.Reaches skip' root (moved x i) ↔ t.Reaches skip root i := by
  rw [← mem_postorder proper', ← mem_postorder proper]
  have walk := splices.postorder proper proper' skips enters
  have mem : moved x i ∈ u.postorder skip' ↔
      moved x i ∈ (u.postorder skip').filter (· ≠ x) := by
    simp [moved_ne]
  rw [mem, walk, List.mem_map_of_injective (moved_injective x)]

theorem reached_iff (proper : t.Proper) (proper' : u.Proper) (i : NodeId) :
    u.Reaches (fun _ => false) root (moved x i) ↔ t.Reaches (fun _ => false) root i :=
  splices.reaches_iff proper proper' (fun _ => rfl) (fun _ _ skips => by cases skips) i

end Splices

/-! ## Looking up -/

section Passing

variable {α β : Type} {x : NodeId}

theorem filterMap_filter_ne {f : NodeId → Option β} (none : f x = none) (list : List NodeId) :
    (list.filter (· ≠ x)).filterMap f = list.filterMap f := by
  rw [List.filterMap_filter]
  refine List.filterMap_congr fun a _ => ?_
  by_cases is : a = x
  · rw [is, none, ite_self]
  · rw [if_pos (by simpa using is)]

theorem findSome?_filter_ne {f : NodeId → Option β} (none : f x = none) (list : List NodeId) :
    (list.filter (· ≠ x)).findSome? f = list.findSome? f := by
  rw [← List.head?_filterMap, ← List.head?_filterMap, filterMap_filter_ne none]

theorem find?_filter_ne {f : NodeId → Bool} (none : f x = false) (list : List NodeId) :
    (list.filter (· ≠ x)).find? f = list.find? f := by
  rw [List.find?_filter]
  refine congrArg (List.find? · list) (funext fun a => ?_)
  by_cases is : a = x
  · simp [is, none]
  · simp [is]

end Passing

/-- What is looked for at a node and above it, the new node having no say. -/
theorem findSome?_selfAndAncestors {t u : NodeTree} {x i : NodeId}
    (above : (u.ancestors (moved x i)).filter (· ≠ x) = (t.ancestors i).map (moved x))
    {β : Type} {f g : NodeId → Option β} (same : ∀ n, g (moved x n) = f n) (none : g x = none) :
    (u.selfAndAncestors (moved x i)).findSome? g = (t.selfAndAncestors i).findSome? f := by
  have found : (u.ancestors (moved x i)).findSome? g = (t.ancestors i).findSome? f := by
    rw [← findSome?_filter_ne none, above, List.findSome?_map]
    exact congrArg (List.findSome? · _) (funext same)
  rw [selfAndAncestors, selfAndAncestors, List.findSome?_cons, List.findSome?_cons, same, found]

namespace Splices

variable {t u : NodeTree} {x p i : NodeId} (splices : t.Splices u x p)

include splices

section Above

variable (above : (u.ancestors (moved x i)).filter (· ≠ x) = (t.ancestors i).map (moved x))

include above

theorem lookUpNamespace : u.lookUpNamespace (moved x i) = t.lookUpNamespace i := by
  funext key
  refine findSome?_selfAndAncestors above (fun n => ?_) (by rw [splices.namespaces]; rfl)
  rw [NodeBody.namespaces_of_bare (splices.body n)]

theorem declarationsAt : u.declarationsAt (moved x i) = t.declarationsAt i := by
  -- A node without declarations adds none.
  have passes : ∀ (list : List NodeId) declared,
      list.foldl (fun declared n => declareOuter declared (u.node n).namespaces) declared =
        (list.filter (· ≠ x)).foldl
          (fun declared n => declareOuter declared (u.node n).namespaces) declared := by
    intro list
    induction list with
    | nil => exact fun _ => rfl
    | cons n rest ih =>
      intro declared
      by_cases is : n = x
      · rw [List.foldl_cons, List.filter_cons_of_neg (by simp [is]), ← ih, is, splices.namespaces]
        rfl
      · rw [List.foldl_cons, List.filter_cons_of_pos (by simpa using is), List.foldl_cons, ih]
  unfold NodeTree.declarationsAt
  rw [passes, above, List.foldl_map, NodeBody.namespaces_of_bare (splices.body i)]
  exact congrArg (List.foldl · _ _) (funext fun declared => funext fun n => by
    rw [NodeBody.namespaces_of_bare (splices.body n)])

end Above

/-! ## Children -/

/-- Where what is spliced in has no children, it is the only child more. -/
theorem children_filter (leaf : x ∈ (u.node (moved x i)).children → (u.node x).children = []) :
    (u.node (moved x i)).children.filter (· ≠ x) = (t.node i).children.map (moved x) := by
  rw [← splices.listing i]
  generalize (u.node (moved x i)).children = list at leaf
  induction list with
  | nil => rfl
  | cons c rest ih =>
    rw [List.flatMap_cons, ← ih fun listed => leaf (List.mem_cons_of_mem _ listed)]
    by_cases is : c = x
    · rw [List.filter_cons_of_neg (by simp [is]), entering, if_pos is,
        leaf (is ▸ List.mem_cons_self)]
      rfl
    · rw [List.filter_cons_of_pos (by simpa using is), entering_of_ne is]
      rfl

theorem isElement_spliced (listed : x ∈ (u.node (moved x p)).children) :
    (u.node x).isElement = false := by
  cases splices.spliced listed with
  | text kind | property kind | empty kind => rw [NodeBody.isElement, kind]

theorem isObject_spliced (listed : x ∈ (u.node (moved x p)).children) :
    (u.node x).isObject = false := by
  cases splices.spliced listed with
  | text kind | property kind | empty kind => rw [NodeBody.isObject, kind]

theorem elements (leaf : x ∈ (u.node (moved x i)).children → (u.node x).children = []) :
    u.elements (moved x i) = (t.elements i).map (moved x) := by
  have others : u.elements (moved x i) =
      ((u.node (moved x i)).children.filter (· ≠ x)).filter fun c => (u.node c).isElement := by
    rw [NodeTree.elements, List.filter_filter]
    refine List.filter_congr fun c listed => ?_
    by_cases is : c = x
    · subst is
      obtain ⟨rfl, listed⟩ := splices.listed_iff.1 listed
      simp [splices.isElement_spliced listed]
    · simp [is]
  rw [others, splices.children_filter leaf, List.filter_map, NodeTree.elements]
  exact congrArg _ (List.filter_congr fun c _ => splices.isElement c)

theorem isArguments (i : NodeId) : u.isArguments (moved x i) = t.isArguments i := by
  unfold NodeTree.isArguments
  obtain ⟨content, content', is, is'⟩ | same := splices.kind_cases i
  · rw [is, is']
  · rw [same]

/-- The arguments of a node are in the same property element. -/
theorem arguments? (i : NodeId) : u.arguments? (moved x i) = (t.arguments? i).map (moved x) := by
  have moves : ((t.node i).children.map (moved x)).find? u.isArguments =
      ((t.node i).children.find? t.isArguments).map (moved x) := by
    rw [List.find?_map]
    exact congrArg (Option.map (moved x) ·) (congrArg (List.find? · _) (funext splices.isArguments))
  show (u.node (moved x i)).children.find? u.isArguments =
    ((t.node i).children.find? t.isArguments).map (moved x)
  by_cases listed : x ∈ (u.node (moved x i)).children
  · obtain ⟨rfl, listed⟩ := splices.listed_iff.1 listed
    cases splices.spliced listed with
    | text kind leaf =>
      have not : u.isArguments x = false := by rw [NodeTree.isArguments, kind]
      rw [← find?_filter_ne not, splices.children_filter fun _ => leaf, moves]
    | property kind plain _ _ _ alone content =>
      have not : u.isArguments x = false := by rw [NodeTree.isArguments, kind]; exact plain
      have none : (t.node i).children.find? t.isArguments = none := by
        refine List.find?_eq_none.2 fun c listed is => ?_
        unfold NodeTree.isArguments at is
        cases kind : (t.node c).kind with
        | property name => exact content c listed name kind
        | _ => rw [kind] at is; cases is
      rw [alone, none, List.find?_singleton, not]
      rfl
    | empty kind plain _ leaf =>
      have not : u.isArguments x = false := by rw [NodeTree.isArguments, kind]; exact plain
      rw [← find?_filter_ne not, splices.children_filter fun _ => leaf, moves]
  · rw [splices.children_of_not_listed listed, moves]

/-- A text is a child of the node that the new one has been spliced into, or it is the same. -/
theorem kind_of_listed (proper : t.Proper) {c : NodeId} (listed : c ∈ (t.node i).children)
    (other : i ≠ p) : (u.node (moved x c)).kind = (t.node c).kind :=
  (splices.kind c).resolve_right fun ⟨_, listed', _⟩ => other (proper.once _ _ _ listed listed')

/-- A scalar is read from the same text. -/
theorem textContent (proper : t.Proper) (object : (t.node i).isObject = true)
    (scalar : (t.node i).toNodeBody.IsScalar) : u.textContent (moved x i) = t.textContent i := by
  by_cases here : i = p
  · subst here
    exact splices.joined object scalar
  · unfold NodeTree.textContent
    rw [splices.children i here, List.filterMap_map]
    refine congrArg String.join (List.filterMap_congr fun c listed => ?_)
    rw [Function.comp, splices.kind_of_listed proper listed here]

end Splices

/-! ## What is done to both documents -/

/-- A tree from which some nodes have been taken out, and in which attributes and links to parents
may have changed. -/
structure Touches (t t' : NodeTree) (gone : List NodeId) : Prop where
  size : t'.size = t.size
  ignorable : t'.ignorable = t.ignorable
  body : ∀ i, (t'.node i).toNodeBody =
    { (t.node i).toNodeBody with attributes := (t'.node i).attributes }
  children : ∀ i, (t'.node i).children = (t.node i).children.filter fun c => !gone.contains c

theorem Touches.kind {t t' : NodeTree} {gone : List NodeId} (touches : t.Touches t' gone)
    (i : NodeId) : (t'.node i).kind = (t.node i).kind := by rw [touches.body]

theorem Touches.bare {t t' : NodeTree} {gone : List NodeId} (touches : t.Touches t' gone)
    (i : NodeId) : (t'.node i).toNodeBody.bare = { (t.node i).toNodeBody.bare with
      attributes := (t'.node i).attributes.map (·.unplaced) } :=
  congrArg NodeBody.bare (touches.body i)

theorem touches_setAttributes (t : NodeTree) (i : NodeId) (attributes : List Attribute) :
    t.Touches (t.setAttributes i attributes) [] where
  size := size_modify _ _ _
  ignorable := rfl
  body j := by rw [node_setAttributes]
  children j := by rw [node_setAttributes]; simp

theorem touches_without (t : NodeTree) (gone : List NodeId) : t.Touches (t.without gone) gone where
  size := size_without t gone
  ignorable := rfl
  body j := by rw [node_without]
  children j := by rw [node_without]

theorem Proper.touches_linkParents {t : NodeTree} (proper : t.Proper) :
    t.Touches t.linkParents [] where
  size := size_linkParents t
  ignorable := ignorable_linkParents t
  body j := by rw [body_linkParents proper]
  children j := by rw [children_linkParents proper]; simp

theorem Proper.touches_prune {t : NodeTree} (proper : t.Proper) (linked : t.Linked) :
    t.Touches t.prune t.prunedNodes where
  size := size_prune t
  ignorable := ignorable_prune t
  body j := by rw [node_prune_of_linked proper linked, node_without]
  children j := by rw [node_prune_of_linked proper linked, node_without]

/-- Taking out what is no text changes no text. -/
theorem Touches.textContent {t t' : NodeTree} {gone : List NodeId} (touches : t.Touches t' gone)
    (texts : ∀ i ∈ gone, ∀ content, (t.node i).kind ≠ .text content) (i : NodeId) :
    t'.textContent i = t.textContent i := by
  unfold NodeTree.textContent
  rw [touches.children, List.filterMap_filter]
  refine congrArg String.join (List.filterMap_congr fun c _ => ?_)
  rw [touches.kind]
  by_cases out : c ∈ gone
  · cases kind : (t.node c).kind with
    | text content => exact absurd kind (texts c out content)
    | _ => rw [ite_self]
  · rw [if_pos (by simpa using out)]

namespace Splices

variable {t u t' u' : NodeTree} {x p i : NodeId} {gone gone' : List NodeId}

/-- **What is done to both documents alike** leaves one of them with a node more. -/
theorem touches (splices : t.Splices u x p) (left : t.Touches t' gone) (right : u.Touches u' gone')
    (attributes : ∀ i, (u'.node (moved x i)).attributes.map (·.unplaced) =
      (t'.node i).attributes.map (·.unplaced))
    (silent : (u'.node x).attributes = []) (same : ∀ i, moved x i ∈ gone' ↔ i ∈ gone)
    (stays : x ∉ gone') (texts : ∀ i ∈ gone, ∀ content, (t.node i).kind ≠ .text content) :
    t'.Splices u' x p := by
  have texts' : ∀ i ∈ gone', ∀ content, (u.node i).kind ≠ .text content := by
    intro j out content is
    obtain ⟨i, rfl⟩ := exists_moved fun here : j = x => stays (here ▸ out)
    obtain ⟨content, is⟩ := (NodeBody.isText_of_bare (splices.body i)).1 ⟨content, is⟩
    exact texts i ((same i).1 out) content is
  have moves : ∀ list : List NodeId, (list.map (moved x)).filter (fun c => !gone'.contains c) =
      (list.filter fun c => !gone.contains c).map (moved x) := by
    intro list
    rw [List.filter_map]
    exact congrArg _ (List.filter_congr fun c _ => by simp [same])
  have listed_iff : x ∈ (u'.node (moved x p)).children ↔ x ∈ (u.node (moved x p)).children := by
    rw [right.children]
    simp [stays]
  have object : ∀ i, (t'.node i).isObject = (t.node i).isObject := fun i => by
    rw [left.body]
    rfl
  have scalar : ∀ i, (t'.node i).toNodeBody.IsScalar ↔ (t.node i).toNodeBody.IsScalar := fun i => by
    rw [left.body]
    exact ⟨fun ⟨language, name⟩ => ⟨language, name⟩, fun ⟨language, name⟩ => ⟨language, name⟩⟩
  refine ⟨splices.later, fun i => ?_, ?_, fun i => ?_, fun i => ?_, fun i other => ?_, ?_,
    fun listed => ?_, silent, ?_, fun is language => ?_⟩
  · rw [right.size, left.size]
    exact splices.places i
  · rw [right.ignorable, left.ignorable, splices.ignorable]
  · rw [left.bare, right.bare, splices.body, attributes]
  · rw [right.kind, left.kind, listed_iff]
    refine (splices.kind i).imp_right fun ⟨listed, here, content, is⟩ => ⟨listed, ?_, content, is⟩
    rw [left.children, List.mem_filter]
    exact ⟨here, by simpa using fun out => texts i out content is⟩
  · rw [right.children, left.children, splices.children i other, moves]
  · have inside : ∀ c, (u'.entering x c) = if c = x then
        (u.node x).children.filter (fun c => !gone'.contains c) else [c] := fun c => by
      rw [entering, right.children]
    rw [right.children, left.children, ← moves, ← splices.below, List.filter_flatMap]
    generalize (u.node (moved x p)).children = list
    induction list with
    | nil => rfl
    | cons c rest ih =>
      rw [List.flatMap_cons, ← ih]
      by_cases is : c = x
      · subst is
        rw [List.filter_cons_of_pos (by simpa using stays), List.flatMap_cons, inside, if_pos rfl,
          entering, if_pos rfl]
      · rw [entering_of_ne is]
        by_cases out : c ∈ gone'
        · rw [List.filter_cons_of_neg (by simpa using out), List.filter_cons_of_neg (by simpa using out)]
          rfl
        · rw [List.filter_cons_of_pos (by simpa using out), List.filter_cons_of_pos (by simpa using out),
            List.flatMap_cons, inside, if_neg is]
          rfl
  · cases splices.spliced (listed_iff.1 listed) with
    | text kind leaf => exact .text (right.kind x ▸ kind) (by rw [right.children, leaf]; rfl)
    | empty kind plain namespaceUri leaf =>
      refine .empty (right.kind x ▸ kind) plain ?_ (by rw [right.children, leaf]; rfl)
      rw [right.body, left.body]
      exact namespaceUri
    | property kind plain namespaceUri holds scalar' alone content =>
      refine .property (right.kind x ▸ kind) plain ?_ ((object p).trans holds)
        (fun is => scalar' ((scalar p).1 is)) ?_ fun c listed name => ?_
      · rw [right.body, left.body]
        exact namespaceUri
      · rw [right.children, alone]
        simpa using stays
      · rw [left.children] at listed
        rw [left.kind]
        exact content c (List.mem_filter.1 listed).1 name
  · rw [right.body]
    exact splices.namespaces
  · rw [right.textContent texts', left.textContent texts]
    exact splices.joined ((object p).symm.trans is) ((scalar p).1 language)

/-- Attributes are set at a node of both documents. -/
theorem setAttributes (splices : t.Splices u x p) (i : NodeId) {as bs : List Attribute}
    (same : bs.map (·.unplaced) = as.map (·.unplaced)) :
    (t.setAttributes i as).Splices (u.setAttributes (moved x i) bs) x p := by
  refine splices.touches (touches_setAttributes t i as) (touches_setAttributes u _ bs)
    (fun j => ?_) ?_ (fun _ => by simp) (by simp) (by simp)
  · rw [node_setAttributes, node_setAttributes]
    dsimp only
    by_cases here : j = i ∧ i < t.size
    · rw [if_pos ⟨congrArg _ here.1, (splices.places i).2 here.2⟩, if_pos here, same]
    · rw [if_neg fun h => here ⟨moved_injective x h.1, (splices.places i).1 h.2⟩, if_neg here]
      exact NodeBody.attributes_of_bare (splices.body j)
  · rw [node_setAttributes, if_neg fun h => moved_ne x i h.1.symm]
    exact splices.attributes

/-- Nodes that are no texts are taken out of both documents. -/
theorem without (splices : t.Splices u x p) (same : ∀ i, moved x i ∈ gone' ↔ i ∈ gone)
    (stays : x ∉ gone') (texts : ∀ i ∈ gone, ∀ content, (t.node i).kind ≠ .text content) :
    (t.without gone).Splices (u.without gone') x p := by
  refine splices.touches (touches_without t gone) (touches_without u gone') (fun j => ?_) ?_ same
    stays texts
  · rw [node_without, node_without]
    exact NodeBody.attributes_of_bare (splices.body j)
  · rw [node_without]
    exact splices.attributes

theorem linkParents (splices : t.Splices u x p) (proper : t.Proper) (proper' : u.Proper) :
    t.linkParents.Splices u.linkParents x p := by
  refine splices.touches proper.touches_linkParents proper'.touches_linkParents (fun j => ?_) ?_
    (fun _ => by simp) (by simp) (by simp)
  · rw [body_linkParents proper, body_linkParents proper']
    exact NodeBody.attributes_of_bare (splices.body j)
  · rw [body_linkParents proper']
    exact splices.attributes

/-- The new node is not pruned itself. -/
theorem not_pruned (splices : t.Splices u x p) (proper' : u.Proper) : x ∉ u.prunedNodes := by
  intro out
  obtain ⟨reached, prunable⟩ := (mem_prunedNodes proper').1 out
  cases reached with
  | top => exact absurd splices.later (Nat.lt_irrefl 0)
  | @child q _ _ enters listed =>
    have before := proper'.later q x listed
    obtain ⟨i, rfl⟩ := exists_moved (Nat.ne_of_lt before)
    obtain ⟨rfl, listed⟩ := splices.listed_iff.1 listed
    unfold NodeTree.isPrunable at prunable
    cases splices.spliced listed with
    | text kind =>
      rw [kind] at prunable
      cases prunable
    | property kind _ namespaceUri | empty kind _ namespaceUri =>
      rw [kind] at prunable
      rw [splices.isIgnorableNode, NodeTree.isIgnorableNode] at enters
      dsimp only at prunable
      rw [NodeTree.isIgnorableNode, namespaceUri, splices.isIgnorable, enters] at prunable
      cases prunable

theorem mem_prunedNodes_iff (splices : t.Splices u x p) (proper : t.Proper) (proper' : u.Proper)
    (i : NodeId) : moved x i ∈ u.prunedNodes ↔ i ∈ t.prunedNodes := by
  rw [mem_prunedNodes proper', mem_prunedNodes proper, splices.isPrunable,
    splices.reaches_iff proper proper' splices.isIgnorableNode splices.ignored_enters]

theorem not_text_of_pruned (proper : t.Proper) (out : i ∈ t.prunedNodes) (content : String) :
    (t.node i).kind ≠ .text content := by
  intro is
  have prunable := ((mem_prunedNodes proper).1 out).2
  rw [NodeTree.isPrunable, is] at prunable
  cases prunable

/-- **Both documents are pruned alike.** -/
theorem prune (splices : t.Splices u x p) (proper : t.Proper) (proper' : u.Proper)
    (linked : t.Linked) (linked' : u.Linked) : t.prune.Splices u.prune x p := by
  have same := splices.mem_prunedNodes_iff proper proper'
  have stays := splices.not_pruned proper'
  have texts := fun i (out : i ∈ t.prunedNodes) => not_text_of_pruned proper out
  have kept := splices.without same stays texts
  refine splices.touches (proper.touches_prune linked) (proper'.touches_prune linked')
    (fun i => ?_) ?_ same stays texts
  · have reached : moved x i ∈ (u.without u.prunedNodes).reachable ↔
        i ∈ (t.without t.prunedNodes).reachable := by
      unfold reachable
      rw [mem_preorder (proper'.without _), mem_preorder (proper.without _),
        kept.reached_iff (proper.without _) (proper'.without _)]
    have here := NodeBody.attributes_of_bare (splices.body i)
    have filters : ∀ list : List Attribute,
        (list.filter fun a => !t.isIgnorable a.name.namespaceUri).map (·.unplaced) =
          (list.map (·.unplaced)).filter fun a => !t.isIgnorable a.name.namespaceUri := fun list => by
      rw [List.filter_map]
      rfl
    rw [node_prune_of_linked proper linked, node_prune_of_linked proper' linked']
    dsimp only
    by_cases is : i ∈ (t.without t.prunedNodes).reachable
    · rw [if_pos is, if_pos (reached.2 is), prunedAttributes, prunedAttributes, splices.isIgnorable,
        filters, filters, here]
    · rw [if_neg is, if_neg fun h => is (reached.1 h), here]
  · rw [node_prune_of_linked proper' linked']
    dsimp only
    rw [prunedAttributes, splices.attributes]
    split <;> rfl

/-! ## Subtrees -/

/-- The forests of subtrees without the new node. -/
theorem forestOf (splices : t.Splices u x p) (proper : t.Proper) (proper' : u.Proper)
    {Q : NodeId → Prop} (down : ∀ n, Q n → ∀ c ∈ (t.node n).children, Q c)
    (apart : ∀ n, Q n → x ∉ (u.node (moved x n)).children ∧
      (u.node (moved x n)).kind = (t.node n).kind) {depth depth' : Nat} {ids : List NodeId}
    (inside : ∀ n ∈ ids, Q n) (deep : ∀ n ∈ ids, n < t.size ∧ t.size ≤ n + depth)
    (deep' : ∀ n ∈ ids, moved x n < u.size ∧ u.size ≤ moved x n + depth') :
    (u.forestOf depth' (ids.map (moved x))).unplaced = (t.forestOf depth ids).unplaced := by
  induction depth generalizing depth' ids with
  | zero =>
    cases ids with
    | nil => cases depth' <;> rfl
    | cons n rest =>
      obtain ⟨small, large⟩ := deep n List.mem_cons_self
      exact absurd large (Nat.not_le_of_lt small)
  | succ depth below =>
    cases depth' with
    | zero =>
      cases ids with
      | nil => rfl
      | cons n rest =>
        obtain ⟨small, large⟩ := deep' n List.mem_cons_self
        exact absurd large (Nat.not_le_of_lt small)
    | succ depth' =>
      rw [NodeTree.forestOf, NodeTree.forestOf]
      induction ids with
      | nil => rfl
      | cons n rest later =>
        obtain ⟨here, others⟩ := List.forall_mem_cons.1 inside
        obtain ⟨deepHere, deepOthers⟩ := List.forall_mem_cons.1 deep
        obtain ⟨deepHere', deepOthers'⟩ := List.forall_mem_cons.1 deep'
        obtain ⟨unlisted, kind⟩ := apart n here
        have children := splices.children_of_not_listed unlisted
        have inner : (u.forestOf depth' (u.node (moved x n)).children).unplaced =
            (t.forestOf depth (t.node n).children).unplaced := by
          rw [children]
          refine below (down n here) (proper.layers.children deepHere.2) fun c listed => ?_
          have listed' : moved x c ∈ (u.node (moved x n)).children := by
            rw [children]
            exact List.mem_map_of_mem listed
          exact proper'.layers.children deepHere'.2 _ listed'
        rw [List.map_cons, List.foldr_cons, List.foldr_cons, Forest.unplaced, Forest.unplaced,
          later others deepOthers deepOthers', inner,
          NodeBody.unplaced_of_bare (splices.body n) kind]

/-- **A subtree without the new node** is the same document in both, apart from positions. -/
theorem extract (splices : t.Splices u x p) (proper : t.Proper) (proper' : u.Proper)
    (above : (u.ancestors (moved x i)).filter (· ≠ x) = (t.ancestors i).map (moved x))
    (apart : ∀ n, t.Reaches (fun _ => false) i n → x ∉ (u.node (moved x n)).children ∧
      (u.node (moved x n)).kind = (t.node n).kind) :
    (u.extract (moved x i)).unplaced = (t.extract i).unplaced := by
  have children := splices.children_of_not_listed (apart i .top).1
  have body : ∀ (n : NodeBody) (d : List (String × String)),
      { n with kind := .root, namespaces := d }.unplaced =
        { n.bare with kind := .root, namespaces := d } := fun _ _ => rfl
  have below : (u.forestOf u.size (u.node (moved x i)).children).unplaced =
      (t.forestOf t.size (t.node i).children).unplaced := by
    rw [children]
    refine splices.forestOf proper proper' (Q := t.Reaches (fun _ => false) i)
      (fun n here c listed => .child here rfl listed) apart
      (fun c listed => .child .top rfl listed) (proper.layers.children_size i) fun c listed => ?_
    have listed' : moved x c ∈ (u.node (moved x i)).children := by
      rw [children]
      exact List.mem_map_of_mem listed
    exact proper'.layers.children_size _ _ listed'
  unfold NodeTree.extract
  rw [unplaced_ofForest, unplaced_ofForest, body, body, splices.body, splices.declarationsAt above,
    below, splices.ignorable]

end Splices

end NodeTree

end MarkupLoader
