import MarkupLoader.Proofs.Asides
import MarkupLoader.Proofs.Wrapping

/-!
# Documents with a text cut in two

A document that has been read where something stands inside a text has **two texts in the place of the
one** (`NodeTree.halved`): the node of the text says what stands before the place, and there is a node
more right behind it, which says what stands after it.

So the second document has a node spliced in (`splices_of_halved`), if the texts of a scalar give the
same when they are joined; a scalar does not see where one text ends and the next one begins.

Main results: `halved_of_retexted`, `splices_of_halved`.
-/

namespace MarkupLoader

/-- The children of a node when one of them has been cut in two. -/
def halves (c : Nat) (list : List NodeId) : List NodeId :=
  list.flatMap fun i => if i = c then [c, c + 1] else [NodeTree.moved (c + 1) i]

/-- A node with its children where one node has been cut in two. -/
def Node.halve (c : Nat) (n : Node) : Node := { n with children := halves c n.children }

/-- A text as a node. -/
def Node.ofText (text : String) : Node := ⟨.ofText text .nowhere, [], none⟩

/-- **The document with the text at `c` cut in two.** -/
def NodeTree.halved (t : NodeTree) (c : Nat) (first second : String) : NodeTree :=
  ⟨((t.nodes.toList.take c).map (Node.halve c) ++ .ofText first :: .ofText second ::
    (t.nodes.toList.drop (c + 1)).map (Node.halve c)).toArray, t.ignorable⟩

open NodeTree (moved)

/-! ## Children -/

section Children

variable {c : Nat} {list : List NodeId}

theorem halves_cons_of_ne {i : Nat} (other : i ≠ c) (list : List NodeId) :
    halves c (i :: list) = moved (c + 1) i :: halves c list := by
  rw [halves, List.flatMap_cons, if_neg other]
  rfl

theorem halves_cons_self (c : Nat) (list : List NodeId) :
    halves c (c :: list) = c :: (c + 1) :: halves c list := by
  rw [halves, List.flatMap_cons, if_pos rfl]
  rfl

/-- Where the node is not listed, all nodes have moved. -/
theorem halves_of_not_mem (absent : c ∉ list) : halves c list = list.map (moved (c + 1)) := by
  have each : ∀ i ∈ list, (if i = c then [c, c + 1] else [moved (c + 1) i]) = [moved (c + 1) i] :=
    fun i mem => if_neg (ne_of_mem_of_not_mem mem absent)
  rw [halves, List.flatMap_congr each, ← List.map_eq_flatMap]

/-- Nodes before the one that is cut stay where they are. -/
theorem halves_before (before : ∀ i ∈ list, i < c) : halves c list = list := by
  rw [halves_of_not_mem fun mem => Nat.lt_irrefl c (before c mem)]
  refine (List.map_congr_left fun i mem => ?_).trans (List.map_id list)
  exact if_pos (Nat.lt_succ_of_lt (before i mem))

end Children

/-! ## Forests -/

namespace Forest

variable {c : Nat}

/-- What stands before the node that is cut stays as it is. -/
theorem nodes_before (f : Forest) (base : Nat) (before : base + f.size ≤ c) :
    halves c (f.roots base) = f.roots base ∧
      (f.nodes base).map (Node.halve c) = f.nodes base := by
  refine ⟨halves_before fun i mem => Nat.lt_of_lt_of_le (mem_roots mem).2 before, ?_⟩
  induction f generalizing base with
  | nil => rfl
  | cons body children siblings below behind =>
    rw [size] at before
    have inside : halves c (children.roots (base + 1)) = children.roots (base + 1) :=
      halves_before fun i mem => Nat.lt_of_lt_of_le (mem_roots mem).2 (by omega)
    rw [nodes, List.map_cons, List.map_append, below _ (by omega), behind _ (by omega), Node.halve,
      inside]

/-- What stands behind the node that is cut moves on by one place. -/
theorem nodes_behind (f : Forest) (base : Nat) (behind : c < base) :
    f.roots (base + 1) = halves c (f.roots base) ∧
      f.nodes (base + 1) = (f.nodes base).map (Node.halve c) := by
  induction f generalizing base with
  | nil => exact ⟨rfl, rfl⟩
  | cons body children siblings below later =>
    obtain ⟨roots₁, nodes₁⟩ := below (base + 1) (Nat.lt_succ_of_lt behind)
    obtain ⟨roots₂, nodes₂⟩ := later (base + 1 + children.size) (by omega)
    have here : moved (c + 1) base = base + 1 := if_neg (by omega)
    have next : base + 1 + 1 + children.size = base + 1 + children.size + 1 := by omega
    constructor
    · rw [roots, roots, halves_cons_of_ne (Nat.ne_of_gt behind), here, ← roots₂, next]
    · rw [nodes, nodes, List.map_cons, List.map_append, Node.halve, ← roots₁, ← nodes₁, ← nodes₂,
        next]

/-- **A forest with a text cut in two** is laid out as the forest with the whole text, but for the two
nodes that stand in the place of the one. -/
theorem nodes_of_retexted {whole first second : String} {f g : Forest}
    (retexted : f.Retexted [whole] [first, second] g) (base : Nat) :
    ∃ front back, f.nodes base = front ++ .ofText whole :: back ∧
      g.nodes base = front.map (Node.halve (base + front.length)) ++ .ofText first ::
        .ofText second :: back.map (Node.halve (base + front.length)) ∧
      g.roots base = halves (base + front.length) (f.roots base) ∧ g.size = f.size + 1 := by
  induction retexted generalizing base with
  | here siblings =>
    obtain ⟨roots', nodes'⟩ := nodes_behind siblings (base + 1) (Nat.lt_succ_self base)
    refine ⟨[], siblings.nodes (base + 1), rfl, ?_, ?_, ?_⟩
    · rw [List.map_nil, List.nil_append, List.length_nil, Nat.add_zero, ← nodes']
      rfl
    · rw [List.length_nil, Nat.add_zero]
      show base :: (base + 1) :: siblings.roots (base + 1 + 1) = halves base (base :: _)
      rw [halves_cons_self, roots']
      rfl
    · show 1 + 0 + (1 + 0 + siblings.size) = 1 + 0 + siblings.size + 1
      omega
  | @inside body f g siblings _ ih =>
    obtain ⟨front, back, nodes₁, nodes₂, roots', size'⟩ := ih (base + 1)
    have length : front.length < f.size := by
      have := congrArg List.length nodes₁
      rw [length_nodes, List.length_append, List.length_cons] at this
      omega
    refine ⟨⟨body, f.roots (base + 1), none⟩ :: front,
      back ++ siblings.nodes (base + 1 + f.size), ?_, ?_, ?_, ?_⟩
    · rw [nodes, nodes₁]
      simp
    · obtain ⟨-, nodes'⟩ := nodes_behind (c := base + 1 + front.length) siblings
        (base + 1 + f.size) (by omega)
      have place : base + (front.length + 1) = base + 1 + front.length := by omega
      have next : base + 1 + g.size = base + 1 + f.size + 1 := by omega
      rw [nodes, nodes₂, roots', next, nodes', List.length_cons, place]
      simp [Node.halve]
    · obtain ⟨roots₂, -⟩ := nodes_behind (c := base + 1 + front.length) siblings
        (base + 1 + f.size) (by omega)
      have place : base + (front.length + 1) = base + 1 + front.length := by omega
      have next : base + 1 + g.size = base + 1 + f.size + 1 := by omega
      have stays : moved (base + 1 + front.length + 1) base = base := if_pos (by omega)
      rw [roots, roots, List.length_cons, place, halves_cons_of_ne (by omega), stays, next, roots₂]
    · rw [size, size, size']
      omega
  | @behind body children f g _ ih =>
    obtain ⟨front, back, nodes₁, nodes₂, roots', size'⟩ := ih (base + 1 + children.size)
    have place : base + (⟨body, children.roots (base + 1), none⟩ ::
        (children.nodes (base + 1) ++ front) : List Node).length =
        base + 1 + children.size + front.length := by
      rw [List.length_cons, List.length_append, length_nodes]
      omega
    have before := children.nodes_before (c := base + 1 + children.size + front.length) (base + 1)
      (by omega)
    refine ⟨⟨body, children.roots (base + 1), none⟩ :: (children.nodes (base + 1) ++ front), back,
      ?_, ?_, ?_, ?_⟩
    · rw [nodes, nodes₁]
      simp
    · rw [place, nodes, nodes₂, List.map_cons, List.map_append, before.2, Node.halve, before.1]
      simp
    · have stays : moved (base + 1 + children.size + front.length + 1) base = base :=
        if_pos (by omega)
      rw [place, roots, roots, halves_cons_of_ne (by omega), stays, roots']
    · rw [size, size, size']
      omega

end Forest

namespace NodeTree

variable {t u : NodeTree} {c p : Nat} {whole first second : String}

/-! ## Documents -/

theorem unplaced_halved (t : NodeTree) (c : Nat) (first second : String) :
    (t.halved c first second).unplaced = t.unplaced.halved c first second := by
  unfold halved unplaced
  simp only [List.map_toArray, List.map_append, List.map_cons, List.map_map, List.map_take,
    List.map_drop, Array.toList_map]
  rfl

/-- **A document that has been read where a text is cut in two** has two texts for the one. -/
theorem halved_of_retexted {body body' : NodeBody} {below below' : Forest} {ignorable : List String}
    (same : body'.unplaced = body.unplaced)
    (retexted : below.unplaced.Retexted [whole] [first, second] below'.unplaced) :
    ∃ c : Nat, 0 < c ∧ c < (ofForest body below ignorable).size ∧
      (ofForest body' below' ignorable).unplaced =
        ((ofForest body below ignorable).halved c first second).unplaced ∧
      ((ofForest body below ignorable).node c).toNodeBody.unplaced = .ofText whole .nowhere ∧
      ((ofForest body below ignorable).node c).children = [] := by
  obtain ⟨front, back, nodes, nodes', roots', -⟩ := Forest.nodes_of_retexted retexted 1
  have laid : (ofForest body below ignorable).unplaced.nodes.toList =
      (⟨body.unplaced, below.unplaced.roots 1, none⟩ :: front) ++ .ofText whole :: back := by
    rw [unplaced_ofForest, ofForest, nodes]
    rfl
  have place : (⟨body.unplaced, below.unplaced.roots 1, none⟩ :: front : List Node).length =
      1 + front.length := Nat.add_comm _ _
  have here : (ofForest body below ignorable).unplaced.node (1 + front.length) = .ofText whole := by
    rw [node, ← Array.getElem?_toList, laid, ← place, List.getElem?_append_right (Nat.le_refl _),
      Nat.sub_self]
    rfl
  rw [node_unplaced] at here
  refine ⟨1 + front.length, by omega, ?_, ?_, congrArg Node.toNodeBody here,
    congrArg Node.children here⟩
  · rw [← size_unplaced, size, ← Array.length_toList, laid, List.length_append, place]
    exact Nat.lt_add_of_pos_right (Nat.succ_pos _)
  · rw [unplaced_halved, halved, laid, ← place, List.take_left, ← List.drop_drop, List.drop_left,
      place, unplaced_ofForest, unplaced_ofForest, same, ofForest, nodes', roots']
    rfl

/-! ## Nodes -/

section Nodes

variable (inside : c < t.size)

include inside

theorem length_take_nodes :
    ((t.nodes.toList.take c).map (Node.halve c)).length = c := by
  rw [List.length_map, List.length_take, Array.length_toList]
  exact Nat.min_eq_left (Nat.le_of_lt inside)

theorem size_halved (first second : String) : (t.halved c first second).size = t.size + 1 := by
  unfold halved size at *
  rw [List.size_toArray, List.length_append, length_take_nodes inside]
  simp only [List.length_cons, List.length_map, List.length_drop, Array.length_toList]
  omega

theorem node_halved_first (first second : String) :
    (t.halved c first second).node c = .ofText first := by
  unfold halved node
  rw [List.getElem?_toArray, List.getElem?_append_right (Nat.le_of_eq (length_take_nodes inside)),
    length_take_nodes inside, Nat.sub_self]
  rfl

theorem node_halved_second (first second : String) :
    (t.halved c first second).node (c + 1) = .ofText second := by
  unfold halved node
  rw [List.getElem?_toArray, List.getElem?_append_right
    (Nat.le_trans (Nat.le_of_eq (length_take_nodes inside)) (Nat.le_succ c)),
    length_take_nodes inside, Nat.succ_sub (Nat.le_refl c), Nat.sub_self]
  rfl

/-- All other nodes have moved with their children. -/
theorem node_halved_other {i : Nat} (other : i ≠ c) (first second : String) :
    (t.halved c first second).node (moved (c + 1) i) = (t.node i).halve c := by
  have halve (n : Option Node) : (n.map (Node.halve c)).getD default = (n.getD default).halve c := by
    cases n <;> rfl
  unfold halved node
  rw [List.getElem?_toArray, ← halve]
  refine congrArg (Option.getD · default) ?_
  have length := length_take_nodes inside
  rcases Nat.lt_or_gt_of_ne other with before | behind
  · rw [moved, if_pos (Nat.lt_succ_of_lt before), List.getElem?_append_left (length.symm ▸ before),
      List.getElem?_map, List.getElem?_take, if_pos before, Array.getElem?_toList]
  · obtain ⟨k, rfl⟩ := Nat.exists_eq_add_of_lt behind
    have place : c + k + 1 + 1 - c = k + 2 := by omega
    have back : c + 1 + k = c + k + 1 := by omega
    rw [moved, if_neg (by omega), List.getElem?_append_right (by omega), length, place,
      List.getElem?_cons_succ, List.getElem?_cons_succ, List.getElem?_map, List.getElem?_drop,
      Array.getElem?_toList, back]

end Nodes

/-! ## The node more -/

/-- Texts are joined to the same, whether one of them has been cut in two or not. -/
theorem join_halves (first second : String) {said said' : NodeId → Option String}
    (others : ∀ i ≠ c, said' (moved (c + 1) i) = said i) (one : said' c = some first)
    (two : said' (c + 1) = some second) (text : said c = some (first ++ second))
    (list : List NodeId) :
    String.join ((halves c list).filterMap said') = String.join (list.filterMap said) := by
  induction list with
  | nil => rfl
  | cons i list ih =>
    by_cases here : i = c
    · rw [here, halves_cons_self, List.filterMap_cons_some one, List.filterMap_cons_some two,
        List.filterMap_cons_some text, String.join_cons, String.join_cons, String.join_cons, ih,
        String.append_assoc]
    · rw [halves_cons_of_ne here]
      cases is : said i with
      | none => rw [List.filterMap_cons_none is, List.filterMap_cons_none ((others i here).trans is), ih]
      | some content =>
        rw [List.filterMap_cons_some is, List.filterMap_cons_some ((others i here).trans is),
          String.join_cons, String.join_cons, ih]

theorem flatMap_halves (alone : (u.node (c + 1)).children = []) (list : List NodeId) :
    (halves c list).flatMap (u.entering (c + 1)) = list.map (moved (c + 1)) := by
  have stays : moved (c + 1) c = c := if_pos (Nat.lt_succ_self c)
  induction list with
  | nil => rfl
  | cons i list ih =>
    by_cases here : i = c
    · rw [here, halves_cons_self, List.flatMap_cons, List.flatMap_cons, ih,
        entering_of_ne (Nat.ne_of_lt (Nat.lt_succ_self c)), entering, if_pos rfl, alone,
        List.map_cons, stays]
      rfl
    · rw [halves_cons_of_ne here, List.flatMap_cons, ih, entering_of_ne (moved_ne _ _),
        List.map_cons]
      rfl

section Splicing

variable (same : u.unplaced = (t.halved c first second).unplaced) (inside : c < t.size)

include same inside

/-- The parts of the text are two texts, and all other nodes are of the kinds that they are of. -/
theorem kind_of_halved : (u.node c).kind = .text first ∧ (u.node (c + 1)).kind = .text second ∧
    ∀ i, i ≠ c → (u.node (moved (c + 1) i)).kind = (t.node i).kind := by
  have kind (i : Nat) : (u.node i).kind = ((t.halved c first second).node i).kind := by
    have kinds := congrArg NodeBody.kind (body_of_unplaced same i)
    exact kinds
  refine ⟨?_, ?_, fun i ne => ?_⟩
  · rw [kind, node_halved_first inside]
    rfl
  · rw [kind, node_halved_second inside]
    rfl
  · rw [kind, node_halved_other inside ne]
    rfl

/-- The parts have no children, and all other nodes have the same ones, but for the part more. -/
theorem children_of_halved : (u.node c).children = [] ∧ (u.node (c + 1)).children = [] ∧
    ∀ i, i ≠ c → (u.node (moved (c + 1) i)).children = halves c (t.node i).children := by
  have children := children_of_unplaced same
  refine ⟨?_, ?_, fun i ne => ?_⟩
  · rw [children, node_halved_first inside]
    rfl
  · rw [children, node_halved_second inside]
    rfl
  · rw [children, node_halved_other inside ne]
    rfl

/-- **The document with a text cut in two has a node more**, if a scalar is read from the same text. -/
theorem splices_of_halved (proper : t.Proper)
    (text : (t.node c).toNodeBody.unplaced = .ofText whole .nowhere)
    (leaf : (t.node c).children = []) (listed : c ∈ (t.node p).children)
    (joined : (t.node p).isObject = true → (t.node p).toNodeBody.IsScalar → first ++ second = whole) :
    t.Splices u (c + 1) p := by
  have body := body_of_unplaced same
  have size : u.size = t.size + 1 := by
    rw [← u.size_unplaced, same, size_unplaced, size_halved inside]
  have bare (n : NodeBody) : n.bare = { n.unplaced with kind := n.unplaced.kind.bare } := rfl
  have stays : moved (c + 1) c = c := if_pos (Nat.lt_succ_self c)
  have content : (t.node c).kind = .text whole := congrArg NodeBody.kind text
  obtain ⟨one, two, other⟩ := kind_of_halved same inside
  obtain ⟨alone, alone', lists⟩ := children_of_halved same inside
  have written := body (c + 1)
  rw [node_halved_second inside] at written
  have above : p ≠ c := Nat.ne_of_lt (proper.later p c listed)
  have here : c + 1 ∈ (u.node (moved (c + 1) p)).children := by
    rw [lists p above]
    refine List.mem_flatMap.2 ⟨c, listed, ?_⟩
    rw [if_pos rfl]
    exact List.mem_cons_of_mem _ (List.mem_singleton_self _)
  refine {
    later := Nat.succ_pos c
    places := fun i => ?_
    ignorable := show u.unplaced.ignorable = _ by rw [same]; rfl
    body := fun i => ?_
    kind := fun i => ?_
    children := fun i ne => ?_
    below := by rw [lists p above, flatMap_halves alone']
    spliced := fun _ => .text two alone'
    attributes := List.map_eq_nil_iff.1 (congrArg NodeBody.attributes written)
    namespaces := (congrArg NodeBody.namespaces written :)
    joined := fun object scalar => ?_ }
  · rw [size]
    unfold moved
    split <;> omega
  · rw [bare, body, bare]
    by_cases is : i = c
    · rw [is, stays, node_halved_first inside, text]
      rfl
    · rw [node_halved_other inside is]
      rfl
  · by_cases is : i = c
    · exact .inr ⟨here, is ▸ listed, whole, is ▸ content⟩
    · exact .inl (other i is)
  · by_cases is : i = c
    · rw [is, stays, alone, leaf]
      rfl
    · rw [lists i is, halves_of_not_mem fun mem => ne (proper.once i p c mem listed)]
  · unfold textContent
    rw [lists p above]
    refine join_halves first second (fun i ne => ?_) ?_ ?_ ?_ _
    · rw [other i ne]
    · rw [one]
    · rw [two]
    · rw [content, joined object scalar]

end Splicing

end NodeTree

end MarkupLoader
