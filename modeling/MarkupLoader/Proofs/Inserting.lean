import MarkupLoader.Proofs.Abreast

/-!
# Nodes that come in behind another one

A document gets one node more, right behind the node that lists it: **the node `p` gets other
children**, the new node takes the place after it, and all nodes behind that move on by one place
with their children (`NodeTree.grown`). What stood in `p` has to stand there still, or inside the
new node.

A new first child without children of its own is the case that leaves everything else alone
(`NodeTree.insertFirst`).

Main results: `node_grown_other`, `splices_of_grown`, `Laid.insertFirst`.
-/

namespace MarkupLoader

namespace NodeTree

/-! ## Documents that differ in positions only -/

section Unplaced

variable {t u : NodeTree}

theorem node_unplaced (t : NodeTree) (i : NodeId) :
    t.unplaced.node i = { t.node i with toNodeBody := (t.node i).toNodeBody.unplaced } := by
  unfold unplaced node
  rw [Array.getElem?_map]
  cases t.nodes[i]? <;> rfl

theorem size_unplaced (t : NodeTree) : t.unplaced.size = t.size := by simp [unplaced, size]

variable (same : u.unplaced = t.unplaced)

include same

theorem body_of_unplaced (i : NodeId) :
    (u.node i).toNodeBody.unplaced = (t.node i).toNodeBody.unplaced := by
  have nodes := congrArg (fun v : NodeTree => (v.node i).toNodeBody) same
  rwa [node_unplaced, node_unplaced] at nodes

theorem children_of_unplaced (i : NodeId) : (u.node i).children = (t.node i).children := by
  have nodes := congrArg (fun v : NodeTree => (v.node i).children) same
  rwa [node_unplaced, node_unplaced] at nodes

/-- Positions are no kinds. -/
theorem kind_of_unplaced (i : NodeId) : (u.node i).kind = (t.node i).kind :=
  have kind : ∀ n : NodeBody, n.kind = n.unplaced.kind := fun _ => rfl
  (kind _).trans ((congrArg NodeBody.kind (body_of_unplaced same i)).trans (kind _).symm)

end Unplaced

/-! ## The grown document -/

/-- The node at a place when `new` has come in behind `p`, which lists `own`. -/
def grownNode (t : NodeTree) (p : Nat) (own : List NodeId) (new : Node) (j : Nat) : Node :=
  if j = p then { t.node p with children := own }
  else if j = p + 1 then new
  else
    let n := t.node (if j < p then j else j - 1)
    { n with children := n.children.map (moved (p + 1)) }

/-- **The document with a node more**, `new`, behind the node `p`, which lists `own`. -/
def grown (t : NodeTree) (p : Nat) (own : List NodeId) (new : Node) : NodeTree :=
  ⟨Array.ofFn fun j : Fin (t.size + 1) => t.grownNode p own new j, t.ignorable⟩

section Grown

variable {t u : NodeTree} {p i : Nat} {own : List NodeId} {new : Node}

theorem size_grown (t : NodeTree) (p : Nat) (own : List NodeId) (new : Node) :
    (t.grown p own new).size = t.size + 1 := by simp [grown, size]

theorem node_grown {j : Nat} (inside : j < t.size + 1) :
    (t.grown p own new).node j = t.grownNode p own new j := by
  simp [grown, node, inside]

theorem node_grown_itself (own : List NodeId) (new : Node) (inside : p < t.size) :
    (t.grown p own new).node p = { t.node p with children := own } := by
  rw [node_grown (by omega), grownNode, if_pos rfl]

theorem node_grown_new (own : List NodeId) (new : Node) (inside : p < t.size) :
    (t.grown p own new).node (p + 1) = new := by
  rw [node_grown (by omega), grownNode, if_neg (by omega), if_pos rfl]

/-- All other nodes have moved with their children. -/
theorem node_grown_other (inside : p < t.size) (other : i ≠ p) :
    (t.grown p own new).node (moved (p + 1) i) =
      { t.node i with children := (t.node i).children.map (moved (p + 1)) } := by
  have place : moved (p + 1) i = if i < p then i else i + 1 := by
    unfold moved
    split <;> split <;> omega
  by_cases within : i < t.size
  · have back : (if moved (p + 1) i < p then moved (p + 1) i else moved (p + 1) i - 1) = i := by
      by_cases before : i < p
      · rw [place, if_pos before, if_pos before]
      · rw [place, if_neg before, if_neg (by omega), Nat.add_sub_cancel]
    rw [node_grown (by rw [place]; split <;> omega), grownNode,
      if_neg (by rw [place]; split <;> omega), if_neg (by rw [place]; split <;> omega)]
    dsimp only
    rw [back]
  · have far : t.size + 1 ≤ moved (p + 1) i := by
      rw [place]
      split <;> omega
    rw [node_of_size_le (t := t.grown p own new) (by rwa [size_grown]),
      node_of_size_le (Nat.le_of_not_lt within)]
    rfl

/-- What a node says that is no new one. -/
theorem body_grown (inside : p < t.size) (i : Nat) :
    ((t.grown p own new).node (moved (p + 1) i)).toNodeBody = (t.node i).toNodeBody := by
  by_cases here : i = p
  · have stays : moved (p + 1) p = p := moved_of_lt (Nat.lt_succ_self p)
    rw [here, stays, node_grown_itself _ _ inside]
  · rw [node_grown_other inside here]

/-- **The grown document has a node more**, if what stood in `p` stands there or in the new node. -/
theorem splices_of_grown (same : u.unplaced = (t.grown p own new).unplaced) (inside : p < t.size)
    (lists : own.flatMap (fun c => if c = p + 1 then new.children else [c]) =
      (t.node p).children.map (moved (p + 1)))
    (splice : Splice t u (p + 1) p) (attributes : new.attributes = [])
    (namespaces : new.namespaces = [])
    (joined : (t.node p).isObject = true → (t.node p).toNodeBody.IsScalar →
      u.textContent p = t.textContent p) :
    t.Splices u (p + 1) p := by
  have stays : moved (p + 1) p = p := moved_of_lt (Nat.lt_succ_self p)
  have body := body_of_unplaced same
  have children := children_of_unplaced same
  have there := node_grown_new own new inside
  have written := body (p + 1)
  rw [there] at written
  have size : u.size = t.size + 1 := by
    rw [← u.size_unplaced, same, size_unplaced, size_grown]
  refine {
    later := Nat.succ_pos p
    places := fun i => ?_
    ignorable := show u.unplaced.ignorable = _ by rw [same]; rfl
    body := fun i => ?_
    kind := fun i => .inl ?_
    children := fun i other => by rw [children, node_grown_other inside other]
    below := ?_
    spliced := fun _ => splice
    attributes := ?_
    namespaces := (congrArg NodeBody.namespaces written).trans namespaces
    joined := fun is scalar => by rw [stays]; exact joined is scalar }
  · rw [size]
    unfold moved
    split <;> omega
  · have bare : ∀ n : NodeBody, n.bare = { n.unplaced with kind := n.unplaced.kind.bare } :=
      fun _ => rfl
    rw [bare, body, body_grown inside, ← bare]
  · rw [kind_of_unplaced same, body_grown inside]
  · rw [stays, children, node_grown_itself _ _ inside]
    dsimp only
    rw [← lists]
    refine congrArg (List.flatMap · own) (funext fun c => ?_)
    rw [entering, children, there]
  · refine List.map_eq_nil_iff.1 ((congrArg NodeBody.attributes written).trans ?_)
    show new.attributes.map (·.unplaced) = []
    rw [attributes]
    rfl

end Grown

/-! ## A new first child -/

/-- The document with a new first child in `p`, which has no children. -/
def insertFirst (t : NodeTree) (p : Nat) (body : NodeBody) : NodeTree :=
  t.grown p ((p + 1) :: (t.node p).children.map (moved (p + 1))) ⟨body, [], none⟩

section Inserted

variable {t u : NodeTree} {p : Nat} {body : NodeBody}

/-- **The document with a new first child has a node more.** -/
theorem splices_insertFirst (same : u.unplaced = (t.insertFirst p body).unplaced)
    (inside : p < t.size) (splice : Splice t u (p + 1) p) (attributes : body.attributes = [])
    (namespaces : body.namespaces = [])
    (joined : (t.node p).isObject = true → (t.node p).toNodeBody.IsScalar →
      u.textContent p = t.textContent p) :
    t.Splices u (p + 1) p := by
  refine splices_of_grown same inside ?_ splice attributes namespaces joined
  rw [List.flatMap_cons, if_pos rfl, List.nil_append]
  have each : ∀ c ∈ (t.node p).children.map (moved (p + 1)),
      (if c = p + 1 then [] else [c]) = [c] := by
    intro c mem
    obtain ⟨i, -, rfl⟩ := List.mem_map.1 mem
    exact if_neg (moved_ne (p + 1) i)
  rw [List.flatMap_congr each, List.flatMap_singleton']

/-- What is listed in the document with a new first child. -/
theorem listed_insertFirst (inside : p < t.size) {q c : Nat} :
    c ∈ ((t.insertFirst p body).node q).children ↔ q = p ∧ c = p + 1 ∨
      ∃ i d, q = moved (p + 1) i ∧ c = moved (p + 1) d ∧ d ∈ (t.node i).children := by
  have stays : moved (p + 1) p = p := moved_of_lt (Nat.lt_succ_self p)
  unfold insertFirst
  by_cases new : q = p + 1
  · subst new
    rw [node_grown_new _ _ inside]
    constructor
    · intro mem
      cases mem
    · rintro (⟨is, -⟩ | ⟨i, -, is, -⟩)
      · omega
      · exact absurd is.symm (moved_ne _ i)
  · obtain ⟨i, rfl⟩ := exists_moved new
    by_cases here : i = p
    · subst here
      rw [stays, node_grown_itself _ _ inside, List.mem_cons, List.mem_map]
      constructor
      · rintro (rfl | ⟨d, mem, rfl⟩)
        · exact .inl ⟨rfl, rfl⟩
        · exact .inr ⟨i, d, stays.symm, rfl, mem⟩
      · rintro (⟨-, rfl⟩ | ⟨j, d, is, rfl, mem⟩)
        · exact .inl rfl
        · obtain rfl := moved_injective _ (stays.trans is)
          exact .inr ⟨d, mem, rfl⟩
    · rw [node_grown_other inside here, List.mem_map]
      constructor
      · rintro ⟨d, mem, rfl⟩
        exact .inr ⟨i, d, rfl, rfl, mem⟩
      · rintro (⟨is, -⟩ | ⟨j, d, is, rfl, mem⟩)
        · exact absurd (moved_injective _ (is.trans stays.symm)) here
        · obtain rfl := moved_injective _ is
          exact ⟨d, mem, rfl⟩

theorem size_insertFirst (t : NodeTree) (p : Nat) (body : NodeBody) :
    (t.insertFirst p body).size = t.size + 1 := size_grown ..

/-- **A new first child is reached**, and all nodes are listed in order as before. -/
theorem Laid.insertFirst (laid : t.Laid) (inside : p < t.size) (body : NodeBody) :
    (t.insertFirst p body).Laid := by
  have proper := laid.proper
  have stays : moved (p + 1) p = p := moved_of_lt (Nat.lt_succ_self p)
  have listed {q c : Nat} : c ∈ ((t.insertFirst p body).node q).children ↔ _ :=
    listed_insertFirst inside
  have node : ∀ j, ((t.insertFirst p body).node j).parent = none ∧
      ((t.insertFirst p body).node j).children.Nodup := by
    intro j
    unfold NodeTree.insertFirst
    by_cases new : j = p + 1
    · rw [new, node_grown_new _ _ inside]
      exact ⟨rfl, List.nodup_nil⟩
    · obtain ⟨i, rfl⟩ := exists_moved new
      have nodup := (proper.nodup i).map (moved_injective (p + 1))
      by_cases here : i = p
      · subst here
        rw [stays, node_grown_itself _ _ inside]
        refine ⟨laid.unlinked i, List.nodup_cons.2 ⟨fun mem => ?_, nodup⟩⟩
        obtain ⟨c, -, is⟩ := List.mem_map.1 mem
        exact moved_ne _ c is
      · rw [node_grown_other inside here]
        exact ⟨laid.unlinked i, nodup⟩
  refine ⟨⟨?_, fun q c mem => ?_, fun q c mem => ?_, fun q r c mem mem' => ?_, fun q => (node q).2⟩,
    fun j small => ?_, fun j => (node j).1⟩
  · rw [size_insertFirst]
    omega
  · rcases listed.1 mem with ⟨rfl, rfl⟩ | ⟨i, d, rfl, rfl, lists⟩
    · omega
    · have := proper.later i d lists
      unfold moved
      split <;> split <;> omega
  · rw [size_insertFirst]
    rcases listed.1 mem with ⟨rfl, rfl⟩ | ⟨i, d, rfl, rfl, lists⟩
    · omega
    · have := proper.inside i d lists
      unfold moved
      split <;> omega
  · rcases listed.1 mem with ⟨rfl, rfl⟩ | ⟨i, d, rfl, rfl, lists⟩ <;>
      rcases listed.1 mem' with ⟨rfl, is⟩ | ⟨j, d', rfl, is, lists'⟩
    · rfl
    · exact absurd is.symm (moved_ne _ d')
    · exact absurd is (moved_ne _ d)
    · obtain rfl := moved_injective _ is
      rw [proper.once i j d lists lists']
  · -- All that has moved is reached the way it was before, and the new node from `p`.
    have reached : ∀ i, t.Reaches (fun _ => false) root i →
        (t.insertFirst p body).Reaches (fun _ => false) root (moved (p + 1) i) := by
      intro i above
      induction above with
      | top =>
        rw [moved_root (Nat.succ_pos p)]
        exact .top
      | child _ _ mem ih => exact .child ih rfl (listed.2 (.inr ⟨_, _, rfl, rfl, mem⟩))
    rw [size_insertFirst] at small
    by_cases new : j = p + 1
    · have above := reached p (laid.reached p inside)
      rw [stays] at above
      exact .child above rfl (listed.2 (.inl ⟨rfl, new⟩))
    · obtain ⟨i, rfl⟩ := exists_moved new
      refine reached i (laid.reached i ?_)
      unfold moved at small
      split at small <;> omega

end Inserted

end NodeTree

end MarkupLoader
