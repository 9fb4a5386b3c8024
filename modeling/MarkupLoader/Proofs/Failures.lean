import MarkupLoader.Proofs.Creating

/-!
# Creating values with and without what fails

The creation of values takes out of the document what it cannot create. **The failures**
(`Load.failures`) are what one load takes out; another load has a document without them. At each
moment the first load has taken out some of its failures, and the others have no value yet
(`Load.Halfway`), so nobody gets anything from them.

* **A node that does not stay** is seen to by the first load alone; what is made for it is matched
  with nothing.
* **A node that stays** is created from the same in both loads, or is the outermost one and ends
  both.

Main results: `start_createList`, `Halfway.step_left`, `Halfway.step_both`, `ends_createList`.
-/

namespace MarkupLoader

/-! ## Failures -/

/-- Whether the creation of values leaves a node out. -/
def LoadState.omits (s : LoadState) (env : Environment) (id : NodeId) : Bool :=
  (s.node id).isObject && id != NodeTree.root &&
    match s.make env id with
    | .ok _ => false
    | .error _ => true

namespace Load

/-- The nodes that the creation of values leaves out of those in a list. -/
def failures (env : Environment) : List NodeId → LoadState → List NodeId
  | [], _ => []
  | id :: rest, s =>
    match (createValue env id).start s with
    | (.ok (), next) =>
      if s.omits env id then id :: failures env rest next else failures env rest next
    | (.error _, _) => []

section Failures

variable {env : Environment} {s : LoadState} {id : NodeId}

variable (env) in
/-- A step takes a node out, or leaves the tree as it is and gives no other node a value. -/
theorem createValue_cases (tolerant : s.context.tolerant = true)
    (fresh : s.context.value? id = none) :
    (s.omits env id = true ∧ ∃ error,
      (createValue env id).start s = (.ok (), s.omitting id error)) ∨
    (s.omits env id = false ∧ ∃ ended next,
      (createValue env id).start s = (ended, next) ∧ next.tree = s.tree ∧
        next.context.tolerant = true ∧
        ∀ other, other ≠ id → next.context.value? other = s.context.value? other) := by
  rcases start_createValue_cases env fresh with ⟨next, ran, creates⟩ | ⟨error, ran, -, ended⟩
  · have others : ∀ other, other ≠ id → next.context.value? other = s.context.value? other :=
      fun _ => creates.value?_of_ne
    cases creates with
    | idle object => exact .inr ⟨by simp [LoadState.omits, object], _, _, ran, rfl, tolerant, others⟩
    | reused _ top => exact .inr ⟨by simp [LoadState.omits, top], _, _, ran, rfl, tolerant, others⟩
    | scalar _ _ made =>
      exact .inr ⟨by simp [LoadState.omits, made], _, _, ran, rfl, tolerant, others⟩
    | @made o _ _ made =>
      exact .inr ⟨by simp [LoadState.omits, made], _, _, ran, s.tree_withNew id o,
        (s.tolerant_withNew id o).trans tolerant, others⟩
    | omitted object below failed =>
      exact .inl ⟨by simp [LoadState.omits, object, below, failed], _, ran⟩
  · have top : id = NodeTree.root := ended.resolve_right (by rw [tolerant]; decide)
    exact .inr ⟨by simp [LoadState.omits, top], _, _, ran, rfl, tolerant, fun _ _ => rfl⟩

theorem failures_sublist (env : Environment) (ids : List NodeId) :
    ∀ s, (failures env ids s).Sublist ids := by
  induction ids with
  | nil => exact fun _ => .slnil
  | cons id rest ih =>
    intro s
    rw [failures]
    split
    · split
      · exact (ih _).cons_cons id
      · exact (ih _).cons id
    · exact List.nil_sublist _

variable (env) in
/-- The creation of values takes the failures out of the tree, which are elements below the
outermost one. -/
theorem start_createList {t : NodeTree} (proper : t.Proper) (linked : t.Linked)
    (ids : List NodeId) :
    ∀ (done : List NodeId) (s : LoadState), s.tree = t.without done →
      s.context.tolerant = true → ids.Nodup → (∀ id ∈ ids, s.context.value? id = none) →
      (∀ id ∈ ids, t.Reaches (fun _ => false) NodeTree.root id) →
      ((ids.forM (createValue env)).start s).2.tree = t.without (done ++ failures env ids s) ∧
        ∀ id ∈ failures env ids s, (t.node id).isObject = true ∧ id ≠ NodeTree.root := by
  induction ids with
  | nil =>
    intro done s tree _ _ _ _
    rw [failures, List.append_nil]
    exact ⟨tree, List.forall_mem_nil _⟩
  | cons id rest ih =>
    intro done s tree tolerant nodup fresh reached
    obtain ⟨new, nodup⟩ := List.nodup_cons.1 nodup
    obtain ⟨freshHere, freshLater⟩ := List.forall_mem_cons.1 fresh
    obtain ⟨here, later⟩ := List.forall_mem_cons.1 reached
    have others : ∀ other ∈ rest, other ≠ id := fun other mem same => new (same ▸ mem)
    rw [start_forM_cons, failures]
    rcases createValue_cases env tolerant freshHere with
      ⟨omits, error, run⟩ | ⟨stays, ended, next, run, same, tolerant', values⟩
    · have step := NodeTree.detach_without linked proper done here
      obtain ⟨after, failed⟩ := ih (done ++ [id]) (s.omitting id error)
        ((congrArg (NodeTree.detach · id) tree).trans step) tolerant nodup freshLater later
      rw [start_bind_of_ok run, run]
      dsimp only
      rw [if_pos omits]
      refine ⟨by rw [after, List.append_assoc]; rfl, ?_⟩
      intro other mem
      rcases List.mem_cons.1 mem with rfl | mem
      · unfold LoadState.omits at omits
        rw [Bool.and_eq_true, Bool.and_eq_true, LoadState.node, tree, NodeTree.node_without] at omits
        exact ⟨omits.1.1, by simpa using omits.1.2⟩
      · exact failed other mem
    · cases ended with
      | error error =>
        rw [start_bind_of_error run, run, List.append_nil]
        exact ⟨same.trans tree, List.forall_mem_nil _⟩
      | ok _ =>
        obtain ⟨after, failed⟩ := ih done next (same.trans tree) tolerant' nodup
          (fun other mem => (values other (others other mem)).trans (freshLater other mem)) later
        rw [start_bind_of_ok run, run]
        dsimp only
        rw [if_neg (by rw [stays]; decide)]
        exact ⟨after, failed⟩

end Failures

end Load

/-! ## Creating on both sides -/

namespace Twins

variable {env : Environment} {kept : NodeTree} {M : Matching} {a b : LoadState} {id : NodeId}

/-- A value of a node that does not stay is seen by nobody. -/
theorem valueLeft (twins : Twins env kept M a b)
    (gone : ¬ kept.Reaches (fun _ => false) NodeTree.root id) (value : Value) :
    Twins env kept M (a.withValue id value) b :=
  { twins with
    left := ⟨twins.left.tolerant, twins.left.opened, twins.left.outermost, twins.left.nodes⟩
    values := fun other reached => by
      have ne : other ≠ id := fun same => gone (same ▸ reached)
      rw [a.value?_withValue, if_neg ne]
      exact twins.values other reached }

theorem valueBoth (twins : Twins env kept M a b) (id : NodeId) {v w : Value}
    (value : M.Values v w) : Twins env kept M (a.withValue id v) (b.withValue id w) :=
  { twins with
    left := ⟨twins.left.tolerant, twins.left.opened, twins.left.outermost, twins.left.nodes⟩
    right := ⟨twins.right.tolerant, twins.right.opened, twins.right.outermost, twins.right.nodes⟩
    values := fun other reached => by
      rw [a.value?_withValue, b.value?_withValue]
      split
      · exact .some value
      · exact twins.values other reached }

/-- An object of the first load alone is matched with nothing. -/
theorem objectLeft (twins : Twins env kept M a b) (o : Object) :
    Twins env kept M (a.withObject o) b :=
  { twins with
    left := ⟨twins.left.tolerant, twins.left.opened, twins.left.outermost, twins.left.nodes⟩
    heaps := twins.heaps.allocLeft o }

theorem omitLeft (twins : Twins env kept M a b) (id : NodeId) (error : LoadError) :
    Twins env kept M (a.omitting id error) b :=
  { twins with
    left := ⟨twins.left.tolerant, twins.left.opened, twins.left.outermost, twins.left.nodes⟩ }

theorem adoptBoth (twins : Twins env kept M a b) {i j : ObjectId} (related : M.rel i j) :
    Twins env kept M (a.adopting i) (b.adopting j) :=
  { twins with
    left := ⟨twins.left.tolerant, twins.left.opened, twins.left.outermost, twins.left.nodes⟩
    right := ⟨twins.right.tolerant, twins.right.opened, twins.right.outermost, twins.right.nodes⟩
    rootElement := .some related
    rootInstance := .some related }

theorem rootBoth (twins : Twins env kept M a b) {i j : ObjectId} (related : M.rel i j) :
    Twins env kept M (a.withRoot i) (b.withRoot j) := by
  have valued := twins.valueBoth NodeTree.root (.object related)
  refine { valued with
    left := ⟨twins.left.tolerant, twins.left.opened, twins.left.outermost, twins.left.nodes⟩
    right := ⟨twins.right.tolerant, twins.right.opened, twins.right.outermost, twins.right.nodes⟩
    rootElement := ?_ }
  have root := twins.rootElement
  show Option.Rel M.rel (a.context.rootElement.or (some i)) (b.context.rootElement.or (some j))
  generalize a.context.rootElement = first at root
  generalize b.context.rootElement = second at root
  cases root with
  | some related => exact .some related
  | none => exact .some related

/-- Both loads make an object of a node. -/
theorem newBoth (twins : Twins env kept M a b) (id : NodeId) {o p : Object}
    (objects : M.Objects o p) :
    ∃ N, M.Within N ∧ Twins env kept N (a.withNew id o) (b.withNew id p) := by
  obtain ⟨N, within, related, heaps⟩ := twins.heaps.alloc objects
  have made : Twins env kept N (a.withObject o) (b.withObject p) := twins.withHeaps within heaps
  refine ⟨N, within, ?_⟩
  unfold LoadState.withNew
  split
  · exact (made.adoptBoth related).valueBoth id (.object related)
  · exact made.valueBoth id (.object related)

end Twins

namespace Load

section Creating

variable {env : Environment} {t : NodeTree} {gone : List NodeId}

/-- Where the creation of values stands: what has been left out so far and what will be are
together what is left out in the end, and nothing of it has a value. -/
structure Halfway (env : Environment) (t : NodeTree) (gone done all : List NodeId)
    (a : LoadState) : Prop where
  tree : a.tree = t.without done
  whole : ∀ id, id ∈ gone ↔ id ∈ done ∨ id ∈ failures env all a
  bare : ∀ id ∈ gone, a.context.value? id = none
  nodup : all.Nodup
  apart : ∀ id ∈ done, id ∉ all
  fresh : ∀ id ∈ all, a.context.value? id = none

variable {done rest : List NodeId} {a : LoadState} {id : NodeId}

theorem Halfway.here (halfway : Halfway env t gone done (id :: rest) a) :
    id ∉ rest ∧ id ∉ done ∧ a.context.value? id = none :=
  ⟨(List.nodup_cons.1 halfway.nodup).1, fun mem => halfway.apart id mem List.mem_cons_self,
    halfway.fresh id List.mem_cons_self⟩

/-- A step that leaves a node in the tree. -/
theorem Halfway.stays (halfway : Halfway env t gone done (id :: rest) a) {next : LoadState}
    (run : (createValue env id).start a = (.ok (), next)) (stays : a.omits env id = false)
    (tree : next.tree = a.tree)
    (values : ∀ other, other ≠ id → next.context.value? other = a.context.value? other) :
    Halfway env t gone done rest next := by
  obtain ⟨new, before, -⟩ := halfway.here
  have left : failures env (id :: rest) a = failures env rest next := by
    rw [failures, run]
    dsimp only
    rw [if_neg (by rw [stays]; decide)]
  have out : id ∉ gone := by
    rw [halfway.whole, left]
    rintro (mem | mem)
    · exact before mem
    · exact new ((failures_sublist env rest next).subset mem)
  refine ⟨tree.trans halfway.tree, fun other => by rw [halfway.whole, left], fun other mem => ?_,
    (List.nodup_cons.1 halfway.nodup).2,
    fun other mem later => halfway.apart other mem (List.mem_cons_of_mem _ later),
    fun other mem => ?_⟩
  · rw [values other fun same => out (same ▸ mem)]
    exact halfway.bare other mem
  · rw [values other fun same => new (same ▸ mem)]
    exact halfway.fresh other (List.mem_cons_of_mem _ mem)

/-- A step that takes a node out. -/
theorem Halfway.omits (halfway : Halfway env t gone done (id :: rest) a) (proper : t.Proper)
    (linked : t.Linked) (reached : t.Reaches (fun _ => false) NodeTree.root id)
    {error : LoadError} (run : (createValue env id).start a = (.ok (), a.omitting id error))
    (omits : a.omits env id = true) :
    Halfway env t gone (done ++ [id]) rest (a.omitting id error) ∧ id ∈ gone := by
  obtain ⟨new, -, -⟩ := halfway.here
  have left : failures env (id :: rest) a = id :: failures env rest (a.omitting id error) := by
    rw [failures, run]
    dsimp only
    rw [if_pos omits]
  refine ⟨⟨?_, fun other => ?_, halfway.bare, (List.nodup_cons.1 halfway.nodup).2, ?_, ?_⟩, ?_⟩
  · exact (congrArg (NodeTree.detach · id) halfway.tree).trans
      (NodeTree.detach_without linked proper done reached)
  · rw [halfway.whole, left, List.mem_cons, List.mem_append, List.mem_singleton, or_assoc]
  · intro other mem later
    rcases List.mem_append.1 mem with mem | mem
    · exact halfway.apart other mem (List.mem_cons_of_mem _ later)
    · exact new (List.mem_singleton.1 mem ▸ later)
  · exact fun other mem => halfway.fresh other (List.mem_cons_of_mem _ mem)
  · rw [halfway.whole, left]
    exact .inr List.mem_cons_self

/-- When there is nothing left to do, the first load has the tree that both have in common. -/
theorem Halfway.aligned {all : List NodeId} {M : Matching} {b : LoadState}
    (halfway : Halfway env t gone done all a) (none : failures env all a = [])
    (twins : Twins env (t.without gone) M a b) : Aligned env (t.without gone) M a b := by
  refine ⟨twins, halfway.tree.trans (NodeTree.without_congr fun id => ?_)⟩
  rw [halfway.whole, none]
  simp

/-- A node that does not stay is seen to by the first load alone. -/
theorem Halfway.step_left {M : Matching} {b : LoadState}
    (halfway : Halfway env t gone done (id :: rest) a) (proper : t.Proper) (linked : t.Linked)
    (reached : t.Reaches (fun _ => false) NodeTree.root id) (out : ¬ t.Keeps gone id)
    (twins : Twins env (t.without gone) M a b) :
    ∃ next done', (createValue env id).start a = (.ok (), next) ∧
      Halfway env t gone done' rest next ∧ Twins env (t.without gone) M next b := by
  obtain ⟨-, -, fresh⟩ := halfway.here
  have below : id ≠ NodeTree.root := fun top => out (top ▸ NodeTree.keeps_root t gone)
  cases object : (a.node id).isObject with
  | false =>
    have run : (createValue env id).start a = (.ok (), a) := start_createValue_idle env object
    have stays : a.omits env id = false := by simp [LoadState.omits, object]
    exact ⟨a, done, run, halfway.stays run stays rfl fun _ _ => rfl, twins⟩
  | true =>
    have node := start_createValue_node env object fun top => absurd top below
    cases made : a.make env id with
    | error error =>
      have run := node.trans (start_createNode_failed made below twins.left.tolerant)
      have omits : a.omits env id = true := by simp [LoadState.omits, object, below, made]
      exact ⟨_, _, run, (halfway.omits proper linked reached run omits).1, twins.omitLeft id error⟩
    | ok made' =>
      have stays : a.omits env id = false := by simp [LoadState.omits, made]
      cases made' with
      | scalar value =>
        have run := node.trans (start_createNode_scalar made fresh)
        refine ⟨_, done, run, halfway.stays run stays rfl ?_, twins.valueLeft out value⟩
        exact fun other ne => a.value?_withValue_of_ne value ne
      | object o =>
        have run := node.trans (start_createNode_object made fresh)
        have new : a.withNew id o = (a.withObject o).withValue id (.object a.heap.size) := by
          rw [LoadState.withNew, if_neg below]
        rw [new] at run
        refine ⟨_, done, run, halfway.stays run stays rfl ?_, (twins.objectLeft o).valueLeft out _⟩
        exact fun other ne => (a.withObject o).value?_withValue_of_ne _ ne

/-- Both loads take a step at a node and go on. The second one keeps its tree, and gives no other
node a value. -/
def StepTogether (env : Environment) (t : NodeTree) (gone done rest : List NodeId) (id : NodeId)
    (M : Matching) (a b : LoadState) : Prop :=
  ∃ N next next', (createValue env id).start a = (.ok (), next) ∧
    (createValue env id).start b = (.ok (), next') ∧ M.Within N ∧
    Halfway env t gone done rest next ∧ Twins env (t.without gone) N next next' ∧
    next'.tree = b.tree ∧
    ∀ other, other ≠ id → next'.context.value? other = b.context.value? other

variable {M : Matching} {b : LoadState}

/-- Both loads have an object for the outermost element already. -/
theorem Halfway.step_root (halfway : Halfway env t gone done (NodeTree.root :: rest) a)
    (twins : Twins env (t.without gone) M a b)
    (leftObject : (a.node NodeTree.root).isObject = true)
    (rightObject : (b.node NodeTree.root).isObject = true)
    (fresh' : b.context.value? NodeTree.root = none) (there : a.rootInstance ≠ none) :
    StepTogether env t gone done rest NodeTree.root M a b := by
  obtain ⟨-, -, fresh⟩ := halfway.here
  have instances := twins.rootInstance
  obtain ⟨root, known⟩ := Option.ne_none_iff_exists'.1 there
  rw [known] at instances
  obtain ⟨root', known', related⟩ : ∃ root', b.rootInstance = some root' ∧ M.rel root root' := by
    generalize b.rootInstance = other at instances
    cases instances with
    | some related => exact ⟨_, rfl, related⟩
  have run := start_createValue_root env leftObject known fresh
  have run' := start_createValue_root env rightObject known' fresh'
  have stays : a.omits env NodeTree.root = false := by simp [LoadState.omits]
  exact ⟨M, _, _, run, run', .refl M,
    halfway.stays run stays rfl fun _ ne => a.value?_withValue_of_ne _ ne,
    twins.rootBoth related, rfl, fun _ ne => b.value?_withValue_of_ne _ ne⟩

/-- What both loads have made matches. -/
theorem Halfway.step_made (halfway : Halfway env t gone done (id :: rest) a)
    (twins : Twins env (t.without gone) M a b) (fresh' : b.context.value? id = none)
    (node : (createValue env id).start a = (createNode env id).start a)
    (node' : (createValue env id).start b = (createNode env id).start b)
    {x y : Made} (made : a.make env id = .ok x) (made' : b.make env id = .ok y)
    (matched : M.Made x y) : StepTogether env t gone done rest id M a b := by
  obtain ⟨-, -, fresh⟩ := halfway.here
  have stays : a.omits env id = false := by simp [LoadState.omits, made]
  cases matched with
  | scalar value =>
    have run := node.trans (start_createNode_scalar made fresh)
    have run' := node'.trans (start_createNode_scalar made' fresh')
    exact ⟨M, _, _, run, run', .refl M,
      halfway.stays run stays rfl fun _ ne => a.value?_withValue_of_ne _ ne,
      twins.valueBoth id value, rfl, fun _ ne => b.value?_withValue_of_ne _ ne⟩
  | @object o p objects =>
    have run := node.trans (start_createNode_object made fresh)
    have run' := node'.trans (start_createNode_object made' fresh')
    obtain ⟨N, grows, twins⟩ := twins.newBoth id objects
    exact ⟨N, _, _, run, run', grows,
      halfway.stays run stays (a.tree_withNew id o) fun _ ne => a.value?_withNew_of_ne o ne, twins,
      b.tree_withNew id p, fun _ ne => b.value?_withNew_of_ne p ne⟩

/-- A node that stays is created in both loads, or is the outermost one and ends both. -/
theorem Halfway.step_both (halfway : Halfway env t gone done (id :: rest) a)
    (natural : env.registry.Natural) (omittable : Omittable t env gone) (proper : t.Proper)
    (linked : t.Linked) (reached : t.Reaches (fun _ => false) NodeTree.root id)
    (kept : t.Keeps gone id) (twins : Twins env (t.without gone) M a b)
    (fresh' : b.context.value? id = none) :
    StepTogether env t gone done rest id M a b ∨
      ∃ error, (createValue env id).start a = (.error error, a) ∧
        (createValue env id).start b = (.error error, b) := by
  have within : ∀ c ∈ done, c ∈ gone := fun c mem => (halfway.whole c).2 (.inl mem)
  have leftObject : (a.node id).isObject = (t.node id).isObject := by
    rw [LoadState.node, halfway.tree, NodeTree.node_without]
  have rightObject : (b.node id).isObject = (t.node id).isObject := by
    rw [LoadState.node, twins.node id kept, NodeTree.node_without]
  cases object : (t.node id).isObject with
  | false =>
    have run := start_createValue_idle env (leftObject.trans object)
    have run' := start_createValue_idle env (rightObject.trans object)
    have stays : a.omits env id = false := by simp [LoadState.omits, leftObject, object]
    exact .inl ⟨M, a, b, run, run', .refl M, halfway.stays run stays rfl fun _ _ => rfl, twins, rfl,
      fun _ _ => rfl⟩
  | true =>
    by_cases reused : id = NodeTree.root ∧ a.rootInstance ≠ none
    · obtain ⟨rfl, there⟩ := reused
      exact .inl (halfway.step_root twins (leftObject.trans object) (rightObject.trans object)
        fresh' there)
    · -- Both loads have to make something for the node.
      have new : id = NodeTree.root → a.rootInstance = none := fun top =>
        Decidable.byContradiction fun there => reused ⟨top, there⟩
      have new' : id = NodeTree.root → b.rootInstance = none := fun top => by
        have := Matching.isSome_of_rel twins.rootInstance
        rw [new top] at this
        exact Option.not_isSome_iff_eq_none.1 (by rw [← this]; decide)
      have node := start_createValue_node env (leftObject.trans object) new
      have node' := start_createValue_node env (rightObject.trans object) new'
      have alike := alike_make natural omittable proper linked twins halfway.tree within
        halfway.bare kept object
      cases made : a.make env id with
      | error error =>
        rw [made] at alike
        have made' : b.make env id = .error error := by
          generalize b.make env id = other at alike
          cases alike
          rfl
        by_cases top : id = NodeTree.root
        · subst top
          exact .inr ⟨error, node.trans (start_createNode_fatal made),
            node'.trans (start_createNode_fatal made')⟩
        · -- A node that fails is left out, so it does not stay.
          have run := node.trans (start_createNode_failed made top twins.left.tolerant)
          have omits : a.omits env id = true := by
            simp [LoadState.omits, leftObject, object, top, made]
          have out := (halfway.omits proper linked reached run omits).2
          cases kept with
          | top => exact absurd rfl top
          | child _ _ listed => exact absurd out (NodeTree.mem_children_without.1 listed).2
      | ok x =>
        rw [made] at alike
        obtain ⟨y, made', matched⟩ : ∃ y, b.make env id = .ok y ∧ M.Made x y := by
          generalize b.make env id = other at alike
          cases alike with
          | ok matched => exact ⟨_, rfl, matched⟩
        exact .inl (halfway.step_made twins fresh' node node' made made' matched)

/-- The creation of values ends alike in both loads, and the second one leaves nothing out. -/
theorem ends_createList (natural : env.registry.Natural) (omittable : Omittable t env gone)
    (proper : t.Proper) (linked : t.Linked) {all left : List NodeId}
    (thinned : NodeTree.Thinned (t.Keeps gone) all left) :
    ∀ {done : List NodeId} {M : Matching} {a b : LoadState}, Halfway env t gone done all a →
      Twins env (t.without gone) M a b →
      (∀ id ∈ all, t.Reaches (fun _ => false) NodeTree.root id) → left.Nodup →
      (∀ id ∈ left, b.context.value? id = none) →
      EndsDone (Aligned env (t.without gone)) M ((all.forM (createValue env)).start a)
        ((left.forM (createValue env)).start b) ∧
      ((left.forM (createValue env)).start b).2.tree = b.tree := by
  induction thinned with
  | nil =>
    intro done M a b halfway twins _ _ _
    exact ⟨ends_done (halfway.aligned rfl twins), rfl⟩
  | @drop id all left out _ ih =>
    intro done M a b halfway twins reached nodup fresh
    obtain ⟨here, later⟩ := List.forall_mem_cons.1 reached
    obtain ⟨next, done', run, halfway, twins⟩ :=
      halfway.step_left proper linked here out twins
    rw [start_forM_cons, start_bind_of_ok run]
    exact ih halfway twins later nodup fresh
  | @keep id all left kept _ ih =>
    intro done M a b halfway twins reached nodup fresh
    obtain ⟨here, later⟩ := List.forall_mem_cons.1 reached
    obtain ⟨new, nodup⟩ := List.nodup_cons.1 nodup
    obtain ⟨freshHere, freshLater⟩ := List.forall_mem_cons.1 fresh
    rw [start_forM_cons, start_forM_cons]
    rcases halfway.step_both natural omittable proper linked here kept twins freshHere with
      ⟨N, next, next', run, run', within, halfway, twins, tree, values⟩ | ⟨error, run, run'⟩
    · rw [start_bind_of_ok run, start_bind_of_ok run']
      obtain ⟨⟨O, within', aligned, alike⟩, same⟩ := ih halfway twins later nodup fun other mem => by
        rw [values other fun same => new (same ▸ mem)]
        exact freshLater other mem
      exact ⟨⟨O, within.trans within', aligned, alike⟩, same.trans tree⟩
    · rw [start_bind_of_error run, start_bind_of_error run']
      have none : failures env (id :: all) a = [] := by rw [failures, run]
      exact ⟨⟨M, .refl M, halfway.aligned none twins, .error error⟩, rfl⟩

end Creating

end Load

end MarkupLoader
