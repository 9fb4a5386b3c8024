import MarkupLoader.Load.Passes
import MarkupLoader.Proofs.Creating
import MarkupLoader.Proofs.Simulation
import MarkupLoader.Proofs.Splicing

/-!
# Loads side by side

Two loads, the second one of a document with a node more (`NodeTree.Splices`), go **abreast**
(`LoadState.Abreast`): what has moved by one place has the same value on both sides, and the heaps
differ in positions only (`Heap.Akin`). The objects themselves have the same places, since the new
node makes none.

* **Outcomes** are compared by kind (`Together`): both runs succeed, or both fail with errors that
  say the same but for texts and positions.
* **A loop** of the second load has a round more, and that one has to be idle
  (`together_forM`).
* **Links** to parents go up on both sides alike, but for the new node in between
  (`NodeTree.Links`).

Main results: `Together.bind`, `together_forM`, `Links.ancestors`, `Abreast.make`,
`together_createRoot`, `together_createValue`.
-/

namespace MarkupLoader

/-! ## Outcomes of one kind -/

/-- Errors of one kind. -/
def LoadError.SameKind (e f : LoadError) : Prop := f.ctorIdx = e.ctorIdx

theorem LoadError.SameKind.isFatal {e f : LoadError} (same : e.SameKind f) :
    f.isFatal = e.isFatal := by
  cases e <;> cases f <;> first | rfl | cases same

theorem LoadError.SameKind.trans {e f g : LoadError} (first : e.SameKind f) (second : f.SameKind g) :
    e.SameKind g := Eq.trans second first

/-- Results that are related, or errors of one kind. -/
inductive Kindred {α β : Type} (rel : α → β → Prop) :
    Except LoadError α → Except LoadError β → Prop
  | ok {x : α} {y : β} (related : rel x y) : Kindred rel (.ok x) (.ok y)
  | error {e f : LoadError} (kind : e.SameKind f) : Kindred rel (.error e) (.error f)

/-- Outcomes that are alike give outcomes of one kind, whatever errors are made of the failures. -/
theorem Alike.kindred {ε α β : Type} {rel : α → β → Prop} {x : Except ε α} {y : Except ε β}
    (alike : Alike rel x y) {f g : ε → LoadError} (kind : ∀ e, (f e).SameKind (g e)) :
    Kindred rel (x.mapError f) (y.mapError g) := by
  cases alike with
  | ok related => exact .ok related
  | error e => exact .error (kind e)

theorem Kindred.bind {α β γ δ : Type} {rel : α → β → Prop} {rel' : γ → δ → Prop}
    {x : Except LoadError α} {y : Except LoadError β} {next : α → Except LoadError γ}
    {next' : β → Except LoadError δ} (first : Kindred rel x y)
    (second : ∀ a b, rel a b → Kindred rel' (next a) (next' b)) :
    Kindred rel' (x >>= next) (y >>= next') := by
  cases first with
  | ok related => exact second _ _ related
  | error kind => exact .error kind

theorem Kindred.map {α β γ δ : Type} {rel : α → β → Prop} {rel' : γ → δ → Prop}
    {x : Except LoadError α} {y : Except LoadError β} {f : α → γ} {g : β → δ}
    (kindred : Kindred rel x y) (maps : ∀ a b, rel a b → rel' (f a) (g b)) :
    Kindred rel' (x.map f) (y.map g) := by
  cases kindred with
  | ok related => exact .ok (maps _ _ related)
  | error kind => exact .error kind

/-- Two runs that succeed in related states, or fail with errors of one kind. -/
inductive Together (R : LoadState → LoadState → Prop) {α β : Type} (rel : α → β → Prop) :
    Except LoadError α × LoadState → Except LoadError β × LoadState → Prop
  | ok {x : α} {y : β} {a b : LoadState} (related : rel x y) (both : R a b) :
    Together R rel (.ok x, a) (.ok y, b)
  | error {e f : LoadError} {a b : LoadState} (kind : e.SameKind f) :
    Together R rel (.error e, a) (.error f, b)

/-- Two runs that succeed or fail together and give nothing. -/
abbrev TogetherDone (R : LoadState → LoadState → Prop) (x y : Except LoadError Unit × LoadState) :
    Prop :=
  Together R (fun _ _ => True) x y

/-- A relation between two loads that does not look at the failures that have been passed over, and
at heaps only up to positions. -/
structure Loose (R : LoadState → LoadState → Prop) : Prop where
  tolerant : ∀ {a b}, R a b → b.context.tolerant = a.context.tolerant
  akin : ∀ {a b}, R a b → a.heap.Akin b.heap
  record : ∀ {a b}, R a b → ∀ d d', R (a.withRecord d) (b.withRecord d')
  heap : ∀ {a b h k}, R a b → h.Akin k → R { a with heap := h } { b with heap := k }
  completed : ∀ {a b}, R a b → ∀ pass, R { a with context := a.context.completed pass }
    { b with context := b.context.completed pass }

namespace Load

section Rules

variable {R : LoadState → LoadState → Prop} {α β γ δ : Type} {rel : α → β → Prop}
  {a b : LoadState}

theorem together_done (both : R a b) : TogetherDone R (.ok (), a) (.ok (), b) := .ok trivial both

theorem Together.mono {R' : LoadState → LoadState → Prop} {x : Except LoadError α × LoadState}
    {y : Except LoadError β × LoadState} (together : Together R rel x y)
    (more : ∀ a b, R a b → R' a b) : Together R' rel x y := by
  cases together with
  | ok related both => exact .ok related (more _ _ both)
  | error kind => exact .error kind

/-- A third run goes together with the first one, if it does with the second one. -/
theorem together_trans {S : LoadState → LoadState → Prop}
    {x y z : Except LoadError Unit × LoadState} (first : TogetherDone R x y)
    (second : TogetherDone S y z) : TogetherDone (Relation.Comp R S) x z := by
  cases first with
  | ok _ both =>
    cases second with
    | ok _ both' => exact together_done ⟨_, both, both'⟩
  | error kind =>
    cases second with
    | error kind' => exact .error (kind.trans kind')

/-- What the runs leave is known as well. -/
theorem Together.keeping {x : Except LoadError α × LoadState} {y : Except LoadError β × LoadState}
    (together : Together R rel x y) {S : LoadState → LoadState → Prop} (kept : S x.2 y.2)
    {R' : LoadState → LoadState → Prop} (more : ∀ a b, R a b → S a b → R' a b) :
    Together R' rel x y := by
  cases together with
  | ok related both => exact .ok related (more _ _ both kept)
  | error kind => exact .error kind

/-- What comes next goes together from where both first steps have come to. -/
theorem Together.bindRan {S : LoadState → LoadState → Prop} {rel' : γ → δ → Prop} {step : Load α}
    {step' : Load β} {next : α → Load γ} {next' : β → Load δ}
    (first : Together R rel (step.start a) (step'.start b))
    (second : ∀ x y a' b', step.start a = (.ok x, a') → step'.start b = (.ok y, b') → R a' b' →
      rel x y → Together S rel' ((next x).start a') ((next' y).start b')) :
    Together S rel' ((step >>= next).start a) ((step' >>= next').start b) := by
  rw [start_bind, start_bind]
  generalize step.start a = x at first second
  generalize step'.start b = y at first second
  cases first with
  | ok related both => exact second _ _ _ _ rfl rfl both related
  | error kind => exact .error kind

theorem Together.bind {S : LoadState → LoadState → Prop} {rel' : γ → δ → Prop} {step : Load α}
    {step' : Load β} {next : α → Load γ} {next' : β → Load δ}
    (first : Together R rel (step.start a) (step'.start b))
    (second : ∀ x y a' b', step.start a = (.ok x, a') → R a' b' → rel x y →
      Together S rel' ((next x).start a') ((next' y).start b')) :
    Together S rel' ((step >>= next).start a) ((step' >>= next').start b) :=
  Together.bindRan first fun x y a' b' ran _ => second x y a' b' ran

/-- Both sides carry over an outcome. -/
theorem together_ofExcept (both : R a b) {x : Except LoadError α} {y : Except LoadError β}
    (kindred : Kindred rel x y) :
    Together R rel ((ofExcept x).start a) ((ofExcept y).start b) := by
  cases kindred with
  | ok related => exact .ok related both
  | error kind => exact .error kind

/-- Two loops over lists that go together, element by element. What `S` says of the first load is
kept by its rounds. -/
theorem together_forM₂ {ι κ : Type} {r : ι → κ → Prop} {list : List ι} {list' : List κ}
    {step : ι → Load Unit} {step' : κ → Load Unit} (lists : List.Forall₂ r list list')
    {S : LoadState → Prop} (keeps : ∀ i a, S a → S ((step i).start a).2)
    (steps : ∀ i j a b, r i j → R a b → S a →
      TogetherDone R ((step i).start a) ((step' j).start b))
    (both : R a b) (holds : S a) :
    TogetherDone R ((list.forM step).start a) ((list'.forM step').start b) := by
  induction lists generalizing a b with
  | nil => exact together_done both
  | @cons i j _ _ here _ ih =>
    rw [start_forM_cons, start_forM_cons]
    refine Together.bind (steps i j a b here both holds) fun _ _ a' b' ran both _ => ih both ?_
    have kept := keeps i a holds
    rwa [ran] at kept

/-- **Two loops of which the second one has a round more**, for `x`, that keeps both sides related.
Other rounds go together; what `S` says of the first load is kept by its rounds. -/
theorem together_forM_passing {x : NodeId} {list list' : List NodeId}
    {step step' : NodeId → Load Unit}
    (lists : list'.filter (· ≠ x) = list.map (NodeTree.moved x)) {S : LoadState → Prop}
    (keeps : ∀ i ∈ list, ∀ a, S a → S ((step i).start a).2)
    (steps : ∀ i ∈ list, ∀ a b, R a b → S a →
      TogetherDone R ((step i).start a) ((step' (NodeTree.moved x i)).start b))
    (passing : x ∈ list' → ∀ a b, R a b → S a →
      ∃ b', (step' x).start b = (.ok (), b') ∧ R a b')
    (both : R a b) (holds : S a) :
    TogetherDone R ((list.forM step).start a) ((list'.forM step').start b) := by
  induction list' generalizing list a b with
  | nil =>
    obtain rfl : list = [] := List.map_eq_nil_iff.1 lists.symm
    exact together_done both
  | cons c rest ih =>
    by_cases is : c = x
    · subst is
      rw [List.filter_cons_of_neg (by simp)] at lists
      obtain ⟨b', passes, both⟩ := passing List.mem_cons_self a b both holds
      rw [start_forM_cons, start_bind_of_ok passes]
      exact ih lists keeps steps (fun mem => passing (List.mem_cons_of_mem _ mem)) both holds
    · rw [List.filter_cons_of_pos (by simpa using is)] at lists
      cases list with
      | nil => cases lists
      | cons i others =>
        rw [List.map_cons] at lists
        obtain ⟨rfl, lists'⟩ := List.cons.inj lists
        obtain ⟨here, later⟩ := List.forall_mem_cons.1 steps
        obtain ⟨keepsHere, keepsLater⟩ := List.forall_mem_cons.1 keeps
        rw [start_forM_cons, start_forM_cons]
        refine Together.bind (here a b both holds) fun _ _ a' b' ran both _ => ?_
        refine ih lists' keepsLater later (fun mem => passing (List.mem_cons_of_mem _ mem)) both ?_
        have kept := keepsHere a holds
        rwa [ran] at kept

/-- Two loops of which the second one has a round more that is idle. -/
theorem together_forM {x : NodeId} {list list' : List NodeId} {step step' : NodeId → Load Unit}
    (lists : list'.filter (· ≠ x) = list.map (NodeTree.moved x)) {S : LoadState → Prop}
    (keeps : ∀ i ∈ list, ∀ a, S a → S ((step i).start a).2)
    (steps : ∀ i ∈ list, ∀ a b, R a b → S a →
      TogetherDone R ((step i).start a) ((step' (NodeTree.moved x i)).start b))
    (idle : x ∈ list' → ∀ a b, R a b → S a → (step' x).start b = (.ok (), b))
    (both : R a b) (holds : S a) :
    TogetherDone R ((list.forM step).start a) ((list'.forM step').start b) :=
  together_forM_passing lists keeps steps
    (fun mem _ _ both holds => ⟨_, idle mem _ _ both holds, both⟩) both holds

variable (loose : Loose R)

include loose

/-- Both sides pass over failures of one kind, or neither does. -/
theorem together_recover (both : R a b) {e f : LoadError} (kind : e.SameKind f) :
    TogetherDone R ((recover e).start a) ((recover f).start b) := by
  have same : (b.context.tolerant && !f.isFatal) = (a.context.tolerant && !e.isFatal) := by
    rw [kind.isFatal, loose.tolerant both]
  rw [start_recover, start_recover, Context.recover, Context.recover]
  by_cases passes : (a.context.tolerant && !e.isFatal) = true
  · rw [if_pos passes, if_pos (same.trans passes)]
    exact together_done (loose.record both _ _)
  · rw [if_neg passes, if_neg (same ▸ passes)]
    exact .error kind

theorem together_modifyHeap (both : R a b) {change : Heap → Heap}
    (akin : ∀ h k : Heap, h.Akin k → (change h).Akin (change k)) :
    TogetherDone R ((modifyHeap change).start a) ((modifyHeap change).start b) :=
  together_done (loose.heap both (akin _ _ (loose.akin both)))

theorem together_changeHeap (both : R a b) {x y : Except LoadError Heap}
    (kindred : Kindred Heap.Akin x y) :
    TogetherDone R ((changeHeap x).start a) ((changeHeap y).start b) := by
  cases kindred with
  | ok akin => exact together_done (loose.heap both akin)
  | error kind => exact together_recover loose both kind

/-- A pass is completed on both sides. -/
theorem together_completePass {env : Environment} (pass : Pass)
    (passes : TogetherDone R ((runPass env pass).start a) ((runPass env pass).start b)) :
    TogetherDone R ((completePass env pass).start a) ((completePass env pass).start b) :=
  Together.bind passes fun _ _ _ _ _ both _ => together_done (loose.completed both pass)

/-- Objects that differ in positions only are put in the same place. -/
theorem together_alloc (both : R a b) {o p : Object} (objects : p.unplaced = o.unplaced) :
    Together R Eq ((alloc o).start a) ((alloc p).start b) := by
  have akin := loose.akin both
  exact .ok akin.size.symm (loose.heap both (akin.alloc objects))

end Rules

end Load

/-! ## Links to parents -/

namespace NodeTree

/-- Every node that is listed knows the node that lists it. -/
structure Tied (t : NodeTree) : Prop where
  root : (t.node root).parent = none
  child : ∀ p c, c ∈ (t.node p).children → (t.node c).parent = some p

theorem Tied.linked {t : NodeTree} (tied : t.Tied) : t.Linked :=
  ⟨tied.root, fun p c _ => tied.child p c⟩

/-- Detaching a node takes it out. -/
theorem Tied.detach {t : NodeTree} (tied : t.Tied) (i : NodeId) : t.detach i = t.without [i] :=
  detach_eq fun p => tied.child p i

theorem Tied.of_touches {t t' : NodeTree} {gone : List NodeId} (tied : t.Tied)
    (touches : t.Touches t' gone) (parents : ∀ i, (t'.node i).parent = (t.node i).parent) :
    t'.Tied where
  root := (parents NodeTree.root).trans tied.root
  child p c listed := by
    rw [touches.children] at listed
    exact (parents c).trans (tied.child p c (List.mem_filter.1 listed).1)

/-- A tree of nodes that can all be reached, and whose parents have not been linked yet. -/
structure Laid (t : NodeTree) : Prop where
  proper : t.Proper
  reached : ∀ i < t.size, t.Reaches (fun _ => false) root i
  unlinked : ∀ i, (t.node i).parent = none

theorem laid_ofForest (body : NodeBody) (below : Forest) (ignorable : List String) :
    (ofForest body below ignorable).Laid where
  proper := proper_ofForest body below ignorable
  reached _ inside := reaches_ofForest inside
  unlinked i := by
    have each : ∀ (f : Forest) (base : NodeId), ∀ n ∈ f.nodes base, n.parent = none := by
      intro f
      induction f with
      | nil => exact fun _ _ mem => by cases mem
      | cons body children siblings below after =>
        intro base n mem
        rcases List.mem_cons.1 mem with rfl | mem
        · rfl
        · exact (List.mem_append.1 mem).elim (below _ n) (after _ n)
    unfold node ofForest
    rw [List.getElem?_toArray]
    cases found : (⟨body, below.roots 1, none⟩ :: below.nodes 1 : List Node)[i]? with
    | none => rfl
    | some n =>
      rcases List.mem_cons.1 (List.mem_of_getElem? found) with rfl | mem
      · rfl
      · exact each below 1 n mem

section Linking

variable {t : NodeTree} (laid : t.Laid)

include laid

/-- After linking, only the node that lists a node is its parent. -/
theorem Laid.listed_of_parent {i q : NodeId} (above : (t.linkParents.node i).parent = some q) :
    i ∈ (t.node q).children := by
  have top : ∀ n, ((t.modify root fun n => { n with parent := none }).node n) = t.node n := by
    intro n
    by_cases is : n = root
    · rw [is, root, node_modify _ laid.proper.nonempty]
      have none := laid.unlinked 0
      generalize t.node 0 = n at none
      cases n
      cases none
      rfl
    · rw [node_modify_of_ne _ is]
  have proper' := laid.proper.of_children (u := t.modify root fun n => { n with parent := none })
    (size_modify _ _ _) fun n => by rw [top]
  rw [linkParents, node_foldl_linkChildren proper'] at above
  dsimp only at above
  rw [top, laid.unlinked, Option.or_none] at above
  have lists := List.find?_some above
  rw [top] at lists
  simpa using lists

theorem Laid.tied_linkParents : t.linkParents.Tied where
  root := (linked_linkParents laid.proper).root
  child p c listed := by
    have linked := linked_linkParents laid.proper
    by_cases inside : p < t.size
    · refine linked.child p c ?_ listed
      exact (laid.reached p inside).congr fun n _ => ⟨children_linkParents laid.proper n, rfl⟩
    · rw [children_linkParents laid.proper, node_of_size_le (Nat.le_of_not_lt inside)] at listed
      cases listed

end Linking

/-! ## Links on both sides -/

/-- Parents stand before their children. -/
def Rising (t : NodeTree) : Prop := ∀ i q : Nat, (t.node i).parent = some q → q < i

/-- As many nodes are above a place as there are before it, at most. -/
theorem Rising.ancestorsFrom_eq {t : NodeTree} (rising : t.Rising) {i fuel fuel' : Nat}
    (more : i < fuel) (more' : i < fuel') : t.ancestorsFrom fuel i = t.ancestorsFrom fuel' i := by
  induction fuel generalizing i fuel' with
  | zero => cases more
  | succ fuel ih =>
    cases fuel' with
    | zero => cases more'
    | succ fuel' =>
      rw [ancestorsFrom, ancestorsFrom]
      cases above : (t.node i).parent with
      | none => rfl
      | some q =>
        have before := rising i q above
        exact congrArg (q :: ·) (ih (by omega) (by omega))

/-- The nodes above a place are its parent and the nodes above that. -/
theorem Rising.ancestors_eq {t : NodeTree} (rising : t.Rising) (i : Nat) :
    t.ancestors i = match (t.node i).parent with
      | none => []
      | some q => q :: t.ancestors q := by
  have more : t.ancestors i = t.ancestorsFrom (max t.size i + 1) i := by
    by_cases inside : i < t.size
    · exact rising.ancestorsFrom_eq inside (by omega)
    · have outside : t.node i = default := node_of_size_le (Nat.le_of_not_lt inside)
      unfold ancestors
      rw [ancestorsFrom, outside]
      cases t.size with
      | zero => rfl
      | succ fuel =>
        rw [ancestorsFrom, outside]
        rfl
  rw [more, ancestorsFrom]
  cases above : (t.node i).parent with
  | none => rfl
  | some q =>
    have before := rising i q above
    refine congrArg (q :: ·) ?_
    by_cases inside : q < t.size
    · exact rising.ancestorsFrom_eq (by omega) inside
    · have outside : t.node i = default :=
        node_of_size_le (Nat.le_trans (Nat.le_of_not_lt inside) (Nat.le_of_lt before))
      rw [outside] at above
      cases above

/-- **Links go up alike** in a document and in one with a node more, which may come in between. -/
structure Links (t u : NodeTree) (x p : NodeId) : Prop where
  rising : t.Rising
  rising' : u.Rising
  parent : ∀ i, (u.node (moved x i)).parent = (t.node i).parent.map (moved x) ∨
    (u.node (moved x i)).parent = some x ∧ (t.node i).parent = some p ∧
      (u.node x).parent = some (moved x p)

namespace Links

variable {t u t' u' : NodeTree} {x p : NodeId}

/-- The nodes above a node are the same, apart from the new one. -/
theorem ancestors (links : t.Links u x p) (i : NodeId) :
    (u.ancestors (moved x i)).filter (· ≠ x) = (t.ancestors i).map (moved x) := by
  induction i using Nat.strong_induction_on with
  | _ i ih =>
    have here : ∀ (q : NodeId) list, (moved x q :: list : List NodeId).filter (· ≠ x) =
        moved x q :: list.filter (· ≠ x) := fun q list =>
      List.filter_cons_of_pos (by simpa using moved_ne x q)
    rw [links.rising.ancestors_eq i, links.rising'.ancestors_eq (moved x i)]
    rcases links.parent i with direct | ⟨through, above, up⟩
    · rw [direct]
      cases above : (t.node i).parent with
      | none => rfl
      | some q =>
        rw [Option.map_some]
        dsimp only
        rw [here, ih q (links.rising i q above), List.map_cons]
    · rw [through, above]
      dsimp only
      rw [List.filter_cons_of_neg (by simp), links.rising'.ancestors_eq x, up]
      dsimp only
      rw [here, ih p (links.rising i p above), List.map_cons]

/-- Links do not change with attributes and children. -/
theorem congr (links : t.Links u x p) (same : ∀ i, (t'.node i).parent = (t.node i).parent)
    (same' : ∀ i, (u'.node i).parent = (u.node i).parent) : t'.Links u' x p where
  rising i q above := links.rising i q ((same i).symm.trans above)
  rising' i q above := links.rising' i q ((same' i).symm.trans above)
  parent i := by
    rw [same, same', same']
    exact links.parent i

end Links

/-- Where nothing is linked yet, links are the same. -/
theorem links_of_unlinked {t u : NodeTree} {x p : NodeId} (none : ∀ i, (t.node i).parent = none)
    (none' : ∀ i, (u.node i).parent = .none) : t.Links u x p where
  rising i q above := by
    rw [none] at above
    cases above
  rising' i q above := by
    rw [none'] at above
    cases above
  parent i := .inl (by rw [none, none']; rfl)

/-- Linking links both documents alike. -/
theorem Splices.links {t u : NodeTree} {x p : NodeId} (splices : t.Splices u x p)
    (laid : t.Laid) (laid' : u.Laid) : t.linkParents.Links u.linkParents x p where
  rising i q above := laid.proper.later q i (laid.listed_of_parent above)
  rising' i q above := laid'.proper.later q i (laid'.listed_of_parent above)
  parent i := by
    have tied := laid.tied_linkParents
    have tied' := laid'.tied_linkParents
    have parents : ∀ {q c}, c ∈ (t.node q).children → (t.linkParents.node c).parent = some q :=
      fun listed => tied.child _ _ (by rwa [children_linkParents laid.proper])
    have parents' : ∀ {q c}, c ∈ (u.node q).children → (u.linkParents.node c).parent = some q :=
      fun listed => tied'.child _ _ (by rwa [children_linkParents laid'.proper])
    cases above : (t.linkParents.node i).parent with
    | some q =>
      have listed := laid.listed_of_parent above
      rcases splices.listed_moved listed with direct | ⟨through, inside⟩
      · exact .inl (parents' direct)
      · obtain ⟨rfl, -⟩ := splices.listed_iff.1 through
        exact .inr ⟨parents' inside, rfl, parents' through⟩
    | none =>
      refine .inl ?_
      -- A parent on the other side would list the node on this side, too.
      refine Option.eq_none_iff_forall_ne_some.2 fun c above' => ?_
      have listed' := laid'.listed_of_parent above'
      have lists : ∀ q, moved x i ∈ (u.node (moved x q)).children.flatMap (u.entering x) → False := by
        intro q mem
        rw [splices.listing, List.mem_map_of_injective (moved_injective x)] at mem
        cases above.symm.trans (parents mem)
      by_cases is : c = x
      · subst is
        -- The new node is listed itself, since all nodes can be reached.
        refine lists p (List.mem_flatMap.2 ⟨c, ?_, by rwa [entering, if_pos rfl]⟩)
        have inside : c < u.size := Decidable.byContradiction fun outside => by
          rw [node_of_size_le (Nat.le_of_not_lt outside)] at listed'
          cases listed'
        exact splices.listed_of_reaches laid'.proper (laid'.reached c inside)
      · obtain ⟨q, rfl⟩ := exists_moved is
        exact lists q (List.mem_flatMap.2 ⟨_, listed', by
          rw [entering_of_ne (moved_ne x i)]; exact List.mem_singleton_self _⟩)

/-! ## Apart from templates -/

/-- Nothing new is reached where there are no new children. -/
theorem Reaches.of_children {t t' : NodeTree} {top i : NodeId}
    (reached : t'.Reaches (fun _ => false) top i)
    (fewer : ∀ n, (t'.node n).children ⊆ (t.node n).children) :
    t.Reaches (fun _ => false) top i := by
  induction reached with
  | top => exact .top
  | child _ _ listed ih => exact .child ih rfl (fewer _ listed)

/-- What is spliced in is not in the content of a template, and where it is in the template itself it
is a text. -/
structure Apart (env : Environment) (t u : NodeTree) (x p : NodeId) : Prop where
  outside : x ∈ (u.node (moved x p)).children → ∀ q, env.isTemplate (t.node q).toNodeBody = true →
    ∀ c ∈ (t.node q).children, ¬ t.Reaches (fun _ => false) c p
  leaf : x ∈ (u.node (moved x p)).children → env.isTemplate (t.node p).toNodeBody = true →
    (u.node x).children = []

/-- What is loaded is in no content of a template. -/
theorem Proper.not_reaches_of_loaded {t : NodeTree} {env : Environment} {p q c : NodeId}
    (proper : t.Proper) (loaded : t.Reaches (fun i => env.isTemplate (t.node i).toNodeBody) root p)
    (template : env.isTemplate (t.node q).toNodeBody = true) (listed : c ∈ (t.node q).children) :
    ¬ t.Reaches (fun _ => false) c p := by
  intro below
  induction below with
  | top =>
    cases loaded with
    | top => exact absurd (proper.later q root listed) (Nat.not_lt_zero q)
    | child _ enters listed' =>
      rw [proper.once _ _ _ listed' listed, template] at enters
      cases enters
  | child _ _ lists ih =>
    cases loaded with
    | top => exact absurd (proper.later _ root lists) (Nat.not_lt_zero _)
    | child reached _ listed' =>
      exact ih (proper.once _ _ _ listed' lists ▸ reached)

theorem Apart.of_touches {env : Environment} {t u t' u' : NodeTree} {x p : NodeId}
    {gone gone' : List NodeId} (apart : t.Apart env u x p) (left : t.Touches t' gone)
    (right : u.Touches u' gone') : t'.Apart env u' x p := by
  have template : ∀ i, env.isTemplate (t'.node i).toNodeBody = env.isTemplate (t.node i).toNodeBody :=
    fun i => by
      rw [left.body]
      rfl
  have fewer : ∀ n, (t'.node n).children ⊆ (t.node n).children := fun n c listed => by
    rw [left.children] at listed
    exact (List.mem_filter.1 listed).1
  have listed : x ∈ (u'.node (moved x p)).children → x ∈ (u.node (moved x p)).children := fun mem => by
    rw [right.children] at mem
    exact (List.mem_filter.1 mem).1
  refine ⟨fun mem q is c lists below => ?_, fun mem is => ?_⟩
  · rw [template] at is
    exact apart.outside (listed mem) q is c (fewer q lists) (below.of_children fewer)
  · rw [template] at is
    rw [right.children, apart.leaf (listed mem) is]
    rfl

/-- **The content of a template is the same** in both documents, apart from positions. -/
theorem Splices.extract_content {env : Environment} {t u : NodeTree} {x p i c : NodeId}
    (splices : t.Splices u x p) (proper : t.Proper) (proper' : u.Proper) (links : t.Links u x p)
    (apart : t.Apart env u x p) (template : env.isTemplate (t.node i).toNodeBody = true)
    (listed : c ∈ t.elements i) :
    (u.extract (moved x c)).unplaced = (t.extract c).unplaced := by
  obtain ⟨listed, element⟩ := List.mem_filter.1 listed
  refine splices.extract proper proper' (links.ancestors c) fun n below => ⟨fun mem => ?_, ?_⟩
  · obtain ⟨rfl, mem⟩ := splices.listed_iff.1 mem
    exact apart.outside mem i template c listed below
  · refine (splices.kind n).resolve_right fun ⟨mem, inside, content, is⟩ => ?_
    -- A text that may differ is beside what has been spliced in.
    cases below with
    | top =>
      rw [NodeBody.isElement, is] at element
      cases element
    | child above _ inside' =>
      obtain rfl := proper.once _ _ _ inside' inside
      exact apart.outside mem i template c listed above

end NodeTree

/-! ## Loads abreast -/

open NodeTree (moved)

/-- What is made on both sides: one scalar, or objects that differ in positions only. -/
inductive Made.Akin : Made → Made → Prop
  | scalar (value : Value) : Akin (.scalar value) (.scalar value)
  | object {o p : Object} (same : p.unplaced = o.unplaced) : Akin (.object o) (.object p)

namespace LoadState

/-- **Two loads side by side**, the second one of a document with a node more. -/
structure Abreast (env : Environment) (x p : NodeId) (a b : LoadState) : Prop where
  tree : a.tree.Splices b.tree x p
  proper : a.tree.Proper
  proper' : b.tree.Proper
  links : a.tree.Links b.tree x p
  apart : a.tree.Apart env b.tree x p
  value : ∀ i, b.context.value? (moved x i) = a.context.value? i
  silent : b.context.value? x = none
  heap : a.heap.Akin b.heap
  rootInstance : b.rootInstance = a.rootInstance
  rootElement : b.context.rootElement = a.context.rootElement
  tolerant : b.context.tolerant = a.context.tolerant
  outerScope : b.context.outerScope = a.context.outerScope
  passes : b.context.passes = a.context.passes

namespace Abreast

variable {env : Environment} {x p i : NodeId} {a b : LoadState} (both : Abreast env x p a b)

include both

theorem object? (i : NodeId) : b.context.object? (moved x i) = a.context.object? i :=
  congrArg (Option.bind · Value.object?) (both.value i)

theorem object?_spliced : b.context.object? x = none := by
  rw [Context.object?, both.silent]
  rfl

theorem typeName (i : NodeId) : (b.node (moved x i)).typeName = (a.node i).typeName :=
  both.tree.typeName i

theorem isObject (i : NodeId) : (b.node (moved x i)).isObject = (a.node i).isObject :=
  both.tree.isObject i

theorem directive (i : NodeId) (directive : String) :
    ((b.node (moved x i)).directive? directive).map (·.unplaced) =
      ((a.node i).directive? directive).map (·.unplaced) := by
  have unplaced : ∀ n : NodeBody, (n.directive? directive).map (·.unplaced) =
      (n.attributes.map (·.unplaced)).find? (·.name.isDirective directive) := fun n => by
    rw [NodeBody.directive?, List.find?_map]
    rfl
  rw [unplaced, unplaced]
  exact congrArg (List.find? _) (NodeBody.attributes_of_bare (both.tree.body i))

theorem directiveText? (i : NodeId) (directive : String) :
    (b.node (moved x i)).directiveText? directive = (a.node i).directiveText? directive := by
  have unplaced : ∀ n : NodeBody, n.directiveText? directive =
      ((n.directive? directive).map (·.unplaced)).bind (·.value.text?) := fun n => by
    rw [NodeBody.directiveText?, Option.bind_map]
    rfl
  rw [unplaced, unplaced]
  exact congrArg (Option.bind · _) (both.directive i directive)

/-- Only around what is in a node that makes an object there may be a property element more. -/
theorem leaf_of_not_object (other : (a.node i).isObject = false) :
    x ∈ (b.tree.node (moved x i)).children → (b.tree.node x).children = [] := by
  intro listed
  obtain ⟨rfl, listed⟩ := both.tree.listed_iff.1 listed
  cases both.tree.spliced listed with
  | text _ leaf | empty _ _ _ leaf => exact leaf
  | property _ _ _ object => exact absurd (object.symm.trans other) Bool.true_eq_false.mp

/-- The values of the children of a node that makes no object are the same. -/
theorem values_of_not_object (other : (a.node i).isObject = false) :
    (b.node (moved x i)).children.filterMap b.context.value? =
      (a.node i).children.filterMap a.context.value? := by
  rw [← NodeTree.filterMap_filter_ne both.silent]
  show ((b.tree.node (moved x i)).children.filter (· ≠ x)).filterMap _ = _
  rw [both.tree.children_filter (both.leaf_of_not_object other), List.filterMap_map]
  exact congrArg (List.filterMap · _) (funext both.value)

theorem argumentValues (i : NodeId) : b.argumentValues (moved x i) = a.argumentValues i := by
  unfold LoadState.argumentValues
  rw [both.tree.arguments?]
  cases holds : a.tree.arguments? i with
  | none => rfl
  | some holder =>
    have is := NodeTree.isArguments_of_arguments? holds
    refine both.values_of_not_object ?_
    cases object : (a.node holder).isObject with
    | false => rfl
    | true => exact absurd (is.2.symm.trans (NodeTree.isArguments_of_isObject object)) (by simp)

/-- A template keeps the same content. -/
theorem templateContent (template : env.isTemplate (a.node i).toNodeBody = true) :
    Kindred (fun s t => (t.map fun c => { c with tree := c.tree.unplaced : Template}) =
        s.map fun c => { c with tree := c.tree.unplaced })
      (a.templateContent i) (b.templateContent (moved x i)) := by
  have leaf : x ∈ (b.tree.node (moved x i)).children → (b.tree.node x).children = [] := by
    intro listed
    obtain ⟨rfl, listed⟩ := both.tree.listed_iff.1 listed
    exact both.apart.leaf listed template
  unfold LoadState.templateContent
  rw [both.tree.elements leaf]
  cases elements : a.tree.elements i with
  | nil => exact .ok rfl
  | cons c rest =>
    cases rest with
    | nil =>
      have content := both.tree.extract_content both.proper both.proper' both.links both.apart
        template (elements ▸ List.mem_singleton_self c)
      exact .ok (by simp only [Option.map_some, content])
    | cons d others => exact .error rfl

/-- **Both sides make the same of a node**, apart from positions, or fail with errors of one kind. -/
theorem make (object : (a.node i).isObject = true) :
    Kindred Made.Akin (a.make env i) (b.make env (moved x i)) := by
  have scalar : (if isLanguage (b.node (moved x i)).typeName.namespaceUri then
        scalar? (b.node (moved x i)).typeName.localName (b.tree.textContent (moved x i)) else none) =
      if isLanguage (a.node i).typeName.namespaceUri then
        scalar? (a.node i).typeName.localName (a.tree.textContent i) else none := by
    rw [both.typeName]
    split
    case isTrue language =>
      by_cases named : (a.node i).typeName.localName ∈ scalarNames
      · rw [both.tree.textContent both.proper object ⟨language, named⟩]
      · have other : ∀ text, scalar? (a.node i).typeName.localName text = none := fun text => by
          cases read : scalar? (a.node i).typeName.localName text with
          | none => rfl
          | some _ => exact absurd (mem_scalarNames_of_scalar? read) named
        rw [other, other]
    · rfl
  have made : Kindred (fun o p => p.unplaced = o.unplaced) (a.makeObject env i)
      (b.makeObject env (moved x i)) := by
    unfold LoadState.makeObject
    dsimp only
    rw [both.typeName]
    cases known : env.registry.get? (a.node i).typeName with
    | none => exact .error rfl
    | some d =>
      dsimp only
      rw [both.argumentValues, both.directiveText?, both.heap.make]
      cases d.make a.heap (a.argumentValues i) ((a.node i).directiveText? "FactoryMethod") with
      | error fault => exact .error rfl
      | ok o =>
        dsimp only
        split
        case isTrue is =>
          have template : env.isTemplate (a.node i).toNodeBody = true := by
            rw [Environment.isTemplate, object, Bool.true_and, Registry.isTemplate, known]
            simpa using is
          refine (both.templateContent template).bind fun s t same => .ok ?_
          unfold Object.unplaced
          simp only [same]
        · exact .ok rfl
  unfold LoadState.make
  dsimp only
  rw [scalar]
  split
  · exact .ok (.scalar _)
  · exact .error rfl
  · exact made.map fun _ _ same => .object same

end Abreast

end LoadState

/-! ## Creating values -/

/-- A relation between loads abreast that values may be created within. -/
structure Making (env : Environment) (x p : NodeId) (R : LoadState → LoadState → Prop) : Prop
    extends Loose R where
  abreast : ∀ {a b}, R a b → LoadState.Abreast env x p a b
  value : ∀ {a b}, R a b → ∀ i v, R (a.withValue i v) (b.withValue (moved x i) v)
  root : ∀ {a b}, R a b → ∀ root, R { a with rootInstance := root } { b with rootInstance := root }
  element : ∀ {a b}, R a b → ∀ element,
    R { a with context := { a.context with rootElement := element } }
      { b with context := { b.context with rootElement := element } }

theorem LoadState.Abreast.withValue {env : Environment} {x p : NodeId} {a b : LoadState}
    (both : Abreast env x p a b) (i : NodeId) (v : Value) :
    Abreast env x p (a.withValue i v) (b.withValue (moved x i) v) :=
  { both with
    value := fun j => by
      show (b.context.values.insert (moved x i) v).get? (moved x j) =
        (a.context.values.insert i v).get? j
      by_cases same : j = i
      · rw [same, Table.get?_insert_self, Table.get?_insert_self]
      · rw [Table.get?_insert_of_ne _ _ same,
          Table.get?_insert_of_ne _ _ fun is => same (NodeTree.moved_injective x is)]
        exact both.value j
    silent := by
      show (b.context.values.insert (moved x i) v).get? x = none
      rw [Table.get?_insert_of_ne _ _ (NodeTree.moved_ne x i).symm]
      exact both.silent }

theorem making_abreast (env : Environment) (x p : NodeId) :
    Making env x p (LoadState.Abreast env x p) where
  tolerant both := both.tolerant
  akin both := both.heap
  record both _ _ := { both with }
  heap both akin := { both with heap := akin }
  completed both pass := { both with passes := congrArg (· ++ [pass]) both.passes }
  abreast both := both
  value both := both.withValue
  root both _ := { both with rootInstance := rfl }
  element both _ := { both with rootElement := rfl }

namespace Load

variable {env : Environment} {x p i : NodeId} {R : LoadState → LoadState → Prop}
  {a b : LoadState}

section Creating

variable (making : Making env x p R) (both : R a b)

include making both

theorem moved_root_iff : moved x i = NodeTree.root ↔ i = NodeTree.root := by
  have top : moved x NodeTree.root = NodeTree.root := (making.abreast both).tree.root_eq
  exact ⟨fun is => NodeTree.moved_injective x (is.trans top.symm), fun is => is ▸ top⟩

theorem together_settleMade {made made' : Made} (akin : made.Akin made') :
    Together R Eq ((settleMade made).start a) ((settleMade made').start b) := by
  cases akin with
  | scalar value => exact .ok rfl both
  | object same =>
    refine Together.bind (together_alloc making.toLoose both same) ?_
    rintro n _ a' b' - both rfl
    exact .ok rfl both

theorem together_setValue (i : NodeId) (v : Value) :
    TogetherDone R ((setValue i v).start a) ((setValue (moved x i) v).start b) := by
  have taken : b.context.values.contains (moved x i) = a.context.values.contains i :=
    congrArg Option.isSome ((making.abreast both).value i)
  rw [start_setValue, start_setValue, taken]
  split
  · exact .error rfl
  · exact together_done (making.value both i v)

theorem together_adoptRoot (n : ObjectId) :
    TogetherDone R ((adoptRoot n).start a) ((adoptRoot n).start b) :=
  together_done (making.element (making.root both (some n)) (some n))

/-- The object of the outermost element is made on both sides, or on none. -/
theorem together_createRoot (object : (a.node NodeTree.root).isObject = true) :
    TogetherDone R ((createRoot env).start a) ((createRoot env).start b) := by
  have abreast := making.abreast both
  have splices := abreast.tree
  unfold createRoot
  rw [start_get_bind, start_get_bind, abreast.rootInstance]
  cases a.rootInstance with
  | some n => exact together_done (making.element both (some n))
  | none =>
    dsimp only
    have takes := splices.arguments? NodeTree.root
    rw [splices.root_eq] at takes
    rw [takes, Option.isSome_map]
    split
    · exact together_done both
    · have made := abreast.make object
      rw [splices.root_eq] at made
      refine Together.bind (together_ofExcept both made) fun m m' a' b' _ both akin => ?_
      refine Together.bind (together_settleMade making both akin) ?_
      rintro value _ a'' b'' - both rfl
      cases value with
      | object n => exact together_adoptRoot making both n
      | _ => exact .error rfl

/-- The object that the load is about is taken over on both sides. -/
theorem together_reuseRoot (n : ObjectId) :
    TogetherDone R ((reuseRoot n).start a) ((reuseRoot n).start b) := by
  have top := (making.abreast both).tree.root_eq
  have set := together_setValue making both NodeTree.root (.object n)
  rw [top] at set
  refine Together.bind set fun _ _ a' b' _ both _ => ?_
  have after := making.element both (a'.context.rootElement.or (some n))
  refine together_done ?_
  show R _ { b' with context := { b'.context with
    rootElement := b'.context.rootElement.or (some n) } }
  rwa [(making.abreast both).rootElement]

/-- Both sides create the value of a node, or leave the node out. -/
theorem together_createNode (object : (a.node i).isObject = true)
    (detach : ∀ {a b}, R a b → (a.node i).isObject = true →
      R { a with tree := a.tree.detach i } { b with tree := b.tree.detach (moved x i) }) :
    TogetherDone R ((createNode env i).start a) ((createNode env (moved x i)).start b) := by
  have abreast := making.abreast both
  have made := abreast.make object
  have top : (moved x i = NodeTree.root) = (i = NodeTree.root) :=
    propext (moved_root_iff making both)
  unfold createNode
  rw [start_get_bind, start_get_bind]
  generalize a.make env i = m at made
  generalize b.make env (moved x i) = m' at made
  simp only [top]
  cases made with
  | ok akin =>
    refine Together.bind (together_settleMade making both akin) ?_
    rintro value _ a' b' - both rfl
    by_cases outermost : i = NodeTree.root
    · simp only [if_pos outermost]
      cases value with
      | object n =>
        exact Together.bind (together_adoptRoot making both n) fun _ _ _ _ _ both _ =>
          together_setValue making both i _
      | _ => exact together_setValue making both i _
    · simp only [if_neg outermost]
      exact together_setValue making both i value
  | @error e f kind =>
    by_cases outermost : i = NodeTree.root
    · simp only [if_pos outermost]
      exact .error kind
    · simp only [if_neg outermost]
      refine Together.bind (together_recover making.toLoose both kind) ?_
      intro _ _ a' b' ran both _
      refine together_done (detach both ?_)
      rw [ok_of_recover ran]
      exact object

theorem together_createValue
    (detach : ∀ {a b}, R a b → (a.node i).isObject = true →
      R { a with tree := a.tree.detach i } { b with tree := b.tree.detach (moved x i) }) :
    TogetherDone R ((createValue env i).start a) ((createValue env (moved x i)).start b) := by
  have abreast := making.abreast both
  have top : (moved x i = NodeTree.root) = (i = NodeTree.root) :=
    propext (moved_root_iff making both)
  unfold createValue
  rw [start_get_bind, start_get_bind, abreast.isObject, abreast.rootInstance]
  cases object : (a.node i).isObject with
  | false => exact together_done both
  | true =>
    have creates := together_createNode making both object detach
    rw [if_neg (by simp), if_neg (by simp)]
    cases a.rootInstance with
    | none => exact creates
    | some n =>
      simp only [top]
      by_cases outermost : i = NodeTree.root
      · simp only [if_pos outermost]
        exact together_reuseRoot making both n
      · simp only [if_neg outermost]
        exact creates

end Creating

end Load

end MarkupLoader
