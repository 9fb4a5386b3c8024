import MarkupLoader.Proofs.Applying
import MarkupLoader.Proofs.Frames
import MarkupLoader.Proofs.RankedFilling

/-!
# Applying properties keeps to the ranks

What is assigned to an object is the value of a child, or of a child of a property element, and
these come after the object. Values that are added to a property may become **items of a collection
that the property holds**. It has come there from an earlier child, and children are applied in
their order, so its items come after it, too.

Attributes assign texts, if none of them is an expression, and a template remembers the objects of
the nodes above it.

Main results: `Arranged.applyChild`, `Arranged.applyNode`, `Arranged.applyProperties`.
-/

namespace MarkupLoader

namespace Load

variable {env : Environment} {s t : LoadState}

/-- A change of the heap is put into effect or passed over. -/
theorem heap_of_changeHeap {outcome : Except LoadError Heap}
    (ran : (changeHeap outcome).start s = (.ok (), t)) :
    outcome = .ok t.heap ∨ t.heap = s.heap := by
  cases outcome with
  | ok heap =>
    cases ran
    exact .inl rfl
  | error error =>
    right
    rw [ok_of_recover ran]
    rfl

end Load

/-! ## Writes to one object -/

namespace Heap

/-- A later heap in which the properties of all objects but one are as they were. -/
structure Beside (n : ObjectId) (h after : Heap) : Prop extends h.SameTypes after where
  others : ∀ m, m ≠ n → ∀ key, after.get? m key = h.get? m key

variable {h : Heap} {n m : ObjectId} {rank : ObjectId → List Nat} {kind : TypeKind}
  {place : List Nat}

theorem writing_beside (n : ObjectId) : WritingTo (Beside n) n where
  refl h := ⟨assigning_sameTypes.refl h, fun _ _ _ => rfl⟩
  trans _ _ _ first second := ⟨assigning_sameTypes.trans first.toSameTypes second.toSameTypes,
    fun m ne key => (second.others m ne key).trans (first.others m ne key)⟩
  set h property value := ⟨assigning_sameTypes.set h n property value,
    fun _ ne key => get?_set_of_ne h property value ne key⟩
  item h other value _ := ⟨assigning_sameTypes.item h other value,
    fun _ _ _ => get?_addItem h other value⟩

theorem beside_scope (h : Heap) (n : ObjectId) (around : List ObjectId) :
    h.Beside n (h.modify n fun o =>
      { o with template := o.template.map fun t => { t with outerScope := around } }) :=
  ⟨assigning_sameTypes.scope h n around, fun _ _ _ => get?_scope h n around⟩

theorem Under.beside {after : Heap} (under : Under rank kind h m place) (beside : h.Beside n after)
    (ne : m ≠ n) : Under rank kind after m place :=
  under.congr (funext beside.kind) (beside.others m ne)

end Heap

/-! ## Applying a child -/

namespace LoadState

variable {before after : Heap} {doc : NodeTree} {rank : ObjectId → List Nat} {env : Environment}
  {s t : LoadState} {id c other : NodeId} {n m : ObjectId} {value : Value}

/-- The children that pruning has left are listed in their order. -/
theorem Arranged.sorted (arranged : s.Arranged before doc rank) (id : NodeId) :
    (s.node id).children.Pairwise (· < ·) := by
  obtain ⟨gone, tree⟩ := arranged.tree
  rw [node, tree]
  exact arranged.routed.ordered.without gone id

/-- What a child of a property element gives. -/
def givenValue? (s : LoadState) (child : NodeId) : Option Value :=
  match (s.node child).kind with
  | .text content => some (.string content)
  | _ => s.context.value? child

theorem elementValues_site (env : Environment) (id c : NodeId) :
    (s.site env id).elementValues c = (s.node c).children.filterMap s.givenValue? := rfl

/-- An object is given as the object of the child. -/
theorem Arranged.object_of_given (arranged : s.Arranged before doc rank)
    (is : s.givenValue? c = some value) (holds : m ∈ value.references) :
    s.context.object? c = some m := by
  unfold givenValue? at is
  split at is
  · cases is
    cases holds
  · exact arranged.object_of_value is holds

/-- A value that a child of a node gives: what it holds has its place at the child or below, before
the children that come later. -/
def FromChild (before : Heap) (doc : NodeTree) (rank : ObjectId → List Nat) (s : LoadState)
    (id c : NodeId) (value : Value) : Prop :=
  ∀ m ∈ value.references, before.size ≤ m ∧ m < s.heap.size ∧
    (rank m = doc.route c ∨ doc.route c < rank m) ∧
      ∀ other ∈ (s.node id).children, (c : Nat) < other → doc.isArguments other = false →
        rank m < doc.route other

/-- A heap after a child has been applied: the object has taken values that the child gives. -/
def TakesFrom (before : Heap) (doc : NodeTree) (rank : ObjectId → List Nat) (s : LoadState)
    (id : NodeId) (n : ObjectId) (c : NodeId) (after : Heap) : Prop :=
  ∃ values, Heap.Takes before rank s.heap n values after ∧
    ∀ value ∈ values, s.FromChild before doc rank id c value

theorem TakesFrom.ranked (takes : s.TakesFrom before doc rank id n c after) :
    Heap.Ranked before rank after := by
  obtain ⟨_, takes, -⟩ := takes
  exact takes.ranked

/-- Collections among the properties of the object still come before the later children. -/
theorem TakesFrom.under (takes : s.TakesFrom before doc rank id n c after)
    (sibling : other ∈ (s.node id).children) (later : (c : Nat) < other)
    (plain : doc.isArguments other = false)
    (under : Heap.Under rank .collection s.heap n (doc.route other)) :
    Heap.Under rank .collection after n (doc.route other) := by
  obtain ⟨values, takes, given⟩ := takes
  refine takes.under _ under fun value mem m holds => ?_
  obtain ⟨-, -, -, first⟩ := given value mem m holds
  exact first other sibling later plain

theorem Arranged.takesNothing (arranged : s.Arranged before doc rank) :
    s.TakesFrom before doc rank id n c s.heap :=
  ⟨[], .nothing arranged.ranked, nofun⟩

theorem fromChild_of_simple (none : value.references = []) :
    s.FromChild before doc rank id c value := by
  intro m mem
  rw [none] at mem
  cases mem

section Child

variable (arranged : s.Arranged before doc rank) (has : s.context.object? id = some n)
  (listed : c ∈ (s.node id).children)

include arranged has listed

/-- A child is given as its own value. -/
theorem Arranged.fromChild (is : s.context.value? c = some value) :
    s.FromChild before doc rank id c value := by
  intro m mem
  obtain ⟨new, inside, place⟩ := arranged.placed c m (arranged.object_of_value is mem)
  refine ⟨new, inside, .inl place, fun other sibling later plain => ?_⟩
  rw [place]
  exact arranged.routed.lt_sibling (arranged.reached id n has) (arranged.listed listed)
    (arranged.listed sibling) (NodeTree.step_lt_of_lt later plain)

/-- A property element gives the values of its children. -/
theorem Arranged.fromElement (mem : value ∈ (s.node c).children.filterMap s.givenValue?) :
    s.FromChild before doc rank id c value := by
  intro m holds
  obtain ⟨e, below, is⟩ := List.mem_filterMap.1 mem
  obtain ⟨new, inside, place⟩ := arranged.placed e m (arranged.object_of_given is holds)
  have routed := arranged.routed
  have above := arranged.reached id n has
  have child := arranged.listed listed
  have grandchild := arranged.listed below
  refine ⟨new, inside, .inr ?_, fun other sibling later plain => ?_⟩
  · rw [place]
    exact routed.lt_child (.child above rfl child) grandchild
  · rw [place]
    exact routed.grandchild_lt_sibling above child (arranged.listed sibling)
      (NodeTree.step_lt_of_lt later plain) grandchild

theorem Arranged.follows_of_fromChild (given : s.FromChild before doc rank id c value) :
    Heap.Follows before rank s.heap n value := by
  intro m mem
  obtain ⟨new, inside, place, -⟩ := given m mem
  have later := arranged.routed.lt_child (arranged.reached id n has) (arranged.listed listed)
  refine ⟨new, inside, ?_⟩
  rw [(arranged.placed id n has).2.2]
  rcases place with here | below
  · rwa [here]
  · exact List.lt_trans later below

omit arranged has listed in
theorem FromChild.under (given : s.FromChild before doc rank id c value)
    (under : Heap.Under rank .collection s.heap n (doc.route c)) :
    ∀ m ∈ value.references, Heap.Under rank .collection s.heap n (rank m) := by
  intro m mem
  obtain ⟨-, -, here | below, -⟩ := given m mem
  · rwa [here]
  · exact under.mono below

variable (under : Heap.Under rank .collection s.heap n (doc.route c))

include under

/-- Content goes to a property of the object. -/
theorem Arranged.assignContent (given : s.FromChild before doc rank id c value)
    (assigned : (s.site env id).assignContent n value = .ok after) :
    s.TakesFrom before doc rank id n c after := by
  obtain ⟨target, -, assigned⟩ := ok_of_bind assigned
  exact ⟨[value], arranged.ranked.assign (arranged.placed id n has).1
    (arranged.follows_of_fromChild has listed given) (given.under under) assigned,
    List.forall_mem_singleton.2 given⟩

/-- The values of a property element go to a property, in the order of their places. -/
theorem Arranged.applyElement {name : QName}
    (applied : (s.site env id).applyElement n c name = .ok after) :
    s.TakesFrom before doc rank id n c after := by
  obtain ⟨target, -, assigned⟩ := ok_of_bind applied
  have given : ∀ value ∈ (s.site env id).elementValues c, s.FromChild before doc rank id c value :=
    fun value mem => arranged.fromElement has listed mem
  have ascending : ((s.site env id).elementValues c).Pairwise fun value later =>
      ∀ m ∈ value.references, ∀ m' ∈ later.references, rank m < rank m' := by
    rw [elementValues_site]
    -- The place of a later one is behind that of an earlier one.
    refine List.pairwise_filterMap.2 ((arranged.sorted c).imp_of_mem ?_)
    intro e e' below below' less value is value' is' m holds m' holds'
    have object := arranged.object_of_given is' holds'
    obtain ⟨-, -, place⟩ := arranged.placed e m (arranged.object_of_given is holds)
    obtain ⟨-, -, place'⟩ := arranged.placed e' m' object
    have above : doc.Reaches (fun _ => false) NodeTree.root c :=
      .child (arranged.reached id n has) rfl (arranged.listed listed)
    rw [place, place']
    exact arranged.routed.lt_sibling above (arranged.listed below) (arranged.listed below')
      (NodeTree.step_lt_of_lt less (arranged.objects e' m' object))
  exact ⟨_, arranged.ranked.assignAll (arranged.placed id n has).1
    (fun value mem => arranged.follows_of_fromChild has listed (given value mem))
    (fun value mem => (given value mem).under under) ascending assigned, given⟩

/-- The value of a child becomes an item, or is content. -/
theorem Arranged.applyObject (applied : (s.site env id).applyObject n c = .ok after) :
    s.TakesFrom before doc rank id n c after := by
  unfold Site.applyObject at applied
  split at applied
  · cases applied
    exact arranged.takesNothing
  case h_2 value is =>
    have given := arranged.fromChild has listed is
    split at applied
    · cases applied
      exact ⟨[], .item arranged.ranked (arranged.placed id n has).1
        (arranged.follows_of_fromChild has listed given), nofun⟩
    · exact arranged.assignContent has listed under given applied

omit under in
/-- **Applying a child** keeps to the ranks. -/
theorem Arranged.applyChild (under : doc.isArguments c = false →
      Heap.Under rank .collection s.heap n (doc.route c))
    (applied : (s.site env id).applyChild n c = .ok after) :
    s.TakesFrom before doc rank id n c after := by
  have other : s.tree.isArguments c = false → Heap.Under rank .collection s.heap n (doc.route c) :=
    fun plain => under ((arranged.isArguments c).symm.trans plain)
  unfold Site.applyChild at applied
  dsimp only at applied
  split at applied
  case h_1 content kind =>
    refine arranged.assignContent has listed (other ?_) (fromChild_of_simple rfl)
      (ok_of_mapError applied)
    rw [NodeTree.isArguments, show (s.tree.node c).kind = _ from kind]
  case h_2 name kind =>
    split at applied
    · cases applied
      exact arranged.takesNothing
    case isFalse no =>
      refine arranged.applyElement has listed (other ?_) (ok_of_mapError applied)
      rw [NodeTree.isArguments, show (s.tree.node c).kind = _ from kind]
      exact Bool.eq_false_iff.2 no
  case h_3 noText noProperty =>
    refine arranged.applyObject has listed (other ?_) (ok_of_mapError applied)
    unfold NodeTree.isArguments
    split
    case h_1 name kind => exact absurd kind (noProperty name)
    case h_2 => rfl

end Child

/-- **Applying an attribute** that is a text keeps to the ranks. -/
theorem Arranged.applyAttribute (arranged : s.Arranged before doc rank)
    (has : s.context.object? id = some n) {a : Attribute} (text : ∀ x, a.value ≠ .expression x)
    (applied : (s.site env id).applyAttribute env.extensions n a = .ok after) :
    Heap.Takes before rank s.heap n [] after := by
  unfold Site.applyAttribute at applied
  split at applied
  · cases applied
    exact .nothing arranged.ranked
  · obtain ⟨value, given, applied⟩ := ok_of_bind applied
    obtain ⟨target, -, assigned⟩ := ok_of_bind (ok_of_mapError applied)
    -- What is no expression gives its text.
    have none : value.references = [] := by
      unfold Site.attributeValue at given
      split at given
      case h_3 x is => exact absurd is (text x)
      all_goals
        cases given
        rfl
    have nothing : ∀ m, m ∉ value.references := fun m mem => by
      rw [none] at mem
      cases mem
    have takes := arranged.ranked.assign (arranged.placed id n has).1
      (Heap.follows_of_simple none) (fun m mem => absurd mem (nothing m)) assigned
    exact ⟨takes.ranked, fun place before _ => takes.under place before
      (List.forall_mem_singleton.2 fun m mem => absurd mem (nothing m))⟩

/-! ## Applying a node -/

/-- Nothing that the ranks are about is changed by writes but the heap. -/
theorem Arranged.settled (arranged : s.Arranged before doc rank)
    (settled : s.Settled Heap.SameTypes t) (ranked : Heap.Ranked before rank t.heap) :
    t.Arranged before doc rank :=
  arranged.advance settled.tree settled.values ranked (Nat.le_of_eq settled.heap.size.symm)
    fun _ _ => rfl

section Node

variable (arranged : s.Arranged before doc rank) (has : s.context.object? id = some n)

include arranged has

/-- The attributes of a node are applied one after the other. -/
theorem Arranged.applyAttributes
    (texts : ∀ a ∈ (s.node id).attributes, ∀ x, a.value ≠ .expression x)
    (ran : (Load.applyAttributes env id n).start s = (.ok (), t)) :
    s.Settled Heap.SameTypes t ∧ t.Arranged before doc rank ∧
      Heap.Takes before rank s.heap n [] t.heap := by
  have chains := Heap.assigning_sameTypes.toChains
  rw [Load.applyAttributes, Load.start_get_bind] at ran
  refine Load.forM_along
    (P := fun _ _ u => s.Settled Heap.SameTypes u ∧ u.Arranged before doc rank ∧
      Heap.Takes before rank s.heap n [] u.heap)
    (fun done a rest u v is invariant ran => ?_)
    ⟨.refl chains s, arranged, .nothing arranged.ranked⟩ ran
  obtain ⟨settled, arranged, so_far⟩ := invariant
  rw [Load.start_get_bind] at ran
  have mem : a ∈ (s.node id).attributes := is ▸ List.mem_append_right _ List.mem_cons_self
  have step := (Load.settles_changeHeap (s := u) chains fun _ =>
    (Heap.assigning_sameTypes.toWriting.to n).attribute).ran ran
  have takes : Heap.Takes before rank u.heap n [] v.heap := by
    rcases Load.heap_of_changeHeap ran with applied | same
    · have hasThen := (congrFun settled.object? id).trans has
      exact arranged.applyAttribute hasThen (texts a mem) applied
    · rw [same]
      exact .nothing arranged.ranked
  exact ⟨settled.trans chains step, arranged.settled step takes.ranked, so_far.append takes⟩

/-- The children of a node are applied one after the other. -/
theorem Arranged.applyChildren
    (under : ∀ c ∈ (s.node id).children, doc.isArguments c = false →
      Heap.Under rank .collection s.heap n (doc.route c))
    (ran : (Load.applyChildren env id n).start s = (.ok (), t)) :
    s.Settled Heap.SameTypes t ∧ t.Arranged before doc rank := by
  have chains := Heap.assigning_sameTypes.toChains
  rw [Load.applyChildren, Load.start_get_bind] at ran
  split at ran
  case h_1 =>
    cases ran
    exact ⟨.refl chains s, arranged⟩
  case h_2 =>
    cases ran
    exact ⟨.refl chains s, arranged⟩
  case h_3 =>
    -- Collections among the properties come before the children that are left. What a child gives
    -- may have become one of them, and it comes before the children behind it.
    have last := Load.forM_along
      (P := fun _ rest u => s.Settled Heap.SameTypes u ∧ u.Arranged before doc rank ∧
        ∀ c ∈ rest, doc.isArguments c = false →
          Heap.Under rank .collection u.heap n (doc.route c))
      (fun done c rest u v is invariant ran => ?_) ⟨.refl chains s, arranged, under⟩ ran
    · exact ⟨last.1, last.2.1⟩
    obtain ⟨settled, arranged, under⟩ := invariant
    rw [Load.start_get_bind] at ran
    have step := (Load.settles_changeHeap (s := u) chains fun _ =>
      (Heap.assigning_sameTypes.toWriting.to n).child).ran ran
    have children : (u.node id).children = done ++ c :: rest := by
      rw [node_of_settled settled, is]
    have sorted := arranged.sorted id
    rw [children] at sorted
    have later := (List.pairwise_cons.1 (List.pairwise_append.1 sorted).2.1).1
    have takes : u.TakesFrom before doc rank id n c v.heap := by
      rcases Load.heap_of_changeHeap ran with applied | same
      · refine arranged.applyChild ((congrFun settled.object? id).trans has) ?_
          (under c List.mem_cons_self) applied
        rw [children]
        exact List.mem_append_right _ List.mem_cons_self
      · rw [same]
        exact arranged.takesNothing
    refine ⟨settled.trans chains step, arranged.settled step takes.ranked, ?_⟩
    intro other mem plain
    have listed : other ∈ (u.node id).children := by
      rw [children]
      exact List.mem_append_right _ (List.mem_cons_of_mem _ mem)
    exact takes.under listed (later other mem) plain
      (under other (List.mem_cons_of_mem _ mem) plain)

/-- A template remembers new objects, if there are none around the document. -/
theorem Arranged.captureScope (outermost : s.context.outerScope = [])
    (ran : (Load.captureScope n (s.site env id).outerScope).start s = (.ok (), t)) :
    s.Settled Heap.SameTypes t ∧ t.Arranged before doc rank ∧
      Heap.Takes before rank s.heap n [] t.heap := by
  cases ran
  have types := Heap.assigning_sameTypes.scope s.heap n (s.site env id).outerScope
  have settled : s.Settled Heap.SameTypes
      { s with heap := s.heap.modify n fun o => { o with
        template := o.template.map fun t =>
          { t with outerScope := (s.site env id).outerScope } } } := ⟨rfl, rfl, rfl, types⟩
  have ranked : Heap.Ranked before rank (s.heap.modify n fun o => { o with
      template := o.template.map fun t =>
        { t with outerScope := (s.site env id).outerScope } }) := by
    refine arranged.ranked.scope (arranged.placed id n has).1 fun m mem => ?_
    -- What is around the node are the objects of the nodes above it.
    have mem : m ∈ (s.tree.ancestors id).filterMap s.context.object? ++ s.context.outerScope := mem
    rw [outermost, List.append_nil] at mem
    obtain ⟨above, -, hasToo⟩ := List.mem_filterMap.1 mem
    obtain ⟨new, inside, -⟩ := arranged.placed above m hasToo
    exact ⟨new, inside⟩
  refine ⟨settled, arranged.settled settled ranked, ranked, fun place under _ => ?_⟩
  exact under.congr (funext types.kind) fun _ => Heap.get?_scope _ _ _

/-- **Applying a node** keeps to the ranks, if collections among the properties of its object come
before its children. -/
theorem Arranged.applyNode (outermost : s.context.outerScope = [])
    (texts : ∀ a ∈ (s.node id).attributes, ∀ x, a.value ≠ .expression x)
    (under : ∀ c ∈ (s.node id).children, doc.isArguments c = false →
      Heap.Under rank .collection s.heap n (doc.route c))
    (ran : (Load.applyNode env id).start s = (.ok (), t)) : t.Arranged before doc rank := by
  rw [Load.applyNode, Load.start_get_bind, has] at ran
  dsimp only at ran
  -- What is left after the scope has been captured, if it is.
  have rest : ∀ {u}, s.Settled Heap.SameTypes u → u.Arranged before doc rank →
      Heap.Takes before rank s.heap n [] u.heap →
      (do Load.applyAttributes env id n; Load.applyChildren env id n : Load Unit).start u =
        (.ok (), t) → t.Arranged before doc rank := by
    intro u settled arranged takes ran
    obtain ⟨_, v, first, ran⟩ := Load.ok_of_start_bind ran
    have node := node_of_settled settled id
    obtain ⟨settled', arranged', takes'⟩ := arranged.applyAttributes
      ((congrFun settled.object? id).trans has) (fun a mem => texts a (node ▸ mem)) first
    have both := settled.trans Heap.assigning_sameTypes.toChains settled'
    refine (arranged'.applyChildren ((congrFun both.object? id).trans has) ?_ ran).2
    intro c listed plain
    rw [node_of_settled both] at listed
    exact (takes.append takes').under _ (under c listed plain) (List.forall_mem_nil _)
  split at ran
  · obtain ⟨_, u, captures, ran⟩ := Load.ok_of_start_bind ran
    obtain ⟨settled, arranged, takes⟩ := arranged.captureScope has outermost captures
    exact rest settled arranged takes ran
  · exact rest (.refl Heap.assigning_sameTypes.toChains s) arranged (.nothing arranged.ranked) ran

end Node

/-- **Applying all nodes** keeps to the ranks. -/
theorem Arranged.applyProperties (arranged : s.Arranged before doc rank)
    (outermost : s.context.outerScope = [])
    (texts : ∀ id, ∀ a ∈ (s.node id).attributes, ∀ x, a.value ≠ .expression x)
    (collections : ∀ p, ∀ c ∈ (s.node p).children, doc.isArguments c = false →
      s.Prior doc rank .collection p c)
    (ran : (Load.applyProperties env).start s = (.ok (), t)) : t.Arranged before doc rank := by
  have chains := Heap.assigning_sameTypes.toChains
  obtain ⟨gone, without⟩ := arranged.tree
  have proper : s.tree.Proper := without ▸ arranged.routed.proper.without gone
  have nodup : (s.loadedUpwards env).Nodup := NodeTree.nodup_postorder proper
  rw [Load.applyProperties, Load.start_get_bind] at ran
  -- Collections among the properties of an object come before all its children until its turn.
  have last := Load.forM_along
    (P := fun _ rest u => s.Settled Heap.SameTypes u ∧ u.context.outerScope = [] ∧
      u.Arranged before doc rank ∧ ∀ p ∈ rest, ∀ c ∈ (s.node p).children,
        doc.isArguments c = false → u.Prior doc rank .collection p c)
    (fun done id rest u v walk invariant ran => ?_)
    ⟨.refl chains s, outermost, arranged, fun p _ => collections p⟩ ran
  · exact last.2.2.1
  obtain ⟨settled, outermost, arranged, collections⟩ := invariant
  have step := (Load.settles_applyNode env Heap.assigning_sameTypes id).ran ran
  have kept := (Load.stays_applyNode Load.frame_keepsScopes.toHeapFrame env id).ran ran
  have both := settled.trans chains step
  refine ⟨both, kept.outerScope.trans outermost, ?_⟩
  cases has : u.context.object? id with
  | none =>
    rw [Load.applyNode, Load.start_get_bind, has] at ran
    cases ran
    exact ⟨arranged, fun p mem => collections p (List.mem_cons_of_mem _ mem)⟩
  | some n =>
    have node := node_of_settled settled id
    refine ⟨arranged.applyNode has outermost (fun a mem => texts id a (node ▸ mem))
      (fun c listed plain => ?_) ran, fun p mem c listed plain k hasToo => ?_⟩
    · exact collections id List.mem_cons_self c (node ▸ listed) plain n has
    · -- Nothing is written to the properties of the objects of the other nodes.
      rw [step.object?] at hasToo
      have beside := Load.SettlesAt.ran (.applyNode env (Heap.writing_beside n).toChains
        (fun object is => Option.some.inj (has.symm.trans is) ▸ Heap.writing_beside n)
        (fun object is around => Option.some.inj (has.symm.trans is) ▸
          Heap.beside_scope u.heap n around)) ran
      have ne : k ≠ n := by
        rintro rfl
        obtain rfl := arranged.distinct p id k hasToo has
        rw [walk] at nodup
        exact (List.nodup_cons.1 (List.nodup_append.1 nodup).2.1).1 mem
      have before := collections p (List.mem_cons_of_mem _ mem) c listed plain k hasToo
      exact before.beside beside.heap ne

end LoadState

end MarkupLoader
