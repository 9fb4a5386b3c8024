import MarkupLoader.Proofs.DictionaryElements
import MarkupLoader.Proofs.Ranking

/-!
# Filling keeps to the ranks

A dictionary comes before the elements that are put into it: they are children of its own node, or
of a property element for a property that holds it. In the second case the dictionary has come to
the property in one of three ways, and each time from a place in front of the property element
(`LoadState.Prior`):

* it is an argument, and **arguments come first**;
* it is the only element of an earlier property element for the same property;
* it has been made for such a property element, and it is given a rank in front of all children of
  the node but the arguments.

The first of these is lost where filling takes the arguments themselves for a property element. A
type with a property that is named like the directive makes it do so, and such types are left out
here (`LoadState.Fillable`).

Main results: `ok_of_fillNode`, `Fillable.fillNode`, `Fillable.fillResources`.
-/

namespace MarkupLoader

/-! ## Filling a node -/

/-- What filling a node comes to. -/
inductive LoadState.FillsNode (env : Environment) (s : LoadState) (id : NodeId) (t : LoadState) :
    Prop
  | idle (same : t = s)
  /-- The values of the children are in the dictionary that the node stands for. -/
  | entries {n : ObjectId} (has : s.context.object? id = some n)
      (heap : t.heap = s.heap.putAll n ((s.node id).children.filterMap s.entry?))
  /-- A property of the object around has been filled. -/
  | property {name : QName} {parent : NodeId} {n : ObjectId} {key : String}
      (kind : (s.node id).kind = .property name) (above : (s.node id).parent = some parent)
      (has : s.context.object? parent = some n)
      (filled : (s.heap.descriptor n).filledKey? name = some key)
      (fills : s.FillsProperty env id n key t)

namespace Load

variable {env : Environment} {s t last : LoadState} {id : NodeId}

theorem ok_of_fillNode (ran : (fillNode env id).start s = (.ok (), t)) : s.FillsNode env id t := by
  cases kind : (s.node id).kind with
  | text content =>
    rw [fillNode, start_get_bind, kind] at ran
    cases ran
    exact .idle rfl
  | property name =>
    cases around : (s.node id).parent.bind s.context.object? with
    | none =>
      rw [fillNode, start_get_bind, kind] at ran
      dsimp only at ran
      rw [fillPropertyElement, start_get_bind, around] at ran
      cases ran
      exact .idle rfl
    | some n =>
      obtain ⟨parent, above, has⟩ := Option.bind_eq_some_iff.1 around
      rw [start_fillNode_property kind above has] at ran
      cases filled : (s.heap.descriptor n).filledKey? name with
      | none =>
        rw [filled] at ran
        cases ran
        exact .idle rfl
      | some key =>
        rw [filled] at ran
        exact .property kind above has filled (ok_of_fillProperty ran)
  | root | element =>
    rw [fillNode, start_get_bind, kind] at ran
    dsimp only at ran
    split at ran
    case h_1 n has =>
      split at ran
      · exact .entries has (ok_of_fillDictionary ran)
      · cases ran
        exact .idle rfl
    case h_2 =>
      cases ran
      exact .idle rfl

end Load

/-! ## Entries -/

namespace Heap

variable {before h : Heap} {rank rank' : ObjectId → List Nat} {n m : ObjectId}
  {entries : List (String × Value)}

/-- Entries change no types and no properties. -/
theorem putAll_leaves (h : Heap) (n : ObjectId) (entries : List (String × Value)) :
    h.SameTypes (h.putAll n entries) ∧
      ∀ m key, (h.putAll n entries).get? m key = h.get? m key := by
  induction entries generalizing h with
  | nil => exact ⟨assigning_sameTypes.refl h, fun _ _ => rfl⟩
  | cons entry rest ih =>
    have first : h.SameTypes (h.putEntry n entry.1 entry.2) := sameTypes_modify h n fun _ => rfl
    obtain ⟨types, properties⟩ := ih (h.putEntry n entry.1 entry.2)
    refine ⟨assigning_sameTypes.trans first types, fun m key => (properties m key).trans ?_⟩
    exact get?_modify h n fun _ => rfl

theorem Ranked.putAll (ranked : Ranked before rank h) (new : before.size ≤ n)
    (follows : ∀ entry ∈ entries, Follows before rank h n entry.2) :
    Ranked before rank (h.putAll n entries) := by
  induction entries generalizing h with
  | nil => exact ranked
  | cons entry rest ih =>
    obtain ⟨here, later⟩ := List.forall_mem_cons.1 follows
    have size : (h.putEntry n entry.1 entry.2).size = h.size := size_modify h n _
    refine ih (ranked.putEntry new entry.1 here) fun other mem m holds => ?_
    rw [size]
    exact later other mem m holds

/-- Another object has the properties that it had. -/
theorem get?_set_of_ne (h : Heap) (key : String) (value : Value) (ne : m ≠ n) (other : String) :
    (h.set n key value).get? m other = h.get? m other := by
  unfold get? set
  rw [object_modify_of_ne _ ne]

end Heap

/-! ## States whose dictionaries are being filled -/

namespace LoadState

section Prior

variable (doc : NodeTree) (rank : ObjectId → List Nat) (kind : TypeKind) (s : LoadState)

/-- Objects of a kind that are in the properties of the object of a node come before a child. -/
def Prior (p c : NodeId) : Prop :=
  ∀ n, s.context.object? p = some n → Heap.Under rank kind s.heap n (doc.route c)

end Prior

/-- **A state in which some nodes are still to be filled**, and all are to be applied. No type that
is given arguments takes them for a property. -/
structure Fillable (before : Heap) (doc : NodeTree) (rank : ObjectId → List Nat)
    (rest : List NodeId) (s : LoadState) : Prop extends s.Arranged before doc rank where
  collections : ∀ p, ∀ c ∈ (s.node p).children, doc.isArguments c = false →
    s.Prior doc rank .collection p c
  dictionaries : ∀ p, ∀ c ∈ (s.node p).children, doc.isArguments c = false → c ∈ rest →
    s.Prior doc rank .dictionary p c
  apart : ∀ p n, s.context.object? p = some n → ∀ c ∈ (s.node p).children,
    doc.isArguments c = true → ∀ name, (s.node c).kind = .property name →
      (s.heap.descriptor n).filledKey? name = none

variable {before : Heap} {doc : NodeTree} {rank rank' : ObjectId → List Nat} {rest : List NodeId}
  {env : Environment} {s t : LoadState} {id p c : NodeId} {n m : ObjectId}
  {entries : List (String × Value)}

namespace Fillable

/-- One node has been seen to. -/
theorem tail (fillable : s.Fillable before doc rank (id :: rest)) :
    s.Fillable before doc rank rest :=
  { fillable with
    dictionaries := fun p c listed other mem =>
      fillable.dictionaries p c listed other (List.mem_cons_of_mem _ mem) }

/-- A change of the heap that keeps to the ranks, and after which what is in properties comes before
what it has to come before. -/
theorem change (fillable : s.Fillable before doc rank rest) (tree : t.tree = s.tree)
    (values : t.context.values = s.context.values) (ranked : Heap.Ranked before rank' t.heap)
    (size : s.heap.size ≤ t.heap.size) (same : ∀ n < s.heap.size, rank' n = rank n)
    (types : ∀ n < s.heap.size, t.heap.descriptor n = s.heap.descriptor n)
    (prior : ∀ kind p n, s.context.object? p = some n → ∀ c ∈ (s.node p).children,
      doc.isArguments c = false → kind = .collection ∨ kind = .dictionary ∧ c ∈ rest →
      Heap.Under rank kind s.heap n (doc.route c) →
        Heap.Under rank' kind t.heap n (doc.route c)) :
    t.Fillable before doc rank' rest := by
  have object : ∀ id, t.context.object? id = s.context.object? id := fun id => by
    rw [Context.object?, Context.value?, values]
    rfl
  have node : ∀ id, t.node id = s.node id := fun id => by rw [node, tree]; rfl
  refine ⟨fillable.toArranged.advance tree values ranked size same, ?_, ?_, ?_⟩
  · intro p c listed other n has
    rw [node] at listed
    rw [object] at has
    exact prior _ p n has c listed other (.inl rfl) (fillable.collections p c listed other n has)
  · intro p c listed other mem n has
    rw [node] at listed
    rw [object] at has
    exact prior _ p n has c listed other (.inr ⟨rfl, mem⟩)
      (fillable.dictionaries p c listed other mem n has)
  · intro p n has c listed arguments name kind
    rw [node] at listed kind
    rw [object] at has
    rw [types n (fillable.placed p n has).2.1]
    exact fillable.apart p n has c listed arguments name kind

/-- Entries that come after their dictionary are put in. -/
theorem put (fillable : s.Fillable before doc rank rest) (new : before.size ≤ n)
    (follows : ∀ entry ∈ entries, Heap.Follows before rank s.heap n entry.2) :
    { s with heap := s.heap.putAll n entries }.Fillable before doc rank rest := by
  obtain ⟨types, properties⟩ := Heap.putAll_leaves s.heap n entries
  refine fillable.change rfl rfl (fillable.ranked.putAll new follows)
    (Nat.le_of_eq types.size.symm) (fun _ _ => rfl) (fun m _ => congrFun types.descriptor m) ?_
  intro kind p m has c listed other awaits under
  exact under.congr (funext types.kind) (properties m)

/-- A property of the object of a node is set to an object that comes after it. -/
theorem set (fillable : s.Fillable before doc rank rest) (has : s.context.object? p = some n)
    (key : String) (follows : Heap.Follows before rank s.heap n (.object m))
    (first : ∀ c ∈ (s.node p).children, doc.isArguments c = false →
      s.heap.kind m = .collection ∨ s.heap.kind m = .dictionary ∧ c ∈ rest →
        rank m < doc.route c) :
    { s with heap := s.heap.set n key (.object m) }.Fillable before doc rank rest := by
  have types := Heap.assigning_sameTypes.set s.heap n key (.object m)
  refine fillable.change rfl rfl (fillable.ranked.set (fillable.placed p n has).1 key follows)
    (Nat.le_of_eq types.size.symm) (fun _ _ => rfl) (fun m _ => congrFun types.descriptor m) ?_
  intro kind q k hasToo c listed other awaits under
  by_cases same : k = n
  · -- An object that is written to belongs to one node only, so these are its siblings.
    subst same
    obtain rfl := fillable.distinct q p k hasToo has
    refine under.set key fun _ is kindOf => ?_
    cases is
    exact first c listed other (kindOf.symm ▸ awaits)
  · exact under.congr (funext types.kind) (Heap.get?_set_of_ne s.heap key _ same)

/-- A new object with nothing in it is given a rank. -/
theorem alloc (fillable : s.Fillable before doc rank rest) (d : TypeDescriptor)
    (same : ∀ m < s.heap.size, rank' m = rank m) :
    { s with heap := (s.heap.alloc (.ofType d)).2 }.Fillable before doc rank' rest := by
  have size := Heap.size_alloc s.heap (.ofType d)
  have object : ∀ m < s.heap.size, (s.heap.alloc (.ofType d)).2.object m = s.heap.object m :=
    fun m inside => Heap.object_alloc_of_lt inside
  refine fillable.change rfl rfl (fillable.ranked.alloc d same) (size ▸ Nat.le_succ _) same
    (fun m inside => congrArg Object.descriptor (object m inside)) ?_
  intro kind q k has c listed other awaits under key m is kindOf
  obtain ⟨new, inside, -⟩ := fillable.placed q k has
  -- What is in the properties of an object was there before the new one.
  have is : s.heap.get? k key = some (.object m) := by
    unfold Heap.get? at is ⊢
    rwa [object k inside] at is
  obtain ⟨-, insideToo, -⟩ := fillable.ranked.held k m new (Heap.holds_of_get? is)
  rw [same m insideToo]
  refine under key m is ?_
  rw [← kindOf]
  exact congrArg (fun o => o.descriptor.kind) (object m insideToo).symm

end Fillable

/-! ## Filling a node -/

/-- The only element of a property element, if it is a dictionary. -/
theorem of_onlyDictionary? (only : s.onlyDictionary? id = some n) :
    ∃ single ∈ (s.node id).children, s.context.object? single = some n ∧
      s.heap.kind n = .dictionary := by
  unfold onlyDictionary? at only
  split at only
  case h_1 single elements =>
    obtain ⟨has, kind⟩ := Option.filter_eq_some_iff.1 only
    have mem : single ∈ s.tree.elements id := by
      rw [elements]
      exact List.mem_singleton_self single
    exact ⟨single, (List.mem_filter.1 mem).1, has, of_decide_eq_true kind⟩
  case h_2 => cases only

/-- The entries of nodes that come after a dictionary come after it. -/
theorem Arranged.follows_entries (arranged : s.Arranged before doc rank) {nodes : List NodeId}
    (later : ∀ c ∈ nodes, rank n < doc.route c) :
    ∀ entry ∈ nodes.filterMap s.entry?, Heap.Follows before rank s.heap n entry.2 := by
  intro entry mem
  obtain ⟨c, listed, is⟩ := List.mem_filterMap.1 mem
  unfold entry? at is
  split at is
  · obtain ⟨value, has, is⟩ := Option.bind_eq_some_iff.1 is
    obtain ⟨key, -, is⟩ := Option.bind_eq_some_iff.1 is
    cases is
    exact arranged.follows has (later c listed)
  · cases is

namespace Fillable

/-- The ranks are kept in a state that differs in nothing that they are about. -/
theorem moved (fillable : s.Fillable before doc rank rest) (tree : t.tree = s.tree)
    (values : t.context.values = s.context.values) (heap : t.heap = s.heap) :
    t.Fillable before doc rank rest :=
  fillable.change tree values (heap ▸ fillable.ranked) (Nat.le_of_eq (heap ▸ rfl))
    (fun _ _ => rfl) (fun _ _ => heap ▸ rfl) fun _ _ _ _ _ _ _ _ under => heap ▸ under

/-- **Filling a property** of the object around a property element. -/
theorem fillsProperty (fillable : s.Fillable before doc rank (id :: rest))
    (ahead : ∀ c ∈ rest, c ∈ (s.node p).children → (id : Nat) < c)
    (listed : id ∈ (s.node p).children) (has : s.context.object? p = some n)
    (other : doc.isArguments id = false) {key : String}
    (fills : s.FillsProperty env id n key t) (tree : t.tree = s.tree)
    (values : t.context.values = s.context.values) :
    ∃ rank', t.Fillable before doc rank' rest := by
  have routed := fillable.routed
  have above := fillable.reached p n has
  have listedToo := fillable.listed listed
  have aboveToo : doc.Reaches (fun _ => false) NodeTree.root id := .child above rfl listedToo
  obtain ⟨-, -, place⟩ := fillable.placed p n has
  have below : ∀ c ∈ (s.node id).children, doc.route id < doc.route c :=
    fun c listed => routed.lt_child aboveToo (fillable.listed listed)
  have elements : ∀ c ∈ s.tree.elements id, doc.route id < doc.route c :=
    fun c mem => below c (List.mem_filter.1 mem).1
  cases fills with
  | @whole d only heap =>
    obtain ⟨single, child, is, kind⟩ := of_onlyDictionary? only
    obtain ⟨newToo, inside, placeToo⟩ := fillable.placed single d is
    have later := List.lt_trans (routed.lt_child above listedToo) (below single child)
    have filled := fillable.tail.set has key (m := d) (fun m mem => ?_)
      fun c sibling plain awaits => ?_
    · exact ⟨rank, filled.moved tree values heap⟩
    · obtain rfl := List.mem_singleton.1 mem
      exact ⟨newToo, inside, place ▸ placeToo ▸ later⟩
    · -- Only what is filled later on has to come after the dictionary.
      rcases awaits with collection | ⟨-, mem⟩
      · exact absurd (kind.symm.trans collection) nofun
      · rw [placeToo]
        exact routed.grandchild_lt_sibling above listedToo (fillable.listed sibling)
          (NodeTree.step_lt_of_lt (ahead c mem sibling) plain) (fillable.listed child)
  | @held d held kind heap =>
    obtain ⟨newToo, -, -⟩ := fillable.ranked.held n d (fillable.placed p n has).1
      (Heap.holds_of_get? held)
    -- However the dictionary has come to the property, it comes before this node.
    have first := fillable.dictionaries p id listed other List.mem_cons_self n has key d held kind
    refine ⟨rank, (fillable.tail.put newToo ?_).moved tree values heap⟩
    exact fillable.follows_entries fun c mem => List.lt_trans first (elements c mem)
  | @made d known heap =>
    -- There is room for the new one behind the arguments of the node and before its children.
    let rank' : ObjectId → List Nat :=
      fun m => if m = s.heap.size then doc.route p ++ [0] else rank m
    have here : rank' s.heap.size = doc.route p ++ [0] := if_pos rfl
    have same : ∀ m < s.heap.size, rank' m = rank m := fun m inside => if_neg (Nat.ne_of_lt inside)
    have room : ∀ c ∈ (s.node p).children, doc.isArguments c = false →
        rank' s.heap.size < doc.route c :=
      fun c sibling plain => here ▸ routed.room_lt_child above (fillable.listed sibling) plain
    obtain ⟨-, insideToo, -⟩ := fillable.placed p n has
    have made := fillable.tail.alloc d same
    have held := made.set has key (m := s.heap.size) (fun m mem => ?_)
      fun c sibling plain _ => room c sibling plain
    · refine ⟨rank', (held.put fillable.ranked.size ?_).moved tree values heap⟩
      exact held.follows_entries fun c mem => List.lt_trans (room id listed other) (elements c mem)
    · obtain rfl := List.mem_singleton.1 mem
      refine ⟨fillable.ranked.size, ?_, ?_⟩
      · rw [Heap.size_alloc]
        exact Nat.lt_succ_self _
      · rw [here, same n insideToo, place]
        exact lt_append_cons _ _ _
  | refused _ heap => exact ⟨rank, fillable.tail.moved tree values heap⟩

/-- **Filling a node** keeps the objects in ranks, if its siblings are filled in their order. -/
theorem fillNode (fillable : s.Fillable before doc rank (id :: rest))
    (reached : s.tree.Reaches (fun _ => false) NodeTree.root id)
    (ahead : ∀ p, id ∈ (s.node p).children → ∀ c ∈ rest, c ∈ (s.node p).children → (id : Nat) < c)
    (ran : (Load.fillNode env id).start s = (.ok (), t)) :
    ∃ rank', t.Fillable before doc rank' rest := by
  obtain ⟨tree, -, values, -⟩ := (Load.settles_fillNode env Heap.filling_retains id).ran ran
  cases Load.ok_of_fillNode ran with
  | idle same => exact ⟨rank, same ▸ fillable.tail⟩
  | @entries n has heap =>
    obtain ⟨new, -, place⟩ := fillable.placed id n has
    refine ⟨rank, (fillable.tail.put new ?_).moved tree values heap⟩
    refine fillable.follows_entries fun c listed => ?_
    rw [place]
    exact fillable.routed.lt_child (fillable.reached id n has) (fillable.listed listed)
  | @property name p n key kind parent has filled fills =>
    obtain ⟨gone, without⟩ := fillable.tree
    have linked : s.tree.Linked := without ▸ fillable.routed.linked.without gone
    have listed : id ∈ (s.node p).children := linked.listed_of_parent reached parent
    -- Arguments fill no property here, so the node is among the children that come later.
    have other : doc.isArguments id = false := by
      refine Bool.eq_false_iff.2 fun arguments => ?_
      rw [fillable.apart p n has id listed arguments name kind] at filled
      cases filled
    exact fillable.fillsProperty (ahead p listed) listed has other fills tree values

/-- **Filling all dictionaries** keeps the objects in ranks. -/
theorem fillResources (fillable : s.Fillable before doc rank (s.loaded env))
    (ran : (Load.fillResources env).start s = (.ok (), t)) :
    t.tree = s.tree ∧ ∃ rank', t.Fillable before doc rank' [] := by
  obtain ⟨gone, without⟩ := fillable.tree
  have proper : s.tree.Proper := without ▸ fillable.routed.proper.without gone
  have ordered : s.tree.Ordered := without ▸ fillable.routed.ordered.without gone
  rw [Load.fillResources, Load.start_get_bind] at ran
  refine Load.forM_along
    (P := fun _ rest u => u.tree = s.tree ∧ ∃ rank', u.Fillable before doc rank' rest)
    (fun done id rest u v walk invariant ran => ?_) ⟨rfl, rank, fillable⟩ ran
  obtain ⟨tree, rank', fillable⟩ := invariant
  have settled := (Load.settles_fillNode env Heap.filling_retains id).ran ran
  refine ⟨settled.tree.trans tree, fillable.fillNode ?_ (fun p listed c mem sibling => ?_) ran⟩
  · have mem : id ∈ s.tree.preorder (s.isTemplate env) := by
      rw [show s.tree.preorder (s.isTemplate env) = _ from walk]
      exact List.mem_append_right _ List.mem_cons_self
    rw [tree]
    exact ((NodeTree.mem_preorder proper).1 mem).all
  · rw [node, tree] at listed sibling
    exact ordered.lt_of_preorder proper walk mem listed sibling

end Fillable

/-- **When all values are there**, what objects hold are arguments, and these come first. -/
theorem Arranged.fillable (arranged : s.Arranged before doc rank) (arguments : s.HoldsArguments doc)
    (apart : ∀ p n, s.context.object? p = some n → ∀ c ∈ (s.node p).children,
      doc.isArguments c = true → ∀ name, (s.node c).kind = .property name →
        (s.heap.descriptor n).filledKey? name = none) (rest : List NodeId) :
    s.Fillable before doc rank rest := by
  have prior : ∀ kind p, ∀ c ∈ (s.node p).children, doc.isArguments c = false →
      s.Prior doc rank kind p c := by
    intro kind p c listed other n has key m is _
    obtain ⟨holder, argument, first, isArguments, below, hasToo⟩ :=
      arguments p n m has (Heap.holds_of_get? is)
    obtain ⟨-, -, place⟩ := arranged.placed argument m hasToo
    rw [place]
    exact arranged.routed.grandchild_lt_sibling (arranged.reached p n has) first
      (arranged.listed listed) (NodeTree.step_lt_of_isArguments isArguments other) below
  exact ⟨arranged, prior _, fun p c listed other _ => prior _ p c listed other, apart⟩

end LoadState

end MarkupLoader
