import MarkupLoader.Proofs.Preparation
import MarkupLoader.Proofs.Routes
import MarkupLoader.Proofs.Subtrees

/-!
# Scopes nest as templates do

Scopes are given out in document order, and the scope for the content of a template is opened when
the first node of the content is met. **Which scope a node gets is told by the nearest template
around it** (`LoadState.enclosing?`): nodes share a scope if they share that template, and the scope
for the content of a template is inside the scope of the template.

* **While scopes are given out** every node that has been met has its scope, and no two templates
  share the scope for their contents (`LoadState.Nesting`).
* A node is met after the node that lists it (`NodeTree.mem_of_listed`), which has its scope by then.

Main results: `Load.start_assignScope_nesting`, `Load.start_assignScopes_nesting`, `scopes_nest`.
-/

namespace MarkupLoader

/-- The nearest template around a node. -/
def LoadState.enclosing? (s : LoadState) (env : Environment) (id : NodeId) : Option NodeId :=
  (s.tree.ancestors id).find? (s.isTemplate env)

namespace NodeTree

variable {t : NodeTree} {skip : NodeId → Bool} {p c : NodeId}

/-- The walk in document order meets a node after the one that lists it. -/
theorem mem_of_listed (proper : t.Proper) {done rest : List NodeId}
    (walk : t.preorder skip = done ++ c :: rest) (above : t.Reaches skip root p)
    (enters : skip p = false) (listed : c ∈ (t.node p).children) : p ∈ done := by
  have nodup : (done ++ c :: rest).Nodup := by
    rw [← walk, (perm_preorder proper.layers skip).nodup_iff]
    exact nodup_postorder proper
  have within : [p, c].Sublist (done ++ c :: rest) := by
    have whole := descend_sublist_of_reaches proper.layers above
    rw [← preorder_eq proper.layers, walk, descend_size proper.layers p, enters] at whole
    refine .trans (.cons_cons p (List.singleton_sublist.2 ?_)) whole
    refine List.mem_flatMap.2 ⟨c, listed, ?_⟩
    rw [descend_size proper.layers c]
    exact List.mem_cons_self
  obtain ⟨-, apart, -⟩ := List.nodup_append.1 nodup
  obtain ⟨first, second, is, before, after⟩ := List.sublist_append_iff.1 within
  cases first with
  | cons head more => exact before.subset (by simp [(List.cons.inj is).1])
  | nil =>
    -- Then the node itself would be met twice.
    obtain rfl : [p, c] = second := is
    rcases List.sublist_cons_iff.1 after with later | ⟨others, same, later⟩
    · exact absurd (later.subset (by simp)) (List.nodup_cons.1 apart).1
    · obtain ⟨-, rfl⟩ := List.cons.inj same
      exact absurd (later.subset (by simp)) (List.nodup_cons.1 apart).1

/-- The walk in document order begins at the outermost element. -/
theorem reachable_eq_cons (proper : t.Proper) : ∃ rest, t.reachable = root :: rest :=
  ⟨_, (preorder_eq proper.layers _).trans (descend_size proper.layers root)⟩

end NodeTree

section Enclosing

variable {s : LoadState} {env : Environment} {p c : NodeId}

theorem LoadState.enclosing?_root (linked : s.tree.Linked) :
    s.enclosing? env NodeTree.root = none := by
  rw [enclosing?, linked.ancestors_root]
  rfl

/-- The nearest template around a child is the node above it, or it is the one around that node. -/
theorem LoadState.enclosing?_child (proper : s.tree.Proper) (linked : s.tree.Linked)
    (above : s.tree.Reaches (fun _ => false) NodeTree.root p)
    (listed : c ∈ (s.tree.node p).children) :
    s.enclosing? env c = if s.isTemplate env p then some p else s.enclosing? env p := by
  rw [enclosing?, linked.ancestors_child proper above listed, List.find?_cons]
  cases s.isTemplate env p <;> rfl

end Enclosing

/-! ## Giving out scopes -/

/-- The scope of the nodes that have a template, or none, nearest around them. -/
def scopeWithin? (opened : Table NodeId ScopeId) : Option NodeId → Option ScopeId
  | none => some 0
  | some template => opened.get? template

/-- Scopes that have been given to some nodes and opened for the contents of some templates. -/
structure LoadState.Nesting (s : LoadState) (env : Environment) (done : List NodeId)
    (opened : Table NodeId ScopeId) : Prop where
  first : 0 < s.context.scopes.size
  outermost : (s.context.scope 0).parent = none
  /-- The scope for the content of a template is inside the scope of the template. -/
  inside : ∀ template scope, opened.get? template = some scope →
    template ∈ done ∧ 0 < scope ∧ scope < s.context.scopes.size ∧
      (s.context.scope scope).parent = s.context.nodeScope? template
  apart : ∀ template other scope, opened.get? template = some scope →
    opened.get? other = some scope → template = other
  given : ∀ id ∈ done, ∃ scope, s.context.nodeScope? id = some scope ∧
    scopeWithin? opened (s.enclosing? env id) = some scope

section Nesting

variable {s : LoadState} {env : Environment} {done : List NodeId} {opened : Table NodeId ScopeId}
  {id p : NodeId} {scope : ScopeId}

/-- Another node is given the scope for the nearest template around it. -/
theorem LoadState.Nesting.give (nesting : s.Nesting env done opened) (new : id ∉ done)
    (is : scopeWithin? opened (s.enclosing? env id) = some scope) :
    (s.withScopes s.context.scopes (s.context.nodeScopes.insert id scope)).Nesting env (done ++ [id])
      opened := by
  have old : ∀ other ∈ done, (s.context.setNodeScope id scope).nodeScope? other =
      s.context.nodeScope? other := fun other mem =>
    (s.context.nodeScope?_setNodeScope id other scope).trans
      (if_neg fun same : other = id => new (same ▸ mem))
  refine ⟨nesting.first, nesting.outermost, fun template scope' has => ?_, nesting.apart,
    fun other mem => ?_⟩
  · obtain ⟨mem, positive, bound, parent⟩ := nesting.inside template scope' has
    exact ⟨List.mem_append_left _ mem, positive, bound, parent.trans (old template mem).symm⟩
  · rcases List.mem_append.1 mem with mem | mem
    · obtain ⟨scope', has, within⟩ := nesting.given other mem
      exact ⟨scope', (old other mem).trans has, within⟩
    · obtain rfl := List.mem_singleton.1 mem
      exact ⟨scope, (s.context.nodeScope?_setNodeScope other other scope).trans (if_pos rfl), is⟩

/-- A scope is opened for the content of a template that has none. -/
theorem LoadState.Nesting.open (nesting : s.Nesting env done opened) (mem : p ∈ done)
    (new : opened.get? p = none) {around : ScopeId}
    (has : s.context.nodeScope? p = some around) :
    (s.withScopes (s.context.scopes.push ⟨some around, .empty⟩) s.context.nodeScopes).Nesting env
      done (opened.insert p s.context.scopes.size) := by
  -- The scopes that there are stay, and the new one comes after them.
  have old : ∀ scope, scope < s.context.scopes.size →
      (s.context.newScope (some around)).2.scope scope = s.context.scope scope := by
    intro scope bound
    simp [Context.newScope, Context.scope, Array.getElem?_push, Nat.ne_of_lt bound]
  have newest : (s.context.newScope (some around)).2.scope s.context.scopes.size =
      ⟨some around, .empty⟩ := by
    simp [Context.newScope, Context.scope]
  have size : (s.context.scopes.push (⟨some around, .empty⟩ : NameScope)).size =
      s.context.scopes.size + 1 := Array.size_push _
  have kept : ∀ {other scope}, opened.get? other = some scope →
      (opened.insert p s.context.scopes.size).get? other = some scope := by
    intro other scope there
    rw [Table.get?_insert_of_ne _ _ ?_, there]
    rintro rfl
    exact Option.some_ne_none _ (there.symm.trans new)
  refine ⟨Nat.lt_of_lt_of_eq (Nat.succ_pos _) size.symm,
    (congrArg NameScope.parent (old 0 nesting.first)).trans nesting.outermost,
    fun template scope there => ?_, fun template other scope there there' => ?_,
    fun other mem => ?_⟩
  · rcases Table.get?_insert there with ⟨rfl, rfl⟩ | before
    · exact ⟨mem, nesting.first, Nat.lt_of_lt_of_eq (Nat.lt_succ_self _) size.symm,
        (congrArg NameScope.parent newest).trans has.symm⟩
    · obtain ⟨mem', positive, bound, parent⟩ := nesting.inside template scope before
      exact ⟨mem', positive, Nat.lt_of_lt_of_eq (Nat.lt_succ_of_lt bound) size.symm,
        (congrArg NameScope.parent (old scope bound)).trans parent⟩
  · have bound : ∀ {n}, opened.get? n = some s.context.scopes.size → False := fun there =>
      Nat.lt_irrefl _ (nesting.inside _ _ there).2.2.1
    rcases Table.get?_insert there with ⟨rfl, rfl⟩ | before
    · rcases Table.get?_insert there' with ⟨rfl, -⟩ | before'
      · rfl
      · exact (bound before').elim
    · rcases Table.get?_insert there' with ⟨rfl, rfl⟩ | before'
      · exact (bound before).elim
      · exact nesting.apart template other scope before before'
  · obtain ⟨scope, has', within⟩ := nesting.given other mem
    refine ⟨scope, has', ?_⟩
    show scopeWithin? _ (s.enclosing? env other) = some scope
    cases template : s.enclosing? env other with
    | none =>
      rw [template] at within
      exact within
    | some template' =>
      rw [template] at within
      exact kept within

end Nesting

namespace Load

variable {s : LoadState} {env : Environment} {done : List NodeId} {opened : Table NodeId ScopeId}
  {id p : NodeId}

/-- The scope for the content of a template is found or opened. -/
theorem start_contentScope_nesting (nesting : s.Nesting env done opened) (mem : p ∈ done)
    {around : ScopeId} (has : s.context.nodeScope? p = some around) :
    ∃ scope opened' scopes, (contentScope opened p around).start s =
        (.ok (scope, opened'), s.withScopes scopes s.context.nodeScopes) ∧
      opened'.get? p = some scope ∧
      (s.withScopes scopes s.context.nodeScopes).Nesting env done opened' := by
  unfold contentScope
  cases there : opened.get? p with
  | some scope => exact ⟨scope, opened, s.context.scopes, rfl, there, nesting⟩
  | none => exact ⟨_, _, _, rfl, Table.get?_insert_self _ _ _, nesting.open mem there has⟩

/-- A step of the walk gives the node that is met its scope. -/
theorem start_assignScope_nesting (proper : s.tree.Proper) (linked : s.tree.Linked)
    (nesting : s.Nesting env done opened)
    (above : s.tree.Reaches (fun _ => false) NodeTree.root p)
    (listed : id ∈ (s.tree.node p).children) (mem : p ∈ done) (new : id ∉ done) :
    ∃ opened' scopes nodeScopes, (assignScope env 0 opened id).start s =
        (.ok opened', s.withScopes scopes nodeScopes) ∧
      (s.withScopes scopes nodeScopes).Nesting env (done ++ [id]) opened' := by
  have parent : (s.node id).parent = some p := linked.child p id above listed
  have enclosing : s.enclosing? env id = if s.isTemplate env p then some p else s.enclosing? env p :=
    s.enclosing?_child proper linked above listed
  obtain ⟨around, has, within⟩ := nesting.given p mem
  rw [assignScope, start_get_bind, parent]
  simp only [has, Option.getD_some]
  cases template : s.isTemplate env p with
  | true =>
    rw [template] at enclosing
    obtain ⟨scope, opened', scopes, run, is, nesting'⟩ :=
      start_contentScope_nesting nesting mem has
    refine ⟨opened', scopes, s.context.nodeScopes.insert id scope,
      (start_bind_of_ok run).trans rfl, nesting'.give new ?_⟩
    show scopeWithin? _ (s.enclosing? env id) = some scope
    rw [enclosing]
    exact is
  | false =>
    rw [template] at enclosing
    refine ⟨opened, s.context.scopes, s.context.nodeScopes.insert id around, rfl, nesting.give new ?_⟩
    rw [enclosing]
    exact within

/-- The walk gives every node its scope, from the outermost element on, which has its own. -/
theorem start_foldlM_nesting {rest : List NodeId} (proper : s.tree.Proper) (linked : s.tree.Linked)
    (nesting : s.Nesting env [NodeTree.root] .empty)
    (walk : s.tree.reachable = NodeTree.root :: rest) :
    ∃ opened scopes nodeScopes, (rest.foldlM (assignScope env 0) .empty).start s =
        (.ok opened, s.withScopes scopes nodeScopes) ∧
      (s.withScopes scopes nodeScopes).Nesting env (NodeTree.root :: rest) opened := by
  obtain ⟨opened, _, run, ⟨scopes, nodeScopes, rfl⟩, nesting⟩ :
      ∃ opened t, (rest.foldlM (assignScope env 0) .empty).start s = (.ok opened, t) ∧
        (∃ scopes nodeScopes, t = s.withScopes scopes nodeScopes) ∧
        t.Nesting env (NodeTree.root :: rest) opened := by
    refine foldlM_along (P := fun done opened t => (∃ scopes nodeScopes,
      t = s.withScopes scopes nodeScopes) ∧ t.Nesting env (NodeTree.root :: done) opened)
      (fun done id later opened t split both => ?_) ⟨⟨_, _, rfl⟩, nesting⟩
    obtain ⟨⟨scopes, nodeScopes, rfl⟩, nesting⟩ := both
    have walk : s.tree.reachable = NodeTree.root :: done ++ id :: later :=
      walk.trans (congrArg _ split)
    have reached : id ∈ s.tree.reachable := walk ▸ List.mem_append_right _ List.mem_cons_self
    have new : id ∉ NodeTree.root :: done := by
      intro mem
      have nodup : (NodeTree.root :: done ++ id :: later).Nodup := by
        rw [← walk, NodeTree.reachable, (NodeTree.perm_preorder proper.layers _).nodup_iff]
        exact NodeTree.nodup_postorder proper
      exact (List.nodup_append.1 nodup).2.2 id mem id List.mem_cons_self rfl
    cases (NodeTree.mem_preorder proper).1 reached with
    | top => exact absurd List.mem_cons_self new
    | child above enters listed =>
      have mem := NodeTree.mem_of_listed proper walk above enters listed
      obtain ⟨opened', scopes', nodeScopes', run, nesting'⟩ := start_assignScope_nesting
        (s := s.withScopes scopes nodeScopes) proper linked nesting above listed mem new
      exact ⟨opened', _, run, ⟨scopes', nodeScopes', rfl⟩, nesting'⟩
  exact ⟨opened, scopes, nodeScopes, run, nesting⟩

/-- Scoping gives every node the scope for the nearest template around it. -/
theorem start_assignScopes_nesting (env : Environment) (proper : s.tree.Proper)
    (linked : s.tree.Linked) (fresh : s.context.scopes = #[])
    (bare : s.context.nodeScopes = .empty) :
    ∃ opened scopes nodeScopes, (assignScopes env).start s =
        (.ok (), s.withScopes scopes nodeScopes) ∧
      (s.withScopes scopes nodeScopes).Nesting env s.tree.reachable opened := by
  let first := s.withScopes #[⟨none, .empty⟩] (Table.empty.insert NodeTree.root 0)
  have start : first.Nesting env [NodeTree.root] .empty := by
    refine ⟨Nat.zero_lt_one, rfl, nofun, nofun, fun id mem => ⟨0, ?_, ?_⟩⟩
    · rw [List.mem_singleton.1 mem]
      exact Table.get?_insert_self _ _ _
    · rw [List.mem_singleton.1 mem, first.enclosing?_root linked]
      rfl
  obtain ⟨rest, walk⟩ := NodeTree.reachable_eq_cons proper
  obtain ⟨opened, scopes, nodeScopes, run, nesting⟩ :=
    start_foldlM_nesting (s := first) proper linked start walk
  refine ⟨opened, scopes, nodeScopes, ?_, ?_⟩
  · -- The outermost element has nothing above it, so the walk passes over it.
    have top : (assignScope env 0 Table.empty NodeTree.root).start first = (.ok .empty, first) := by
      have none_above : (first.node NodeTree.root).parent = none := linked.root
      rw [assignScope, start_get_bind, none_above]
      rfl
    have whole : ((NodeTree.root :: rest).foldlM (assignScope env 0) Table.empty).start first =
        (.ok opened, first.withScopes scopes nodeScopes) := by
      rw [List.foldlM_cons, start_bind_of_ok top]
      exact run
    rw [start_assignScopes_foldlM env fresh bare, walk, start_bind_of_ok whole]
    rfl
  · rw [walk]
    exact nesting

end Load

/-! ## What scopes tell -/

section Scopes

variable {s : LoadState} {env : Environment} {done : List NodeId} {opened : Table NodeId ScopeId}
  {a b : NodeId}

/-- Two nodes share a scope if they share the nearest template around them, or have none. -/
theorem LoadState.Nesting.nodeScope?_eq_iff (nesting : s.Nesting env done opened) (mem : a ∈ done)
    (mem' : b ∈ done) :
    s.context.nodeScope? a = s.context.nodeScope? b ↔ s.enclosing? env a = s.enclosing? env b := by
  obtain ⟨scope, has, within⟩ := nesting.given a mem
  obtain ⟨scope', has', within'⟩ := nesting.given b mem'
  rw [has, has']
  constructor
  case mpr =>
    intro same
    rw [← within, ← within', same]
  case mp =>
    intro same
    obtain rfl := Option.some.inj same
    -- The first scope is for no template, and no two templates share one.
    cases around : s.enclosing? env a with
    | none =>
      cases around' : s.enclosing? env b with
      | none => rfl
      | some other =>
        rw [around] at within
        rw [around'] at within'
        obtain rfl := Option.some.inj within
        exact absurd (nesting.inside other 0 within').2.1 (Nat.lt_irrefl 0)
    | some template =>
      rw [around] at within
      cases around' : s.enclosing? env b with
      | none =>
        rw [around'] at within'
        obtain rfl := Option.some.inj within'
        exact absurd (nesting.inside template 0 within).2.1 (Nat.lt_irrefl 0)
      | some other =>
        rw [around'] at within'
        rw [nesting.apart template other scope within within']

end Scopes

/--
**Scopes nest as templates do.** After scopes have been given out in a document whose parents are
linked, every node has one. Two nodes share it if and only if they have the same template nearest
around them or both have none. With none it is the first scope, which is inside no other; with one it
is inside the scope that the template itself has.
-/
theorem scopes_nest {t : NodeTree} (obtained : t.Obtained) (env : Environment)
    (rootInstance rootElement : Option ObjectId) (tolerant : Bool) (outer : List ObjectId)
    (heap : Heap) :
    let s := LoadState.initial t.linkParents rootInstance (.start rootElement tolerant outer) heap
    ∃ after, (Load.assignScopes env).start s = (.ok (), after) ∧ after.tree = t.linkParents ∧
      (∀ id ∈ after.tree.reachable, ∃ scope, after.context.nodeScope? id = some scope ∧
        scope < after.context.scopes.size) ∧
      (∀ a ∈ after.tree.reachable, ∀ b ∈ after.tree.reachable,
        after.context.nodeScope? a = after.context.nodeScope? b ↔
          after.enclosing? env a = after.enclosing? env b) ∧
      (∀ id ∈ after.tree.reachable, after.enclosing? env id = none →
        ∃ scope, after.context.nodeScope? id = some scope ∧
          after.context.rootScope? = some scope ∧ (after.context.scope scope).parent = none) ∧
      ∀ id ∈ after.tree.reachable, ∀ template, after.enclosing? env id = some template →
        ∃ scope around, after.context.nodeScope? id = some scope ∧
          after.context.nodeScope? template = some around ∧
          (after.context.scope scope).parent = some around := by
  intro s
  have proper : s.tree.Proper := obtained.linked.reached.1
  have linked : s.tree.Linked := NodeTree.linked_linkParents obtained.reached.1
  obtain ⟨opened, scopes, nodeScopes, run, nesting⟩ :=
    Load.start_assignScopes_nesting env proper linked rfl rfl
  refine ⟨_, run, rfl, fun id mem => ?_, fun a mem b mem' => nesting.nodeScope?_eq_iff mem mem',
    fun id mem none_around => ?_, fun id mem template around => ?_⟩
  · obtain ⟨scope, has, within⟩ := nesting.given id mem
    refine ⟨scope, has, ?_⟩
    cases around : (s.withScopes scopes nodeScopes).enclosing? env id with
    | none =>
      rw [around] at within
      exact Option.some.inj within ▸ nesting.first
    | some template =>
      rw [around] at within
      exact (nesting.inside template scope within).2.2.1
  · obtain ⟨scope, has, within⟩ := nesting.given id mem
    rw [none_around] at within
    obtain rfl := Option.some.inj within
    refine ⟨0, has, if_neg fun empty => ?_, nesting.outermost⟩
    exact absurd nesting.first (by simp [Array.isEmpty_iff.1 empty])
  · obtain ⟨scope, has, within⟩ := nesting.given id mem
    rw [around] at within
    obtain ⟨mem', -, -, parent⟩ := nesting.inside template scope within
    obtain ⟨outside, has', -⟩ := nesting.given template mem'
    exact ⟨scope, outside, has, has', parent.trans has'⟩

/-- A template in a template, with a property element in between. -/
theorem scopes_nest_twice :
    let text := "<StackLayout xmlns=\"http://xamarin.com/schemas/2014/forms\"><DataTemplate>" ++
      "<StackLayout><StackLayout.Children><DataTemplate><Label/></DataTemplate>" ++
      "</StackLayout.Children></StackLayout></DataTemplate></StackLayout>"
    let env : Environment := ⟨.controls, .builtIn⟩
    ∃ t, NodeTree.read text = .ok t ∧
      let s := LoadState.initial t.linkParents none (.start none false []) .empty
      s.tree.reachable = [0, 1, 2, 3, 4, 5] ∧
      [0, 1, 2, 3, 4, 5].map (s.enclosing? env) = [none, none, some 1, some 1, some 1, some 4] ∧
      ∃ after, (Load.assignScopes env).start s = (.ok (), after) ∧
        after.context.nodeScope? 1 = after.context.rootScope? ∧
        after.context.nodeScope? 4 = after.context.nodeScope? 2 ∧
        after.context.nodeScope? 5 ≠ after.context.nodeScope? 4 ∧
        ∃ scope, after.context.nodeScope? 5 = some scope ∧
          (after.context.scope scope).parent = after.context.nodeScope? 4 := by
  intro text env
  let forms (localName : String) : QName := ⟨formsNamespace, localName⟩
  let element (name : QName) (column : Nat) (children : List NodeId) : Node :=
    ⟨⟨.element, name, [], [], [], ⟨1, column⟩⟩, children, none⟩
  let children := forms "StackLayout.Children"
  let t : NodeTree := ⟨#[
    ⟨⟨.root, forms "StackLayout", [], [], [("", formsNamespace)], ⟨1, 1⟩⟩, [1], none⟩,
    element (forms "DataTemplate") 60 [2], element (forms "StackLayout") 74 [3],
    ⟨⟨.property children, children, [], [], [], ⟨1, 87⟩⟩, [4], none⟩,
    element (forms "DataTemplate") 109 [5], element (forms "Label") 123 []], []⟩
  have read : NodeTree.read text = .ok t := NodeTree.read_of_toOption (by decide +kernel)
  refine ⟨t, read, ?_⟩
  intro s
  obtain ⟨reached, around⟩ : s.tree.reachable = [0, 1, 2, 3, 4, 5] ∧
      [0, 1, 2, 3, 4, 5].map (s.enclosing? env) =
        [none, none, some 1, some 1, some 1, some 4] := by
    decide +kernel
  clear_value t
  obtain ⟨after, run, tree, -, share, outside, within⟩ :=
    scopes_nest (.read read) env none none false [] .empty
  have met : ∀ id ∈ [0, 1, 2, 3, 4, 5], id ∈ after.tree.reachable := fun id mem => by
    rw [tree]
    exact reached ▸ mem
  have same : ∀ id, after.enclosing? env id = s.enclosing? env id := fun id => by
    unfold LoadState.enclosing? LoadState.isTemplate LoadState.node
    rw [tree]
    rfl
  have each := around
  simp only [List.map_cons, List.cons.injEq] at each
  obtain ⟨-, one, two, -, four, five, -⟩ := each
  refine ⟨reached, around, after, run, ?_, ?_, ?_, ?_⟩
  · obtain ⟨scope, has, is, -⟩ := outside 1 (met 1 (by decide)) ((same 1).trans one)
    exact has.trans is.symm
  · refine (share 4 (met 4 (by decide)) 2 (met 2 (by decide))).2 ?_
    rw [same, same, four, two]
  · intro equal
    have equal := (share 5 (met 5 (by decide)) 4 (met 4 (by decide))).1 equal
    rw [same, same, five, four] at equal
    cases equal
  · obtain ⟨scope, around, has, has', parent⟩ :=
      within 5 (met 5 (by decide)) 4 ((same 5).trans five)
    exact ⟨scope, has, parent.trans has'.symm⟩

end MarkupLoader
