import MarkupLoader.Proofs.Abreast
import MarkupLoader.Proofs.Course

/-!
# The first passes of loads side by side

Loads that go abreast (`LoadState.Abreast`) come to the values of their nodes together.

* **Before name scopes are given** the documents are linked, expanded and pruned alike
  (`LoadState.Paired`).
* **From then on** all nodes that are loaded share the first name scope, which has the same names
  on both sides (`LoadState.Level`).
* **The node more** makes no object, so all objects get the same places.

Main results: `together_prepare`, `together_populate`.
-/

namespace MarkupLoader

open NodeTree (moved)

/-! ## Before the creation of values -/

namespace LoadState

/-- Loads abreast whose documents are linked, and that have no name scopes yet. -/
structure Paired (env : Environment) (x p : NodeId) (a b : LoadState) : Prop
    extends Abreast env x p a b where
  tied : a.tree.Tied
  tied' : b.tree.Tied
  unscoped : a.context.scopes = #[] ∧ a.context.nodeScopes = .empty
  unscoped' : b.context.scopes = #[] ∧ b.context.nodeScopes = .empty

variable {env : Environment} {x p i : NodeId} {a b : LoadState}

/-- Trees to which the same is done. -/
theorem Paired.withTrees (both : Paired env x p a b) {t u : NodeTree} {gone gone' : List NodeId}
    (left : a.tree.Touches t gone) (right : b.tree.Touches u gone')
    (parents : ∀ i, (t.node i).parent = (a.tree.node i).parent)
    (parents' : ∀ i, (u.node i).parent = (b.tree.node i).parent) (proper : t.Proper)
    (proper' : u.Proper) (splices : t.Splices u x p) :
    Paired env x p (a.withTree t) (b.withTree u) :=
  { both with
    tree := splices
    proper := proper
    proper' := proper'
    links := both.links.congr parents parents'
    apart := both.apart.of_touches left right
    tied := both.tied.of_touches left parents
    tied' := both.tied'.of_touches right parents' }

end LoadState

theorem loose_paired (env : Environment) (x p : NodeId) : Loose (LoadState.Paired env x p) where
  tolerant both := both.tolerant
  akin both := both.heap
  record both _ _ := { both with }
  heap both akin := { both with heap := akin }
  completed both pass := { both with passes := congrArg (· ++ [pass]) both.passes }

namespace Load

variable {env : Environment} {x p i : NodeId} {a b : LoadState}

/-- Linking the documents. -/
theorem paired_linkParents (both : LoadState.Abreast env x p a b) (laid : a.tree.Laid)
    (laid' : b.tree.Laid) (unscoped : a.context.scopes = #[] ∧ a.context.nodeScopes = .empty)
    (unscoped' : b.context.scopes = #[] ∧ b.context.nodeScopes = .empty) :
    LoadState.Paired env x p (a.withTree a.tree.linkParents) (b.withTree b.tree.linkParents) :=
  { both with
    tree := both.tree.linkParents both.proper both.proper'
    proper := both.proper.linkParents
    proper' := both.proper'.linkParents
    links := both.tree.links laid laid'
    apart := both.apart.of_touches both.proper.touches_linkParents both.proper'.touches_linkParents
    tied := laid.tied_linkParents
    tied' := laid'.tied_linkParents
    unscoped := unscoped
    unscoped' := unscoped' }

/-! ## Expanding -/

section Expanding

variable (both : LoadState.Paired env x p a b)

include both

theorem paired_setAttributes (i : NodeId) {as bs : List Attribute}
    (same : bs.map (·.unplaced) = as.map (·.unplaced)) :
    LoadState.Paired env x p (a.withTree (a.tree.setAttributes i as))
      (b.withTree (b.tree.setAttributes (moved x i) bs)) := by
  have left := NodeTree.touches_setAttributes a.tree i as
  have right := NodeTree.touches_setAttributes b.tree (moved x i) bs
  refine both.withTrees left right (fun j => ?_) (fun j => ?_) ?_ ?_
    (both.tree.setAttributes i same)
  · rw [NodeTree.node_setAttributes]
  · rw [NodeTree.node_setAttributes]
  · exact both.proper.of_children left.size fun j => by rw [NodeTree.node_setAttributes]
  · exact both.proper'.of_children right.size fun j => by rw [NodeTree.node_setAttributes]

/-- An attribute is expanded alike on both sides. -/
theorem kindred_expandAttribute (i : NodeId) {c d : Attribute} (same : d.unplaced = c.unplaced) :
    Kindred (fun c d => d.unplaced = c.unplaced) (a.tree.expandAttribute env.extensions i c)
      (b.tree.expandAttribute env.extensions (moved x i) d) := by
  have lookUp := both.tree.lookUpNamespace (both.links.ancestors i)
  rw [NodeTree.expandAttribute_congr both.tree.ignorable lookUp]
  obtain ⟨name, value, position⟩ := c
  obtain ⟨name', value', position'⟩ := d
  obtain ⟨rfl, rfl⟩ : name' = name ∧ value' = value := ⟨congrArg (·.name) same, congrArg (·.value) same⟩
  unfold NodeTree.expandAttribute
  dsimp only
  split
  · exact .ok rfl
  · exact .ok rfl
  · split
    · exact .ok rfl
    · split
      · exact .ok rfl
      · split
        · exact .ok rfl
        · exact .error rfl

theorem together_expandAttributes (i : NodeId) {done done' rest rest' : List Attribute}
    (before : done'.map (·.unplaced) = done.map (·.unplaced))
    (after : rest'.map (·.unplaced) = rest.map (·.unplaced)) :
    TogetherDone (LoadState.Paired env x p) ((expandAttributes env i done rest).start a)
      ((expandAttributes env (moved x i) done' rest').start b) := by
  induction rest generalizing rest' done done' a b with
  | nil =>
    obtain rfl : rest' = [] := List.map_eq_nil_iff.1 after
    exact together_done (paired_setAttributes both i before)
  | cons c rest ih =>
    cases rest' with
    | nil => cases after
    | cons d rest' =>
      rw [List.map_cons, List.map_cons] at after
      obtain ⟨here, later⟩ := List.cons.inj after
      have expanded := kindred_expandAttribute both i here
      unfold expandAttributes
      rw [start_get_bind, start_get_bind]
      generalize a.tree.expandAttribute env.extensions i c = first at expanded
      generalize b.tree.expandAttribute env.extensions (moved x i) d = second at expanded
      cases expanded with
      | ok same => exact ih both (by rw [List.map_append, List.map_append, before]; simp [same]) later
      | error kind =>
        have set := paired_setAttributes both i
          (show List.map (·.unplaced) (done' ++ d :: rest') = List.map (·.unplaced) (done ++ c :: rest) by
            simp [before, here, later])
        refine Together.bind (together_done set) fun _ _ _ _ _ both _ => ?_
        refine Together.bind (together_recover (loose_paired env x p) both kind) ?_
        exact fun _ _ _ _ _ both _ => ih both before later

theorem together_expandMarkup : TogetherDone (LoadState.Paired env x p)
    ((expandMarkup env).start a) ((expandMarkup env).start b) := by
  have lists := both.tree.preorder both.proper both.proper' both.tree.isIgnorableNode
    both.tree.ignored_enters
  unfold expandMarkup
  rw [start_get_bind, start_get_bind]
  refine together_forM lists (S := fun _ => True) (fun _ _ _ _ => trivial)
    (fun i _ a b both _ => ?_) (fun _ a b both _ => ?_) both trivial
  · unfold expandNode
    rw [start_get_bind, start_get_bind, both.tree.isIgnorableNode]
    split
    · exact together_done both
    · exact together_expandAttributes both i rfl (NodeBody.attributes_of_bare (both.tree.body i))
  · -- The new node has no attributes.
    have none : (b.tree.node x).attributes = [] := both.tree.attributes
    have same : b.tree.setAttributes x [] = b.tree := by
      refine NodeTree.eq_of_node (NodeTree.touches_setAttributes b.tree x []).size rfl fun j => ?_
      rw [NodeTree.node_setAttributes]
      by_cases here : j = x
      · subst here
        rw [none, ite_self]
        generalize b.tree.node j = n at none
        obtain ⟨⟨_, _, _, _, _, _⟩, _, _⟩ := n
        cases none
        rfl
      · rw [if_neg fun h => here h.1]
    unfold expandNode
    rw [start_get_bind]
    split
    · rfl
    · show (expandAttributes env x [] (b.tree.node x).attributes).start b = _
      rw [none]
      show (Except.ok (), b.withTree (b.tree.setAttributes x [])) = _
      rw [same]
      rfl

end Expanding

/-! ## Pruning -/

theorem paired_prune (both : LoadState.Paired env x p a b) :
    LoadState.Paired env x p (a.withTree a.tree.prune) (b.withTree b.tree.prune) := by
  have linked := both.tied.linked
  have linked' := both.tied'.linked
  refine both.withTrees (both.proper.touches_prune linked) (both.proper'.touches_prune linked')
    (fun i => ?_) (fun i => ?_) (NodeTree.proper_prune both.proper linked)
    (NodeTree.proper_prune both.proper' linked')
    (both.tree.prune both.proper both.proper' linked linked')
  · rw [NodeTree.node_prune_of_linked both.proper linked, NodeTree.node_without]
  · rw [NodeTree.node_prune_of_linked both.proper' linked', NodeTree.node_without]

end Load

/-! ## One scope -/

/-- All nodes that are loaded share the first scope, which is outermost. -/
structure LoadState.InFirst (s : LoadState) (env : Environment) : Prop where
  opened : 0 < s.context.scopes.size
  outermost : (s.context.scope 0).parent = none
  nodes : ∀ id, s.tree.Reaches (s.isTemplate env) NodeTree.root id →
    s.context.nodeScope? id = some 0

namespace LoadState

/-- Loads abreast that have the same names. -/
structure Level (env : Environment) (x p : NodeId) (a b : LoadState) : Prop
    extends Abreast env x p a b where
  tied : a.tree.Tied
  tied' : b.tree.Tied
  inFirst : a.InFirst env
  inFirst' : b.InFirst env
  names : (b.context.scope 0).names = (a.context.scope 0).names

variable {env : Environment} {x p i : NodeId} {s a b : LoadState}

theorem InFirst.named? (inFirst : s.InFirst env)
    (loaded : s.tree.Reaches (s.isTemplate env) NodeTree.root i) (name : String) :
    (s.site env i).named? name = (s.context.scope 0).names.get? name := by
  have scope : (s.site env i).scope? = some 0 := by
    show (i :: s.tree.ancestors i).findSome? s.context.nodeScope? = some 0
    rw [List.findSome?_cons, inFirst.nodes i loaded]
  rw [Site.named?, scope, Option.bind_some]
  exact Context.findName_outermost inFirst.opened inFirst.outermost name

/-- A state with the same document and scopes. -/
def SameScopes (s t : LoadState) : Prop :=
  t.tree = s.tree ∧ t.context.scopes = s.context.scopes ∧
    t.context.nodeScopes = s.context.nodeScopes

theorem InFirst.congr {t : LoadState} (inFirst : s.InFirst env) (same : s.SameScopes t) :
    t.InFirst env := by
  obtain ⟨tree, scopes, nodeScopes⟩ := same
  have scope : t.context.scope 0 = s.context.scope 0 := by
    unfold Context.scope
    rw [scopes]
  refine ⟨scopes ▸ inFirst.opened, scope ▸ inFirst.outermost, fun id loaded => ?_⟩
  unfold isTemplate node Context.nodeScope? at *
  rw [nodeScopes]
  rw [tree] at loaded
  exact inFirst.nodes id loaded

theorem InFirst.withName (inFirst : s.InFirst env) (name : String) (value : Value) :
    (s.withName 0 name value).InFirst env where
  opened := Nat.lt_of_lt_of_eq inFirst.opened Array.size_modify.symm
  outermost := by
    rw [s.scope_withName, if_pos ⟨rfl, inFirst.opened⟩]
    exact inFirst.outermost
  nodes := inFirst.nodes

theorem InFirst.without (inFirst : s.InFirst env) (gone : List NodeId) :
    (s.withTree (s.tree.without gone)).InFirst env where
  opened := inFirst.opened
  outermost := inFirst.outermost
  nodes id loaded := by
    refine inFirst.nodes id ?_
    have same : (s.withTree (s.tree.without gone)).isTemplate env = s.isTemplate env := by
      funext n
      unfold isTemplate node withTree
      dsimp only
      rw [NodeTree.node_without]
    rw [same] at loaded
    exact loaded.of_without

namespace Level

/-- Loads abreast with the same documents and scopes. -/
theorem congr {a' b' : LoadState} (both : Level env x p a b) (abreast : Abreast env x p a' b')
    (left : a.SameScopes a') (right : b.SameScopes b') : Level env x p a' b' where
  toAbreast := abreast
  tied := left.1 ▸ both.tied
  tied' := right.1 ▸ both.tied'
  inFirst := both.inFirst.congr left
  inFirst' := both.inFirst'.congr right
  names := by
    unfold Context.scope
    rw [left.2.1, right.2.1]
    exact both.names

/-- A node that makes an object is left out on both sides. -/
theorem detach (both : Level env x p a b) (object : (a.node i).isObject = true) :
    Level env x p { a with tree := a.tree.detach i } { b with tree := b.tree.detach (moved x i) } := by
  have left := NodeTree.touches_without a.tree [i]
  have right := NodeTree.touches_without b.tree [moved x i]
  have parents : ∀ (t : NodeTree) gone n, ((t.without gone).node n).parent = (t.node n).parent :=
    fun t gone n => by rw [NodeTree.node_without]
  have no_text : ∀ n ∈ [i], ∀ content, (a.tree.node n).kind ≠ .text content := by
    intro n mem content is
    rw [List.mem_singleton.1 mem] at is
    rw [LoadState.node, NodeBody.isObject, is] at object
    cases object
  have splices : (a.tree.without [i]).Splices (b.tree.without [moved x i]) x p :=
    both.tree.without (fun n => by simp [(NodeTree.moved_injective x).eq_iff])
      (by simpa using (NodeTree.moved_ne x i).symm) no_text
  rw [both.tied.detach, both.tied'.detach]
  exact { both with
    tree := splices
    proper := both.proper.without _
    proper' := both.proper'.without _
    links := both.links.congr (parents _ _) (parents _ _)
    apart := both.apart.of_touches left right
    tied := both.tied.of_touches left (parents _ _)
    tied' := both.tied'.of_touches right (parents _ _)
    inFirst := both.inFirst.without _
    inFirst' := both.inFirst'.without _ }

theorem isTemplate (both : Level env x p a b) (i : NodeId) :
    b.isTemplate env (moved x i) = a.isTemplate env i :=
  both.tree.isTemplate env i

/-- The new node makes no template, where it is listed. -/
theorem enters (both : Level env x p a b) (listed : x ∈ (b.tree.node (moved x p)).children)
    (template : b.isTemplate env x = true) : (b.tree.node x).children = [] := by
  have none := both.tree.isObject_spliced listed
  rw [LoadState.isTemplate, LoadState.node, Environment.isTemplate, none] at template
  cases template

theorem loaded (both : Level env x p a b) :
    (b.loaded env).filter (· ≠ x) = (a.loaded env).map (moved x) :=
  both.tree.preorder both.proper both.proper' both.isTemplate fun _ => both.enters

theorem loadedUpwards (both : Level env x p a b) :
    (b.loadedUpwards env).filter (· ≠ x) = (a.loadedUpwards env).map (moved x) :=
  both.tree.postorder both.proper both.proper' both.isTemplate fun _ => both.enters

theorem reaches_iff (both : Level env x p a b) (i : NodeId) :
    b.tree.Reaches (b.isTemplate env) NodeTree.root (moved x i) ↔
      a.tree.Reaches (a.isTemplate env) NodeTree.root i :=
  both.tree.reaches_iff both.proper both.proper' both.isTemplate (fun _ => both.enters) i

end Level

end LoadState

theorem making_level (env : Environment) (x p : NodeId) :
    Making env x p (LoadState.Level env x p) where
  tolerant both := both.tolerant
  akin both := both.heap
  record both d d' := both.congr ((making_abreast env x p).record both.toAbreast d d')
    ⟨rfl, rfl, rfl⟩ ⟨rfl, rfl, rfl⟩
  heap both akin := both.congr ((making_abreast env x p).heap both.toAbreast akin)
    ⟨rfl, rfl, rfl⟩ ⟨rfl, rfl, rfl⟩
  completed both pass := both.congr ((making_abreast env x p).completed both.toAbreast pass)
    ⟨rfl, rfl, rfl⟩ ⟨rfl, rfl, rfl⟩
  abreast both := both.toAbreast
  value both i v := both.congr (both.withValue i v) ⟨rfl, rfl, rfl⟩ ⟨rfl, rfl, rfl⟩
  root both root := both.congr ((making_abreast env x p).root both.toAbreast root)
    ⟨rfl, rfl, rfl⟩ ⟨rfl, rfl, rfl⟩
  element both element := both.congr ((making_abreast env x p).element both.toAbreast element)
    ⟨rfl, rfl, rfl⟩ ⟨rfl, rfl, rfl⟩

/-- What is created does not change that the new node makes no object. -/
theorem Making.idle {env : Environment} {x p : NodeId} {R : LoadState → LoadState → Prop}
    (making : Making env x p R) :
    Making env x p fun a b => R a b ∧ (b.node x).isObject = false where
  tolerant both := making.tolerant both.1
  akin both := making.akin both.1
  record both d d' := ⟨making.record both.1 d d', both.2⟩
  heap both akin := ⟨making.heap both.1 akin, both.2⟩
  completed both pass := ⟨making.completed both.1 pass, both.2⟩
  abreast both := making.abreast both.1
  value both i v := ⟨making.value both.1 i v, both.2⟩
  root both root := ⟨making.root both.1 root, both.2⟩
  element both element := ⟨making.element both.1 element, both.2⟩

namespace Load

variable {env : Environment} {x p i : NodeId} {a b : LoadState}

theorem together_assignScopes (both : LoadState.Paired env x p a b) :
    TogetherDone (LoadState.Level env x p) ((assignScopes env).start a)
      ((assignScopes env).start b) := by
  obtain ⟨scopes, nodeScopes, run, shared⟩ :=
    start_assignScopes env both.proper both.tied.linked both.unscoped.1 both.unscoped.2
  obtain ⟨scopes', nodeScopes', run', shared'⟩ :=
    start_assignScopes env both.proper' both.tied'.linked both.unscoped'.1 both.unscoped'.2
  rw [run, run']
  exact together_done { both with
    inFirst := ⟨shared.opened, by rw [shared.scope], shared.nodes⟩
    inFirst' := ⟨shared'.opened, by rw [shared'.scope], shared'.nodes⟩
    names := by rw [shared.scope, shared'.scope] }

/-- **The documents are prepared together.** -/
theorem together_prepare (both : LoadState.Abreast env x p a b) (laid : a.tree.Laid)
    (laid' : b.tree.Laid) (unscoped : a.context.scopes = #[] ∧ a.context.nodeScopes = .empty)
    (unscoped' : b.context.scopes = #[] ∧ b.context.nodeScopes = .empty) :
    TogetherDone (LoadState.Level env x p) ((prepare env).start a) ((prepare env).start b) := by
  have paired := loose_paired env x p
  have level := (making_level env x p).toLoose
  unfold prepare
  rw [start_forM_cons, start_forM_cons]
  refine Together.bind (together_completePass paired .parentLinking (together_done
    (paired_linkParents both laid laid' unscoped unscoped'))) fun _ _ a b _ both _ => ?_
  rw [start_forM_cons, start_forM_cons]
  refine Together.bind (together_completePass paired .markupExpansion
    (together_expandMarkup both)) fun _ _ a b _ both _ => ?_
  rw [start_forM_cons, start_forM_cons]
  refine Together.bind (together_completePass paired .pruneIgnored (together_done
    (paired_prune both))) fun _ _ a b _ both _ => ?_
  rw [start_forM_cons, start_forM_cons]
  refine Together.bind (together_completePass level .namescoping
    (together_assignScopes both)) fun _ _ a b _ both _ => ?_
  exact together_done both

/-! ## Creating values -/

theorem together_createValues (both : LoadState.Level env x p a b) :
    TogetherDone (LoadState.Level env x p) ((createValues env).start a)
      ((createValues env).start b) := by
  have making := making_level env x p
  have lists := both.loadedUpwards
  unfold createValues
  rw [start_get_bind, start_get_bind]
  by_cases mem : x ∈ b.loadedUpwards env
  · -- The new node stays what it is, which is no object.
    have none : (b.node x).isObject = false := by
      have reached := (NodeTree.mem_postorder both.proper').1 mem
      exact both.tree.isObject_spliced (both.tree.listed_of_reaches both.proper' reached)
    have together := together_forM (R := fun a b => LoadState.Level env x p a b ∧
      (b.node x).isObject = false) lists (S := fun _ => True) (fun _ _ _ _ => trivial)
      (fun i _ a b both _ => together_createValue making.idle both fun both object =>
        ⟨both.1.detach object, ?_⟩)
      (fun _ a b both _ => start_createValue_idle env both.2) ⟨both, none⟩ trivial
    · exact Together.mono together fun _ _ both => both.1
    · rw [LoadState.node, both.1.tied'.detach, NodeTree.node_without]
      exact both.2
  · exact together_forM lists (S := fun _ => True) (fun _ _ _ _ => trivial)
      (fun i _ a b both _ => together_createValue making both fun both object => both.detach object)
      (fun listed => absurd listed mem) both trivial

/-- **The values are created together.** -/
theorem together_populate (both : LoadState.Abreast env x p a b) (laid : a.tree.Laid)
    (laid' : b.tree.Laid) (unscoped : a.context.scopes = #[] ∧ a.context.nodeScopes = .empty)
    (unscoped' : b.context.scopes = #[] ∧ b.context.nodeScopes = .empty) :
    TogetherDone (LoadState.Level env x p) ((populate env).start a) ((populate env).start b) :=
  Together.bind (together_prepare both laid laid' unscoped unscoped') fun _ _ _ _ _ both _ =>
    together_completePass (making_level env x p).toLoose .valueCreation
      (together_createValues both)

end Load

end MarkupLoader
