import MarkupLoader.Load.Passes
import MarkupLoader.Proofs.Naturality

/-!
# Loads that go on alike

Two loads are compared step by step, by a relation between their states that depends on which
objects stand for each other. **The matching grows** on the way: `Ends` says that two runs end
alike, in states that are related for a matching that has what the first one had.

A relation **simulates** (`Simulates`) if it says enough about the two states to go through the
passes after the creation of values: both sides find the same at the nodes that they share, their
heaps match, and either both pass over a failure or neither does. What is said about the context
differs from relation to relation and is left to them.

Main results: `Ends.bind`, `ends_forM`, `ends_foldlM`, `Simulates.modifyHeap`.
-/

namespace MarkupLoader

/-! ## Two runs -/

/-- Two runs that end alike, in related states. -/
def Ends (R : Matching → LoadState → LoadState → Prop) {α β : Type}
    (post : Matching → α → β → Prop) (M : Matching) (x : Except LoadError α × LoadState)
    (y : Except LoadError β × LoadState) : Prop :=
  ∃ N : Matching, M.Within N ∧ R N x.2 y.2 ∧ Alike (post N) x.1 y.1

/-- Two runs that end alike and give nothing. -/
abbrev EndsDone (R : Matching → LoadState → LoadState → Prop) (M : Matching)
    (x y : Except LoadError Unit × LoadState) : Prop :=
  Ends R (fun _ _ _ => True) M x y

namespace Load

section Rules

variable {R : Matching → LoadState → LoadState → Prop} {α β γ δ : Type} {M : Matching}
  {a b : LoadState} {post : Matching → α → β → Prop}

theorem ends_ok (both : R M a b) {x : α} {y : β} (related : post M x y) :
    Ends R post M (.ok x, a) (.ok y, b) :=
  ⟨M, .refl M, both, .ok related⟩

theorem ends_done (both : R M a b) : EndsDone R M (.ok (), a) (.ok (), b) :=
  ends_ok both trivial

theorem ends_error (both : R M a b) (error : LoadError) :
    Ends R post M (.error error, a) (.error error, b) :=
  ⟨M, .refl M, both, .error error⟩

theorem Ends.bind {post' : Matching → γ → δ → Prop} {step : Load α} {step' : Load β}
    {next : α → Load γ} {next' : β → Load δ}
    (first : Ends R post M (step.start a) (step'.start b))
    (second : ∀ N x y a' b', M.Within N → R N a' b' → post N x y →
      Ends R post' N ((next x).start a') ((next' y).start b')) :
    Ends R post' M ((step >>= next).start a) ((step' >>= next').start b) := by
  obtain ⟨N, within, both, alike⟩ := first
  rw [start_bind, start_bind]
  generalize step.start a = x at both alike
  generalize step'.start b = y at both alike
  obtain ⟨ended, a'⟩ := x
  obtain ⟨ended', b'⟩ := y
  cases alike with
  | error error => exact ⟨N, within, both, .error error⟩
  | ok related =>
    obtain ⟨O, within', both', alike'⟩ := second N _ _ a' b' within both related
    exact ⟨O, within.trans within', both', alike'⟩

/-- Two loops over one list, whose steps end alike. -/
theorem ends_forM {ι : Type} {step step' : ι → Load Unit} (list : List ι)
    (steps : ∀ i ∈ list, ∀ N a' b', M.Within N → R N a' b' →
      EndsDone R N ((step i).start a') ((step' i).start b'))
    (both : R M a b) :
    EndsDone R M ((list.forM step).start a) ((list.forM step').start b) := by
  induction list generalizing M a b with
  | nil => exact ends_done both
  | cons i rest ih =>
    obtain ⟨here, later⟩ := List.forall_mem_cons.1 steps
    rw [start_forM_cons, start_forM_cons]
    refine Ends.bind (here M a b (.refl M) both) fun N _ _ a' b' within both _ => ?_
    exact ih (fun i mem O a' b' within' => later i mem O a' b' (within.trans within')) both

end Rules

end Load

/-! ## What the later passes need -/

/-- Two states that have the same node at a place, and matching values for it. -/
structure LoadState.AgreeAt (M : Matching) (a b : LoadState) (id : NodeId) : Prop where
  node : b.node id = a.node id
  value : Option.Rel M.Values (a.context.value? id) (b.context.value? id)

/-- The state with a name in a scope. -/
def LoadState.withName (s : LoadState) (scope : ScopeId) (name : String) (value : Value) :
    LoadState :=
  { s with context := { s.context with
      scopes := s.context.scopes.modify scope fun s =>
        { s with names := s.names.insert name value } } }

theorem LoadState.scope_withName (s : LoadState) (scope : ScopeId) (name : String) (value : Value)
    (other : ScopeId) :
    (s.withName scope name value).context.scope other =
      if scope = other ∧ scope < s.context.scopes.size then
        { s.context.scope other with names := (s.context.scope other).names.insert name value }
      else s.context.scope other := by
  unfold withName Context.scope
  dsimp only
  rw [Array.getElem?_modify]
  by_cases same : scope = other
  · subst same
    rw [if_pos rfl]
    by_cases opened : scope < s.context.scopes.size
    · rw [if_pos ⟨rfl, opened⟩, Array.getElem?_eq_getElem opened]
      rfl
    · rw [if_neg fun both => opened both.2, Array.getElem?_eq_none (Nat.le_of_not_lt opened)]
      rfl
  · rw [if_neg same, if_neg fun both => same both.1]

/-- Namings with matching values that are the same otherwise. -/
structure Matching.Namings (M : Matching) (n m : Naming) : Prop where
  name : m.name = n.name
  position : m.position = n.position
  scope : m.scope = n.scope
  value : M.Values n.value m.value

theorem LoadState.AgreeAt.naming? {M : Matching} {a b : LoadState} {id : NodeId}
    (agree : a.AgreeAt M b id)
    (scopes : b.context.nodeScope? id = a.context.nodeScope? id) :
    Option.Rel M.Namings (a.naming? id) (b.naming? id) := by
  have value := agree.value
  unfold LoadState.naming?
  rw [agree.node, scopes]
  cases (a.node id).directive? "Name" with
  | none => exact .none
  | some directive =>
    show Option.Rel _ (directive.value.text?.bind _) (directive.value.text?.bind _)
    cases directive.value.text? with
    | none => exact .none
    | some name =>
      show Option.Rel _ ((a.context.value? id).bind _) ((b.context.value? id).bind _)
      generalize a.context.value? id = found at value
      generalize b.context.value? id = found' at value
      cases value with
      | none => exact .none
      | some value =>
        cases a.context.nodeScope? id with
        | none => exact .none
        | some scope => exact .some ⟨rfl, rfl, rfl, value⟩

/-- A node registers its name in its own scope. -/
theorem LoadState.nodeScope?_of_naming? {s : LoadState} {id : NodeId} {n : Naming}
    (gives : s.naming? id = some n) : s.context.nodeScope? id = some n.scope := by
  unfold LoadState.naming? at gives
  obtain ⟨_, -, gives⟩ := Option.bind_eq_some_iff.1 gives
  obtain ⟨_, -, gives⟩ := Option.bind_eq_some_iff.1 gives
  obtain ⟨_, -, gives⟩ := Option.bind_eq_some_iff.1 gives
  obtain ⟨scope, is, gives⟩ := Option.bind_eq_some_iff.1 gives
  cases gives
  exact is

/-- Both sides register the name of a node in a scope that they share, or find that it is taken. -/
theorem Load.ends_registerName {R : Matching → LoadState → LoadState → Prop} {M : Matching}
    {a b : LoadState} {id : NodeId} (both : R M a b) (agree : a.AgreeAt M b id)
    (scopes : b.context.nodeScope? id = a.context.nodeScope? id)
    (recover : ∀ error, EndsDone R M ((Load.recover error).start a) ((Load.recover error).start b))
    (names : ∀ scope, a.context.nodeScope? id = some scope →
      M.Tables (a.context.scope scope).names (b.context.scope scope).names)
    (registered : ∀ scope name v w, a.context.nodeScope? id = some scope → M.Values v w →
      R M (a.withName scope name v) (b.withName scope name w)) :
    EndsDone R M ((registerName id).start a) ((registerName id).start b) := by
  unfold registerName
  rw [start_get_bind, start_get_bind]
  have naming := agree.naming? scopes
  cases gives : a.naming? id with
  | none =>
    rw [gives] at naming
    cases gives' : b.naming? id with
    | none => exact ends_done both
    | some m =>
      rw [gives'] at naming
      cases naming
  | some n =>
    have within := LoadState.nodeScope?_of_naming? gives
    rw [gives] at naming
    obtain ⟨m, gives', matched⟩ : ∃ m, b.naming? id = some m ∧ M.Namings n m := by
      generalize b.naming? id = found at naming
      cases naming with
      | some matched => exact ⟨_, rfl, matched⟩
    rw [gives']
    dsimp only
    unfold Context.register
    rw [matched.name, matched.position, matched.scope, (names _ within).contains n.name]
    by_cases taken : (b.context.scope n.scope).names.contains n.name = true
    · rw [if_pos taken, if_pos taken]
      exact recover _
    · rw [if_neg taken, if_neg taken]
      exact ends_done (registered _ _ _ _ within matched.value)

/-- A relation between two states that go through the filling of dictionaries alike. The nodes in
`shared` are in both documents, and those in `loaded` are loaded by both sides. -/
structure Simulates (env : Environment) (shared loaded : NodeId → Prop)
    (R : Matching → LoadState → LoadState → Prop) : Prop where
  heaps : ∀ {M a b}, R M a b → M.Heaps a.heap b.heap
  modify : ∀ {M a b i j} {change change' : Object → Object}, R M a b → M.rel i j →
    M.Objects (change (a.heap.object i)) (change' (b.heap.object j)) →
      R M { a with heap := a.heap.modify i change } { b with heap := b.heap.modify j change' }
  alloc : ∀ {M a b o p}, R M a b → M.Objects o p → ∃ N : Matching, M.Within N ∧
    N.rel a.heap.size b.heap.size ∧
      R N { a with heap := (a.heap.alloc o).2 } { b with heap := (b.heap.alloc p).2 }
  recover : ∀ {M a b}, R M a b → ∀ error,
    EndsDone R M ((Load.recover error).start a) ((Load.recover error).start b)
  completed : ∀ {M a b}, R M a b → ∀ pass, R M { a with context := a.context.completed pass }
    { b with context := b.context.completed pass }
  agree : ∀ {M a b id}, R M a b → shared id → a.AgreeAt M b id
  below : ∀ {M a b id}, R M a b → shared id → ∀ c ∈ (a.node id).children, shared c
  above : ∀ {M a b id parent}, R M a b → shared id → (a.node id).parent = some parent →
    shared parent
  ofLoaded : ∀ {id}, loaded id → shared id
  downwards : ∀ {M a b}, R M a b →
    b.loaded env = a.loaded env ∧ ∀ id ∈ a.loaded env, loaded id
  upwards : ∀ {M a b}, R M a b →
    b.loadedUpwards env = a.loadedUpwards env ∧ ∀ id ∈ a.loadedUpwards env, loaded id
  register : ∀ {M a b id}, R M a b → loaded id →
    EndsDone R M ((Load.registerName id).start a) ((Load.registerName id).start b)

/-- A relation between two states that go through the application of properties alike, too. -/
structure SimulatesAll (env : Environment) (shared loaded : NodeId → Prop)
    (R : Matching → LoadState → LoadState → Prop) : Prop extends
    Simulates env shared loaded R where
  replace : ∀ {M a b h k}, R M a b → M.Heaps h k → R M { a with heap := h } { b with heap := k }
  outerScope : ∀ {M a b}, R M a b → List.Forall₂ M.rel a.context.outerScope b.context.outerScope
  named : ∀ {M a b id}, R M a b → loaded id → ∀ name,
    Option.Rel M.Values ((a.site env id).named? name) ((b.site env id).named? name)
  ancestors : ∀ {M a b id}, R M a b → shared id →
    b.tree.ancestors id = a.tree.ancestors id ∧ ∀ n ∈ a.tree.ancestors id, shared n
  namespaces : ∀ {M a b id}, R M a b → shared id →
    b.tree.lookUpNamespace id = a.tree.lookUpNamespace id

namespace Simulates

variable {env : Environment} {shared loaded : NodeId → Prop}
  {R : Matching → LoadState → LoadState → Prop} {M : Matching} {a b : LoadState}

section Reading

variable {id : NodeId} (simulates : Simulates env shared loaded R) (both : R M a b)

include simulates both

theorem node (mem : shared id) : b.node id = a.node id := (simulates.agree both mem).node

theorem object? (mem : shared id) :
    Option.Rel M.rel (a.context.object? id) (b.context.object? id) := by
  have value := (simulates.agree both mem).value
  unfold Context.object?
  generalize a.context.value? id = found at value
  generalize b.context.value? id = found' at value
  cases value with
  | none => exact .none
  | some value => exact value.object?

theorem objects {nodes : List NodeId} (mem : ∀ n ∈ nodes, shared n) :
    List.Forall₂ M.rel (nodes.filterMap a.context.object?) (nodes.filterMap b.context.object?) :=
  Matching.forall₂_filterMap fun n listed => simulates.object? both (mem n listed)

theorem elements (mem : shared id) : b.tree.elements id = a.tree.elements id := by
  have node : b.tree.node id = a.tree.node id := simulates.node both mem
  unfold NodeTree.elements
  rw [node]
  refine List.filter_congr fun c listed => ?_
  have child : b.tree.node c = a.tree.node c :=
    simulates.node both (simulates.below both mem c listed)
  rw [child]

theorem shared_of_elements (mem : shared id) : ∀ c ∈ a.tree.elements id, shared c :=
  fun c listed => simulates.below both mem c (List.mem_filter.1 listed).1

end Reading

section Writing

variable (simulates : Simulates env shared loaded R) (both : R M a b)

include simulates both

/-- Matched objects are changed on both sides. -/
theorem modifyHeap {i j : ObjectId} (related : M.rel i j) {change change' : Object → Object}
    (changed : M.Objects (change (a.heap.object i)) (change' (b.heap.object j))) :
    EndsDone R M ((Load.modifyHeap (·.modify i change)).start a)
      ((Load.modifyHeap (·.modify j change')).start b) :=
  Load.ends_done (simulates.modify both related changed)

theorem set {i j : ObjectId} (related : M.rel i j) (property : String) {v w : Value}
    (value : M.Values v w) :
    EndsDone R M ((Load.modifyHeap (·.set i property v)).start a)
      ((Load.modifyHeap (·.set j property w)).start b) := by
  have before := (simulates.heaps both).objects i j related
  exact simulates.modifyHeap both related
    { before with properties := before.properties.insert property value }

theorem putEntry {i j : ObjectId} (related : M.rel i j) (key : String) {v w : Value}
    (value : M.Values v w) :
    EndsDone R M ((Load.modifyHeap (·.putEntry i key v)).start a)
      ((Load.modifyHeap (·.putEntry j key w)).start b) := by
  have before := (simulates.heaps both).objects i j related
  exact simulates.modifyHeap both related
    { before with entries := before.entries.insert key value }

/-- Matching objects are made on both sides. -/
theorem make {o p : Object} (objects : M.Objects o p) :
    Ends R (fun N i j => N.rel i j) M ((Load.alloc o).start a) ((Load.alloc p).start b) := by
  obtain ⟨N, within, related, both⟩ := simulates.alloc both objects
  exact ⟨N, within, both, .ok related⟩

end Writing

end Simulates

namespace SimulatesAll

variable {env : Environment} {shared loaded : NodeId → Prop}
  {R : Matching → LoadState → LoadState → Prop} {M : Matching} {a b : LoadState}

theorem changeHeap (simulates : SimulatesAll env shared loaded R) (both : R M a b)
    {outcome outcome' : Except LoadError Heap} (alike : Alike M.Heaps outcome outcome') :
    EndsDone R M ((Load.changeHeap outcome).start a) ((Load.changeHeap outcome').start b) := by
  cases alike with
  | ok heaps => exact Load.ends_done (simulates.replace both heaps)
  | error error => exact simulates.recover both error

end SimulatesAll

namespace Load

variable {env : Environment} {shared loaded : NodeId → Prop}
  {R : Matching → LoadState → LoadState → Prop} {M : Matching} {a b : LoadState}

/-- Both loads note that a pass has been completed. -/
theorem ends_completePass (simulates : Simulates env shared loaded R) {pass : Pass}
    (ends : EndsDone R M ((runPass env pass).start a) ((runPass env pass).start b)) :
    EndsDone R M ((completePass env pass).start a) ((completePass env pass).start b) :=
  Ends.bind ends fun _ _ _ _ _ _ both _ => ends_done (simulates.completed both pass)

end Load

end MarkupLoader
