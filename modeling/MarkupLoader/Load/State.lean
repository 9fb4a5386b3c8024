import MarkupLoader.Load.Extension

/-!
# Loads in progress

A load works on a tree, a context and a heap. **What has been done before a failure stays done**:
an action gives its outcome together with the state it leaves, also when the outcome is an error.

Main statements: `Load.start_bind`, `Load.start_recover`.
-/

namespace MarkupLoader

/-- What a load may use and does not change. -/
structure Environment where
  registry : Registry
  extensions : Extensions
deriving Inhabited

/-- Whether a node makes a template, whose content is not loaded with the node. -/
def Environment.isTemplate (e : Environment) (n : NodeBody) : Bool :=
  n.isObject && e.registry.isTemplate n.typeName

/-- The state of a load. -/
structure LoadState where
  tree : NodeTree
  /-- The object that the outermost element stands for, if it is known already. -/
  rootInstance : Option ObjectId
  context : Context
  heap : Heap
deriving Inhabited

/-- A step of a load. -/
abbrev Load (α : Type) := ExceptT LoadError (StateM LoadState) α

namespace LoadState

/-- The node at a place. -/
def node (s : LoadState) (id : NodeId) : Node := s.tree.node id

/-- The site of a node. -/
def site (s : LoadState) (env : Environment) (id : NodeId) : Site :=
  ⟨s.heap, s.tree, s.context, env.registry, id⟩

/-- The nodes that make templates. -/
def isTemplate (s : LoadState) (env : Environment) (id : NodeId) : Bool :=
  env.isTemplate (s.node id).toNodeBody

/-- The nodes that are loaded, in document order: the content of templates is left out. -/
def loaded (s : LoadState) (env : Environment) : List NodeId :=
  s.tree.preorder (s.isTemplate env)

/-- The nodes that are loaded, each after those below it. -/
def loadedUpwards (s : LoadState) (env : Environment) : List NodeId :=
  s.tree.postorder (s.isTemplate env)

/-- The state with other failures recorded. -/
def withRecord (s : LoadState) (diagnostics : List LoadError) : LoadState :=
  { s with context := { s.context with diagnostics := diagnostics } }

end LoadState

namespace Load

/-- Changes the tree. -/
def modifyTree (change : NodeTree → NodeTree) : Load Unit :=
  modify fun s => { s with tree := change s.tree }

/-- Changes the context. -/
def modifyContext (change : Context → Context) : Load Unit :=
  modify fun s => { s with context := change s.context }

/-- Changes the heap. -/
def modifyHeap (change : Heap → Heap) : Load Unit :=
  modify fun s => { s with heap := change s.heap }

/-- Makes a new object. -/
def alloc (o : Object) : Load ObjectId := do
  let s ← get
  let (id, heap) := s.heap.alloc o
  set { s with heap := heap }
  return id

/-- Passes over a failure, if the load tolerates it. -/
def recover (error : LoadError) : Load Unit := do
  let s ← get
  match s.context.recover error with
  | .ok context => set { s with context := context }
  | .error error => throw error

/-- Carries an outcome over to the load. -/
def ofExcept (outcome : Except LoadError α) : Load α :=
  match outcome with
  | .ok a => return a
  | .error error => throw error

/-- Puts the outcome of a change of the heap into effect, or passes over its failure. -/
def changeHeap (outcome : Except LoadError Heap) : Load Unit :=
  match outcome with
  | .ok heap => modifyHeap fun _ => heap
  | .error error => recover error

/-- Runs a step from a state. -/
def start (step : Load α) (s : LoadState) : Except LoadError α × LoadState :=
  StateT.run (ExceptT.run step) s

/-! ## Laws -/

section Running

variable {α β : Type}

@[simp]
theorem start_pure (a : α) (s : LoadState) : (pure a : Load α).start s = (.ok a, s) := rfl

@[simp]
theorem start_throw (error : LoadError) (s : LoadState) :
    (throw error : Load α).start s = (.error error, s) := rfl

@[simp]
theorem start_get (s : LoadState) : (get : Load LoadState).start s = (.ok s, s) := rfl

@[simp]
theorem start_set (s t : LoadState) : (set t : Load Unit).start s = (.ok (), t) := rfl

@[simp]
theorem start_modify (change : LoadState → LoadState) (s : LoadState) :
    (modify change : Load Unit).start s = (.ok (), change s) := rfl

/-- What follows a step runs from the state that the step leaves, unless the step fails. -/
theorem start_bind (step : Load α) (next : α → Load β) (s : LoadState) :
    (step >>= next).start s =
      match step.start s with
      | (.ok a, t) => (next a).start t
      | (.error error, t) => (.error error, t) := by
  show ((ExceptT.run step >>= fun r => ExceptT.bindCont next r) : StateM LoadState _).run s = _
  rw [StateT.run_bind]
  unfold start
  rcases StateT.run (ExceptT.run step) s with ⟨_ | _, _⟩ <;> rfl

theorem start_bind_of_ok {step : Load α} {next : α → Load β} {s t : LoadState} {a : α}
    (ran : step.start s = (.ok a, t)) : (step >>= next).start s = (next a).start t := by
  rw [start_bind, ran]

theorem start_bind_of_error {step : Load α} {next : α → Load β} {s t : LoadState}
    {error : LoadError} (ran : step.start s = (.error error, t)) :
    (step >>= next).start s = (.error error, t) := by
  rw [start_bind, ran]

/-- Steps do not fail one after the other only if none of them does. -/
theorem ok_of_start_bind {step : Load α} {next : α → Load β} {s last : LoadState} {b : β}
    (ran : (step >>= next).start s = (.ok b, last)) :
    ∃ a t, step.start s = (.ok a, t) ∧ (next a).start t = (.ok b, last) := by
  rw [start_bind] at ran
  rcases first : step.start s with ⟨error | a, t⟩ <;> rw [first] at ran
  · cases ran
  · exact ⟨a, t, rfl, ran⟩

/-- A step that does not fail comes to the state that it leaves. -/
theorem start_of_ok {step : Load α} {s : LoadState} {a : α} (ok : (step.start s).1 = .ok a) :
    step.start s = (.ok a, (step.start s).2) := Prod.ext ok rfl

theorem start_get_bind (next : LoadState → Load β) (s : LoadState) :
    (get >>= next).start s = (next s).start s := rfl

theorem start_forM_nil (step : α → Load Unit) (s : LoadState) :
    (List.forM [] step).start s = (.ok (), s) := rfl

theorem start_forM_cons (step : α → Load Unit) (a : α) (rest : List α) (s : LoadState) :
    ((a :: rest).forM step).start s = (step a >>= fun _ => rest.forM step).start s := rfl

/-- A loop over two lists is a loop over the first and then one over the second. -/
theorem start_forM_append (step : α → Load Unit) (first second : List α) (s : LoadState) :
    ((first ++ second).forM step).start s =
      (first.forM step >>= fun _ => second.forM step).start s := by
  induction first generalizing s with
  | nil => rfl
  | cons a rest ih =>
    rw [List.cons_append, start_forM_cons, start_bind, start_bind, start_forM_cons, start_bind]
    rcases (step a).start s with ⟨error | _, next⟩
    · rfl
    · dsimp only
      rw [ih next, start_bind]

/-- What every step keeps of what has been done and what is left, a loop keeps to its end. -/
theorem forM_along {list : List α} {step : α → Load Unit} {s last : LoadState}
    {P : List α → List α → LoadState → Prop}
    (each : ∀ done a rest t u, list = done ++ a :: rest → P done (a :: rest) t →
      (step a).start t = (.ok (), u) → P (done ++ [a]) rest u)
    (holds : P [] list s) (ran : (list.forM step).start s = (.ok (), last)) : P list [] last := by
  -- The induction is on what is left.
  have along : ∀ rest done t, list = done ++ rest → P done rest t →
      (rest.forM step).start t = (.ok (), last) → P list [] last := by
    intro rest
    induction rest with
    | nil =>
      intro done t is holds ran
      cases ran
      rwa [is, List.append_nil]
    | cons a rest ih =>
      intro done t is holds ran
      obtain ⟨_, u, first, ran⟩ := ok_of_start_bind ran
      refine ih (done ++ [a]) u ?_ (each done a rest t u is holds first) ran
      rw [is, List.append_assoc]
      rfl
  exact along list [] s rfl holds ran

/-- A loop that hands a value on goes through if every step does from where those before it come to. -/
theorem foldlM_along {list : List α} {step : β → α → Load β} {b : β} {s : LoadState}
    {P : List α → β → LoadState → Prop}
    (each : ∀ done a rest b t, list = done ++ a :: rest → P done b t →
      ∃ c u, (step b a).start t = (.ok c, u) ∧ P (done ++ [a]) c u) (holds : P [] b s) :
    ∃ c u, (list.foldlM step b).start s = (.ok c, u) ∧ P list c u := by
  have along : ∀ rest done b t, list = done ++ rest → P done b t →
      ∃ c u, (rest.foldlM step b).start t = (.ok c, u) ∧ P list c u := by
    intro rest
    induction rest with
    | nil =>
      intro done b t is holds
      refine ⟨b, t, rfl, ?_⟩
      rwa [is, List.append_nil]
    | cons a rest ih =>
      intro done b t is holds
      obtain ⟨c, u, ran, holds⟩ := each done a rest b t is holds
      rw [List.foldlM_cons, start_bind_of_ok ran]
      refine ih (done ++ [a]) c u ?_ holds
      rw [is, List.append_assoc]
      rfl
  exact along list [] b s rfl holds

end Running

/-- Recovering changes the context only, or fails and changes nothing. -/
theorem start_recover (error : LoadError) (s : LoadState) :
    (recover error).start s =
      match s.context.recover error with
      | .ok context => (.ok (), { s with context := context })
      | .error error => (.error error, s) := by
  rw [recover, start_get_bind]
  cases s.context.recover error <;> rfl

/-- A failure that is passed over is recorded, and nothing else changes. -/
theorem ok_of_recover {error : LoadError} {s t : LoadState}
    (ran : (recover error).start s = (.ok (), t)) :
    t = s.withRecord (s.context.diagnostics ++ [error]) := by
  rw [start_recover, Context.recover] at ran
  split at ran
  case h_1 context passes =>
    split at passes
    · cases passes
      cases ran
      rfl
    · cases passes
  case h_2 => cases ran

/-- A tolerant load passes over a failure that is not fatal. -/
theorem start_recover_tolerant {s : LoadState} (tolerant : s.context.tolerant = true)
    {error : LoadError} (passes : error.isFatal = false) :
    (recover error).start s = (.ok (), s.withRecord (s.context.diagnostics ++ [error])) := by
  have recovers : (s.context.tolerant && !error.isFatal) = true := by rw [tolerant, passes]; rfl
  rw [start_recover, Context.recover, if_pos recovers]
  rfl

/-- A strict load passes over no failure. -/
theorem start_recover_strict {s : LoadState} (strict : s.context.tolerant = false)
    (error : LoadError) : (recover error).start s = (.error error, s) := by
  rw [start_recover, Context.recover_strict error strict]

/-- A strict load fails with a change of the heap. -/
theorem start_changeHeap_strict {s : LoadState} (strict : s.context.tolerant = false)
    (error : LoadError) : (changeHeap (.error error)).start s = (.error error, s) :=
  start_recover_strict strict error

/-- No load passes over a fatal failure. -/
theorem start_recover_fatal {error : LoadError} (fatal : error.isFatal = true) (s : LoadState) :
    (recover error).start s = (.error error, s) := by
  have stops : ¬ (s.context.tolerant && !error.isFatal) = true := by simp [fatal]
  rw [start_recover, Context.recover, if_neg stops]

end Load

end MarkupLoader
