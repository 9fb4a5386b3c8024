import MarkupLoader.Proofs.Request

/-!
# Strict and tolerant loads run in lockstep

A strict load does what a tolerant one does up to the first failure, and ends with that failure.
**The strict side** of a state (`LoadState.strict`) is the state with the flag taken away that
tolerates failures; `LockstepAt` relates a step from a state to the step from its strict side.

* No step but `Load.recover` looks at the flag, so as long as nothing has been recorded both
  sides are in the same state.
* The record only grows, so its first failure stays the one that ended the strict side.

Main results: `LockstepAt.bind`, `lockstep_runPasses`, `strict_follows_tolerant`.
-/

namespace MarkupLoader

/-- The context with failures no longer tolerated. -/
def Context.strict (c : Context) : Context := { c with tolerant := false }

theorem Context.register_strict (c : Context) (scope : ScopeId) (name : String) (value : Value) :
    c.strict.register scope name value = (c.register scope name value).map Context.strict := by
  show (if (c.scope scope).names.contains name then none else _) = _
  unfold Context.register
  split <;> rfl

theorem Context.findName_strict (c : Context) (scope : ScopeId) (name : String) :
    c.strict.findName scope name = c.findName scope name := by
  have outwards : ∀ fuel scope,
      c.strict.findNameFrom name fuel scope = c.findNameFrom name fuel scope := by
    intro fuel
    induction fuel with
    | zero => exact fun _ => rfl
    | succ fuel ih =>
      intro scope
      simp only [Context.findNameFrom, funext ih]
      rfl
  exact outwards _ _

/-- The state with failures no longer tolerated. -/
def LoadState.strict (s : LoadState) : LoadState := { s with context := s.context.strict }

/-- The services of a site do not depend on whether failures are tolerated. -/
theorem LoadState.services_strict (s : LoadState) (env : Environment) (id : NodeId) :
    (s.strict.site env id).services = (s.site env id).services := by
  have named : (s.strict.site env id).named? = (s.site env id).named? := by
    funext name
    show ((s.site env id).scope?.bind fun scope => s.context.strict.findName scope name) = _
    simp only [Context.findName_strict]
    rfl
  unfold Site.services
  rw [named]
  rfl

theorem LoadState.applyAttribute_strict (s : LoadState) (env : Environment) (id : NodeId)
    (object : ObjectId) (a : Attribute) :
    (s.strict.site env id).applyAttribute env.extensions object a =
      (s.site env id).applyAttribute env.extensions object a := by
  have value : (s.strict.site env id).attributeValue env.extensions a =
      (s.site env id).attributeValue env.extensions a := by
    unfold Site.attributeValue Extensions.evaluate
    rw [s.services_strict env id]
  unfold Site.applyAttribute
  rw [value]
  rfl

namespace Load

variable {α β : Type}

/-- A step from a state, with the step of the strict side beside it. The strict side does the
same if nothing is recorded, and otherwise fails with the first failure recorded. -/
structure LockstepAt (s : LoadState) (step strict : Load α) : Prop where
  flag : (step.start s).2.context.tolerant = s.context.tolerant
  grows : s.context.diagnostics <+: (step.start s).2.context.diagnostics
  same : s.context.tolerant = true → s.context.diagnostics = [] →
    (step.start s).2.context.diagnostics = [] →
      strict.start s.strict = ((step.start s).1, (step.start s).2.strict)
  stops : s.context.tolerant = true → s.context.diagnostics = [] →
    ∀ first rest, (step.start s).2.context.diagnostics = first :: rest →
      (strict.start s.strict).1 = .error first

/-- A step that runs in lockstep with itself from every state. -/
def Lockstep (step : Load α) : Prop := ∀ s, LockstepAt s step step

/-! ## Rules -/

/-- A step that records nothing and does the same on both sides. -/
theorem LockstepAt.quiet {s t : LoadState} {step strict : Load α} {result : Except LoadError α}
    (ran : step.start s = (result, t)) (ranStrict : strict.start s.strict = (result, t.strict))
    (flag : t.context.tolerant = s.context.tolerant)
    (record : t.context.diagnostics = s.context.diagnostics) : LockstepAt s step strict where
  flag := by rw [ran, flag]
  grows := record ▸ ran ▸ List.prefix_rfl
  same _ _ _ := by rw [ran, ranStrict]
  stops _ none_yet first rest some_now := by
    rw [ran, record, none_yet] at some_now
    cases some_now

/-- A strict side that does not fail is in the state that the other side is in, and nothing has been
recorded there. -/
theorem LockstepAt.of_strict {s t : LoadState} {step strict : Load α} {a : α}
    (lockstep : LockstepAt s step strict) (tolerant : s.context.tolerant = true)
    (none_yet : s.context.diagnostics = []) (ran : strict.start s.strict = (.ok a, t)) :
    ∃ u, step.start s = (.ok a, u) ∧ u.context.diagnostics = [] ∧ t = u.strict := by
  obtain ⟨-, -, same, stops⟩ := lockstep
  cases record : (step.start s).2.context.diagnostics with
  | nil =>
    obtain ⟨ended, last⟩ := Prod.mk.inj (ran.symm.trans (same tolerant none_yet record))
    exact ⟨_, Prod.ext ended.symm rfl, record, last⟩
  | cons first rest =>
    have stopped := stops tolerant none_yet first rest record
    rw [ran] at stopped
    cases stopped

theorem lockstep_pure (a : α) : Lockstep (pure a) := fun _ => .quiet rfl rfl rfl rfl

theorem lockstep_throw (error : LoadError) : Lockstep (throw error : Load α) :=
  fun _ => .quiet rfl rfl rfl rfl

/-- Each side goes on with its own state. -/
theorem LockstepAt.get_both {s : LoadState} {next : LoadState → Load β}
    (h : LockstepAt s (next s) (next s.strict)) :
    LockstepAt s (get >>= next) (get >>= next) :=
  ⟨h.flag, h.grows, h.same, h.stops⟩

/-- A continuation that does not look at the flag runs on both sides alike. -/
theorem LockstepAt.get {s : LoadState} {next : LoadState → Load β}
    (blind : next s.strict = next s) (h : LockstepAt s (next s) (next s)) :
    LockstepAt s (get >>= next) (get >>= next) :=
  .get_both (by rwa [blind])

/-- Two steps in lockstep, one after the other. -/
theorem LockstepAt.bind {s : LoadState} {step strict : Load α} {next nextStrict : α → Load β}
    (first : LockstepAt s step strict) (second : ∀ a t, LockstepAt t (next a) (nextStrict a)) :
    LockstepAt s (step >>= next) (strict >>= nextStrict) := by
  obtain ⟨flag, grows, same, stops⟩ := first
  rcases ran : step.start s with ⟨error | a, t⟩ <;> rw [ran] at flag grows same stops
  · -- Both sides end here, and so does what comes after.
    have run : (step >>= next).start s = (.error error, t) := by rw [start_bind, ran]
    refine ⟨by rw [run]; exact flag, by rw [run]; exact grows, ?_, ?_⟩
    · intro tolerant none_yet none_now
      rw [run] at none_now ⊢
      rw [start_bind, same tolerant none_yet none_now]
    · intro tolerant none_yet failure rest some_now
      rw [run] at some_now
      have stopped := stops tolerant none_yet failure rest some_now
      rw [start_bind]
      rcases ranStrict : strict.start s.strict with ⟨_ | _, _⟩ <;> rw [ranStrict] at stopped <;>
        cases stopped
      rfl
  · obtain ⟨flag₂, grows₂, same₂, stops₂⟩ := second a t
    have run : (step >>= next).start s = (next a).start t := by rw [start_bind, ran]
    refine ⟨by rw [run, flag₂, flag], by rw [run]; exact grows.trans grows₂, ?_, ?_⟩
    · intro tolerant none_yet none_now
      rw [run] at none_now ⊢
      have none_then : t.context.diagnostics = [] :=
        List.eq_nil_of_prefix_nil (none_now ▸ grows₂)
      rw [start_bind, same tolerant none_yet none_then]
      exact same₂ (flag.trans tolerant) none_then none_now
    · intro tolerant none_yet failure rest some_now
      rw [run] at some_now
      cases record : t.context.diagnostics with
      | nil =>
        rw [start_bind, same tolerant none_yet record]
        exact stops₂ (flag.trans tolerant) record failure rest some_now
      | cons earlier others =>
        -- The strict side did not get as far as the second step.
        rw [record, some_now] at grows₂
        obtain rfl : earlier = failure := (List.cons_prefix_cons.1 grows₂).1
        have stopped := stops tolerant none_yet earlier others record
        rw [start_bind]
        rcases ranStrict : strict.start s.strict with ⟨_ | _, _⟩ <;> rw [ranStrict] at stopped <;>
          cases stopped
        rfl

theorem Lockstep.bind {step : Load α} {next : α → Load β} (first : Lockstep step)
    (second : ∀ a, Lockstep (next a)) : Lockstep (step >>= next) :=
  fun s => (first s).bind fun a t => second a t

theorem lockstep_forM {step : α → Load Unit} (h : ∀ a, Lockstep (step a)) (list : List α) :
    Lockstep (list.forM step) := by
  induction list with
  | nil => exact lockstep_pure ()
  | cons a rest ih => exact (h a).bind fun _ => ih

theorem lockstep_foldlM {step : β → α → Load β} (h : ∀ b a, Lockstep (step b a))
    (list : List α) (b : β) : Lockstep (list.foldlM step b) := by
  induction list generalizing b with
  | nil => exact lockstep_pure b
  | cons a rest ih => exact (h b a).bind ih

/-! ## Steps on the state -/

theorem lockstep_modifyTree (change : NodeTree → NodeTree) : Lockstep (modifyTree change) :=
  fun _ => .quiet rfl rfl rfl rfl

theorem lockstep_modifyHeap (change : Heap → Heap) : Lockstep (modifyHeap change) :=
  fun _ => .quiet rfl rfl rfl rfl

theorem lockstep_alloc (o : Object) : Lockstep (alloc o) := fun _ => .quiet rfl rfl rfl rfl

/-- The only step that looks at the flag. -/
theorem lockstep_recover (error : LoadError) : Lockstep (recover error) := by
  intro s
  have strictly : (recover error).start s.strict = (.error error, s.strict) :=
    start_recover_strict rfl error
  by_cases recovers : s.context.tolerant && !error.isFatal
  · have ran : (recover error).start s =
        (.ok (), { s with context :=
          { s.context with diagnostics := s.context.diagnostics ++ [error] } }) := by
      rw [start_recover, Context.recover, if_pos recovers]
    refine ⟨by rw [ran], by rw [ran]; exact List.prefix_append _ _, ?_, ?_⟩
    · intro _ _ none_now
      rw [ran] at none_now
      simp at none_now
    · intro _ none_yet first rest some_now
      rw [ran, none_yet] at some_now
      cases some_now
      rw [strictly]
  · have ran : (recover error).start s = (.error error, s) := by
      rw [start_recover, Context.recover, if_neg recovers]
    exact .quiet ran strictly rfl rfl

theorem lockstep_changeHeap (outcome : Except LoadError Heap) : Lockstep (changeHeap outcome) := by
  cases outcome with
  | ok heap => exact lockstep_modifyHeap fun _ => heap
  | error error => exact lockstep_recover error

/-! ## Passes -/

theorem lockstep_expandAttributes (env : Environment) (id : NodeId) (rest : List Attribute) :
    ∀ done, Lockstep (expandAttributes env id done rest) := by
  induction rest with
  | nil => exact fun done => lockstep_modifyTree _
  | cons a rest ih =>
    intro done s
    refine .get rfl ?_
    cases s.tree.expandAttribute env.extensions id a with
    | ok a => exact ih _ s
    | error error =>
      refine Lockstep.bind (lockstep_modifyTree _) (fun _ => ?_) s
      exact (lockstep_recover error).bind fun _ => ih done

theorem lockstep_expandMarkup (env : Environment) : Lockstep (expandMarkup env) := by
  refine fun s => .get rfl (lockstep_forM (fun id s => ?_) _ s)
  refine .get rfl ?_
  split
  · exact lockstep_pure () s
  · exact lockstep_expandAttributes env id _ [] s

theorem lockstep_contentScope (opened : Table NodeId ScopeId) (template : NodeId)
    (around : ScopeId) : Lockstep (contentScope opened template around) := by
  intro s
  unfold contentScope
  split
  · exact lockstep_pure _ s
  · exact .quiet rfl rfl rfl rfl

theorem lockstep_assignScope (env : Environment) (rootScope : ScopeId)
    (opened : Table NodeId ScopeId) (id : NodeId) :
    Lockstep (assignScope env rootScope opened id) := by
  refine fun s => .get rfl ?_
  have gives : ∀ found : ScopeId × Table NodeId ScopeId, Lockstep (do
      modifyContext (·.setNodeScope id found.1)
      return found.2) := fun found =>
    Lockstep.bind (fun _ => .quiet rfl rfl rfl rfl) fun _ => lockstep_pure _
  cases (s.node id).parent with
  | none => exact lockstep_pure _ s
  | some parent =>
    dsimp only
    split
    · exact Lockstep.bind (lockstep_contentScope _ _ _) gives s
    · exact Lockstep.bind (lockstep_pure _) gives s

theorem lockstep_assignScopes (env : Environment) : Lockstep (assignScopes env) := by
  refine fun s => .get_both ?_
  -- Each side sets a state of its own here.
  refine LockstepAt.bind (.quiet rfl rfl rfl rfl) fun _ => ?_
  exact Lockstep.bind (lockstep_foldlM (lockstep_assignScope env _) _ _) fun _ => lockstep_pure ()

theorem lockstep_settleMade (made : Made) : Lockstep (settleMade made) := by
  cases made with
  | scalar value => exact lockstep_pure value
  | object o => exact (lockstep_alloc o).bind fun id => lockstep_pure _

theorem lockstep_adoptRoot (id : ObjectId) : Lockstep (adoptRoot id) :=
  fun _ => .quiet rfl rfl rfl rfl

theorem lockstep_setValue (id : NodeId) (value : Value) : Lockstep (setValue id value) := by
  intro s
  have strictly := start_setValue id value s.strict
  have tolerantly := start_setValue id value s
  by_cases taken : s.context.values.contains id
  · rw [if_pos taken] at tolerantly
    exact .quiet tolerantly (strictly.trans (if_pos taken)) rfl rfl
  · rw [if_neg taken] at tolerantly
    exact .quiet tolerantly (strictly.trans (if_neg taken)) rfl rfl

theorem lockstep_ofExcept (outcome : Except LoadError α) : Lockstep (ofExcept outcome) := by
  cases outcome with
  | ok a => exact lockstep_pure a
  | error error => exact lockstep_throw error

theorem lockstep_createRoot (env : Environment) : Lockstep (createRoot env) := by
  refine fun s => .get rfl ?_
  split
  · exact .quiet rfl rfl rfl rfl
  · split
    · exact lockstep_pure () s
    · refine Lockstep.bind (lockstep_ofExcept _) (fun made => ?_) s
      refine Lockstep.bind (lockstep_settleMade made) fun value => ?_
      split
      · exact lockstep_adoptRoot _
      · exact lockstep_throw _

theorem lockstep_createNode (env : Environment) (id : NodeId) : Lockstep (createNode env id) := by
  refine fun s => .get rfl ?_
  cases s.make env id with
  | ok made =>
    refine Lockstep.bind (lockstep_settleMade made) (fun value => ?_) s
    dsimp only
    split
    · split
      · exact Lockstep.bind (lockstep_adoptRoot _) fun _ => lockstep_setValue _ _
      · exact lockstep_setValue _ _
    · exact lockstep_setValue _ _
  | error error =>
    dsimp only
    split
    · exact lockstep_throw error s
    · exact Lockstep.bind (lockstep_recover error) (fun _ => lockstep_modifyTree _) s

theorem lockstep_createValues (env : Environment) : Lockstep (createValues env) := by
  refine fun s => .get rfl (lockstep_forM (fun id s => ?_) _ s)
  refine .get rfl ?_
  split
  · exact lockstep_pure () s
  · split
    · split
      · refine Lockstep.bind (lockstep_setValue _ _) (fun _ => ?_) s
        exact fun _ => .quiet rfl rfl rfl rfl
      · exact lockstep_createNode env id s
    · exact lockstep_createNode env id s

theorem lockstep_registerName (id : NodeId) : Lockstep (registerName id) := by
  refine fun s => .get_both ?_
  rw [show s.strict.naming? id = s.naming? id from rfl]
  cases s.naming? id with
  | none => exact lockstep_pure () s
  | some n =>
    have strictly : s.strict.context.register n.scope n.name n.value =
        (s.context.register n.scope n.name n.value).map Context.strict :=
      Context.register_strict _ _ _ _
    dsimp only
    rw [strictly]
    cases registered : s.context.register n.scope n.name n.value with
    | some context =>
      obtain rfl := Context.eq_of_register registered
      exact .quiet rfl rfl rfl rfl
    | none => exact lockstep_recover _ s

theorem lockstep_fillEntry (dictionary : ObjectId) (id : NodeId) :
    Lockstep (fillEntry dictionary id) := by
  refine fun s => .get rfl ?_
  dsimp only
  split
  · exact lockstep_pure () s
  · split
    · exact lockstep_pure () s
    · split
      · exact lockstep_modifyHeap _ s
      · exact lockstep_recover _ s

theorem lockstep_dictionaryFor (env : Environment) (owner : ObjectId) (property : String)
    (position : Position) : Lockstep (dictionaryFor env owner property position) := by
  refine fun s => .get rfl ?_
  dsimp only
  split
  · exact lockstep_pure _ s
  · split
    · refine Lockstep.bind (lockstep_alloc _) (fun created => ?_) s
      exact Lockstep.bind (lockstep_modifyHeap _) fun _ => lockstep_pure _
    · exact Lockstep.bind (lockstep_recover _) (fun _ => lockstep_pure _) s

theorem lockstep_fillProperty (env : Environment) (id : NodeId) (owner : ObjectId)
    (property : String) : Lockstep (fillProperty env id owner property) := by
  refine fun s => .get rfl ?_
  split
  · exact lockstep_modifyHeap _ s
  · refine Lockstep.bind (lockstep_dictionaryFor _ _ _ _) (fun dictionary => ?_) s
    cases dictionary with
    | some dictionary => exact lockstep_forM (lockstep_fillEntry dictionary) _
    | none => exact lockstep_pure ()

theorem lockstep_fillNode (env : Environment) (id : NodeId) : Lockstep (fillNode env id) := by
  refine fun s => .get rfl ?_
  split
  · exact lockstep_pure () s
  · refine .get rfl ?_
    split
    · exact lockstep_pure () s
    · dsimp only
      split
      · split
        · exact lockstep_fillProperty env id _ _ s
        · exact lockstep_pure () s
      · exact lockstep_pure () s
  · split
    · split
      · exact lockstep_forM (lockstep_fillEntry _) _ s
      · exact lockstep_pure () s
    · exact lockstep_pure () s

theorem lockstep_applyAttributes (env : Environment) (id : NodeId) (object : ObjectId) :
    Lockstep (applyAttributes env id object) := by
  refine fun s => .get rfl (lockstep_forM (fun a s => ?_) _ s)
  refine .get ?_ (lockstep_changeHeap _ s)
  rw [s.applyAttribute_strict]

theorem lockstep_applyChildren (env : Environment) (id : NodeId) (object : ObjectId) :
    Lockstep (applyChildren env id object) := by
  refine fun s => .get rfl ?_
  split
  · exact lockstep_pure () s
  · exact lockstep_pure () s
  · exact lockstep_forM (fun child s => .get rfl (lockstep_changeHeap _ s)) _ s

theorem lockstep_applyNode (env : Environment) (id : NodeId) : Lockstep (applyNode env id) := by
  refine fun s => .get rfl ?_
  split
  · exact lockstep_pure () s
  · have applies := fun object => Lockstep.bind (lockstep_applyAttributes env id object)
      fun _ => lockstep_applyChildren env id object
    dsimp only
    split
    · exact Lockstep.bind (lockstep_modifyHeap _) (fun _ => applies _) s
    · exact applies _ s

/-- Every pass runs in lockstep. -/
theorem lockstep_runPass (env : Environment) (pass : Pass) : Lockstep (runPass env pass) := by
  cases pass with
  | parentLinking => exact lockstep_modifyTree _
  | markupExpansion => exact lockstep_expandMarkup env
  | pruneIgnored => exact lockstep_modifyTree _
  | namescoping => exact lockstep_assignScopes env
  | valueCreation => exact lockstep_createValues env
  | nameRegistration => exact fun s => .get rfl (lockstep_forM lockstep_registerName _ s)
  | resourceDictionaryFill => exact fun s => .get rfl (lockstep_forM (lockstep_fillNode env) _ s)
  | propertyApplication => exact fun s => .get rfl (lockstep_forM (lockstep_applyNode env) _ s)

/-- All passes one after the other run in lockstep. -/
theorem lockstep_runPasses (env : Environment) : Lockstep (runPasses env) := by
  refine lockstep_forM (fun pass => Lockstep.bind (lockstep_runPass env pass) fun _ => ?_) _
  exact fun _ => .quiet rfl rfl rfl rfl

end Load

/-! ## Requests -/

namespace Request

theorem lockstep_steps (env : Environment) (request : Request) :
    Load.Lockstep (request.steps env) := by
  have created : Load.Lockstep (Loader.createThenRun env) :=
    Load.Lockstep.bind (Load.lockstep_createRoot env) fun _ => Load.lockstep_runPasses env
  cases request with
  | create markup => exact created
  | loadInto target markup => exact Load.lockstep_runPasses env
  | instantiate template => exact created

/-- A tolerant load begins with nothing recorded, and the strict load on its strict side. -/
theorem initial_lockstep (h : Heap) (request : Request) :
    (∃ error, ∀ tolerant, request.initial tolerant h = .error error) ∨
      ∃ s, request.initial true h = .ok s ∧ request.initial false h = .ok s.strict ∧
        s.context.tolerant = true ∧ s.context.diagnostics = [] := by
  cases request with
  | create markup =>
    simp only [initial]
    cases NodeTree.read markup with
    | error fault => exact .inl ⟨_, fun _ => rfl⟩
    | ok tree => exact .inr ⟨_, rfl, rfl, rfl, rfl⟩
  | loadInto target markup =>
    simp only [initial]
    cases NodeTree.read markup with
    | error fault => exact .inl ⟨_, fun _ => rfl⟩
    | ok tree => exact .inr ⟨_, rfl, rfl, rfl, rfl⟩
  | instantiate template =>
    simp only [initial]
    cases (h.object template).template with
    | none => exact .inl ⟨_, fun _ => rfl⟩
    | some content => exact .inr ⟨_, rfl, rfl, rfl, rfl⟩

/-- The report does not depend on whether failures are tolerated. -/
theorem outcome_strict (ended : Except LoadError Unit) (s : LoadState) :
    Run.outcome ⟨ended, s.strict⟩ = Run.outcome ⟨ended, s⟩ := rfl

/--
**A strict load does what a tolerant one does up to the first failure.** Whatever is asked for:

* a tolerant load that finishes reports all that it has recorded;
* if it records nothing, the strict load has the very same outcome: the same report or the same
  error, and the same heap, objects made in the same order;
* if it records anything, whether it finishes or is given up later, the strict load fails with
  the first failure recorded.
-/
theorem strict_follows_tolerant (env : Environment) (h : Heap) (request : Request) :
    (∀ report, (request.outcome env true h).result = .ok report →
      report.diagnostics = request.recorded env true h) ∧
    (request.recorded env true h = [] →
      request.outcome env false h = request.outcome env true h) ∧
    (∀ first rest, request.recorded env true h = first :: rest →
      (request.outcome env false h).result = .error first) := by
  refine ⟨fun report => diagnostics_of_report, ?_⟩
  simp only [outcome_eq, recorded, run]
  obtain ⟨error, idle⟩ | ⟨s, begins, strictly, tolerant, none_yet⟩ := initial_lockstep h request
  · simp [idle, Except.map]
  rw [begins, strictly]
  simp only [Except.map, Run.ofStep]
  obtain ⟨-, -, same, stops⟩ := lockstep_steps env request s
  refine ⟨fun none_now => ?_, fun first rest some_now => ?_⟩
  · rw [same tolerant none_yet none_now]
    exact outcome_strict _ _
  · have stopped := stops tolerant none_yet first rest some_now
    rcases ran : (request.steps env).start s.strict with ⟨_ | _, _⟩ <;> rw [ran] at stopped <;>
      cases stopped
    rfl

end Request

end MarkupLoader
