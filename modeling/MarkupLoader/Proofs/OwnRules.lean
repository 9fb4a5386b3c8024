import MarkupLoader.Heap.Liveness
import MarkupLoader.Load.Component
import MarkupLoader.Proofs.Building
import MarkupLoader.Proofs.Turning
import MarkupLoader.Proofs.Undisturbed
import MarkupLoader.Proofs.Valued

/-!
# Loads keep their own rules

A load that broke its own rules would say so: a node has been given two values, an element has no
tree to go into, the passes are over and there is nothing that the load is about. **None of this
happens**, with one exception. A load that has to make its object makes none where the outermost
element is a language element that stands for a scalar, and it is an internal error that ends it
there.

* **A careful step** (`Load.Careful`) only fails in ways that a load may pass over. All passes but
  the creation of values are careful wherever they start, and that one is as long as no node has a
  value yet, since it comes to no node twice (`mild_createList`).
* **What the load is about** is known once the values are there (`Populates.about`), and the later
  passes do not forget it.
* **What templates keep** are documents of their own (`Heap.Documents`), and every load leaves it at
  that, so the same is true of any number of loads from the content of templates, one inside the
  other or one after the other.

Main results: `mild_createList`, `careful_furnish`, `documents_outcome`, `makesScalar_of_internal`,
`Loader.never_internal`.
-/

namespace MarkupLoader

namespace Load

/-! ## Careful steps -/

variable {α β γ : Type} {f : LoadState → γ} {s t : LoadState}

/-- A step from a state leaves alone what is read off the state, and fails in no fatal way. -/
structure CarefulAt (f : LoadState → γ) (s : LoadState) (step : Load α) : Prop where
  same : f (step.start s).2 = f s
  mild : ∀ error, (step.start s).1 = .error error → error.isFatal = false

/-- A step is careful from every state. -/
def Careful (f : LoadState → γ) (step : Load α) : Prop := ∀ s, CarefulAt f s step

theorem CarefulAt.change {step : Load α} {a : α} (ran : step.start s = (.ok a, t))
    (same : f t = f s) : CarefulAt f s step where
  same := by rwa [ran]
  mild _ failed := by
    rw [ran] at failed
    cases failed

theorem CarefulAt.pure (a : α) : CarefulAt f s (Pure.pure a : Load α) := .change rfl rfl

theorem CarefulAt.get {next : LoadState → Load β} (careful : CarefulAt f s (next s)) :
    CarefulAt f s (MonadState.get >>= next) := ⟨careful.same, careful.mild⟩

theorem CarefulAt.bind {step : Load α} {next : α → Load β} (first : CarefulAt f s step)
    (second : ∀ a, Careful f (next a)) : CarefulAt f s (step >>= next) := by
  obtain ⟨same, mild⟩ := first
  unfold Careful at second
  rcases ran : step.start s with ⟨error | a, t⟩ <;> rw [ran] at same mild
  · have run : (step >>= next).start s = (.error error, t) := start_bind_of_error ran
    refine ⟨by rwa [run], fun other failed => ?_⟩
    rw [run] at failed
    cases failed
    exact mild _ rfl
  · have run : (step >>= next).start s = (next a).start t := start_bind_of_ok ran
    obtain ⟨same', mild'⟩ := second a t
    exact ⟨by rw [run, same', same], by rwa [run]⟩

theorem Careful.bind {step : Load α} {next : α → Load β} (first : Careful f step)
    (second : ∀ a, Careful f (next a)) : Careful f (step >>= next) :=
  fun s => (first s).bind second

theorem careful_forM {step : α → Load Unit} {list : List α}
    (each : ∀ a ∈ list, Careful f (step a)) : Careful f (list.forM step) := by
  induction list with
  | nil => exact fun _ => .pure ()
  | cons a rest ih =>
    refine (each a List.mem_cons_self).bind fun _ => ih fun b mem => ?_
    exact each b (List.mem_cons_of_mem _ mem)

theorem careful_foldlM {step : β → α → Load β} (each : ∀ b a, Careful f (step b a))
    (list : List α) (b : β) : Careful f (list.foldlM step b) := by
  induction list generalizing b with
  | nil => exact fun _ => .pure b
  | cons a rest ih => exact (each b a).bind ih

theorem Careful.turns {H : Heap → Heap → Prop} {step : Load α}
    (careful : Careful LoadState.heap step) (chains : Heap.Chains H) : Turns H step := fun s => by
  rw [(careful s).same]
  exact chains.refl s.heap

section Recording

variable (recorded : ∀ s diagnostics, f (s.withRecord diagnostics) = f s)

include recorded

theorem careful_recover {error : LoadError} (passes : error.isFatal = false) :
    Careful f (recover error) := by
  intro s
  have ran := start_recover error s
  by_cases recovers : s.context.tolerant && !error.isFatal
  · rw [Context.recover, if_pos recovers] at ran
    exact .change ran (recorded s _)
  · rw [Context.recover, if_neg recovers] at ran
    refine ⟨by rw [ran], fun other failed => ?_⟩
    rw [ran] at failed
    cases failed
    exact passes

/-! ## Before the values are created -/

omit recorded in
theorem careful_modifyTree (change : NodeTree → NodeTree)
    (blind : ∀ s tree, f { s with tree := tree } = f s) : Careful f (modifyTree change) :=
  fun s => .change rfl (blind s _)

theorem careful_expandMarkup (env : Environment)
    (blind : ∀ s tree, f { s with tree := tree } = f s) : Careful f (expandMarkup env) := by
  have attributes : ∀ id rest done, Careful f (expandAttributes env id done rest) := by
    intro id rest
    induction rest with
    | nil => exact fun done => careful_modifyTree _ blind
    | cons a rest ih =>
      refine fun done s => .get ?_
      cases expanded : s.tree.expandAttribute env.extensions id a with
      | ok b => exact ih _ s
      | error error =>
        refine Careful.bind (careful_modifyTree _ blind) (fun _ => ?_) s
        exact (careful_recover recorded (NodeTree.isFatal_expandAttribute expanded)).bind
          fun _ => ih done
  refine fun s => .get (careful_forM (fun id _ s => .get ?_) s)
  split
  · exact .pure ()
  · exact attributes id _ [] s

omit recorded in
theorem careful_assignScopes (env : Environment)
    (blind : ∀ s scopes nodeScopes, f { s with context := { s.context with
      scopes := scopes, nodeScopes := nodeScopes } } = f s) : Careful f (assignScopes env) := by
  have content : ∀ opened template around, Careful f (contentScope opened template around) := by
    intro opened template around s
    unfold contentScope
    split
    · exact .pure _
    · exact .change rfl (blind s _ _)
  have one : ∀ rootScope opened id, Careful f (assignScope env rootScope opened id) := by
    refine fun rootScope opened id s => .get ?_
    cases (s.node id).parent with
    | none => exact .pure _
    | some parent =>
      have gives : ∀ found : ScopeId × Table NodeId ScopeId, Careful f (do
          modifyContext (·.setNodeScope id found.1)
          return found.2) := fun found =>
        Careful.bind (fun s => .change rfl (blind s _ _)) fun _ _ => .pure _
      dsimp only
      split
      · exact Careful.bind (content _ _ _) gives s
      · exact CarefulAt.bind (.pure _) gives
  refine fun s => .get (CarefulAt.bind (.change rfl (blind s _ _)) fun _ => ?_)
  exact Careful.bind (careful_foldlM (one _) _ _) fun _ _ => .pure ()

/-! ## After the values have been created -/

variable (heaps : ∀ s heap, f { s with heap := heap } = f s)

include heaps

theorem careful_changeHeap {outcome : Except LoadError Heap}
    (passes : ∀ error, outcome = .error error → error.isFatal = false) :
    Careful f (changeHeap outcome) := by
  cases outcome with
  | ok heap => exact fun s => .change rfl (heaps s heap)
  | error error => exact careful_recover recorded (passes error rfl)

theorem careful_fillDictionary (dictionary : ObjectId) (nodes : List NodeId) :
    Careful f (fillDictionary dictionary nodes) := by
  refine careful_forM fun id _ s => .get ?_
  dsimp only
  split
  · exact .pure ()
  · split
    · exact .pure ()
    · split
      · exact .change rfl (heaps s _)
      · exact careful_recover recorded rfl s

theorem careful_fillProperty (env : Environment) (id : NodeId) (owner : ObjectId)
    (property : String) : Careful f (fillProperty env id owner property) := by
  have made : ∀ position, Careful f (dictionaryFor env owner property position) := by
    refine fun position s => .get ?_
    dsimp only
    split
    · exact .pure _
    · split
      · exact .change rfl ((heaps _ _).trans (heaps s _))
      · exact Careful.bind (careful_recover recorded rfl) (fun _ _ => .pure _) s
  refine fun s => .get ?_
  split
  · exact .change rfl (heaps s _)
  · refine Careful.bind (made _) (fun dictionary => ?_) s
    cases dictionary with
    | some dictionary => exact careful_fillDictionary recorded heaps dictionary _
    | none => exact fun _ => .pure ()

theorem careful_fillNode (env : Environment) (id : NodeId) : Careful f (fillNode env id) := by
  refine fun s => .get ?_
  split
  · exact .pure ()
  · refine .get ?_
    split
    · exact .pure ()
    · dsimp only
      split
      · split
        · exact careful_fillProperty recorded heaps env id _ _ s
        · exact .pure ()
      · exact .pure ()
  · split
    · split
      · exact careful_fillDictionary recorded heaps _ _ s
      · exact .pure ()
    · exact .pure ()

theorem careful_applyNode (env : Environment) (id : NodeId) : Careful f (applyNode env id) := by
  refine fun s => .get ?_
  split
  · exact .pure ()
  case h_2 object _ =>
    have attributes : Careful f (applyAttributes env id object) := by
      refine fun s => .get (careful_forM (fun a _ s => .get ?_) s)
      exact careful_changeHeap recorded heaps
        (fun _ failed => (ordinary_applyAttribute failed).fatal) s
    have children : Careful f (applyChildren env id object) := by
      refine fun s => .get ?_
      split
      · exact .pure ()
      · exact .pure ()
      · refine careful_forM (fun child _ s => .get ?_) s
        exact careful_changeHeap recorded heaps
          (fun _ failed => (ordinary_applyChild failed).fatal) s
    have applies := attributes.bind fun _ => children
    dsimp only
    split
    · exact Careful.bind (fun s => .change rfl (heaps s _)) (fun _ => applies) s
    · exact applies s

end Recording

theorem careful_completePass {env : Environment} {pass : Pass}
    (careful : Careful f (runPass env pass))
    (blind : ∀ s, f { s with context := s.context.completed pass } = f s) :
    Careful f (completePass env pass) :=
  careful.bind fun _ s => .change rfl (blind s)

/-- **Preparing a document** makes no objects, and fails only where a load may pass over it. -/
theorem careful_prepare (env : Environment) : Careful LoadState.heap (prepare env) := by
  refine careful_forM fun pass mem => careful_completePass ?_ fun _ => rfl
  have recorded : ∀ (s : LoadState) diagnostics, (s.withRecord diagnostics).heap = s.heap :=
    fun _ _ => rfl
  simp only [List.mem_cons, List.not_mem_nil, or_false] at mem
  rcases mem with rfl | rfl | rfl | rfl
  · exact careful_modifyTree _ fun _ _ => rfl
  · exact careful_expandMarkup recorded env fun _ _ => rfl
  · exact careful_modifyTree _ fun _ _ => rfl
  · exact careful_assignScopes env fun _ _ _ => rfl

/-- **The later passes** do not forget what the load is about, and fail only where a load may pass
over it. -/
theorem careful_furnish (env : Environment) :
    Careful (fun s => s.context.rootElement) (furnish env) := by
  refine careful_forM fun pass mem => careful_completePass ?_ fun _ => rfl
  have recorded : ∀ (s : LoadState) diagnostics,
      (s.withRecord diagnostics).context.rootElement = s.context.rootElement := fun _ _ => rfl
  have heaps : ∀ (s : LoadState) heap,
      ({ s with heap := heap } : LoadState).context.rootElement = s.context.rootElement :=
    fun _ _ => rfl
  simp only [List.mem_cons, List.not_mem_nil, or_false] at mem
  rcases mem with rfl | rfl | rfl
  · refine fun s => .get (careful_forM (fun id _ s => .get ?_) s)
    split
    · exact .pure ()
    · split
      case h_1 registered =>
        refine .change rfl ?_
        rw [Context.eq_of_register registered]
      case h_2 => exact careful_recover recorded rfl s
  · exact fun s => .get (careful_forM (fun id _ => careful_fillNode recorded heaps env id) s)
  · exact fun s => .get (careful_forM (fun id _ => careful_applyNode recorded heaps env id) s)

/-! ## Creating values -/

section Creating

variable {env : Environment}

/-- **The creation of values fails in no fatal way**, as long as it comes to no node twice. -/
theorem mild_createList {ids : List NodeId} (nodup : ids.Nodup)
    (fresh : ∀ id ∈ ids, s.context.value? id = none) {error : LoadError}
    (failed : ((ids.forM (createValue env)).start s).1 = .error error) :
    error.isFatal = false := by
  induction ids generalizing s with
  | nil => cases failed
  | cons id rest ih =>
    obtain ⟨apart, nodup⟩ := List.nodup_cons.1 nodup
    obtain ⟨here, later⟩ := List.forall_mem_cons.1 fresh
    rw [start_forM_cons, start_bind] at failed
    rcases start_createValue_cases env here with ⟨next, ran, creates⟩ | ⟨other, ran, broken, -⟩
    · rw [ran] at failed
      refine ih nodup (fun other mem => ?_) failed
      rw [creates.value?_of_ne fun same => apart (same ▸ mem)]
      exact later other mem
    · rw [ran] at failed
      cases failed
      exact LoadState.isFatal_make broken

end Creating

/-- The passes up to the creation of values fail in no fatal way. -/
theorem mild_populate {env : Environment} {tolerant : Bool} (proper : s.tree.Proper)
    (fresh : s.Fresh) {error : LoadError}
    (failed : ((populate env).start (sided tolerant s)).1 = .error error) :
    error.isFatal = false := by
  have untouched := fresh.untouched
  rw [populate, start_bind] at failed
  rcases ran : (prepare env).start (sided tolerant s) with ⟨other | _, t⟩
  · rw [ran] at failed
    cases failed
    exact (careful_prepare env _).mild error (congrArg Prod.fst ran)
  · -- What has been prepared is what a tolerant load prepares, and no node has a value there.
    obtain ⟨before, prepared, prepares⟩ :=
      start_prepare env proper untouched.tolerant untouched.scopes untouched.nodeScopes
    have lockstep : Lockstep (prepare env) := lockstep_forM (lockstep_completePass env) _
    obtain ⟨u, ran', side, -, -⟩ := ok_of_sided lockstep untouched.tolerant fresh.none_yet ran
    obtain rfl : before = u := congrArg Prod.snd (prepared.symm.trans ran')
    have tree : t.tree = before.tree := by rw [side, tree_sided]
    have properBefore : t.tree.Proper := tree ▸ (prepares.proper proper).1
    have bare : t.context.values = .empty := by
      rw [side, values_sided, prepares.values, untouched.values]
    rw [ran] at failed
    change ((completePass env .valueCreation).start t).1 = .error error at failed
    have created : ((createValues env).start t).1 = .error error := by
      rcases ended : (createValues env).start t with ⟨other | _, u⟩
      all_goals
        have ran : (runPass env .valueCreation).start t = _ := ended
        rw [completePass] at failed
      · rwa [start_bind_of_error ran] at failed
      · rw [start_bind_of_ok ran] at failed
        cases failed
    refine mild_createList (NodeTree.nodup_postorder properBefore) (fun id _ => ?_) created
    rw [Context.value?, bare]
    rfl

end Load

/-! ## What templates keep -/

/-- A document that is whole: it is a proper tree, and its first node is an outermost element. -/
structure NodeTree.Whole (t : NodeTree) : Prop where
  proper : t.Proper
  root : (t.node NodeTree.root).kind = .root

theorem NodeTree.whole_of_read {markup : String} {tree : NodeTree}
    (read : NodeTree.read markup = .ok tree) : tree.Whole :=
  ⟨(proper_of_read read).1, (shaped_of_read read).root⟩

theorem NodeTree.whole_extract (t : NodeTree) (id : NodeId) : (t.extract id).Whole :=
  ⟨proper_ofForest _ _ _, rfl⟩

/-- What templates keep are whole documents. -/
def Heap.Documents (h : Heap) : Prop :=
  ∀ id content, (h.object id).template = some content → content.tree.Whole

namespace Heap

variable {h : Heap}

theorem documents_empty : Heap.empty.Documents := by
  intro id content keeps
  cases keeps

/-- An object that keeps no other document than before is changed. -/
theorem Documents.modify (documents : h.Documents) (id : ObjectId) {change : Object → Object}
    (content : ∀ o, (change o).template.map (·.tree) = o.template.map (·.tree)) :
    (h.modify id change).Documents := by
  intro other kept keeps
  have same : ((h.modify id change).object other).template.map (·.tree) =
      (h.object other).template.map (·.tree) := by
    by_cases here : other = id
    · subst here
      by_cases inside : other < h.size
      · rw [object_modify change inside, content]
      · have outside := Nat.le_of_not_lt inside
        rw [object_of_size_le outside, object_of_size_le (by rwa [size_modify])]
    · rw [object_modify_of_ne change here]
  rw [keeps] at same
  obtain ⟨old, was, tree⟩ := Option.map_eq_some_iff.1 same.symm
  have tree : old.tree = kept.tree := tree
  exact tree ▸ documents other old was

theorem Documents.alloc (documents : h.Documents) {o : Object}
    (new : ∀ content, o.template = some content → content.tree.Whole) :
    (h.alloc o).2.Documents := by
  intro other kept keeps
  rcases Nat.lt_trichotomy other h.size with before | here | behind
  · rw [object_alloc_of_lt before] at keeps
    exact documents other kept keeps
  · rw [here, show h.size = (h.alloc o).1 from rfl, object_alloc] at keeps
    exact new kept keeps
  · rw [object_of_size_le (by rw [size_alloc]; exact behind)] at keeps
    cases keeps

/-- Filling dictionaries and applying properties leave templates what they keep. -/
theorem filling_documents : Filling fun h after => h.Documents → after.Documents where
  refl _ := id
  trans _ _ _ first second := second ∘ first
  entry _ id _ _ documents := documents.modify id fun _ => rfl
  property _ id _ _ _ _ _ documents := documents.modify id fun _ => rfl
  made _ id _ _ _ _ _ documents :=
    (documents.alloc fun _ keeps => by cases keeps).modify id fun _ => rfl

theorem assigning_documents : Assigning fun h after => h.Documents → after.Documents where
  refl _ := id
  trans _ _ _ first second := second ∘ first
  set _ id _ _ documents := documents.modify id fun _ => rfl
  item _ id _ documents := documents.modify id fun _ => rfl
  scope _ id _ documents := documents.modify id fun o => by cases o.template <;> rfl

end Heap

namespace LoadState

/-- What a template keeps that a node has made is a whole document. -/
theorem Makes.whole {s : LoadState} {env : Environment} {id : NodeId} {o : Object}
    (makes : s.Makes env id o) {content : Template} (keeps : o.template = some content) :
    content.tree.Whole := by
  have template : o.kind = .template := by
    refine Decidable.byContradiction fun other => ?_
    rw [makes.plain other] at keeps
    cases keeps
  have given := makes.content template
  rw [keeps] at given
  unfold LoadState.templateContent at given
  split at given <;> cases given
  exact s.tree.whole_extract _

end LoadState

theorem Heap.making_documents (env : Environment) :
    Heap.Making env fun h after => h.Documents → after.Documents where
  refl _ := id
  trans _ _ _ first second := second ∘ first
  made _ _ _ makes documents := documents.alloc fun _ => makes.whole

namespace Load

/-- All passes leave it at whole documents. -/
theorem turns_documents_runPasses (env : Environment) :
    Turns (fun h after => h.Documents → after.Documents) (runPasses env) := by
  intro s
  have making := Heap.making_documents env
  have chains := making.toChains
  have prepares := (careful_prepare env).turns chains
  have creates : Turns _ (Load.completePass env .valueCreation) :=
    Turns.completePass chains (turns_createValues making)
  have fills := (settles_fill Heap.filling_documents env).turns
  have applies : Turns _ (Load.completePass env .propertyApplication) :=
    Turns.completePass chains (settles_applyProperties env Heap.assigning_documents).turns
  have furnishes : Turns (fun h after => h.Documents → after.Documents) (furnish env) := by
    intro s
    rw [start_furnish]
    refine fills.bind chains (fun _ => turns_forM chains fun pass mem => ?_) s
    obtain rfl := List.mem_singleton.1 mem
    exact applies
  rw [start_runPasses_populate]
  exact (prepares.bind chains fun _ => creates).bind chains (fun _ => furnishes) s

end Load

/-! ## Requests -/

namespace Request

variable {env : Environment} {tolerant : Bool} {h : Heap} {request : Request} {s t : LoadState}

theorem whole_initial (documents : h.Documents) (begins : request.initial tolerant h = .ok s) :
    s.tree.Whole ∧ s.heap = h := by
  cases request with
  | create markup =>
    simp only [initial] at begins
    cases read : NodeTree.read markup with
    | error fault =>
      rw [read] at begins
      cases begins
    | ok tree =>
      rw [read] at begins
      cases begins
      exact ⟨NodeTree.whole_of_read read, rfl⟩
  | loadInto target markup =>
    simp only [initial] at begins
    cases read : NodeTree.read markup with
    | error fault =>
      rw [read] at begins
      cases begins
    | ok tree =>
      rw [read] at begins
      cases begins
      exact ⟨NodeTree.whole_of_read read, rfl⟩
  | instantiate template =>
    simp only [initial] at begins
    cases keeps : (h.object template).template with
    | none =>
      rw [keeps] at begins
      cases begins
    | some content =>
      rw [keeps] at begins
      cases begins
      exact ⟨documents template content keeps, rfl⟩

theorem fits_of_documents (documents : h.Documents) (within : request.Within h) :
    request.Fits h := by
  cases request with
  | create markup => trivial
  | loadInto target markup => exact within
  | instantiate template => exact fun content keeps => (documents _ content keeps).proper

/-- **A load leaves it at whole documents**, whatever is asked for and wherever it ends. -/
theorem documents_outcome (documents : h.Documents) (env : Environment) (tolerant : Bool)
    (request : Request) : (request.outcome env tolerant h).heap.Documents := by
  have making := Heap.making_documents env
  have passes := Load.turns_documents_runPasses env
  have created := (Load.turns_createRoot making).bind making.toChains fun _ => passes
  have steps : Load.Turns (fun h after => h.Documents → after.Documents) (request.steps env) := by
    cases request with
    | create markup => exact created
    | loadInto target markup => exact passes
    | instantiate template => exact created
  rw [outcome_eq, run]
  cases begins : request.initial tolerant h with
  | error error => exact documents
  | ok s =>
    obtain ⟨-, rfl⟩ := whole_initial documents begins
    dsimp only [Except.map]
    rw [Run.heap_outcome]
    exact steps s documents

/-! ## Breaking off -/

/-- A load has to make its object, and the outermost element stands for a scalar. -/
structure MakesScalar (tolerant : Bool) (h : Heap) (request : Request) : Prop where
  target : request.target? = none
  scalar : ∃ start, request.initial tolerant h = .ok start ∧ (start.node NodeTree.root).IsScalar

/-- Before the first pass a load fails in no fatal way, unless what it makes is a scalar. -/
theorem opening_failed (begins : request.initial tolerant h = .ok s) {error : LoadError}
    (ran : (request.opening env).start s = (.error error, t)) :
    error.isFatal = false ∨ request.MakesScalar tolerant h ∧
      ∃ value, error = .internal ("root element must be an object, got " ++ s.heap.kindName value) := by
  have created : request.target? = none → (Load.createRoot env).start s = (.error error, t) →
      error.isFatal = false ∨ request.MakesScalar tolerant h ∧ ∃ value,
        error = .internal ("root element must be an object, got " ++ s.heap.kindName value) := by
    intro none ran
    have fresh := (rooted_initial begins).2.trans none
    -- An object that takes arguments is made later on, so only the other one can be refused here.
    cases takes : s.tree.arguments? NodeTree.root with
    | some holder =>
      rw [Load.start_createRoot_later fresh takes] at ran
      cases ran
    | none =>
      rw [Load.start_createRoot_new fresh takes] at ran
      cases made : s.make env NodeTree.root with
      | error reason =>
        rw [made] at ran
        cases ran
        exact .inl (LoadState.isFatal_make made)
      | ok what =>
        rw [made] at ran
        cases what with
        | object o => cases ran
        | scalar value =>
          cases ran
          exact .inr ⟨⟨none, s, begins, LoadState.isScalar_of_make made⟩, value, rfl⟩
  cases request with
  | create markup => exact created rfl ran
  | loadInto target markup => cases ran
  | instantiate template => exact created rfl ran

/-- A load that has all its values is about something, unless what it makes is a scalar. -/
theorem Populated.about_or (populated : request.Populated env tolerant h s)
    (documents : h.Documents) (within : request.Within h) :
    s.context.rootElement ≠ none ∨ request.MakesScalar tolerant h := by
  have fits := fits_of_documents documents within
  obtain ⟨start, first, before, created, begins, opens, rooted, populates⟩ :=
    populated.rooted fits
  obtain ⟨whole, -⟩ := whole_initial documents begins
  have proper := opens.proper
  -- The outermost node is the element that it was at first.
  have node : first.node NodeTree.root = start.node NodeTree.root :=
    congrArg (·.node NodeTree.root) rooted.tree
  have name := (populates.prepares.kind proper NodeTree.root).2
  rw [node] at name
  have object : (s.node NodeTree.root).isObject = true := by
    rw [populates.isObject proper, node, LoadState.node, NodeBody.isObject, whole.root]
  obtain ⟨value, has⟩ := populates.valued proper opens.fresh rooted.about .top object
  obtain ⟨same, given⟩ := populates.about proper opens.fresh rooted.about object
  cases is : value.object? with
  | some n =>
    refine .inl ?_
    rw [← same, Context.object?, has, Option.bind_some, is]
    exact Option.some_ne_none n
  | none =>
    cases target : request.target? with
    | some target' =>
      refine .inl ?_
      rw [given target' (rooted.given target' target)]
      exact Option.some_ne_none target'
    | none =>
      have covering := populates.covering proper opens.fresh rooted.about
      obtain ⟨language, known⟩ :=
        covering.scalar _ value ((populates.value? _).symm.trans has) is
      rw [name] at language known
      exact .inr ⟨target, start, begins, language, known⟩

/-- The steps of a load fail in no fatal way, unless what they make is a scalar. -/
theorem steps_failed (documents : h.Documents) (within : request.Within h)
    (begins : request.initial tolerant h = .ok s) {error : LoadError}
    (ran : (request.steps env).start s = (.error error, t)) :
    error.isFatal = false ∨ request.MakesScalar tolerant h ∧
      ∃ value, error = .internal ("root element must be an object, got " ++ s.heap.kindName value) := by
  obtain ⟨b, sided, opens⟩ := initial_sided (fits_of_documents documents within) begins
  rw [start_steps] at ran
  -- It has failed at its own object, up to the creation of values, or after that.
  rcases opened : (request.opening env).start s with ⟨other | _, first⟩
  · rw [Load.start_bind_of_error (Load.start_bind_of_error opened)] at ran
    cases ran
    exact opening_failed begins opened
  · refine .inl ?_
    obtain ⟨c, rfl, opens⟩ := opening_sided opens (sided ▸ opened)
    have goesOn : (request.opening env >>= fun _ => Load.populate env).start s = _ :=
      Load.start_bind_of_ok opened
    rcases passed : (Load.populate env).start (Load.sided tolerant c) with ⟨other | _, u⟩
    · rw [Load.start_bind_of_error (goesOn.trans passed)] at ran
      cases ran
      exact Load.mild_populate opens.proper opens.fresh (congrArg Prod.fst passed)
    · rw [Load.start_bind_of_ok (goesOn.trans passed)] at ran
      exact (Load.careful_furnish env u).mild error (congrArg Prod.fst ran)

/-- A load that has run all its steps is about something, unless what it makes is a scalar. -/
theorem steps_about (documents : h.Documents) (within : request.Within h)
    (begins : request.initial tolerant h = .ok s)
    (ran : (request.steps env).start s = (.ok (), t)) :
    t.context.rootElement ≠ none ∨ request.MakesScalar tolerant h := by
  rw [start_steps] at ran
  obtain ⟨_, u, comes, ran⟩ := Load.ok_of_start_bind ran
  have populated : request.Populated env tolerant h u := ⟨s, begins, comes⟩
  -- The later passes do not change what the load is about.
  have about := (Load.careful_furnish env u).same
  rw [ran] at about
  exact (populated.about_or documents within).imp_left fun known none =>
    known (about.symm.trans none)

/-- **Why a load breaks its own rules**: it has to make a scalar, and says so at once, or when the
passes are over. -/
theorem makesScalar_of_internal (documents : h.Documents) (within : request.Within h)
    {reason : String}
    (broken : (request.outcome env tolerant h).result = .error (.internal reason)) :
    request.MakesScalar tolerant h ∧
      (reason = "pipeline finished without a root element" ∨
        ∃ value, reason = "root element must be an object, got " ++ h.kindName value) := by
  rw [outcome_eq, run] at broken
  cases begins : request.initial tolerant h with
  | error error =>
    rw [begins] at broken
    unfold initial at begins
    split at begins <;> split at begins <;> cases begins <;> cases broken
  | ok s =>
    rw [begins] at broken
    obtain ⟨-, rfl⟩ := whole_initial documents begins
    rcases ran : (request.steps env).start s with ⟨error | _, t⟩
    · simp only [Except.map, Run.ofStep, ran, Run.outcome] at broken
      cases broken
      rcases steps_failed documents within begins ran with mild | ⟨scalar, value, is⟩
      · cases mild
      · cases is
        exact ⟨scalar, .inr ⟨value, rfl⟩⟩
    · simp only [Except.map, Run.ofStep, ran, Run.outcome, LoadState.report] at broken
      split at broken
      · cases broken
      case h_2 none =>
        cases broken
        exact ⟨(steps_about documents within begins ran).resolve_left (absurd none), .inl rfl⟩

end Request

/-! ## Any number of loads -/

/-- **The heaps that arise**: objects are made, changed and dropped in any order, and loads work on
what there is, each with registries of its own. -/
inductive Heap.Arises : Heap → Prop
  | empty : Arises .empty
  | made {h : Heap} (arises : Arises h) (d : TypeDescriptor) : Arises (h.alloc (.ofType d)).2
  | set {h : Heap} (arises : Arises h) (id : ObjectId) (property : String) (value : Value) :
    Arises (h.set id property value)
  | item {h : Heap} (arises : Arises h) (id : ObjectId) (value : Value) :
    Arises (h.addItem id value)
  | entry {h : Heap} (arises : Arises h) (id : ObjectId) (key : String) (value : Value) :
    Arises (h.putEntry id key value)
  | dropped {h : Heap} (arises : Arises h) (roots : List ObjectId) : Arises (h.retain roots)
  | loaded {h : Heap} (arises : Arises h) (env : Environment) (tolerant : Bool)
    (request : Request) : Arises (request.outcome env tolerant h).heap

/-- Whatever has been loaded before, templates keep whole documents. -/
theorem Heap.Arises.documents {h : Heap} (arises : h.Arises) : h.Documents := by
  induction arises with
  | empty => exact documents_empty
  | made _ d ih => exact ih.alloc fun _ keeps => by cases keeps
  | set _ id property value ih => exact assigning_documents.set _ id property value ih
  | item _ id value ih => exact assigning_documents.item _ id value ih
  | entry _ id key value ih => exact filling_documents.entry _ id key value ih
  | dropped _ roots ih => exact ih
  | loaded _ env tolerant request ih => exact Request.documents_outcome ih env tolerant request

/--
**Loads do not break their own rules.** Whatever has been loaded before, strictly or not, from
markup, for a component or from the content of templates that themselves come from loads: no load
ends with an internal error, except one that has to make its object where the outermost element is
a language element that stands for a scalar. A component is loaded into an object that is there, so
that it makes none.

The reader of documents comes to no element without a tree to put it into, either.
-/
theorem Loader.never_internal {h : Heap} (arises : h.Arises) (l : Loader) :
    (∀ (request : Request) (tolerant : Bool), request.Within h → ∀ reason,
      (request.outcome l.environment tolerant h).result = .error (.internal reason) →
        request.MakesScalar tolerant h) ∧
    (∀ (r : Resolver) (cache : ResourceCache) (target : ObjectId) (c : Component),
      target < h.size → ∀ reason,
        (l.loadComponent r cache h target c).1.result ≠ .error (.internal reason)) ∧
    ∀ markup reason, Builder.read markup ≠ .error (.internal reason) := by
  have documents := arises.documents
  refine ⟨fun request tolerant within reason broken => ?_,
    fun r cache target c inside reason broken => ?_, Builder.read_ne_internal⟩
  · exact (Request.makesScalar_of_internal documents within broken).1
  · unfold loadComponent at broken
    split at broken
    case h_1 markup _ _ =>
      -- The load is into an object, so that there is none to be made.
      have within : (Request.loadInto target markup).Within h := inside
      have broken' : ((Request.loadInto target markup).outcome l.environment l.tolerant h).result =
          .error (.internal reason) := broken
      cases (Request.makesScalar_of_internal documents within broken').1.target
    case h_2 error _ missing =>
      unfold Resolver.resolveMarkup at missing
      split at missing <;> cases missing
      cases broken

/-- The language element for null makes no object, so that a load that has to make one breaks off.
Loading a component goes on to work in a heap with a template in it. -/
theorem Loader.never_internal_null :
    let l : Loader := ⟨⟨.controls, .builtIn⟩, true⟩
    let page : Request := .create
      "<DataTemplate xmlns=\"http://xamarin.com/schemas/2014/forms\"><Label/></DataTemplate>"
    let h := (page.outcome l.environment true .empty).heap
    let markup := "<x:Null xmlns:x=\"http://schemas.microsoft.com/winfx/2009/xaml\"/>"
    let null : Request := .create markup
    let component : Component := ⟨"App.Page", ⟨"app", [], false⟩⟩
    h.Arises ∧ 0 < h.size ∧ null.Within h ∧
      (null.outcome l.environment true h).result =
        .error (.internal "root element must be an object, got null") ∧
      null.MakesScalar true h ∧
      ∀ reason, (l.loadComponent ⟨none⟩ .empty h 0 component).1.result ≠
        .error (.internal reason) := by
  intro l page h markup null component
  have arises : h.Arises := .loaded .empty l.environment true page
  have inside : 0 < h.size := by decide +kernel
  have broken : (null.outcome l.environment true h).result =
      .error (.internal "root element must be an object, got null") := by
    let tree : NodeTree := ⟨#[⟨⟨.root, ⟨language2009, "Null"⟩, [], [],
      [("x", language2009)], ⟨1, 1⟩⟩, [], none⟩], []⟩
    have ended : (Run.ofStep (createThenRun l.environment) (unrooted h tree true)).ended =
        .error (.internal "root element must be an object, got null") := by
      decide +kernel
    have read : NodeTree.read markup = .ok tree := NodeTree.read_of_toOption (by decide +kernel)
    rw [Request.outcome_eq, Request.run_create read]
    simp only [Run.outcome, ended]
  obtain ⟨requests, components, -⟩ := never_internal arises l
  exact ⟨arises, inside, trivial, broken, requests null true trivial _ broken,
    components ⟨none⟩ .empty 0 component inside⟩

end MarkupLoader
