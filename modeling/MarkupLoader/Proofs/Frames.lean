import MarkupLoader.Load.Passes
import MarkupLoader.Proofs.Failing

/-!
# What a load leaves alone in its context

Most of what a load does is seen in its tree, its values and its heap. **A frame** (`Load.Frame`)
is a relation between states that does not look at these: whatever is done to them, and whatever
failure is recorded that is not about a name given twice, the states before and after are related. A
step that only does such things **stays within** every frame (`Load.Stays`), also where it fails.
The last passes only work on the heap: a relation need not overlook more than that to be a frame for
them (`Load.HeapFrame`).

Names are registered by one pass and scopes are made by another, and every other pass stays within
every frame. So what is true of the scopes, of the objects around the document and of the names
given twice is settled by these two passes.

Main results: `stays_expandMarkup`, `stays_createValues`, `stays_fillResources`,
`stays_applyProperties`.
-/

namespace MarkupLoader

/-- Whether a failure is about a name given to two objects. -/
def LoadError.isDuplicate : LoadError → Bool
  | duplicateName _ _ => true
  | _ => false

/-- A failure about what is written at one place: it is not about a name that another place has
taken, and a load may pass over it. -/
structure LoadError.Ordinary (e : LoadError) : Prop where
  duplicate : e.isDuplicate = false
  fatal : e.isFatal = false

namespace LoadState

/-- The names recorded as given twice. -/
def duplicates (s : LoadState) : List LoadError := s.context.diagnostics.filter (·.isDuplicate)

/-- A state with the same objects around the document, and no more names recorded as given twice. -/
structure KeepsAround (s t : LoadState) : Prop where
  outerScope : t.context.outerScope = s.context.outerScope
  duplicates : t.duplicates = s.duplicates

/-- A state with the same scopes, too. -/
structure KeepsScopes (s t : LoadState) : Prop extends KeepsAround s t where
  scopes : t.context.scopes = s.context.scopes
  nodeScopes : t.context.nodeScopes = s.context.nodeScopes

end LoadState

namespace Load

/-- A relation that does not look at the heap and at the passes that have been completed, and no
failure that is recorded counts unless it is about a name given twice. -/
structure HeapFrame (R : LoadState → LoadState → Prop) : Prop where
  refl : ∀ s, R s s
  trans : ∀ ⦃s t u⦄, R s t → R t u → R s u
  heap : ∀ s heap, R s { s with heap := heap }
  passed : ∀ s pass, R s { s with context := s.context.completed pass }
  recorded : ∀ s error, error.isDuplicate = false →
    R s (s.withRecord (s.context.diagnostics ++ [error]))

/-- A relation that does not look at the tree, the values and what the load is about, either. -/
structure Frame (R : LoadState → LoadState → Prop) : Prop extends HeapFrame R where
  tree : ∀ s tree, R s { s with tree := tree }
  values : ∀ s values, R s { s with context := { s.context with values := values } }
  about : ∀ s root element,
    R s { s with rootInstance := root, context := { s.context with rootElement := element } }

instance {R : LoadState → LoadState → Prop} : Coe (Frame R) (HeapFrame R) := ⟨Frame.toHeapFrame⟩

variable {R : LoadState → LoadState → Prop} {α β : Type} {s t : LoadState}

/-- A step from a state stays within a relation, and does not fail because of a name. -/
structure StaysAt (R : LoadState → LoadState → Prop) (s : LoadState) (step : Load α) : Prop where
  related : R s (step.start s).2
  failure : ∀ error, (step.start s).1 = .error error → error.isDuplicate = false

/-- A step stays within a relation from every state. -/
def Stays (R : LoadState → LoadState → Prop) (step : Load α) : Prop := ∀ s, StaysAt R s step

/-! ## Rules -/

theorem Stays.ran {step : Load α} (stays : Stays R step) {ended : Except LoadError α}
    (ran : step.start s = (ended, t)) : R s t := by
  have related := (stays s).related
  rwa [ran] at related

theorem StaysAt.change {step : Load α} {a : α} (ran : step.start s = (.ok a, t))
    (related : R s t) : StaysAt R s step where
  related := by rwa [ran]
  failure _ failed := by
    rw [ran] at failed
    cases failed

theorem StaysAt.pure (frame : HeapFrame R) (a : α) : StaysAt R s (Pure.pure a : Load α) :=
  .change rfl (frame.refl s)

theorem StaysAt.throw (frame : HeapFrame R) {error : LoadError}
    (other : error.isDuplicate = false) :
    StaysAt R s (MonadExcept.throw error : Load α) where
  related := frame.refl s
  failure _ failed := by
    cases failed
    exact other

theorem StaysAt.get {next : LoadState → Load β} (stays : StaysAt R s (next s)) :
    StaysAt R s (MonadState.get >>= next) := ⟨stays.related, stays.failure⟩

theorem StaysAt.bind (frame : HeapFrame R) {step : Load α} {next : α → Load β}
    (first : StaysAt R s step) (second : ∀ a, Stays R (next a)) :
    StaysAt R s (step >>= next) := by
  obtain ⟨related, failure⟩ := first
  rcases ran : step.start s with ⟨error | a, t⟩ <;> rw [ran] at related failure
  · have run : (step >>= next).start s = (.error error, t) := start_bind_of_error ran
    refine ⟨by rwa [run], fun other failed => ?_⟩
    rw [run] at failed
    cases failed
    exact failure _ rfl
  · have run : (step >>= next).start s = (next a).start t := start_bind_of_ok ran
    obtain ⟨related', failure'⟩ := second a t
    exact ⟨by rw [run]; exact frame.trans related related', by rwa [run]⟩

theorem Stays.bind (frame : HeapFrame R) {step : Load α} {next : α → Load β} (first : Stays R step)
    (second : ∀ a, Stays R (next a)) : Stays R (step >>= next) :=
  fun s => (first s).bind frame second

theorem stays_forM_of_mem (frame : HeapFrame R) {step : α → Load Unit} {list : List α}
    (each : ∀ a ∈ list, Stays R (step a)) : Stays R (list.forM step) := by
  induction list with
  | nil => exact fun _ => .pure frame ()
  | cons a rest ih =>
    refine (each a List.mem_cons_self).bind frame fun _ => ih fun b mem => ?_
    exact each b (List.mem_cons_of_mem _ mem)

theorem stays_forM (frame : HeapFrame R) {step : α → Load Unit} (each : ∀ a, Stays R (step a))
    (list : List α) : Stays R (list.forM step) := stays_forM_of_mem frame fun a _ => each a

theorem stays_foldlM (frame : HeapFrame R) {step : β → α → Load β}
    (each : ∀ b a, Stays R (step b a)) (list : List α) (b : β) : Stays R (list.foldlM step b) := by
  induction list generalizing b with
  | nil => exact fun _ => .pure frame b
  | cons a rest ih => exact (each b a).bind frame ih

section HeapSteps

variable (frame : HeapFrame R)

include frame

theorem stays_modifyHeap (change : Heap → Heap) : Stays R (modifyHeap change) :=
  fun s => .change rfl (frame.heap s _)

theorem stays_alloc (o : Object) : Stays R (alloc o) := fun s => .change rfl (frame.heap s _)

theorem stays_ofExcept {outcome : Except LoadError α}
    (other : ∀ error, outcome = .error error → error.isDuplicate = false) :
    Stays R (ofExcept outcome) := by
  cases outcome with
  | ok a => exact fun _ => .pure frame a
  | error error => exact fun _ => .throw frame (other error rfl)

theorem stays_recover {error : LoadError} (other : error.isDuplicate = false) :
    Stays R (recover error) := by
  intro s
  have ran := start_recover error s
  by_cases recovers : s.context.tolerant && !error.isFatal
  · rw [Context.recover, if_pos recovers] at ran
    exact .change ran (frame.recorded s error other)
  · rw [Context.recover, if_neg recovers] at ran
    refine ⟨by rw [ran]; exact frame.refl s, fun failure failed => ?_⟩
    rw [ran] at failed
    cases failed
    exact other

theorem stays_changeHeap {outcome : Except LoadError Heap}
    (other : ∀ error, outcome = .error error → error.isDuplicate = false) :
    Stays R (changeHeap outcome) := by
  cases outcome with
  | ok heap => exact stays_modifyHeap frame fun _ => heap
  | error error => exact stays_recover frame (other error rfl)

/-- A pass that stays within a frame does so also when it is noted. -/
theorem stays_completePass {env : Environment} {pass : Pass} (stays : Stays R (runPass env pass)) :
    Stays R (completePass env pass) :=
  stays.bind frame fun _ s => .change rfl (frame.passed s pass)

end HeapSteps

section Steps

variable (frame : Frame R)

include frame

theorem stays_modifyTree (change : NodeTree → NodeTree) : Stays R (modifyTree change) :=
  fun s => .change rfl (frame.tree s _)

/-! ## Expanding -/

theorem stays_expandAttributes (env : Environment) (id : NodeId) (rest : List Attribute) :
    ∀ done, Stays R (expandAttributes env id done rest) := by
  induction rest with
  | nil => exact fun done => stays_modifyTree frame _
  | cons a rest ih =>
    refine fun done s => .get ?_
    cases expanded : s.tree.expandAttribute env.extensions id a with
    | ok b => exact ih _ s
    | error error =>
      have other : error.isDuplicate = false := by
        unfold NodeTree.expandAttribute at expanded
        repeat' split at expanded
        all_goals cases expanded
        rfl
      refine Stays.bind frame (stays_modifyTree frame _) (fun _ => ?_) s
      exact (stays_recover frame other).bind frame fun _ => ih done

theorem stays_expandMarkup (env : Environment) : Stays R (expandMarkup env) := by
  refine fun s => .get (stays_forM frame (fun id s => .get ?_) _ s)
  split
  · exact .pure frame ()
  · exact stays_expandAttributes frame env id _ [] s

/-! ## Scopes -/

/-- Scopes are made in a relation that does not look at them either. -/
theorem stays_assignScopes (env : Environment)
    (scopes : ∀ s scopes nodeScopes, R s { s with context := { s.context with
      scopes := scopes, nodeScopes := nodeScopes } }) : Stays R (assignScopes env) := by
  have content : ∀ opened template around, Stays R (contentScope opened template around) := by
    intro opened template around s
    unfold contentScope
    split
    · exact .pure frame _
    · exact .change rfl (scopes s _ _)
  have one : ∀ rootScope opened id, Stays R (assignScope env rootScope opened id) := by
    refine fun rootScope opened id s => .get ?_
    cases (s.node id).parent with
    | none => exact .pure frame _
    | some parent =>
      have gives : ∀ found : ScopeId × Table NodeId ScopeId, Stays R (do
          modifyContext (·.setNodeScope id found.1)
          return found.2) := fun found =>
        Stays.bind frame (fun s => .change rfl (scopes s _ _)) fun _ _ => .pure frame _
      dsimp only
      split
      · exact Stays.bind frame (content _ _ _) gives s
      · exact StaysAt.bind frame (.pure frame _) gives
  refine fun s => .get ?_
  refine StaysAt.bind frame (.change rfl (scopes s _ _)) fun _ => ?_
  exact Stays.bind frame (stays_foldlM frame (one _) _ _) fun _ _ => .pure frame ()

/-! ## Creating values -/

theorem stays_settleMade (made : Made) : Stays R (settleMade made) := by
  cases made with
  | scalar value => exact fun _ => .pure frame value
  | object o => exact (stays_alloc frame o).bind frame fun _ _ => .pure frame _

theorem stays_setValue (id : NodeId) (value : Value) : Stays R (setValue id value) := by
  intro s
  have ran := start_setValue id value s
  by_cases taken : s.context.values.contains id
  · rw [if_pos taken] at ran
    refine ⟨by rw [ran]; exact frame.refl s, fun error failed => ?_⟩
    rw [ran] at failed
    cases failed
    rfl
  · rw [if_neg taken] at ran
    exact .change ran (frame.values s _)

theorem stays_adoptRoot (id : ObjectId) : Stays R (adoptRoot id) :=
  fun s => .change rfl (frame.about s _ _)

omit frame in
theorem isDuplicate_make {env : Environment} {id : NodeId} {error : LoadError}
    (failed : s.make env id = .error error) : error.isDuplicate = false := by
  unfold LoadState.make at failed
  dsimp only at failed
  split at failed
  · cases failed
  · cases failed
    rfl
  · unfold LoadState.makeObject at failed
    dsimp only at failed
    split at failed
    · cases failed
      rfl
    · split at failed
      · cases failed
        rfl
      · split at failed
        · unfold LoadState.templateContent at failed
          split at failed <;> cases failed
          rfl
        · cases failed

theorem stays_createRoot (env : Environment) : Stays R (createRoot env) := by
  refine fun s => .get ?_
  split
  · exact .change rfl (frame.about s _ _)
  · split
    · exact .pure frame ()
    · refine Stays.bind frame (stays_ofExcept frame fun _ => isDuplicate_make) (fun made => ?_) s
      refine (stays_settleMade frame made).bind frame fun value => ?_
      split
      · exact stays_adoptRoot frame _
      · exact fun _ => .throw frame rfl

theorem stays_createNode (env : Environment) (id : NodeId) : Stays R (createNode env id) := by
  refine fun s => .get ?_
  cases makes : s.make env id with
  | ok made =>
    refine Stays.bind frame (stays_settleMade frame made) (fun value => ?_) s
    dsimp only
    split
    · split
      · exact (stays_adoptRoot frame _).bind frame fun _ => stays_setValue frame _ _
      · exact stays_setValue frame _ _
    · exact stays_setValue frame _ _
  | error error =>
    have other := isDuplicate_make makes
    dsimp only
    split
    · exact .throw frame other
    · exact Stays.bind frame (stays_recover frame other) (fun _ => stays_modifyTree frame _) s

theorem stays_createValues (env : Environment) : Stays R (createValues env) := by
  refine fun s => .get (stays_forM frame (fun id s => .get ?_) _ s)
  split
  · exact .pure frame ()
  · split
    · split
      · exact Stays.bind frame (stays_setValue frame _ _)
          (fun _ s => .change rfl (frame.about s s.rootInstance _)) s
      · exact stays_createNode frame env id s
    · exact stays_createNode frame env id s

end Steps

section HeapSteps

variable (frame : HeapFrame R)

include frame

/-! ## Dictionaries -/

theorem stays_fillDictionary (dictionary : ObjectId) (nodes : List NodeId) :
    Stays R (fillDictionary dictionary nodes) := by
  refine stays_forM frame (fun id s => .get ?_) nodes
  dsimp only
  split
  · exact .pure frame ()
  · split
    · exact .pure frame ()
    · split
      · exact stays_modifyHeap frame _ s
      · exact stays_recover frame rfl s

theorem stays_dictionaryFor (env : Environment) (owner : ObjectId) (property : String)
    (position : Position) : Stays R (dictionaryFor env owner property position) := by
  refine fun s => .get ?_
  dsimp only
  split
  · exact .pure frame _
  · split
    · refine Stays.bind frame (stays_alloc frame _) (fun created => ?_) s
      exact (stays_modifyHeap frame _).bind frame fun _ _ => .pure frame _
    · exact Stays.bind frame (stays_recover frame rfl) (fun _ _ => .pure frame _) s

theorem stays_fillProperty (env : Environment) (id : NodeId) (owner : ObjectId)
    (property : String) : Stays R (fillProperty env id owner property) := by
  refine fun s => .get ?_
  split
  · exact stays_modifyHeap frame _ s
  · refine Stays.bind frame (stays_dictionaryFor frame _ _ _ _) (fun dictionary => ?_) s
    cases dictionary with
    | some dictionary => exact stays_fillDictionary frame dictionary _
    | none => exact fun _ => .pure frame ()

theorem stays_fillNode (env : Environment) (id : NodeId) : Stays R (fillNode env id) := by
  refine fun s => .get ?_
  split
  · exact .pure frame ()
  · refine .get ?_
    split
    · exact .pure frame ()
    · dsimp only
      split
      · split
        · exact stays_fillProperty frame env id _ _ s
        · exact .pure frame ()
      · exact .pure frame ()
  · split
    · split
      · exact stays_fillDictionary frame _ _ s
      · exact .pure frame ()
    · exact .pure frame ()

theorem stays_fillResources (env : Environment) : Stays R (fillResources env) :=
  fun s => .get (stays_forM frame (stays_fillNode frame env) _ s)

/-! ## Properties -/

omit frame in
theorem ordinary_applyAttribute {place : Site} {extensions : Extensions} {object : ObjectId}
    {a : Attribute} {error : LoadError}
    (failed : place.applyAttribute extensions object a = .error error) : error.Ordinary := by
  unfold Site.applyAttribute at failed
  split at failed
  · cases failed
  · cases given : place.attributeValue extensions a with
    | error other =>
      rw [given] at failed
      cases failed
      unfold Site.attributeValue at given
      split at given
      · cases given
      · cases given
      · cases evaluated : extensions.evaluate place _ <;> rw [evaluated] at given <;> cases given
        exact ⟨rfl, rfl⟩
    | ok value =>
      rw [given] at failed
      dsimp only [bind, Except.bind] at failed
      unfold Except.mapError at failed
      split at failed <;> cases failed
      exact ⟨rfl, rfl⟩

omit frame in
theorem isDuplicate_applyAttribute {place : Site} {extensions : Extensions} {object : ObjectId}
    {a : Attribute} {error : LoadError}
    (failed : place.applyAttribute extensions object a = .error error) :
    error.isDuplicate = false := (ordinary_applyAttribute failed).duplicate

omit frame in
theorem ordinary_applyChild {place : Site} {object : ObjectId} {child : NodeId}
    {error : LoadError} (failed : place.applyChild object child = .error error) :
    error.Ordinary := by
  have wording : ∀ (outcome : Except AssignmentFault Heap) (property : String) (at_ : Position),
      outcome.mapError (fun fault => LoadError.coercion property fault.message at_) =
        .error error → error.Ordinary := by
    intro outcome property position failed
    cases outcome <;> cases failed
    exact ⟨rfl, rfl⟩
  unfold Site.applyChild at failed
  dsimp only at failed
  split at failed
  · exact wording _ _ _ failed
  · split at failed
    · cases failed
    · exact wording _ _ _ failed
  · exact wording _ _ _ failed

theorem stays_captureScope (object : ObjectId) (scope : List ObjectId) :
    Stays R (captureScope object scope) := stays_modifyHeap frame _

theorem stays_applyNode (env : Environment) (id : NodeId) : Stays R (applyNode env id) := by
  refine fun s => .get ?_
  split
  · exact .pure frame ()
  case h_2 object _ =>
    have attributes : Stays R (applyAttributes env id object) := by
      refine fun s => .get (stays_forM frame (fun a s => .get ?_) _ s)
      exact stays_changeHeap frame (fun _ => isDuplicate_applyAttribute) s
    have children : Stays R (applyChildren env id object) := by
      refine fun s => .get ?_
      split
      · exact .pure frame ()
      · exact .pure frame ()
      · refine stays_forM frame (fun child s => .get ?_) _ s
        exact stays_changeHeap frame (fun _ failed => (ordinary_applyChild failed).duplicate) s
    have applies := attributes.bind frame fun _ => children
    dsimp only
    split
    · exact Stays.bind frame (stays_captureScope frame _ _) (fun _ => applies) s
    · exact applies s

theorem stays_applyProperties (env : Environment) : Stays R (applyProperties env) :=
  fun s => .get (stays_forM frame (stays_applyNode frame env) _ s)

end HeapSteps

/-! ## Two frames -/

theorem frame_keepsAround : Frame LoadState.KeepsAround where
  refl _ := ⟨rfl, rfl⟩
  trans _ _ _ first second :=
    ⟨second.outerScope.trans first.outerScope, second.duplicates.trans first.duplicates⟩
  tree _ _ := ⟨rfl, rfl⟩
  heap _ _ := ⟨rfl, rfl⟩
  values _ _ := ⟨rfl, rfl⟩
  about _ _ _ := ⟨rfl, rfl⟩
  passed _ _ := ⟨rfl, rfl⟩
  recorded s error other := by
    refine ⟨rfl, ?_⟩
    show (s.context.diagnostics ++ [error]).filter (·.isDuplicate) = _
    rw [List.filter_append, List.filter_cons_of_neg (by simp [other]), List.filter_nil,
      List.append_nil]
    rfl

theorem frame_keepsScopes : Frame LoadState.KeepsScopes where
  refl _ := ⟨frame_keepsAround.refl _, rfl, rfl⟩
  trans _ _ _ first second :=
    ⟨frame_keepsAround.trans first.toKeepsAround second.toKeepsAround,
      second.scopes.trans first.scopes, second.nodeScopes.trans first.nodeScopes⟩
  tree _ _ := ⟨⟨rfl, rfl⟩, rfl, rfl⟩
  heap _ _ := ⟨⟨rfl, rfl⟩, rfl, rfl⟩
  values _ _ := ⟨⟨rfl, rfl⟩, rfl, rfl⟩
  about _ _ _ := ⟨⟨rfl, rfl⟩, rfl, rfl⟩
  passed _ _ := ⟨⟨rfl, rfl⟩, rfl, rfl⟩
  recorded s error other := ⟨frame_keepsAround.recorded s error other, rfl, rfl⟩

end Load

end MarkupLoader
