import MarkupLoader.Proofs.Frames
import MarkupLoader.Proofs.Later
import MarkupLoader.Proofs.Lockstep
import MarkupLoader.Proofs.Made
import MarkupLoader.Proofs.Omission
import MarkupLoader.Proofs.Request
import MarkupLoader.Proofs.Rooting

/-!
# The course of a load

A load that does not fail goes through three stages (`Load.Course`): its document is prepared, the
values of its nodes are created, and the later passes work on the heap. **A strict load goes the way
of a tolerant one** in which nothing is recorded, so what is known of the creation of values in a
tolerant load is known of both.

What comes before is said for the two ways of loading markup: a load that is given an object starts
with it, and one that makes its object has made it, unless the outermost element takes arguments
(`Load.Begun`).

Main results: `course_of_runPasses`, `course_of_create`, `Course.origin`, `Course.valued`.
-/

namespace MarkupLoader

/-- A tolerant state before the first pass: nothing has been done yet, except that the object that
the load is about may be there. -/
structure LoadState.Fresh (s : LoadState) : Prop where
  untouched : s.context.Untouched
  none_yet : s.context.diagnostics = []
  known : ∀ root, s.rootInstance = some root → root < s.heap.size

namespace Load

/-- The passes after the creation of values. -/
def furnish (env : Environment) : Load Unit :=
  [Pass.nameRegistration, .resourceDictionaryFill, .propertyApplication].forM (completePass env)

/-- The passes up to the creation of values. -/
def populate (env : Environment) : Load Unit := do
  prepare env
  completePass env .valueCreation

/-- The side of a tolerant state that a load is on: the state itself, or its strict side. -/
def sided (tolerant : Bool) (s : LoadState) : LoadState := if tolerant then s else s.strict

/-- A load that gets as far as to create all values, from its state `s` before the first pass: the
document is prepared in `before`, and all values are there in `created`, which `filled` differs from
in what does not matter later on. -/
structure Populates (env : Environment) (tolerant : Bool) (s before created filled : LoadState) :
    Prop where
  prepares : Prepares env s before
  creation : (createValues env).start before = (.ok (), created)
  creating : LoadState.Creating env before (before.loadedUpwards env) created
  /-- The object that the load is about is older than those that nodes make. -/
  known : ∀ root, before.rootInstance = some root → root < before.heap.size
  /-- Nothing has been left out of a strict load. -/
  strictly : tolerant = false → created.context.diagnostics = []
  tree : filled.tree = created.tree
  heap : filled.heap = created.heap
  rootInstance : filled.rootInstance = created.rootInstance
  rootElement : filled.context.rootElement = created.context.rootElement
  values : filled.context.values = created.context.values
  diagnostics : filled.context.diagnostics = created.context.diagnostics
  flag : filled.context.tolerant = tolerant
  around : s.KeepsAround before
  kept : before.KeepsScopes filled

/-- A load that does not fail, from its state `s` before the first pass to the last one: the
document is prepared in `before`, and all values are there in `created`. The later passes start from
`filled`, which differs from `created` in what does not matter for them. -/
structure Course (env : Environment) (tolerant : Bool) (s before created filled last : LoadState) :
    Prop where
  prepares : Prepares env s before
  creating : LoadState.Creating env before (before.loadedUpwards env) created
  /-- The object that the load is about is older than those that nodes make. -/
  known : ∀ root, before.rootInstance = some root → root < before.heap.size
  /-- Nothing has been left out of a strict load. -/
  strictly : tolerant = false → created.context.diagnostics = []
  tree : filled.tree = created.tree
  heap : filled.heap = created.heap
  values : filled.context.values = created.context.values
  flag : filled.context.tolerant = tolerant
  begins : (prepare env >>= fun _ => completePass env .valueCreation).start (sided tolerant s) =
    (.ok (), filled)
  ran : (furnish env).start filled = (.ok (), last)

section Sides

variable (tolerant : Bool) (s : LoadState)

@[simp]
theorem tree_sided : (sided tolerant s).tree = s.tree := by cases tolerant <;> rfl

@[simp]
theorem heap_sided : (sided tolerant s).heap = s.heap := by cases tolerant <;> rfl

@[simp]
theorem values_sided : (sided tolerant s).context.values = s.context.values := by
  cases tolerant <;> rfl

theorem tolerant_sided {tolerant : Bool} {s : LoadState} (flag : s.context.tolerant = true) :
    (sided tolerant s).context.tolerant = tolerant := by
  cases tolerant with
  | true => exact flag
  | false => rfl

end Sides

section Passes

variable {env : Environment} {tolerant : Bool} {s last : LoadState}

/-- A step that does not fail on the side of the load does not fail on the tolerant side. -/
theorem ok_of_sided {α : Type} {step : Load α} {a : α} {t : LoadState} (lockstep : Lockstep step)
    (flag : s.context.tolerant = true) (none_yet : s.context.diagnostics = [])
    (ran : step.start (sided tolerant s) = (.ok a, t)) :
    ∃ u, step.start s = (.ok a, u) ∧ t = sided tolerant u ∧ u.context.tolerant = true ∧
      (tolerant = false → u.context.diagnostics = []) := by
  cases tolerant with
  | true =>
    refine ⟨t, ran, rfl, ?_, nofun⟩
    have kept := (lockstep s).flag
    rw [show step.start s = _ from ran] at kept
    exact kept.trans flag
  | false =>
    obtain ⟨u, ran', record, is⟩ := (lockstep s).of_strict flag none_yet ran
    refine ⟨u, ran', is, ?_, fun _ => record⟩
    have kept := (lockstep s).flag
    rw [ran'] at kept
    exact kept.trans flag

theorem lockstep_completePass (env : Environment) (pass : Pass) :
    Lockstep (completePass env pass) :=
  (lockstep_runPass env pass).bind fun _ _ => .quiet rfl rfl rfl rfl

/-- A pass that is completed has not failed. -/
theorem ok_of_completePass {pass : Pass} (ran : (completePass env pass).start s = (.ok (), last)) :
    ∃ t, (runPass env pass).start s = (.ok (), t) ∧
      last = { t with context := t.context.completed pass } := by
  obtain ⟨_, t, passed, noted⟩ := ok_of_start_bind ran
  cases noted
  exact ⟨t, passed, rfl⟩

/-- The passes fall into those that prepare, the creation of values, and the later ones. -/
theorem start_runPasses_populate (env : Environment) (s : LoadState) :
    (runPasses env).start s = (populate env >>= fun _ => furnish env).start s := by
  rw [start_runPasses, populate, start_bind, start_bind, start_bind]
  rcases (prepare env).start s with ⟨error | _, t⟩
  · rfl
  · exact (start_forM_cons (completePass env) .valueCreation _ t).trans (start_bind _ _ t)

theorem lockstep_populate (env : Environment) : Lockstep (populate env) :=
  Lockstep.bind (lockstep_forM (lockstep_completePass env) _) fun _ => lockstep_completePass env _

/-- Preparing makes scopes and records no name as given twice. -/
theorem stays_prepare (env : Environment) : Stays LoadState.KeepsAround (prepare env) := by
  have frame := frame_keepsAround
  refine stays_forM_of_mem frame fun pass mem => stays_completePass frame ?_
  simp only [List.mem_cons, List.not_mem_nil, or_false] at mem
  rcases mem with rfl | rfl | rfl | rfl
  · exact stays_modifyTree frame _
  · exact stays_expandMarkup frame env
  · exact stays_modifyTree frame _
  · exact stays_assignScopes frame env fun _ _ _ => ⟨rfl, rfl⟩

/-- **The values are there**, also if the load fails later on. -/
theorem populates_of_start (proper : s.tree.Proper) (fresh : s.Fresh)
    (ran : (populate env).start (sided tolerant s) = (.ok (), last)) :
    ∃ before created, Populates env tolerant s before created last := by
  have untouched := fresh.untouched
  obtain ⟨before, prepared, prepares⟩ :=
    start_prepare env proper untouched.tolerant untouched.scopes untouched.nodeScopes
  obtain ⟨properBefore, linkedBefore⟩ := prepares.proper proper
  -- The tolerant load goes the same way, so what it creates is what this one does.
  obtain ⟨u, begun, side, flag, record⟩ :=
    ok_of_sided (lockstep_populate env) untouched.tolerant fresh.none_yet ran
  rw [populate, start_bind_of_ok prepared] at begun
  have kept : before.KeepsScopes u := by
    have stays : Stays LoadState.KeepsScopes (completePass env .valueCreation) :=
      stays_completePass frame_keepsScopes (stays_createValues frame_keepsScopes env)
    simpa [begun] using (stays before).related
  have around : s.KeepsAround before := by simpa [prepared] using (stays_prepare env s).related
  obtain ⟨created, creation, rfl⟩ := ok_of_completePass begun
  have older : ∀ root, before.rootInstance = some root → root < before.heap.size := by
    intro root is
    rw [prepares.heap]
    exact fresh.known root (prepares.rootInstance.symm.trans is)
  exact ⟨before, created, {
    prepares := prepares
    creation := creation
    creating := LoadState.creating_createValues properBefore linkedBefore
      (prepares.tolerant.trans untouched.tolerant) (prepares.values.trans untouched.values)
      older creation
    known := older
    strictly := record
    tree := by rw [side, tree_sided]
    heap := by rw [side, heap_sided]
    rootInstance := by
      rw [side]
      cases tolerant <;> rfl
    rootElement := by
      rw [side]
      cases tolerant <;> rfl
    values := by
      rw [side, values_sided]
      rfl
    diagnostics := by
      rw [side]
      cases tolerant <;> rfl
    flag := by rw [side, tolerant_sided flag]
    around := around
    kept := by
      rw [side]
      cases tolerant with
      | true => exact kept
      | false => exact ⟨⟨kept.outerScope, kept.duplicates⟩, kept.scopes, kept.nodeScopes⟩ }⟩

/-- **The course of the passes** of a load that does not fail. -/
theorem course_of_runPasses (proper : s.tree.Proper) (untouched : s.context.Untouched)
    (none_yet : s.context.diagnostics = [])
    (known : ∀ root, s.rootInstance = some root → root < s.heap.size)
    (ran : (runPasses env).start (sided tolerant s) = (.ok (), last)) :
    ∃ before created filled, Course env tolerant s before created filled last := by
  rw [start_runPasses_populate] at ran
  obtain ⟨_, filled, first, ran⟩ := ok_of_start_bind ran
  obtain ⟨before, created, populates⟩ :=
    populates_of_start proper ⟨untouched, none_yet, known⟩ first
  exact ⟨before, created, filled, {
    prepares := populates.prepares
    creating := populates.creating
    known := populates.known
    strictly := populates.strictly
    tree := populates.tree
    heap := populates.heap
    values := populates.values
    flag := populates.flag
    begins := first
    ran := ran }⟩

/-! ## What the later passes leave -/

section Later

variable {before created filled : LoadState}

/-- The passes between the creation of values and the application of properties. -/
theorem settles_fill {H : Heap → Heap → Prop} (filling : Heap.Filling H) (env : Environment) :
    Settles H ([Pass.nameRegistration, .resourceDictionaryFill].forM (completePass env)) := by
  have chains := filling.toChains
  have names : Settles H (runPass env .nameRegistration) := settles_registerNames env filling
  have dictionaries : Settles H (runPass env .resourceDictionaryFill) :=
    settles_fillResources env filling
  refine fun s => (settles_completePass chains names s).bind chains fun _ s => ?_
  exact (settles_completePass chains dictionaries s).bind chains fun _ s => .refl chains s

/-- The later passes are those that fill dictionaries, and then properties are applied. -/
theorem start_furnish (env : Environment) (s : LoadState) : (furnish env).start s =
    ([Pass.nameRegistration, .resourceDictionaryFill].forM (completePass env) >>= fun _ =>
      [Pass.propertyApplication].forM (completePass env)).start s :=
  start_forM_append (completePass env) [.nameRegistration, .resourceDictionaryFill] _ s

/-- Later passes that do not fail fill dictionaries and apply properties. -/
theorem ok_of_furnish (ran : (furnish env).start filled = (.ok (), last)) :
    ∃ t u, ([Pass.nameRegistration, .resourceDictionaryFill].forM (completePass env)).start filled =
        (.ok (), t) ∧ (applyProperties env).start t = (.ok (), u) ∧
      last = { u with context := u.context.completed .propertyApplication } := by
  rw [start_furnish] at ran
  obtain ⟨_, t, fills, ran⟩ := ok_of_start_bind ran
  obtain ⟨_, _, applies, ran⟩ := ok_of_start_bind ran
  cases ran
  obtain ⟨u, applied, is⟩ := ok_of_completePass applies
  exact ⟨t, u, fills, applied, is⟩

/-- The later passes change neither the document nor the values, and objects stay what they are. -/
theorem settled_of_furnish (ran : (furnish env).start filled = (.ok (), last)) :
    filled.Settled Heap.Retains last := by
  obtain ⟨t, u, fills, applied, rfl⟩ := ok_of_furnish ran
  have chains := Heap.filling_retains.toChains
  have first := (settles_fill Heap.filling_retains env).ran fills
  have second := (settles_applyProperties env Heap.assigning_retains).ran applied
  exact (first.trans chains second).trans chains ⟨rfl, rfl, rfl, chains.refl _⟩

theorem Course.settled (course : Course env tolerant s before created filled last) :
    filled.Settled Heap.Retains last := settled_of_furnish course.ran

theorem Course.value? (course : Course env tolerant s before created filled last) (id : NodeId) :
    last.context.value? id = created.context.value? id := by
  unfold Context.value?
  rw [course.settled.values, course.values]

theorem Course.object? (course : Course env tolerant s before created filled last) (id : NodeId) :
    last.context.object? id = created.context.object? id :=
  congrArg (Option.bind · Value.object?) (course.value? id)

/-- Where the object of a node comes from. -/
inductive Origin (env : Environment) (before created last : LoadState) (id : NodeId)
    (n : ObjectId) : Prop
  /-- It is the one that the load is about. -/
  | given (top : id = NodeTree.root) (known : before.rootInstance = some n)
  /-- The node has made it, when some elements had been left out. -/
  | made {u : LoadState} {gone : List NodeId} (makes : u.Makes env id (created.heap.object n))
    (tree : u.tree = before.tree.without gone) (omittable : Omittable before.tree env gone)
    (kept : ∀ other value, u.context.value? other = some value →
      last.context.value? other = some value)
    (object : (before.node id).isObject = true)
    (reached : before.tree.Reaches (before.tree.templates env) NodeTree.root id)
    (after : before.heap.size ≤ n) (inside : n < created.heap.size)

theorem Course.origin (course : Course env tolerant s before created filled last)
    (proper : before.tree.Proper) {id : NodeId} {n : ObjectId}
    (has : last.context.object? id = some n) : Origin env before created last id n := by
  rw [course.object?] at has
  obtain ⟨value, held, is⟩ := Option.bind_eq_some_iff.1 has
  obtain ⟨mem, got⟩ := course.creating.got held
  cases got with
  | reused top known =>
    cases is
    exact .given top known
  | scalar made =>
    rw [(LoadState.simple_of_make made).1] at is
    cases is
  | made object made tree omittable kept after inside =>
    cases is
    refine .made (LoadState.makes_of_make made) tree omittable (fun other value is => ?_) object
      ((NodeTree.mem_postorder proper).1 mem) after inside
    rw [course.value?]
    exact kept other value is

/-- Distinct nodes have distinct objects. -/
theorem Course.distinct (course : Course env tolerant s before created filled last)
    {id other : NodeId} {n : ObjectId} (has : last.context.object? id = some n)
    (hasToo : last.context.object? other = some n) : id = other := by
  rw [course.object?] at has hasToo
  exact course.creating.distinct has hasToo

/-- Only nodes that are loaded have values. -/
theorem Course.loaded (course : Course env tolerant s before created filled last) {id : NodeId}
    {value : Value} (has : last.context.value? id = some value) :
    id ∈ before.loadedUpwards env := by
  rw [course.value?] at has
  exact (course.creating.got has).1

/-- No node has a list as its value. -/
theorem Course.no_list (course : Course env tolerant s before created filled last) {id : NodeId}
    {value : Value} (has : last.context.value? id = some value) : ∀ items, value ≠ .list items := by
  rw [course.value?] at has
  cases (course.creating.got has).2 with
  | reused => exact nofun
  | scalar made => exact (LoadState.simple_of_make made).2
  | made => exact nofun

section Strict

variable (course : Course env false s before created filled last)

include course

/-- A strict load leaves nothing out. -/
theorem Course.whole : last.tree = before.tree := by
  rw [course.settled.tree, course.tree, course.creating.whole (course.strictly rfl)]

/-- The nodes that are loaded are those whose values have been created. -/
theorem Course.loadedUpwards : last.loadedUpwards env = before.loadedUpwards env := by
  unfold LoadState.loadedUpwards LoadState.isTemplate LoadState.node
  rw [course.whole]

/-- In a strict load all nodes that are loaded and make objects have their values. -/
theorem Course.valued (proper : before.tree.Proper) {id : NodeId} (mem : id ∈ last.loaded env)
    (object : (last.node id).isObject = true) : ∃ value, last.context.value? id = some value := by
  have properLast : last.tree.Proper := course.whole ▸ proper
  have mem : id ∈ before.loadedUpwards env := by
    rw [← course.loadedUpwards]
    exact (NodeTree.mem_postorder properLast).2 ((NodeTree.mem_preorder properLast).1 mem)
  rw [course.value?]
  -- A node without a value makes no object, or has been left out, of which there would be a record.
  cases course.creating.gets id mem with
  | idle is _ =>
    rw [LoadState.node, course.whole] at object
    cases is.symm.trans object
  | omitted _ recorded => exact absurd (course.strictly rfl) recorded
  | got has => exact ⟨_, has⟩

/-- In a strict load the children of a node are those that are not pruned. -/
theorem Course.children (proper : s.tree.Proper) (id : NodeId) :
    (last.node id).children = ((s.tree.without s.tree.prunedNodes).node id).children := by
  rw [← course.prepares.children proper id, LoadState.node, course.whole]
  rfl

end Strict

end Later

/-! ## The two ways of loading markup -/

section Loading

variable {h : Heap} {doc : NodeTree}

theorem untouched_start (rootElement : Option ObjectId) (outerScope : List ObjectId) :
    (Context.start rootElement true outerScope).Untouched := ⟨rfl, rfl, rfl, rfl⟩

/-- A load that is given an object starts with it. -/
theorem course_of_loadInto {target : ObjectId} (proper : doc.Proper) (inside : target < h.size)
    (ran : (runPasses env).start
      (.initial doc (some target) (.start (some target) tolerant []) h) = (.ok (), last)) :
    ∃ before created filled, Course env tolerant
      (.initial doc (some target) (.start (some target) true []) h) before created filled last := by
  refine course_of_runPasses proper (untouched_start _ _) rfl ?_ ?_
  · rintro _ ⟨⟩
    exact inside
  · cases tolerant <;> exact ran

/-- What a load that makes its object has done before the first pass: the object is there, unless
the outermost element takes arguments. -/
inductive Begun (env : Environment) (h : Heap) (doc : NodeTree) : LoadState → Prop
  | later (takes : doc.arguments? NodeTree.root ≠ none) :
      Begun env h doc (Loader.unrooted h doc true)
  | made {o : Object} (bare : doc.arguments? NodeTree.root = none)
      (made : (Loader.unrooted h doc true).make env NodeTree.root = .ok (.object o)) :
      Begun env h doc (((Loader.unrooted h doc true).withObject o).adopting h.size)

theorem Begun.tree (begun : Begun env h doc s) : s.tree = doc := by cases begun <;> rfl

/-- What a load is about that makes its object, before the first pass. -/
theorem begun_of_createRoot {t : LoadState}
    (ran : (createRoot env).start (Loader.unrooted h doc tolerant) = (.ok (), t)) :
    ∃ s, Begun env h doc s ∧ s.Fresh ∧ t = sided tolerant s := by
  have side : Loader.unrooted h doc tolerant = sided tolerant (Loader.unrooted h doc true) := by
    cases tolerant <;> rfl
  rw [side] at ran
  obtain ⟨s, created, rfl, -, -⟩ := ok_of_sided (lockstep_createRoot env)
    (s := Loader.unrooted h doc true) rfl rfl ran
  -- An outermost element that takes arguments is made with all the others.
  cases takes : doc.arguments? NodeTree.root with
  | some holder =>
    rw [start_createRoot_later rfl takes] at created
    cases created
    exact ⟨_, .later (by simp [takes]), ⟨untouched_start _ _, rfl, fun _ is => by cases is⟩, rfl⟩
  | none =>
    rw [start_createRoot_new rfl takes] at created
    cases makes : (Loader.unrooted h doc true).make env NodeTree.root with
    | error error =>
      rw [makes] at created
      cases created
    | ok made =>
      rw [makes] at created
      cases made with
      | scalar value => cases created
      | object o =>
        cases created
        refine ⟨_, .made takes makes, ⟨⟨rfl, rfl, rfl, rfl⟩, rfl, ?_⟩, rfl⟩
        rintro _ ⟨⟩
        exact Nat.lt_of_lt_of_eq (Nat.lt_succ_self h.size) (Heap.size_alloc h o).symm

/-- A load that makes its object has made it, unless the outermost element takes arguments. -/
theorem course_of_create (proper : doc.Proper)
    (ran : (Loader.createThenRun env).start (Loader.unrooted h doc tolerant) = (.ok (), last)) :
    ∃ s before created filled, Begun env h doc s ∧
      (createRoot env).start (Loader.unrooted h doc tolerant) = (.ok (), sided tolerant s) ∧
      Course env tolerant s before created filled last := by
  rw [Loader.createThenRun] at ran
  obtain ⟨_, t, first, ran⟩ := ok_of_start_bind ran
  obtain ⟨s, begun, fresh, rfl⟩ := begun_of_createRoot first
  obtain ⟨before, created, filled, course⟩ := course_of_runPasses (begun.tree.symm ▸ proper)
    fresh.untouched fresh.none_yet fresh.known ran
  exact ⟨s, before, created, filled, begun, first, course⟩

/-- A load that makes its object and gets as far as to create all values. -/
theorem populates_of_create (proper : doc.Proper)
    (ran : (createRoot env >>= fun _ => populate env).start (Loader.unrooted h doc tolerant) =
      (.ok (), last)) :
    ∃ s before created, Begun env h doc s ∧ Populates env tolerant s before created last := by
  obtain ⟨_, t, first, ran⟩ := ok_of_start_bind ran
  obtain ⟨s, begun, fresh, rfl⟩ := begun_of_createRoot first
  obtain ⟨before, created, populates⟩ := populates_of_start (begun.tree.symm ▸ proper) fresh ran
  exact ⟨s, before, created, begun, populates⟩

end Loading

end Passes

end Load

/-! ## Requests -/

namespace Request

variable {env : Environment} {tolerant : Bool} {h : Heap} {markup : String} {tree : NodeTree}
  {run : Run}

theorem run_create (read : NodeTree.read markup = .ok tree) :
    (create markup).run env tolerant h =
      .ok (.ofStep (Loader.createThenRun env) (Loader.unrooted h tree tolerant)) := by
  simp only [run, initial, read]
  rfl

theorem run_loadInto {target : ObjectId} (read : NodeTree.read markup = .ok tree) :
    (loadInto target markup).run env tolerant h =
      .ok (.ofStep (Load.runPasses env)
        (.initial tree (some target) (.start (some target) tolerant []) h)) := by
  simp only [run, initial, read]
  rfl

theorem start_of_create (read : NodeTree.read markup = .ok tree)
    (ran : (create markup).run env tolerant h = .ok run) :
    (Loader.createThenRun env).start (Loader.unrooted h tree tolerant) =
      (run.ended, run.state) := by
  rw [run_create read] at ran
  rw [← Except.ok.inj ran]
  rfl

theorem start_of_loadInto {target : ObjectId} (read : NodeTree.read markup = .ok tree)
    (ran : (loadInto target markup).run env tolerant h = .ok run) :
    (Load.runPasses env).start (.initial tree (some target) (.start (some target) tolerant []) h) =
      (run.ended, run.state) := by
  rw [run_loadInto read] at ran
  rw [← Except.ok.inj ran]
  rfl

end Request

end MarkupLoader
