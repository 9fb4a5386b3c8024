import MarkupLoader.Proofs.Course
import MarkupLoader.Proofs.Shape

/-!
# The stages of a load

What is known of a load at three moments, whether it fails later on or not:

* **the values are there** (`Request.Populated`): the document that is left is proper and linked, all
  nodes that are loaded share the first scope, which is empty, and only nodes that make objects have
  values;
* **the dictionaries are filled** (`Request.Furnished`), and properties are applied from there on;
* **an attribute is evaluated** (`Load.Evaluates`): the nodes before that of the attribute have been
  applied, and the attributes before it. Nothing but the heap has changed since properties began to
  be applied.

Main results: `Populated.populates`, `Populates.inFirstScope`, `Populates.loaded_of_value`,
`Evaluates.settled`, `Evaluates.keepsScopes`.
-/

namespace MarkupLoader

namespace Load

variable {env : Environment} {tolerant : Bool} {s before created filled last : LoadState}

/-- Making the object of the outermost element is no pass. -/
theorem fresh_createRoot (fresh : s.Fresh) (ran : (createRoot env).start s = (.ok (), last)) :
    last.Fresh ∧ last.tree = s.tree := by
  cases known : s.rootInstance with
  | some root =>
    rw [start_createRoot_known known] at ran
    cases ran
    exact ⟨⟨⟨fresh.untouched.tolerant, fresh.untouched.values, fresh.untouched.scopes,
      fresh.untouched.nodeScopes⟩, fresh.none_yet, fresh.known⟩, rfl⟩
  | none =>
    cases takes : s.tree.arguments? NodeTree.root with
    | some holder =>
      rw [start_createRoot_later known takes] at ran
      cases ran
      exact ⟨fresh, rfl⟩
    | none =>
      rw [start_createRoot_new known takes] at ran
      split at ran
      · cases ran
      · cases ran
      case h_3 o made =>
        cases ran
        refine ⟨⟨⟨fresh.untouched.tolerant, fresh.untouched.values, fresh.untouched.scopes,
          fresh.untouched.nodeScopes⟩, fresh.none_yet, ?_⟩, rfl⟩
        rintro _ ⟨⟩
        exact Nat.lt_of_lt_of_eq (Nat.lt_succ_self _) (Heap.size_alloc s.heap o).symm

/-- The object that the load is about has been there before, or the outermost element makes it. -/
theorem root_of_createRoot (ran : (createRoot env).start s = (.ok (), last)) {root : ObjectId}
    (is : last.rootInstance = some root) :
    s.rootInstance = some root ∧ last.heap = s.heap ∨
      ∃ u : LoadState, u.Makes env NodeTree.root (last.heap.object root) := by
  cases known : s.rootInstance with
  | some given =>
    rw [start_createRoot_known known] at ran
    cases ran
    exact .inl ⟨known.symm.trans is, rfl⟩
  | none =>
    cases takes : s.tree.arguments? NodeTree.root with
    | some holder =>
      rw [start_createRoot_later known takes] at ran
      cases ran
      rw [known] at is
      cases is
    | none =>
      rw [start_createRoot_new known takes] at ran
      split at ran
      · cases ran
      · cases ran
      case h_3 o made =>
        cases ran
        cases is
        refine .inr ⟨s, ?_⟩
        have there : ((s.heap.alloc o).2.object s.heap.size) = o := Heap.object_alloc s.heap o
        show s.Makes env NodeTree.root ((s.heap.alloc o).2.object s.heap.size)
        rw [there]
        exact LoadState.makes_of_make made

/-! ## When all values are there -/

section Populated

variable (populates : Populates env tolerant s before created filled)

include populates

theorem Populates.without : ∃ gone, filled.tree = before.tree.without gone ∧
    Omittable before.tree env gone := by
  obtain ⟨gone, tree, omittable⟩ := populates.creating.tree
  exact ⟨gone, populates.tree.trans tree, omittable⟩

theorem Populates.body (id : NodeId) :
    (filled.node id).toNodeBody = (before.node id).toNodeBody := by
  obtain ⟨gone, tree, -⟩ := populates.without
  rw [LoadState.node, tree, NodeTree.node_without]
  rfl

theorem Populates.lookUpNamespace (id : NodeId) :
    filled.tree.lookUpNamespace id = s.tree.linkParents.lookUpNamespace id := by
  obtain ⟨gone, tree, -⟩ := populates.without
  rw [tree, NodeTree.lookUpNamespace_without, populates.prepares.lookUpNamespace]

/-- Nodes are of the kinds that they were of from the beginning. -/
theorem Populates.kind (proper : s.tree.Proper) (id : NodeId) :
    (filled.node id).kind = (s.node id).kind :=
  (congrArg NodeBody.kind (populates.body id)).trans (populates.prepares.kind proper id).1

theorem Populates.isObject (proper : s.tree.Proper) (id : NodeId) :
    (filled.node id).isObject = (s.node id).isObject := by
  unfold NodeBody.isObject
  rw [populates.kind proper id]

theorem Populates.proper (proper : s.tree.Proper) : filled.tree.Proper ∧ filled.tree.Linked := by
  obtain ⟨properBefore, linkedBefore⟩ := populates.prepares.proper proper
  obtain ⟨gone, tree, -⟩ := populates.without
  rw [tree]
  exact ⟨properBefore.without gone, linkedBefore.without gone⟩

theorem Populates.templates : filled.isTemplate env = before.tree.templates env := by
  funext id
  show env.isTemplate (filled.node id).toNodeBody = _
  rw [populates.body id]
  rfl

/-- What is loaded of the document that is left are the nodes of it that were to be loaded. -/
theorem Populates.reaches_iff (proper : s.tree.Proper) {id : NodeId}
    (reached : filled.tree.Reaches (fun _ => false) NodeTree.root id) :
    filled.tree.Reaches (filled.isTemplate env) NodeTree.root id ↔
      before.tree.Reaches (before.tree.templates env) NodeTree.root id := by
  obtain ⟨gone, tree, -⟩ := populates.without
  rw [tree] at reached
  rw [populates.templates, tree]
  exact (populates.prepares.proper proper).1.reaches_without reached

/-- All nodes that are loaded share the first scope, which holds no names yet. -/
theorem Populates.inFirstScope (proper : s.tree.Proper) : filled.Scoped env := by
  have shared := populates.prepares.inFirstScope
  refine ⟨?_, ?_, fun id reached => ?_⟩
  · rw [populates.kept.scopes]
    exact shared.opened
  · unfold Context.scope
    rw [populates.kept.scopes]
    exact shared.scope
  · unfold Context.nodeScope?
    rw [populates.kept.nodeScopes]
    exact shared.nodes id ((populates.reaches_iff proper reached.all).1 reached)

theorem Populates.value? (id : NodeId) : filled.context.value? id = created.context.value? id := by
  unfold Context.value?
  rw [populates.values]

theorem Populates.object? (id : NodeId) :
    filled.context.object? id = created.context.object? id :=
  congrArg (Option.bind · Value.object?) (populates.value? id)

/-- Only nodes that make objects have values, and none inside a template. -/
theorem Populates.of_value (proper : s.tree.Proper) {id : NodeId} {value : Value}
    (has : filled.context.value? id = some value) :
    (filled.node id).isObject = true ∧
      before.tree.Reaches (before.tree.templates env) NodeTree.root id := by
  have properBefore := (populates.prepares.proper proper).1
  rw [populates.value?] at has
  have mem := (populates.creating.got has).1
  refine ⟨?_, (NodeTree.mem_postorder properBefore).1 mem⟩
  show (filled.node id).toNodeBody.isObject = true
  rw [populates.body id]
  exact populates.creating.objects id value has

/-- A node that has a value and has not been taken out is loaded. -/
theorem Populates.loaded_of_value (proper : s.tree.Proper) {id : NodeId} {value : Value}
    (reached : filled.tree.Reaches (fun _ => false) NodeTree.root id)
    (has : filled.context.value? id = some value) : id ∈ filled.loaded env :=
  (NodeTree.mem_preorder (populates.proper proper).1).2
    ((populates.reaches_iff proper reached).2 (populates.of_value proper has).2)

/-- Distinct nodes have distinct objects. -/
theorem Populates.distinct {id other : NodeId} {n : ObjectId}
    (has : filled.context.object? id = some n) (hasToo : filled.context.object? other = some n) :
    id = other := by
  rw [populates.object?] at has hasToo
  exact populates.creating.distinct has hasToo

/-- What a node has as its object is the object that the load is about, or was made by the node. -/
theorem Populates.of_object {id : NodeId} {n : ObjectId}
    (has : filled.context.object? id = some n) : n < filled.heap.size ∧
      (s.rootInstance = some n ∧ filled.heap.object n = s.heap.object n ∨
        ∃ u : LoadState, u.Makes env id (filled.heap.object n)) := by
  rw [populates.object?] at has
  rw [populates.heap]
  obtain ⟨value, held, is⟩ := Option.bind_eq_some_iff.1 has
  cases (populates.creating.got held).2 with
  | reused _ known =>
    cases is
    have older := populates.known _ known
    refine ⟨Nat.lt_of_lt_of_le older populates.creating.size, .inl ⟨?_, ?_⟩⟩
    · rw [← populates.prepares.rootInstance, known]
    · rw [populates.creating.old _ older, populates.prepares.heap]
  | scalar made =>
    rw [(LoadState.simple_of_make made).1] at is
    cases is
  | made _ made _ _ _ _ inside =>
    cases is
    exact ⟨inside, .inr ⟨_, LoadState.makes_of_make made⟩⟩

theorem Populates.outerScope : filled.context.outerScope = s.context.outerScope :=
  populates.kept.outerScope.trans populates.around.outerScope

/-- No name has been recorded as given twice. -/
theorem Populates.duplicates (fresh : s.Fresh) : filled.duplicates = [] := by
  have none_yet : s.duplicates = [] := by
    rw [LoadState.duplicates, fresh.none_yet]
    rfl
  exact populates.kept.duplicates.trans (populates.around.duplicates.trans none_yet)

end Populated

/-! ## When an attribute is evaluated -/

/-- What comes before the attributes of a node: a template remembers the objects around it. -/
def enterNode (env : Environment) (id : NodeId) (object : ObjectId) : Load Unit := do
  let s ← get
  if s.heap.kind object = .template then captureScope object (s.site env id).outerScope

/-- Applies one attribute of a node to its object. -/
def applyAttribute (env : Environment) (id : NodeId) (object : ObjectId) (a : Attribute) :
    Load Unit := do
  let s ← get
  changeHeap ((s.site env id).applyAttribute env.extensions object a)

/-- A node that has an object is entered, then its attributes are applied in order, and then its
children. -/
theorem start_applyNode {id : NodeId} {object : ObjectId}
    (has : s.context.object? id = some object) :
    (applyNode env id).start s = (enterNode env id object >>= fun _ =>
      (s.node id).attributes.forM (applyAttribute env id object) >>= fun _ =>
        applyChildren env id object).start s := by
  have attributes : ∀ t : LoadState, t.tree = s.tree →
      (applyAttributes env id object >>= fun _ => applyChildren env id object).start t =
        ((s.node id).attributes.forM (applyAttribute env id object) >>= fun _ =>
          applyChildren env id object).start t := by
    intro t tree
    have node : t.node id = s.node id := by
      unfold LoadState.node
      rw [tree]
    rw [start_bind, start_bind, applyAttributes, start_get_bind, node]
    rfl
  rw [applyNode, start_get_bind, has]
  dsimp only
  by_cases kind : s.heap.kind object = .template
  · have entered : (enterNode env id object).start s =
        (captureScope object (s.site env id).outerScope).start s := by
      rw [enterNode, start_get_bind, if_pos kind]
    rw [if_pos kind, start_bind_of_ok entered]
    exact attributes _ rfl
  · have entered : (enterNode env id object).start s = (.ok (), s) := by
      rw [enterNode, start_get_bind, if_neg kind]
      rfl
    rw [if_neg kind, start_bind_of_ok entered]
    exact attributes s rfl

/-- **The state in which a load evaluates an attribute** of a node, when it has begun to apply
properties in `s`: the nodes before that one have been applied, the node has been entered, and the
attributes before that one have been applied. -/
inductive Evaluates (env : Environment) (s : LoadState) (id : NodeId) (a : Attribute)
    (u : LoadState) : Prop
  | intro {done rest : List NodeId} {before after : List Attribute} {object : ObjectId}
    {t v : LoadState} (order : s.loadedUpwards env = done ++ id :: rest)
    (nodes : (done.forM (applyNode env)).start s = (.ok (), t))
    (has : t.context.object? id = some object)
    (entered : (enterNode env id object).start t = (.ok (), v))
    (attributes : (v.node id).attributes = before ++ a :: after)
    (earlier : (before.forM (applyAttribute env id object)).start v = (.ok (), u))

section Evaluating

variable {id : NodeId} {a : Attribute} {u : LoadState}

theorem settles_enterNode {H : Heap → Heap → Prop} (assigning : Heap.Assigning H)
    (object : ObjectId) : Settles H (enterNode env id object) := by
  intro s
  unfold SettlesAt enterNode
  rw [start_get_bind]
  split
  · exact ⟨rfl, rfl, rfl, assigning.scope _ _ _⟩
  · exact .refl assigning.toChains _

theorem settles_applyAttribute {H : Heap → Heap → Prop} (assigning : Heap.Assigning H)
    (object : ObjectId) : Settles H (applyAttribute env id object a) :=
  fun _ => settles_changeHeap assigning.toChains fun _ => (assigning.toWriting.to _).attribute

theorem Evaluates.loaded (evaluates : Evaluates env s id a u) : id ∈ s.loadedUpwards env := by
  obtain ⟨order, -, -, -, -, -⟩ := evaluates
  rw [order]
  exact List.mem_append_right _ List.mem_cons_self

/-- Nothing but the heap has changed since properties began to be applied. -/
theorem Evaluates.settled {H : Heap → Heap → Prop} (assigning : Heap.Assigning H)
    (evaluates : Evaluates env s id a u) : s.Settled H u := by
  obtain ⟨-, nodes, -, entered, -, earlier⟩ := evaluates
  have chains := assigning.toChains
  have first := (settles_forM chains (settles_applyNode env assigning) _).ran nodes
  have second := (settles_enterNode assigning _).ran entered
  have third := (settles_forM chains (fun _ => settles_applyAttribute assigning _) _).ran earlier
  exact (first.trans chains second).trans chains third

/-- The scopes have not changed, either. -/
theorem Evaluates.keepsScopes (evaluates : Evaluates env s id a u) : s.KeepsScopes u := by
  obtain ⟨-, nodes, -, entered, -, earlier⟩ := evaluates
  have frame := frame_keepsScopes
  have enters : ∀ object, Stays LoadState.KeepsScopes (enterNode env id object) := by
    refine fun object s => .get ?_
    split
    · exact stays_captureScope frame _ _ s
    · exact .pure frame ()
  have applies : ∀ object a, Stays LoadState.KeepsScopes (applyAttribute env id object a) :=
    fun object a s => .get (stays_changeHeap frame (fun _ => isDuplicate_applyAttribute) s)
  have first := (stays_forM frame (stays_applyNode frame.toHeapFrame env) _).ran nodes
  have second := (enters _).ran entered
  have third := (stays_forM frame (applies _) _).ran earlier
  exact frame.trans (frame.trans first second) third

end Evaluating

end Load

/-! ## Requests -/

namespace Request

/-- The object to load into is there, and what a template keeps is a proper document. -/
def Fits (h : Heap) : Request → Prop
  | create _ => True
  | loadInto target _ => target < h.size
  | instantiate template =>
    ∀ content, (h.object template).template = some content → content.tree.Proper

/-- The objects around the document, nearest first: those around a template that are still alive. -/
def around (h : Heap) : Request → List ObjectId
  | create _ => []
  | loadInto _ _ => []
  | instantiate template =>
    match (h.object template).template with
    | some content => content.outerScope.filter fun id => !h.dead.contains id
    | none => []

/-- What a load does before its first pass. -/
def opening (env : Environment) : Request → Load Unit
  | create _ => Load.createRoot env
  | loadInto _ _ => pure ()
  | instantiate _ => Load.createRoot env

/-- **All values are there** in a state that a load comes to. -/
def Populated (env : Environment) (tolerant : Bool) (h : Heap) (request : Request)
    (s : LoadState) : Prop :=
  ∃ first, request.initial tolerant h = .ok first ∧
    (request.opening env >>= fun _ => Load.populate env).start first = (.ok (), s)

/-- **Properties begin to be applied** in a state that a load comes to: names have been registered,
and dictionaries filled. -/
def Furnished (env : Environment) (tolerant : Bool) (h : Heap) (request : Request)
    (t : LoadState) : Prop :=
  ∃ s, request.Populated env tolerant h s ∧
    ([Pass.nameRegistration, .resourceDictionaryFill].forM (Load.completePass env)).start s =
      (.ok (), t)

variable {env : Environment} {tolerant : Bool} {h : Heap} {request : Request} {s first : LoadState}

/-- The object to load into, if there is one. -/
def target? : Request → Option ObjectId
  | create _ => none
  | loadInto target _ => some target
  | instantiate _ => none

/-- What is known of a tolerant load before its first pass. -/
structure Opens (h : Heap) (request : Request) (first : LoadState) : Prop where
  proper : first.tree.Proper
  fresh : first.Fresh
  outerScope : first.context.outerScope = request.around h
  /-- What the object keeps that the load is about, if there is one already. -/
  rooted : ∀ root content, first.rootInstance = some root →
    (first.heap.object root).template = some content →
      content.tree.Proper ∨
        request.target? = some root ∧ (h.object root).template = some content

theorem initial_sided (fits : request.Fits h) (begins : request.initial tolerant h = .ok first) :
    ∃ b, first = Load.sided tolerant b ∧ request.Opens h b := by
  have untouched := Load.untouched_start
  cases request with
  | create markup =>
    simp only [initial] at begins
    cases read : NodeTree.read markup with
    | error fault =>
      rw [read] at begins
      cases begins
    | ok tree =>
      rw [read] at begins
      cases begins
      refine ⟨.initial tree none (.start none true []) h, ?_, (NodeTree.proper_of_read read).1,
        ⟨untouched _ _, rfl, ?_⟩, rfl, ?_⟩
      · cases tolerant <;> rfl
      · rintro _ ⟨⟩
      · rintro _ _ ⟨⟩
  | loadInto target markup =>
    simp only [initial] at begins
    cases read : NodeTree.read markup with
    | error fault =>
      rw [read] at begins
      cases begins
    | ok tree =>
      rw [read] at begins
      cases begins
      refine ⟨.initial tree (some target) (.start (some target) true []) h, ?_,
        (NodeTree.proper_of_read read).1, ⟨untouched _ _, rfl, ?_⟩, rfl, ?_⟩
      · cases tolerant <;> rfl
      · rintro _ ⟨⟩
        exact fits
      · rintro _ content ⟨⟩ keeps
        exact .inr ⟨rfl, keeps⟩
  | instantiate template =>
    simp only [initial] at begins
    cases kept : (h.object template).template with
    | none =>
      rw [kept] at begins
      cases begins
    | some content =>
      rw [kept] at begins
      cases begins
      refine ⟨.initial content.tree none (.start none true _) h, ?_, fits content kept,
        ⟨untouched _ (content.outerScope.filter fun id => !h.dead.contains id), rfl, ?_⟩, ?_, ?_⟩
      · cases tolerant <;> rfl
      · rintro _ ⟨⟩
      · simp only [around, kept]
        rfl
      · rintro _ _ ⟨⟩

/-- The first steps of a load leave it before its first pass. -/
theorem opening_sided {b : LoadState} (opens : request.Opens h b)
    (ran : (request.opening env).start (Load.sided tolerant b) = (.ok (), s)) :
    ∃ c, s = Load.sided tolerant c ∧ request.Opens h c := by
  have created : (Load.createRoot env).start (Load.sided tolerant b) = (.ok (), s) →
      ∃ c, s = Load.sided tolerant c ∧ request.Opens h c := by
    intro ran
    obtain ⟨c, made, rfl, -, -⟩ := Load.ok_of_sided (Load.lockstep_createRoot env)
      opens.fresh.untouched.tolerant opens.fresh.none_yet ran
    obtain ⟨fresh, tree⟩ := Load.fresh_createRoot opens.fresh made
    have kept := (Load.stays_createRoot Load.frame_keepsAround env).ran made
    refine ⟨c, rfl, tree ▸ opens.proper, fresh, kept.outerScope.trans opens.outerScope,
      fun root content is keeps => ?_⟩
    rcases Load.root_of_createRoot made is with ⟨earlier, heap⟩ | ⟨u, makes⟩
    · exact opens.rooted root content earlier (heap ▸ keeps)
    · exact .inl (makes.proper keeps)
  cases request with
  | create markup => exact created ran
  | loadInto target markup =>
    cases ran
    exact ⟨b, rfl, opens⟩
  | instantiate template => exact created ran

/-- What the steps before the first pass have done: an object to load into is what the outermost
element stands for, and a load that makes its object may have made it. -/
structure Rooted (h : Heap) (request : Request) (start first : LoadState) : Prop where
  tree : first.tree = start.tree
  /-- The load is about the object that the outermost element stands for. -/
  about : first.context.rootElement = first.rootInstance
  given : ∀ target, request.target? = some target → first.rootInstance = some target
  fresh : request.target? = none → ∀ n, first.rootInstance = some n → h.size ≤ n
  /-- There is no new object but that one. -/
  new : ∀ n, h.size ≤ n → n < first.heap.size → first.rootInstance = some n
  size : h.size ≤ first.heap.size
  old : ∀ n < h.size, first.heap.object n = h.object n

theorem rooted_initial (begins : request.initial tolerant h = .ok first) :
    request.Rooted h first first ∧ first.rootInstance = request.target? := by
  have from_there : first.heap = h → first.context.rootElement = first.rootInstance →
      first.rootInstance = request.target? →
      request.Rooted h first first ∧ first.rootInstance = request.target? := by
    intro heap about is
    refine ⟨⟨rfl, about, fun target given => is.trans given, fun none n there => ?_,
      fun n new inside => ?_, heap ▸ Nat.le_refl _, fun n _ => by rw [heap]⟩, is⟩
    · rw [is, none] at there
      cases there
    · rw [heap] at inside
      omega
  unfold initial at begins
  split at begins <;> split at begins <;> cases begins
  all_goals exact from_there rfl rfl rfl

theorem rooted_opening (begins : request.initial tolerant h = .ok first)
    (ran : (request.opening env).start first = (.ok (), s)) : request.Rooted h first s := by
  obtain ⟨rooted, is⟩ := rooted_initial begins
  have created : request.target? = none → (Load.createRoot env).start first = (.ok (), s) →
      request.Rooted h first s := by
    intro none ran
    have fresh := is.trans none
    cases takes : first.tree.arguments? NodeTree.root with
    | some holder =>
      rw [Load.start_createRoot_later fresh takes] at ran
      cases ran
      exact rooted
    | none =>
      rw [Load.start_createRoot_new fresh takes] at ran
      split at ran
      · cases ran
      · cases ran
      case h_3 o made =>
        cases ran
        have size : ((first.withObject o).adopting first.heap.size).heap.size =
            first.heap.size + 1 := Heap.size_alloc first.heap o
        have same : first.heap.size = h.size := by
          refine Nat.le_antisymm (Nat.le_of_not_lt fun more => ?_) rooted.size
          have there := rooted.new h.size (Nat.le_refl _) more
          rw [fresh] at there
          cases there
        refine ⟨rfl, rfl, fun target given => ?_, ?_, fun n new inside => ?_, ?_, fun n older => ?_⟩
        · rw [none] at given
          cases given
        · rintro - _ ⟨⟩
          exact rooted.size
        · rw [size] at inside
          have here : n = first.heap.size := by omega
          exact here ▸ rfl
        · rw [size]
          omega
        · rw [← rooted.old n older]
          exact Heap.object_alloc_of_lt (Nat.lt_of_lt_of_le older rooted.size)
  cases request with
  | create markup => exact created rfl ran
  | loadInto target markup =>
    cases ran
    exact rooted
  | instantiate template => exact created rfl ran

theorem Rooted.of_sided {start b : LoadState}
    (rooted : request.Rooted h start (Load.sided tolerant b)) : request.Rooted h start b := by
  obtain ⟨tree, about, given, fresh, new, size, old⟩ := rooted
  cases tolerant <;> exact ⟨tree, about, given, fresh, new, size, old⟩

/-- What is known when all values are there. -/
theorem Populated.rooted (populated : request.Populated env tolerant h s)
    (fits : request.Fits h) :
    ∃ start first before created, request.initial tolerant h = .ok start ∧
      request.Opens h first ∧ request.Rooted h start first ∧
      Load.Populates env tolerant first before created s := by
  obtain ⟨start, begins, ran⟩ := populated
  obtain ⟨b, rfl, opens⟩ := initial_sided fits begins
  obtain ⟨_, next, opened, ran⟩ := Load.ok_of_start_bind ran
  obtain ⟨first, rfl, opens⟩ := opening_sided opens opened
  obtain ⟨before, created, populates⟩ := Load.populates_of_start opens.proper opens.fresh ran
  exact ⟨_, first, before, created, begins, opens, (rooted_opening begins opened).of_sided,
    populates⟩

theorem Populated.populates (populated : request.Populated env tolerant h s)
    (fits : request.Fits h) :
    ∃ first before created, request.Opens h first ∧
      Load.Populates env tolerant first before created s := by
  obtain ⟨_, first, before, created, -, opens, -, populates⟩ := populated.rooted fits
  exact ⟨first, before, created, opens, populates⟩

/-- A load begins with its first steps, and then runs all passes. -/
theorem start_steps (env : Environment) (request : Request) (s : LoadState) :
    (request.steps env).start s =
      ((request.opening env >>= fun _ => Load.populate env) >>= fun _ =>
        Load.furnish env).start s := by
  have passes := Load.start_runPasses_populate env
  have created : (Loader.createThenRun env).start s = ((Load.createRoot env >>= fun _ =>
      Load.populate env) >>= fun _ => Load.furnish env).start s := by
    rw [Loader.createThenRun, bind_assoc, Load.start_bind, Load.start_bind]
    rcases (Load.createRoot env).start s with ⟨error | _, t⟩
    · rfl
    · exact passes t
  cases request with
  | create markup => exact created
  | loadInto target markup => exact passes s
  | instantiate template => exact created

/-- A load that does not fail comes to all its values, and runs the later passes from there. -/
theorem populated_of_run {run : Run} (ran : request.run env tolerant h = .ok run)
    (ended : run.ended = .ok ()) : ∃ s, request.Populated env tolerant h s ∧
      (Load.furnish env).start s = (.ok (), run.state) := by
  unfold Request.run at ran
  cases begins : request.initial tolerant h with
  | error error =>
    rw [begins] at ran
    cases ran
  | ok start =>
    rw [begins] at ran
    obtain rfl := Except.ok.inj ran
    unfold Run.ofStep at ended ⊢
    rcases steps : (request.steps env).start start with ⟨ended', last⟩
    rw [steps] at ended
    obtain rfl : ended' = .ok () := ended
    rw [start_steps] at steps
    obtain ⟨_, s, comes, goesOn⟩ := Load.ok_of_start_bind steps
    exact ⟨s, ⟨start, begins, comes⟩, goesOn⟩

/-- A template that keeps something is instantiated from what it keeps. -/
theorem initial_instantiate {template : ObjectId} {content : Template}
    (keeps : (h.object template).template = some content) :
    (instantiate template).initial tolerant h = .ok (.initial content.tree none
      (.start none tolerant (content.outerScope.filter fun id => !h.dead.contains id)) h) := by
  simp only [initial, keeps]

theorem run_instantiate {template : ObjectId} {content : Template}
    (keeps : (h.object template).template = some content) :
    (instantiate template).run env tolerant h = .ok (.ofStep (Loader.createThenRun env)
      (.initial content.tree none
        (.start none tolerant (content.outerScope.filter fun id => !h.dead.contains id)) h)) := by
  rw [run, initial_instantiate keeps]
  rfl

/-- From there on a load runs the later passes. -/
theorem Populated.run (populated : request.Populated env tolerant h s) :
    request.run env tolerant h = .ok (.ofStep (Load.furnish env) s) := by
  obtain ⟨start, begins, ran⟩ := populated
  have same : (request.steps env).start start = (Load.furnish env).start s := by
    rw [start_steps, Load.start_bind_of_ok ran]
  unfold Request.run
  rw [begins]
  show Except.ok (Run.ofStep (request.steps env) start) = _
  unfold Run.ofStep
  rw [same]

end Request

end MarkupLoader
