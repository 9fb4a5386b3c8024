import MarkupLoader.Proofs.AbreastFurnishing
import MarkupLoader.Proofs.HandingOn
import MarkupLoader.Proofs.Valued

/-!
# Requests for two versions of a document

A request for a document and the same request for one with a node more (`Request.Versions`) begin
abreast, and so they end with outcomes that are akin (`Outcome.Akin`), **if they do the same where
something has been spliced in**. All else is known: what comes before the first pass, what prepares
the documents, and the creation of values.

Main result: `Request.akin_of_splices`.
-/

namespace MarkupLoader

open NodeTree (moved)

/-- Outcomes that differ in positions only: the loads succeed and leave the same objects, or they
fail with errors of one kind. -/
inductive Outcome.Akin : Outcome → Outcome → Prop
  | ok {r r' : Report} {h k : Heap} (root : r'.root = r.root) (names : r'.names = r.names)
    (passes : r'.passes = r.passes) (heap : h.Akin k) : Akin ⟨.ok r, h⟩ ⟨.ok r', k⟩
  | error {e f : LoadError} {h k : Heap} (kind : e.SameKind f) : Akin ⟨.error e, h⟩ ⟨.error f, k⟩

theorem Outcome.Akin.heap_of_ok {o o' : Outcome} (akin : o.Akin o')
    (succeeds : o.result.toOption.isSome = true) : o.heap.Akin o'.heap := by
  cases akin with
  | ok _ _ _ heap => exact heap
  | error => cases succeeds

theorem Outcome.Akin.trans {o o' o'' : Outcome} (first : o.Akin o') (second : o'.Akin o'') :
    o.Akin o'' := by
  cases first with
  | ok root names passes heap =>
    cases second with
    | ok root' names' passes' heap' =>
      exact .ok (root'.trans root) (names'.trans names) (passes'.trans passes)
        (Eq.trans heap' heap)
  | error kind =>
    cases second with
    | error kind' => exact .error (kind.trans kind')

/-- One request for two documents. -/
inductive Request.Versions (t u : NodeTree) : Request → Request → Prop
  | create {markup markup' : String} (read : NodeTree.read markup = .ok t)
    (read' : NodeTree.read markup' = .ok u) : Versions t u (create markup) (create markup')
  | loadInto (target : ObjectId) {markup markup' : String} (read : NodeTree.read markup = .ok t)
    (read' : NodeTree.read markup' = .ok u) :
    Versions t u (loadInto target markup) (loadInto target markup')

/-! ## Before the first pass -/

/-- Loads abreast that have not begun their passes. -/
structure LoadState.Opened (env : Environment) (x p : NodeId) (t u : NodeTree) (a b : LoadState) :
    Prop extends LoadState.Abreast env x p a b where
  whole : a.tree = t
  whole' : b.tree = u
  unscoped : a.context.scopes = #[] ∧ a.context.nodeScopes = .empty
  unscoped' : b.context.scopes = #[] ∧ b.context.nodeScopes = .empty

theorem making_opened (env : Environment) (x p : NodeId) (t u : NodeTree) :
    Making env x p (LoadState.Opened env x p t u) where
  tolerant both := both.tolerant
  akin both := both.heap
  record both _ _ := { both with }
  heap both akin := { both with heap := akin }
  completed both pass := { both with passes := congrArg (· ++ [pass]) both.passes }
  abreast both := both.toAbreast
  value both i v := { both with toAbreast := both.withValue i v }
  root both _ := { both with rootInstance := rfl }
  element both _ := { both with rootElement := rfl }

theorem NodeTree.laid_of_read {markup : String} {tree : NodeTree}
    (read : NodeTree.read markup = .ok tree) : tree.Laid := by
  obtain ⟨outer, below, ignorable, -, -, -, rfl⟩ := forest_of_read read
  exact laid_ofForest outer below ignorable

/-- Loads begin abreast with one context that has nothing in it. -/
theorem LoadState.opened_initial {env : Environment} {x p : NodeId} {t u : NodeTree}
    (root : Option ObjectId) (context : Context) (h : Heap) (laid : t.Laid) (laid' : u.Laid)
    (splices : t.Splices u x p) (apart : t.Apart env u x p)
    (values : context.values = .empty) (scopes : context.scopes = #[])
    (nodeScopes : context.nodeScopes = .empty) :
    LoadState.Opened env x p t u (.initial t root context h) (.initial u root context h) where
  tree := splices
  proper := laid.proper
  proper' := laid'.proper
  links := NodeTree.links_of_unlinked laid.unlinked laid'.unlinked
  apart := apart
  value i := by
    unfold Context.value? LoadState.initial
    rw [values]
    rfl
  silent := by
    unfold Context.value? LoadState.initial
    rw [values]
    rfl
  heap := .refl h
  rootInstance := rfl
  rootElement := rfl
  tolerant := rfl
  outerScope := rfl
  passes := rfl
  whole := rfl
  whole' := rfl
  unscoped := ⟨scopes, nodeScopes⟩
  unscoped' := ⟨scopes, nodeScopes⟩

/-- The object of the outermost element is made on both sides, and then all other values are. -/
theorem Load.together_opening {env : Environment} {x p : NodeId} {t u : NodeTree}
    {a b : LoadState} (both : LoadState.Opened env x p t u a b) (laid : t.Laid) (laid' : u.Laid)
    (object : (t.node NodeTree.root).isObject = true) :
    TogetherDone (LoadState.Level env x p) ((createRoot env >>= fun _ => populate env).start a)
      ((createRoot env >>= fun _ => populate env).start b) := by
  have opening : TogetherDone (LoadState.Opened env x p t u) ((createRoot env).start a)
      ((createRoot env).start b) := by
    refine together_createRoot (making_opened env x p t u) both ?_
    rwa [LoadState.node, both.whole]
  refine Together.bind opening fun _ _ s s' _ both _ => ?_
  exact together_populate both.toAbreast (both.whole ▸ laid) (both.whole' ▸ laid') both.unscoped
    both.unscoped'

namespace Load

variable {env : Environment} {tolerant : Bool} {h : Heap} {target n : ObjectId} {doc : NodeTree}
  {i : NodeId} {before created last : LoadState} (proper : doc.Proper)

include proper

/-- A load into an object that gets as far as to create all values. -/
theorem populates_of_loadInto (inside : target < h.size)
    (ran : (populate env).start (.initial doc (some target) (.start (some target) tolerant []) h) =
      (.ok (), last)) :
    ∃ before created, Populates env tolerant
      (.initial doc (some target) (.start (some target) true []) h) before created last := by
  refine populates_of_start
    (s := .initial doc (some target) (.start (some target) true []) h) proper
    ⟨untouched_start _ _, rfl, fun _ is => by cases is; exact inside⟩ ?_
  cases tolerant <;> exact ran

/-- In a load into an object, that of a node is of the type that the document names, or the one to
load into. -/
theorem typed_of_loadInto (populates : Populates env tolerant
      (.initial doc (some target) (.start (some target) true []) h) before created last)
    (has : last.context.object? i = some n) :
    env.registry.get? (doc.node i).typeName = some (last.heap.descriptor n) ∨
      i = NodeTree.root ∧ some target = some n ∧ last.heap.descriptor n = h.descriptor n := by
  rw [populates.object?] at has
  obtain ⟨value, held, is⟩ := Option.bind_eq_some_iff.1 has
  cases (populates.creating.got held).2 with
  | scalar made =>
    rw [(LoadState.simple_of_make made).1] at is
    cases is
  | reused top known =>
    cases is
    have older := populates.known n known
    rw [populates.prepares.rootInstance] at known
    refine .inr ⟨top, known, ?_⟩
    rw [populates.heap, Heap.descriptor, populates.creating.old n older, populates.prepares.heap]
    rfl
  | @made u gone n object made tree =>
    cases is
    have name : (u.node i).typeName = (doc.node i).typeName := by
      rw [LoadState.node, tree, NodeTree.node_without]
      exact (populates.prepares.kind proper i).2
    rw [← name, populates.heap]
    exact .inl (LoadState.makes_of_make made).known

end Load

namespace Request

variable {env : Environment} {tolerant : Bool} {h : Heap} {request request' : Request}
  {t u : NodeTree} {x p : NodeId} {s : LoadState}

theorem Versions.documents (versions : Versions t u request request') :
    t.Laid ∧ u.Laid ∧ (t.node NodeTree.root).isObject = true := by
  cases versions with
  | create read read' | loadInto target read read' =>
    exact ⟨NodeTree.laid_of_read read, NodeTree.laid_of_read read',
      (NodeTree.proper_of_read read).2⟩

/-- The requests begin abreast. -/
theorem Versions.initial (tolerant : Bool) (h : Heap) (versions : Versions t u request request')
    (splices : t.Splices u x p) (apart : t.Apart env u x p) :
    ∃ a b, request.initial tolerant h = .ok a ∧ request'.initial tolerant h = .ok b ∧
      LoadState.Opened env x p t u a b := by
  obtain ⟨laid, laid', -⟩ := versions.documents
  have opened := fun root context =>
    LoadState.opened_initial root context h laid laid' splices apart
  cases versions with
  | create read read' =>
    exact ⟨_, _, by simp only [Request.initial, read],
      by simp only [Request.initial, read'],
      opened none (.start none tolerant []) rfl rfl rfl⟩
  | loadInto target read read' =>
    exact ⟨_, _, by simp only [Request.initial, read],
      by simp only [Request.initial, read'],
      opened (some target) (.start (some target) tolerant []) rfl rfl rfl⟩

/-- The first steps are taken together, up to the creation of values. -/
theorem Versions.together_populate (versions : Versions t u request request') {a b : LoadState}
    (both : LoadState.Opened env x p t u a b) :
    TogetherDone (LoadState.Level env x p)
      ((request.opening env >>= fun _ => Load.populate env).start a)
      ((request'.opening env >>= fun _ => Load.populate env).start b) := by
  obtain ⟨laid, laid', object⟩ := versions.documents
  cases versions with
  | create read read' => exact Load.together_opening both laid laid' object
  | loadInto target read read' =>
    refine Load.Together.bind (Load.together_done both) fun _ _ s s' _ both _ => ?_
    exact Load.together_populate both.toAbreast (both.whole ▸ laid) (both.whole' ▸ laid')
      both.unscoped both.unscoped'

/-- Where the second load comes to all its values, the first one does, and they go abreast. -/
theorem Versions.level (versions : Versions t u request request') (splices : t.Splices u x p)
    (apart : t.Apart env u x p) {b : LoadState} (populated : request'.Populated env tolerant h b) :
    ∃ a, request.Populated env tolerant h a ∧ LoadState.Level env x p a b := by
  obtain ⟨a, b', begins, begins', both⟩ := versions.initial tolerant h splices apart
  obtain ⟨first, begins'', ran⟩ := populated
  cases begins'.symm.trans begins''
  have together := versions.together_populate both
  rw [ran] at together
  generalize ran' : (request.opening env >>= fun _ => Load.populate env).start a = last at together
  cases together with
  | ok _ both => exact ⟨_, ⟨a, begins, ran'⟩, both⟩

/-! ## When all values are there -/

/-- What a load has made of a document when all values are there. -/
structure Left (env : Environment) (tolerant : Bool) (t : NodeTree) (s : LoadState) : Prop where
  kind : ∀ i, (s.node i).kind = (t.node i).kind
  typeName : ∀ i, (s.node i).typeName = (t.node i).typeName
  lookUp : ∀ i, s.tree.lookUpNamespace i = t.linkParents.lookUpNamespace i
  listed : ∀ i, ∀ c ∈ (s.node i).children, c ∈ (t.node i).children
  /-- No text is left out. -/
  text : ∀ i, ∀ c ∈ (t.node i).children, ∀ content, (t.node c).kind = .text content →
    c ∈ (s.node i).children
  /-- A strict load leaves out what is pruned, and nothing else. -/
  children : tolerant = false →
    ∀ i, (s.node i).children = ((t.without t.prunedNodes).node i).children
  valued : ∀ i, s.tree.Reaches (s.isTemplate env) NodeTree.root i → (s.node i).isObject = true →
    ∃ value, s.context.value? i = some value
  /-- What is pruned has no values, nor has anything in it. -/
  kept : ∀ i value, s.context.value? i = some value → t.Keeps t.prunedNodes i
  /-- What is no object is what a scalar stands for. -/
  scalar : ∀ i value, s.context.value? i = some value → value.object? = none →
    (t.node i).toNodeBody.IsScalar
  isTemplate : s.isTemplate env = t.templates env
  tolerant : s.context.tolerant = tolerant

theorem Populated.left (populated : request.Populated env tolerant h s) (fits : request.Fits h)
    {start : LoadState} (begins : request.initial tolerant h = .ok start) :
    Left env tolerant start.tree s := by
  obtain ⟨start', first, before, created, begins', opens, rooted, populates⟩ := populated.rooted fits
  cases begins.symm.trans begins'
  have proper := opens.proper
  obtain ⟨gone, tree, omittable⟩ := populates.without
  have children : ∀ i, (s.node i).children =
      ((first.tree.without first.tree.prunedNodes).node i).children.filter
        fun c => !gone.contains c := fun i => by
    rw [← populates.prepares.children proper i, LoadState.node, tree, NodeTree.node_without]
    rfl
  rw [← rooted.tree]
  refine ⟨fun i => populates.kind proper i, fun i => ?_, populates.lookUpNamespace,
    fun i c mem => ?_, fun i c mem content is => ?_, fun strict i => ?_, fun i reached object =>
    populates.valued proper opens.fresh rooted.about reached object, fun i value has => ?_,
    fun i value has none => ?_, ?_, populates.flag⟩
  · exact (congrArg NodeBody.typeName (populates.body i)).trans
      (populates.prepares.kind proper i).2
  · rw [children] at mem
    exact (NodeTree.mem_children_without.1 (List.mem_filter.1 mem).1).1
  · rw [children]
    refine List.mem_filter.2 ⟨NodeTree.mem_children_without.2 ⟨mem, fun out => ?_⟩, ?_⟩
    · exact NodeTree.Splices.not_text_of_pruned proper out content is
    · -- What is left out makes objects.
      rw [Bool.not_eq_true', Bool.eq_false_iff]
      intro out
      have object := omittable.object c (List.contains_iff_mem.1 out)
      rw [← LoadState.node, NodeBody.isObject, (populates.prepares.kind proper c).1] at object
      rw [LoadState.node, is] at object
      cases object
  · rw [← populates.prepares.children proper i, LoadState.node, populates.tree,
      populates.creating.whole (populates.strictly strict)]
    rfl
  · have reached := (populates.of_value proper has).2.all
    exact (NodeTree.reaches_congr fun n _ => ⟨populates.prepares.children proper n, rfl⟩).1 reached
  · have scalar := (populates.covering proper opens.fresh rooted.about).scalar i value
      ((populates.value? i).symm.trans has) none
    have name : (before.node i).typeName = (first.node i).typeName :=
      (populates.prepares.kind proper i).2
    exact ⟨(congrArg QName.namespaceUri name) ▸ scalar.language,
      (congrArg QName.localName name) ▸ scalar.name⟩
  · rw [populates.templates]
    funext i
    obtain ⟨kind, name⟩ := populates.prepares.kind proper i
    unfold LoadState.node at kind name
    unfold NodeTree.templates Environment.isTemplate NodeBody.isObject
    rw [kind, name]

theorem Versions.left (versions : Versions t u request request') (fits : request.Fits h)
    (populated : request.Populated env tolerant h s) : Left env tolerant t s := by
  cases versions with
  | create read read' =>
    refine populated.left fits
      (?_ : _ = Except.ok (LoadState.initial t none (.start none tolerant []) h))
    simp only [Request.initial, read]
  | loadInto target read read' =>
    refine populated.left fits
      (?_ : _ = Except.ok (LoadState.initial t (some target) (.start (some target) tolerant []) h))
    simp only [Request.initial, read]

theorem Versions.symm (versions : Versions t u request request') :
    Versions u t request' request := by
  cases versions with
  | create read read' => exact .create read' read
  | loadInto target read read' => exact .loadInto target read' read

theorem Versions.fits (versions : Versions t u request request') (fits : request.Fits h) :
    request'.Fits h := by
  cases versions with
  | create => trivial
  | loadInto => exact fits

/-- The object of a node is of the type that the document names, or the one to load into. -/
theorem Versions.typed (versions : Versions t u request request') (fits : request.Fits h)
    {s : LoadState} (populated : request.Populated env tolerant h s) {i : NodeId} {n : ObjectId}
    (has : s.context.object? i = some n) : n < s.heap.size ∧
      (env.registry.get? (t.node i).typeName = some (s.heap.descriptor n) ∨
        i = NodeTree.root ∧ request.target? = some n ∧ s.heap.descriptor n = h.descriptor n) := by
  obtain ⟨start, begins, ran⟩ := populated
  cases versions with
  | create read read' =>
    simp only [Request.initial, read] at begins
    cases begins
    have proper := (NodeTree.proper_of_read read).1
    obtain ⟨_, _, _, begun, populates⟩ := Load.populates_of_create proper ran
    exact ⟨(populates.of_object has).1, .inl (populates.typed begun proper has)⟩
  | loadInto target read read' =>
    simp only [Request.initial, read] at begins
    cases begins
    have proper := (NodeTree.proper_of_read read).1
    obtain ⟨_, _, populates⟩ := Load.populates_of_loadInto proper fits ran
    exact ⟨(populates.of_object has).1, Load.typed_of_loadInto proper populates has⟩

/-! ## Outcomes -/

/-- Loads that have gone abreast to their end give the same report. -/
theorem akin_report {a b : LoadState} (both : LoadState.Level env x p a b) :
    Outcome.Akin ⟨a.report, a.heap⟩ ⟨b.report, b.heap⟩ := by
  have names : ∀ {s : LoadState}, s.InFirst env → s.names = (s.context.scope 0).names :=
    fun first => by
    have opened := first.opened
    unfold LoadState.names Context.rootScope?
    rw [if_neg (by simpa [Array.isEmpty_iff_size_eq_zero] using Nat.ne_of_gt opened)]
  unfold LoadState.report
  rw [both.rootElement]
  cases a.context.rootElement with
  | none => exact .error rfl
  | some root =>
    refine .ok rfl ?_ both.passes both.heap
    rw [names both.inFirst, names both.inFirst']
    exact both.names

/-- **Two versions of a document have the same outcome**, if what has been spliced into one of them
counts for nothing where dictionaries are filled, and if its content is assigned alike. -/
theorem akin_of_splices (versions : Versions t u request request') (splices : t.Splices u x p)
    (apart : t.Apart env u x p) (blind : env.extensions.Blind)
    (later : ∀ a b, request.Populated env tolerant h a → request'.Populated env tolerant h b →
      ∀ s s', LoadState.LevelFrom env x p a b s s' →
        Load.Filled env x p s s' ∧ Load.Applied env x p s s') :
    Outcome.Akin (request.outcome env tolerant h) (request'.outcome env tolerant h) := by
  obtain ⟨a, b, begins, begins', both⟩ := versions.initial tolerant h splices apart
  have populated := versions.together_populate both
  have whole : TogetherDone (LoadState.Level env x p) ((request.steps env).start a)
      ((request'.steps env).start b) := by
    rw [start_steps, start_steps]
    refine Load.Together.bindRan populated fun _ _ s s' ran ran' both _ => ?_
    have later := later s s' ⟨a, begins, ran⟩ ⟨b, begins', ran'⟩
    exact Load.together_furnish both blind (fun s s' since => (later s s' since).1)
      fun s s' since => (later s s' since).2
  rw [outcome_eq, outcome_eq, run, run, begins, begins']
  show Outcome.Akin (Run.ofStep (request.steps env) a).outcome
    (Run.ofStep (request'.steps env) b).outcome
  unfold Run.ofStep
  generalize (request.steps env).start a = last at whole
  generalize (request'.steps env).start b = last' at whole
  cases whole with
  | ok _ both => exact akin_report both
  | error kind => exact .error kind

end Request

end MarkupLoader
