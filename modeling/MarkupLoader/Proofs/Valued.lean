import MarkupLoader.Proofs.Stages

/-!
# Values are complete

When the creation of values has not failed, nothing that is still to be loaded lacks its value
(`LoadState.Complete`). Three things make this more than a count of the nodes that the loop visits.

* **The list of nodes is fixed before the loop**, while elements that cannot be made are taken out
  during it. What is left out is listed by nobody afterwards (`Covering.left_out`), so it is not met
  again.
* **The outermost element** has its object from one of three places: it is given, it is made before
  the first pass, or it is made with all the others because it takes arguments. In each case it is
  the one that the load is about (`Covering.about`, `Covering.rooted`).
* **Templates** are passed over by the walk, so nothing inside one gets a value, not even where the
  template itself has been taken out.

The later passes change neither the document nor the values, so they never come to an element whose
object is missing (`Load.Later.valued`).

Main results: `covering_createValues`, `Load.Populates.covering`, `Request.values_complete`.
-/

namespace MarkupLoader

namespace Table

variable {κ α : Type} [DecidableEq κ] {t : Table κ α} {key : κ}

theorem mem_entries_of_get? {value : α} (held : t.get? key = some value) :
    (key, value) ∈ t.entries := by
  obtain ⟨entries⟩ := t
  unfold get? at held
  dsimp only at held ⊢
  induction entries with
  | nil => cases held
  | cons entry rest ih =>
    obtain ⟨k, first⟩ := entry
    unfold find? at held
    split at held
    case isTrue same =>
      cases held
      exact same ▸ List.mem_cons_self
    case isFalse => exact List.mem_cons_of_mem _ (ih held)

theorem not_mem_keys_of_get? (absent : t.get? key = none) : key ∉ t.keys := by
  obtain ⟨entries⟩ := t
  unfold get? at absent
  unfold keys
  dsimp only at absent ⊢
  induction entries with
  | nil => exact List.not_mem_nil
  | cons entry rest ih =>
    obtain ⟨k, first⟩ := entry
    unfold find? at absent
    split at absent
    · cases absent
    case isFalse other =>
      rw [List.map_cons, List.mem_cons, not_or]
      exact ⟨fun same => other same.symm, ih absent⟩

/-- A table that has no key twice has one entry for a key that is there. -/
theorem filter_entries (once : t.keys.Nodup) {value : α} (held : t.get? key = some value) :
    t.entries.filter (fun entry => entry.1 = key) = [(key, value)] := by
  have mem := mem_entries_of_get? held
  obtain ⟨entries⟩ := t
  unfold keys at once
  dsimp only at once mem ⊢
  induction entries with
  | nil => cases mem
  | cons entry rest ih =>
    obtain ⟨k, first⟩ := entry
    obtain ⟨apart, once⟩ := List.nodup_cons.1 once
    by_cases same : k = key
    · -- The entry is in front, and none with this key comes after it.
      have later : rest.filter (fun entry => decide (entry.1 = key)) = [] := by
        refine List.filter_eq_nil_iff.2 fun other mem is => apart ?_
        exact List.mem_map.2 ⟨other, mem, (of_decide_eq_true is).trans same.symm⟩
      have here : first = value := by
        unfold get? find? at held
        rw [if_pos same] at held
        exact Option.some.inj held
      rw [List.filter_cons_of_pos (by simp [same]), later, same, here]
    · have held' : (Table.mk rest).get? key = some value := by
        unfold get? find? at held
        rwa [if_neg same] at held
      have mem' : (key, value) ∈ rest :=
        (List.mem_cons.1 mem).resolve_left fun is => same (congrArg Prod.fst is).symm
      rw [List.filter_cons_of_neg (by simp [same])]
      exact ih once held' mem'

end Table

/-! ## Scalars -/

/-- The names of the language elements that stand for scalars. -/
def scalarNames : List String := ["String", "Int32", "Int64", "Double", "Single", "Boolean", "Null"]

/-- A language element that stands for a scalar, going by its name. -/
structure NodeBody.IsScalar (n : NodeBody) : Prop where
  language : isLanguage n.typeName.namespaceUri = true
  name : n.typeName.localName ∈ scalarNames

theorem mem_scalarNames_of_scalar? {localName text : String} {read : Except String Value}
    (is : scalar? localName text = some read) : localName ∈ scalarNames := by
  unfold scalar? at is
  dsimp only at is
  -- The last case is that of a name that none of the readers is for.
  split at is
  case h_8 => cases is
  all_goals decide

namespace LoadState

theorem isScalar_of_make {s : LoadState} {env : Environment} {id : NodeId} {value : Value}
    (made : s.make env id = .ok (.scalar value)) : (s.node id).toNodeBody.IsScalar := by
  unfold make at made
  dsimp only at made
  split at made
  case h_1 read =>
    split at read
    case isTrue language => exact ⟨language, mem_scalarNames_of_scalar? read⟩
    case isFalse => cases read
  case h_2 => cases made
  case h_3 => cases objects : s.makeObject env id <;> rw [objects] at made <;> cases made

/-! ## The loop -/

/-- **What the loop over the nodes keeps**, when some of them have been seen to. -/
structure Covering (env : Environment) (before : LoadState) (done : List NodeId) (s : LoadState) :
    Prop where
  /-- An element that has been left out is not the outermost one, and nobody lists it. -/
  left_out : ∀ id ∈ done, (before.node id).isObject = true → s.context.value? id = none →
    id ≠ NodeTree.root ∧ ∀ p, id ∉ (s.tree.node p).children
  once : s.context.values.keys.Nodup
  /-- The load is about the object that the outermost element stands for. -/
  about : s.context.rootElement = s.rootInstance
  rooted : NodeTree.root ∈ done → (before.node NodeTree.root).isObject = true →
    s.context.object? NodeTree.root = s.rootInstance
  kept : ∀ n, before.rootInstance = some n → s.rootInstance = some n
  scalar : ∀ id value, s.context.value? id = some value → value.object? = none →
    (before.node id).IsScalar
  /-- Every object that has been made since is that of a node. -/
  covered : ∀ n, before.heap.size ≤ n → n < s.heap.size → ∃ id, s.context.object? id = some n

section Steps

variable {env : Environment} {before s next : LoadState} {done : List NodeId} {id : NodeId}

theorem covering_nil (bare : s.context.values = .empty)
    (about : s.context.rootElement = s.rootInstance) : Covering env s [] s where
  left_out := nofun
  once := by
    rw [bare]
    exact .nil
  about := about
  rooted := nofun
  kept _ is := is
  scalar id value has := by
    rw [Context.value?, bare] at has
    cases has
  covered n new inside := absurd inside (Nat.not_lt_of_le new)

/-- One more node has been seen to, whatever has become of it. -/
theorem Covering.step (covering : Covering env before done s)
    (tree : ∀ p, ∀ c ∈ (next.tree.node p).children, c ∈ (s.tree.node p).children)
    (others : ∀ other, other ≠ id → next.context.value? other = s.context.value? other)
    (fresh : s.context.value? id = none)
    (values : next.context.values = s.context.values ∨
      ∃ value, next.context.values = s.context.values.insert id value)
    (about : next.context.rootElement = next.rootInstance)
    (here : (before.node id).isObject = true → next.context.value? id = none →
      id ≠ NodeTree.root ∧ ∀ p, id ∉ (next.tree.node p).children)
    (below : id ≠ NodeTree.root → next.rootInstance = s.rootInstance)
    (kept : ∀ n, s.rootInstance = some n → next.rootInstance = some n)
    (top : (before.node id).isObject = true → id = NodeTree.root →
      next.context.object? id = next.rootInstance)
    (scalar : ∀ value, next.context.value? id = some value → value.object? = none →
      (before.node id).IsScalar)
    (heap : ∀ n, s.heap.size ≤ n → n < next.heap.size → next.context.object? id = some n) :
    Covering env before (done ++ [id]) next where
  left_out other mem object none := by
    by_cases same : other = id
    · subst same
      exact here object none
    · have earlier : other ∈ done :=
        (List.mem_append.1 mem).resolve_right fun now => same (List.mem_singleton.1 now)
      have none := (others other same).symm.trans none
      obtain ⟨below, unlisted⟩ := covering.left_out other earlier object none
      exact ⟨below, fun p listed => unlisted p (tree p other listed)⟩
  once := by
    rcases values with same | ⟨value, inserted⟩
    · rw [same]
      exact covering.once
    · have absent := Table.not_mem_keys_of_get? fresh
      rw [inserted, Table.keys_insert_of_not_mem _ _ absent]
      exact List.nodup_append.2 ⟨covering.once, List.nodup_singleton id,
        fun key mem other is => by
          rintro rfl
          exact absent (List.mem_singleton.1 is ▸ mem)⟩
  about := about
  rooted mem object := by
    by_cases same : id = NodeTree.root
    · rw [← same] at object ⊢
      exact top object same
    · have earlier : NodeTree.root ∈ done :=
        (List.mem_append.1 mem).resolve_right fun now => same (List.mem_singleton.1 now).symm
      rw [below same, ← covering.rooted earlier object]
      exact congrArg (Option.bind · Value.object?) (others _ (Ne.symm same))
  kept n is := kept n (covering.kept n is)
  scalar other value has simple := by
    by_cases same : other = id
    · subst same
      exact scalar value has simple
    · exact covering.scalar other value ((others other same).symm.trans has) simple
  covered n new inside := by
    by_cases earlier : n < s.heap.size
    · -- The node that has had it keeps it; it is not this one, which has had nothing.
      obtain ⟨other, has⟩ := covering.covered n new earlier
      have ne : other ≠ id := by
        rintro rfl
        rw [Context.object?, fresh] at has
        cases has
      refine ⟨other, ?_⟩
      rw [Context.object?, others other ne]
      exact has
    · exact ⟨id, heap n (Nat.le_of_not_lt earlier) inside⟩

/-- A node that makes no object has been passed over. -/
theorem Covering.passed (covering : Covering env before done s)
    (plain : (before.node id).isObject = false) (fresh : s.context.value? id = none) :
    Covering env before (done ++ [id]) s := by
  refine covering.step (fun _ _ listed => listed) (fun _ _ => rfl) fresh (.inl rfl)
    covering.about (fun object => ?_) (fun _ => rfl) (fun _ is => is) (fun object => ?_)
    (fun value has => ?_) (fun n new inside => absurd inside (Nat.not_lt_of_le new))
  · rw [plain] at object
    cases object
  · rw [plain] at object
    cases object
  · rw [fresh] at has
    cases has

/-- A node has been given its value. -/
theorem Covering.valued {value : Value} (covering : Covering env before done s)
    (fresh : s.context.value? id = none) (tree : next.tree = s.tree)
    (values : next.context.values = s.context.values.insert id value)
    (about : next.context.rootElement = next.rootInstance)
    (below : id ≠ NodeTree.root → next.rootInstance = s.rootInstance)
    (kept : ∀ n, s.rootInstance = some n → next.rootInstance = some n)
    (top : id = NodeTree.root → value.object? = next.rootInstance)
    (scalar : value.object? = none → (before.node id).IsScalar)
    (heap : ∀ n, s.heap.size ≤ n → n < next.heap.size → value.object? = some n) :
    Covering env before (done ++ [id]) next := by
  have there : next.context.value? id = some value := by
    rw [Context.value?, values]
    exact Table.get?_insert_self _ _ _
  have object : next.context.object? id = value.object? := by
    rw [Context.object?, there]
    rfl
  refine covering.step (fun _ _ listed => tree ▸ listed) (fun other ne => ?_) fresh
    (.inr ⟨value, values⟩) about (fun _ none => ?_) below kept (fun _ is => object.trans (top is))
    (fun found has simple => ?_) (fun n new inside => object.trans (heap n new inside))
  · rw [Context.value?, values]
    exact Table.get?_insert_of_ne _ _ ne
  · rw [there] at none
    cases none
  · obtain rfl : value = found := Option.some.inj (there.symm.trans has)
    exact scalar simple

/-- A new object has been made, which the load is about if it is that of the outermost element. -/
theorem Covering.withNew (covering : Covering env before done s)
    (fresh : s.context.value? id = none)
    (alone : id = NodeTree.root → s.rootInstance = none) (o : Object) :
    Covering env before (done ++ [id]) (s.withNew id o) := by
  have values : (s.withNew id o).context.values =
      s.context.values.insert id (.object s.heap.size) := by
    unfold LoadState.withNew
    split <;> rfl
  refine covering.valued fresh (s.tree_withNew id o) values ?_ (s.rootInstance_withNew o)
    (fun n is => ?_) (fun top => ?_) nofun (fun n new inside => ?_)
  · unfold LoadState.withNew
    split
    · rfl
    · exact covering.about
  · have below : id ≠ NodeTree.root := fun top => by
      rw [alone top] at is
      cases is
    rw [s.rootInstance_withNew o below, is]
  · rw [LoadState.withNew, if_pos top]
    rfl
  · rw [s.heap_withNew, Heap.size_alloc] at inside
    have same : n = s.heap.size := by omega
    rw [same]
    rfl

/-- An element that could not be made has been left out, and so nobody lists it any more. -/
theorem Covering.omitting (covering : Covering env before done s)
    (creating : Creating env before done s) (proper : before.tree.Proper)
    (linked : before.tree.Linked)
    (reached : before.tree.Reaches (before.tree.templates env) NodeTree.root id)
    (fresh : s.context.value? id = none) (below : id ≠ NodeTree.root) (error : LoadError) :
    Covering env before (done ++ [id]) (s.omitting id error) := by
  obtain ⟨gone, tree, -⟩ := creating.tree
  have detached : (s.omitting id error).tree = before.tree.without (gone ++ [id]) := by
    rw [← NodeTree.detach_without linked proper gone reached.all, ← tree]
    rfl
  refine covering.step (fun p c listed => ?_) (fun _ _ => rfl) fresh (.inl rfl) covering.about
    (fun _ _ => ⟨below, fun p listed => ?_⟩) (fun _ => rfl) (fun _ is => is)
    (fun _ top => absurd top below) (fun value has => ?_)
    (fun n new inside => absurd inside (Nat.not_lt_of_le new))
  · rw [detached] at listed
    rw [tree]
    obtain ⟨there, stays⟩ := NodeTree.mem_children_without.1 listed
    exact NodeTree.mem_children_without.2 ⟨there, fun out => stays (List.mem_append_left _ out)⟩
  · rw [detached] at listed
    obtain ⟨-, stays⟩ := NodeTree.mem_children_without.1 listed
    exact stays (List.mem_append_right _ (List.mem_singleton_self id))
  · have none : (s.omitting id error).context.value? id = none := fresh
    rw [none] at has
    cases has

/-- One more node has been seen to. -/
theorem Covering.creates (covering : Covering env before done s)
    (creating : Creating env before done s) (proper : before.tree.Proper)
    (linked : before.tree.Linked)
    (reached : before.tree.Reaches (before.tree.templates env) NodeTree.root id) (new : id ∉ done)
    (creates : Load.Creates env s id next) : Covering env before (done ++ [id]) next := by
  have fresh := creating.fresh id new
  have body : (s.node id).toNodeBody = (before.node id).toNodeBody := by
    obtain ⟨gone, tree, -⟩ := creating.tree
    rw [LoadState.node, LoadState.node, tree, NodeTree.node_without]
  cases creates with
  | idle none => exact covering.passed (body ▸ none) fresh
  | @reused root _ top known =>
    subst top
    refine covering.valued fresh rfl rfl ?_ (fun below => absurd rfl below) (fun _ is => is)
      (fun _ => known.symm) (fun none => by cases none)
      (fun n new inside => absurd inside (Nat.not_lt_of_le new))
    show s.context.rootElement.or (some root) = s.rootInstance
    rw [covering.about, known]
    rfl
  | scalar _ alone made =>
    -- A scalar is no object, and there is none that the outermost element stands for.
    exact covering.valued fresh rfl rfl covering.about (fun _ => rfl) (fun _ is => is)
      (fun top => (simple_of_make made).1.trans (alone top).symm)
      (fun _ => body ▸ isScalar_of_make made)
      (fun n new inside => absurd inside (Nat.not_lt_of_le new))
  | made _ alone _ => exact covering.withNew fresh alone _
  | omitted _ below _ => exact covering.omitting creating proper linked reached fresh below _

/-- **The creation of values covers all nodes that are loaded.** -/
theorem covering_createValues (proper : before.tree.Proper) (linked : before.tree.Linked)
    (tolerant : before.context.tolerant = true) (bare : before.context.values = .empty)
    (known : ∀ root, before.rootInstance = some root → root < before.heap.size)
    (about : before.context.rootElement = before.rootInstance)
    (ran : (Load.createValues env).start before = (.ok (), next)) :
    Covering env before (before.loadedUpwards env) next := by
  rw [Load.createValues, Load.start_get_bind] at ran
  -- Each node is covered beside what is known of it already.
  refine (Load.forM_along (P := fun done _ s => Creating env before done s ∧
    Covering env before done s) (fun done id rest s t walk both ran => ?_)
    ⟨creating_nil tolerant bare, covering_nil bare about⟩ ran).2
  obtain ⟨creating, covering⟩ := both
  obtain ⟨reached, new⟩ := next_loaded proper walk
  have creates := Load.creates_of_createValue (creating.fresh id new) ran
  exact ⟨creating.createValue proper linked known reached new ran,
    covering.creates creating proper linked reached new creates⟩

end Steps

/-! ## Complete values -/

/-- **Values are complete** in a state of a load that began with the heap `h` and maybe with an
object to load into. -/
structure Complete (env : Environment) (h : Heap) (target? : Option ObjectId) (s : LoadState) :
    Prop where
  /-- Everything that is loaded and makes an object has one value. -/
  valued : ∀ id, s.tree.Reaches (s.isTemplate env) NodeTree.root id →
    (s.node id).isObject = true →
      ∃ value, s.context.values.entries.filter (fun entry => entry.1 = id) = [(id, value)]
  /-- Property elements and texts have none. -/
  object : ∀ id value, s.context.value? id = some value → (s.node id).isObject = true
  /-- Nothing inside a template has one. -/
  outside : ∀ template id, s.isTemplate env template = true →
    s.tree.Reaches (fun _ => false) template id → id ≠ template → s.context.value? id = none
  distinct : ∀ id other n, s.context.object? id = some n → s.context.object? other = some n →
    id = other
  /-- Objects are new, except the one to load into. -/
  new : ∀ id n, s.context.object? id = some n →
    id = NodeTree.root ∧ target? = some n ∨ h.size ≤ n ∧ n < s.heap.size
  given : ∀ target, target? = some target → s.context.object? NodeTree.root = some target
  /-- The load is about the object of the outermost element. -/
  about : ∀ n, s.context.object? NodeTree.root = some n → s.context.rootElement = some n

end LoadState

namespace Load

section Populated

variable {env : Environment} {tolerant : Bool} {s before created filled : LoadState}

/-- What the creation of values covers in a load that gets so far. -/
theorem Populates.covering (populates : Populates env tolerant s before created filled)
    (proper : s.tree.Proper) (fresh : s.Fresh)
    (about : s.context.rootElement = s.rootInstance) :
    LoadState.Covering env before (before.loadedUpwards env) created := by
  have prepares := populates.prepares
  obtain ⟨properBefore, linkedBefore⟩ := prepares.proper proper
  refine LoadState.covering_createValues properBefore linkedBefore
    (prepares.tolerant.trans fresh.untouched.tolerant)
    (prepares.values.trans fresh.untouched.values) populates.known ?_ populates.creation
  rw [prepares.rootElement, prepares.rootInstance, about]

/-- What is still to be loaded and makes an object has its value. -/
theorem Populates.valued (populates : Populates env tolerant s before created filled)
    (proper : s.tree.Proper) (fresh : s.Fresh)
    (about : s.context.rootElement = s.rootInstance) {id : NodeId}
    (reached : filled.tree.Reaches (filled.isTemplate env) NodeTree.root id)
    (object : (filled.node id).isObject = true) :
    ∃ value, filled.context.value? id = some value := by
  have covering := populates.covering proper fresh about
  have properBefore := (populates.prepares.proper proper).1
  have mem : id ∈ before.loadedUpwards env :=
    (NodeTree.mem_postorder properBefore).2 ((populates.reaches_iff proper reached.all).1 reached)
  have was : (before.node id).isObject = true := by
    rw [← congrArg NodeBody.isObject (populates.body id)]
    exact object
  -- What has none has been left out, but the outermost element never is, and nobody lists the others.
  refine Option.ne_none_iff_exists'.1 fun none => ?_
  rw [populates.value?] at none
  obtain ⟨below, unlisted⟩ := covering.left_out id mem was none
  cases reached with
  | top => exact below rfl
  | @child p _ _ _ listed =>
    rw [populates.tree] at listed
    exact unlisted p listed

/-- The object of a node has been made for it, or the load has been about it from the beginning. -/
theorem Populates.known_or_new (populates : Populates env tolerant s before created filled)
    {id : NodeId} {n : ObjectId} (has : filled.context.object? id = some n) :
    id = NodeTree.root ∧ s.rootInstance = some n ∨ s.heap.size ≤ n := by
  rw [populates.object?] at has
  obtain ⟨value, held, is⟩ := Option.bind_eq_some_iff.1 has
  cases (populates.creating.got held).2 with
  | reused top known =>
    cases is
    rw [populates.prepares.rootInstance] at known
    exact .inl ⟨top, known⟩
  | scalar made =>
    rw [(LoadState.simple_of_make made).1] at is
    cases is
  | made _ _ _ _ _ after =>
    cases is
    exact .inr (populates.prepares.heap ▸ after)

/-- The object of the outermost element is the one that the load is about. -/
theorem Populates.about (populates : Populates env tolerant s before created filled)
    (proper : s.tree.Proper) (fresh : s.Fresh)
    (about : s.context.rootElement = s.rootInstance)
    (object : (filled.node NodeTree.root).isObject = true) :
    filled.context.object? NodeTree.root = filled.context.rootElement ∧
      ∀ n, s.rootInstance = some n → filled.context.rootElement = some n := by
  have covering := populates.covering proper fresh about
  have mem : NodeTree.root ∈ before.loadedUpwards env :=
    (NodeTree.mem_postorder (populates.prepares.proper proper).1).2 .top
  have was : (before.node NodeTree.root).isObject = true := by
    rw [← congrArg NodeBody.isObject (populates.body NodeTree.root)]
    exact object
  rw [populates.object?, populates.rootElement, covering.about]
  refine ⟨covering.rooted mem was, fun n is => covering.kept n ?_⟩
  rw [populates.prepares.rootInstance, is]

end Populated

/-! ## Later passes -/

/-- **A state between two nodes of a later pass**, in a load whose values are all there in `s`. -/
inductive Later (env : Environment) (s : LoadState) : LoadState → Prop
  | naming {done rest : List NodeId} {u : LoadState} (order : s.loaded env = done ++ rest)
    (ran : (done.forM registerName).start s = (.ok (), u)) : Later env s u
  | filling {done rest : List NodeId} {t u : LoadState}
    (named : (completePass env .nameRegistration).start s = (.ok (), t))
    (order : t.loaded env = done ++ rest)
    (ran : (done.forM (fillNode env)).start t = (.ok (), u)) : Later env s u
  | applying {done rest : List NodeId} {t u : LoadState}
    (furnished : ([Pass.nameRegistration, .resourceDictionaryFill].forM (completePass env)).start
      s = (.ok (), t))
    (order : t.loadedUpwards env = done ++ rest)
    (ran : (done.forM (applyNode env)).start t = (.ok (), u)) : Later env s u

theorem Later.settled {env : Environment} {s u : LoadState} (later : Later env s u) :
    s.Settled (fun _ _ => True) u := by
  have chains : Heap.Chains fun _ _ => True := ⟨fun _ => trivial, fun _ _ _ _ _ => trivial⟩
  have filling : Heap.Filling fun _ _ => True :=
    { chains with
      entry := fun _ _ _ _ => trivial
      property := fun _ _ _ _ _ _ _ => trivial
      made := fun _ _ _ _ _ _ _ => trivial }
  have assigning : Heap.Assigning fun _ _ => True :=
    { chains with
      set := fun _ _ _ _ => trivial
      item := fun _ _ _ => trivial
      scope := fun _ _ _ => trivial }
  cases later with
  | naming _ ran => exact (settles_forM chains (settles_registerName chains) _).ran ran
  | filling named _ ran =>
    have first : Settles (fun _ _ => True) (runPass env .nameRegistration) :=
      settles_registerNames env filling
    exact ((settles_completePass chains first).ran named).trans chains
      ((settles_forM chains (settles_fillNode env filling) _).ran ran)
  | applying furnished _ ran =>
    exact ((settles_fill filling env).ran furnished).trans chains
      ((settles_forM chains (settles_applyNode env assigning) _).ran ran)

end Load

/-! ## Requests -/

namespace Request

variable {env : Environment} {tolerant : Bool} {h : Heap} {request : Request} {s : LoadState}

/-- An object is new, or it is the one to load into. -/
theorem Rooted.origin {start first : LoadState} (rooted : request.Rooted h start first)
    {n : ObjectId} (is : first.rootInstance = some n) :
    request.target? = some n ∨ h.size ≤ n := by
  cases given : request.target? with
  | none => exact .inr (rooted.fresh given n is)
  | some target => exact .inl ((rooted.given target given).symm.trans is)

/-- The outermost node of a document to load into an object is an element. -/
theorem isObject_of_target {start : LoadState} {target : ObjectId}
    (begins : request.initial tolerant h = .ok start) (given : request.target? = some target) :
    (start.node NodeTree.root).isObject = true := by
  cases request with
  | create markup => cases given
  | instantiate template => cases given
  | loadInto other markup =>
    unfold initial at begins
    dsimp only at begins
    split at begins
    · cases begins
    case h_2 read =>
      cases begins
      exact (NodeTree.proper_of_read read).2

/--
**The creation of values is complete and gives no object twice.** In a load that comes to a state in
which all values are there, everything that is loaded and makes an object has one value, and nothing
else has any: no property element, no text, and nothing inside a template. Distinct nodes have
distinct objects. All of these are new, except the object to load into, which is that of the
outermost element. The load is about the object of the outermost element, if that has one.

So wherever a later pass is, nothing that is loaded and makes an object lacks its value.
-/
theorem values_complete (fits : request.Fits h) (populated : request.Populated env tolerant h s) :
    s.Complete env h request.target? ∧
      ∀ u, Load.Later env s u → ∀ id, u.tree.Reaches (u.isTemplate env) NodeTree.root id →
        (u.node id).isObject = true → ∃ value, u.context.value? id = some value := by
  obtain ⟨start, first, before, created, begins, opens, rooted, populates⟩ :=
    populated.rooted fits
  have proper := opens.proper
  obtain ⟨properBefore, -⟩ := populates.prepares.proper proper
  have covering := populates.covering proper opens.fresh rooted.about
  have valued : ∀ {id : NodeId}, s.tree.Reaches (s.isTemplate env) NodeTree.root id →
      (s.node id).isObject = true → ∃ value, s.context.value? id = some value :=
    populates.valued proper opens.fresh rooted.about
  refine ⟨⟨fun id reached object => ?_, fun id value has => (populates.of_value proper has).1,
    fun template id is below ne => ?_, fun _ _ _ => populates.distinct, fun id n has => ?_,
    fun target given => ?_, fun n has => ?_⟩, fun u later id reached object => ?_⟩
  · obtain ⟨value, has⟩ := valued reached object
    refine ⟨value, Table.filter_entries ?_ has⟩
    rw [populates.values]
    exact covering.once
  · -- Only what is reached without entering a template has a value.
    refine Decidable.byContradiction fun some => ?_
    obtain ⟨value, has⟩ := Option.ne_none_iff_exists'.1 some
    have reached := (populates.of_value proper has).2
    obtain ⟨gone, tree, -⟩ := populates.without
    rw [tree] at below
    rw [populates.templates] at is
    exact properBefore.not_reaches_below is below.of_without ne reached
  · have inside := (populates.of_object has).1
    rcases populates.known_or_new has with ⟨top, known⟩ | after
    · exact (rooted.origin known).imp (⟨top, ·⟩) (⟨·, inside⟩)
    · exact .inr ⟨Nat.le_trans rooted.size after, inside⟩
  · have object : (s.node NodeTree.root).isObject = true := by
      rw [populates.isObject proper, LoadState.node, rooted.tree]
      exact isObject_of_target begins given
    obtain ⟨same, kept⟩ := populates.about proper opens.fresh rooted.about object
    rw [same]
    exact kept target (rooted.given target given)
  · obtain ⟨value, held, -⟩ := Option.bind_eq_some_iff.1 has
    have object := (populates.of_value proper held).1
    rw [← (populates.about proper opens.fresh rooted.about object).1, has]
  · obtain ⟨tree, -, values, -⟩ := later.settled
    unfold LoadState.isTemplate LoadState.node at reached
    rw [tree] at reached
    unfold LoadState.node at object
    rw [tree] at object
    unfold Context.value?
    rw [values]
    exact valued reached object

/-- Of a layout with an element of an unknown type and a template in it, the layout and the template
have their objects, and the label inside the template has none. -/
theorem values_complete_template :
    let env : Environment := ⟨.controls, .builtIn⟩
    let markup := "<StackLayout xmlns=\"http://xamarin.com/schemas/2014/forms\"><Unknown/>" ++
      "<DataTemplate><Label/></DataTemplate></StackLayout>"
    let request := create markup
    let tree : NodeTree := ⟨#[
      ⟨⟨.root, ⟨formsNamespace, "StackLayout"⟩, [], [], [("", formsNamespace)], ⟨1, 1⟩⟩, [1, 2],
        none⟩,
      ⟨⟨.element, ⟨formsNamespace, "Unknown"⟩, [], [], [], ⟨1, 60⟩⟩, [], none⟩,
      ⟨⟨.element, ⟨formsNamespace, "DataTemplate"⟩, [], [], [], ⟨1, 70⟩⟩, [3], none⟩,
      ⟨⟨.element, ⟨formsNamespace, "Label"⟩, [], [], [], ⟨1, 84⟩⟩, [], none⟩], []⟩
    let first : LoadState := .initial tree none (.start none true []) .empty
    let s := ((request.opening env >>= fun _ => Load.populate env).start first).2
    request.Fits .empty ∧ request.Populated env true .empty s ∧ s.Complete env .empty none ∧
      s.context.rootElement = some 0 ∧
      [0, 1, 2, 3].map s.context.object? = [some 0, none, some 1, none] := by
  intro env markup request tree first s
  have begins : request.initial true .empty = .ok first := by
    have read : NodeTree.read markup = .ok tree := NodeTree.read_of_toOption (by decide +kernel)
    show (create markup).initial true .empty = _
    rw [initial, read]
  obtain ⟨populated, about, objects⟩ :
      ((request.opening env >>= fun _ => Load.populate env).start first).1 = .ok () ∧
      s.context.rootElement = some 0 ∧
      [0, 1, 2, 3].map s.context.object? = [some 0, none, some 1, none] := by
    decide +kernel
  have fits : request.Fits .empty := trivial
  have comes : request.Populated env true .empty s := ⟨first, begins, Load.start_of_ok populated⟩
  exact ⟨fits, comes, (values_complete fits comes).1, about, objects⟩

end Request

end MarkupLoader
