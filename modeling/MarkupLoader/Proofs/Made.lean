import MarkupLoader.Proofs.Creating

/-!
# What the creation of values has made

After the creation of values every node that makes an object has its value, unless it has been left
out. **What a node has got** (`LoadState.Gets`) is said once for all nodes: nothing, the object that
the load is about, a scalar, or an object of its own, which is what the node made at some moment of
the creation of values.

* **Made before** (`LoadState.Creating`) is the state when some nodes have been seen to. The heap
  only grows, and no two nodes have one new object.
* **The tree** is at each moment the prepared one without some elements that make objects, none of
  which is inside a template.

Main results: `makes_of_make`, `Creating.createValue`, `creating_createValues`.
-/

namespace MarkupLoader

namespace LoadState

/-! ## New objects -/

theorem heap_withNew (s : LoadState) (id : NodeId) (o : Object) :
    (s.withNew id o).heap = (s.heap.alloc o).2 := by
  unfold withNew
  split <;> rfl

theorem diagnostics_withNew (s : LoadState) (id : NodeId) (o : Object) :
    (s.withNew id o).context.diagnostics = s.context.diagnostics := by
  unfold withNew
  split <;> rfl

theorem value?_withNew (s : LoadState) (id : NodeId) (o : Object) :
    (s.withNew id o).context.value? id = some (.object s.heap.size) :=
  Table.get?_insert_self _ _ _

theorem rootInstance_withNew (s : LoadState) {id : NodeId} (o : Object)
    (below : id ≠ NodeTree.root) : (s.withNew id o).rootInstance = s.rootInstance := by
  rw [withNew, if_neg below]
  rfl

/-- A type makes objects of itself with properties and nothing else. -/
theorem ofType_of_make {d : TypeDescriptor} {h : Heap} {arguments : List Value}
    {factory : Option String} {o : Object} (made : d.make h arguments factory = .ok o) :
    o = { Object.ofType d with properties := o.properties } := by
  unfold TypeDescriptor.make at made
  split at made
  · split at made
    · cases made
    · split at made <;> cases made
      rfl
  · split at made
    · cases made
      rfl
    · split at made
      · cases made
      · obtain ⟨properties, -, made⟩ := ok_of_bind made
        cases made
        rfl

/-- The object that a node makes: one of the type of its name with nothing in it but properties, or
a template with its content. -/
structure Makes (s : LoadState) (env : Environment) (id : NodeId) (o : Object) : Prop where
  known : env.registry.get? (s.node id).typeName = some o.descriptor
  made : ∃ plain, o.descriptor.make s.heap (s.argumentValues id)
    ((s.node id).directiveText? "FactoryMethod") = .ok plain ∧ o.properties = plain.properties
  items : o.items = []
  entries : o.entries = .empty
  content : o.kind = .template → s.templateContent id = .ok o.template
  plain : o.kind ≠ .template → o.template = none

theorem makes_of_make {s : LoadState} {env : Environment} {id : NodeId} {o : Object}
    (made : s.make env id = .ok (.object o)) : s.Makes env id o := by
  unfold make at made
  dsimp only at made
  split at made
  -- The first two cases are those of a scalar, which makes no object.
  · cases made
  · cases made
  · obtain ⟨o', made, same⟩ := ok_of_map made
    cases same
    unfold makeObject at made
    dsimp only at made
    split at made
    · cases made
    case h_2 d known =>
      split at made
      · cases made
      case h_2 plain given =>
        have is := ofType_of_make given
        have type : plain.descriptor = d := congrArg Object.descriptor is
        split at made
        · obtain ⟨kept, content, made⟩ := ok_of_bind made
          cases made
          exact ⟨type ▸ known, ⟨plain, type ▸ given, rfl⟩, congrArg Object.items is,
            congrArg Object.entries is, fun _ => content, fun other => absurd (type ▸ ‹d.kind = .template›) other⟩
        case isFalse plainly =>
          cases made
          refine ⟨type ▸ known, ⟨_, type ▸ given, rfl⟩, congrArg Object.items is,
            congrArg Object.entries is, ?_, fun _ => congrArg Object.template is⟩
          exact fun template => absurd (type ▸ template) plainly

/-- What a template keeps that a node has made is a proper document. -/
theorem Makes.proper {s : LoadState} {env : Environment} {id : NodeId} {o : Object}
    (makes : s.Makes env id o) {content : Template} (keeps : o.template = some content) :
    content.tree.Proper := by
  have template : o.kind = .template := by
    refine Decidable.byContradiction fun other => ?_
    rw [makes.plain other] at keeps
    cases keeps
  have given := makes.content template
  rw [keeps] at given
  unfold templateContent at given
  split at given <;> cases given
  exact NodeTree.proper_ofForest _ _ _

/-! ## What nodes get -/

/-- Where the value of a node comes from. -/
inductive Got (env : Environment) (before s : LoadState) (id : NodeId) : Value → Prop
  /-- It is the object that the load is about, which the outermost element stands for. -/
  | reused {root : ObjectId} (top : id = NodeTree.root)
    (known : before.rootInstance = some root) : Got env before s id (.object root)
  | scalar {u : LoadState} {value : Value} (made : u.make env id = .ok (.scalar value)) :
    Got env before s id value
  /-- It is a new object, which is what the node made when some elements had been left out. -/
  | made {u : LoadState} {gone : List NodeId} {n : ObjectId}
    (object : (before.node id).isObject = true)
    (made : u.make env id = .ok (.object (s.heap.object n)))
    (tree : u.tree = before.tree.without gone) (omittable : Omittable before.tree env gone)
    (kept : ∀ other value, u.context.value? other = some value →
      s.context.value? other = some value)
    (after : before.heap.size ≤ n) (inside : n < s.heap.size) : Got env before s id (.object n)

/-- What a node has got. -/
inductive Gets (env : Environment) (before s : LoadState) (id : NodeId) : Prop
  /-- It makes no object. -/
  | idle (is : (before.node id).isObject = false) (none : s.context.value? id = none)
  /-- It could not be created, which has been recorded. -/
  | omitted (none : s.context.value? id = none) (recorded : s.context.diagnostics ≠ [])
  | got {value : Value} (has : s.context.value? id = some value) (got : Got env before s id value)

/-- The creation of values when some nodes have been seen to. -/
structure Creating (env : Environment) (before : LoadState) (done : List NodeId) (s : LoadState) :
    Prop where
  tree : ∃ gone, s.tree = before.tree.without gone ∧ Omittable before.tree env gone
  whole : s.context.diagnostics = [] → s.tree = before.tree
  tolerant : s.context.tolerant = true
  root : NodeTree.root ∉ done → s.rootInstance = before.rootInstance
  size : before.heap.size ≤ s.heap.size
  old : ∀ n < before.heap.size, s.heap.object n = before.heap.object n
  fresh : ∀ id, id ∉ done → s.context.value? id = none
  objects : ∀ id value, s.context.value? id = some value → (before.node id).isObject = true
  gets : ∀ id ∈ done, Gets env before s id
  once : ∀ id other n, s.context.object? id = some n → s.context.object? other = some n →
    before.heap.size ≤ n → id = other

section Steps

variable {env : Environment} {before s next : LoadState} {done : List NodeId} {id : NodeId}

theorem Got.mono {value : Value} (got : Got env before s id value)
    (kept : ∀ other value, s.context.value? other = some value →
      next.context.value? other = some value)
    (size : s.heap.size ≤ next.heap.size)
    (old : ∀ n < s.heap.size, next.heap.object n = s.heap.object n) :
    Got env before next id value := by
  cases got with
  | reused top known => exact .reused top known
  | scalar made => exact .scalar made
  | made object made tree omittable earlier after inside =>
    exact .made object (by rwa [old _ inside]) tree omittable
      (fun other value is => kept other value (earlier other value is)) after
      (Nat.lt_of_lt_of_le inside size)

/-- What a node has got is not taken away. -/
theorem Gets.mono (gets : Gets env before s id)
    (value : next.context.value? id = s.context.value? id)
    (kept : ∀ other value, s.context.value? other = some value →
      next.context.value? other = some value)
    (size : s.heap.size ≤ next.heap.size)
    (old : ∀ n < s.heap.size, next.heap.object n = s.heap.object n)
    (recorded : s.context.diagnostics ≠ [] → next.context.diagnostics ≠ []) :
    Gets env before next id := by
  cases gets with
  | idle is none => exact .idle is (value.trans none)
  | omitted none before => exact .omitted (value.trans none) (recorded before)
  | got has got => exact .got (value.trans has) (got.mono kept size old)

/-- Where a value that is there comes from. -/
theorem Creating.got (creating : Creating env before done s) {value : Value}
    (has : s.context.value? id = some value) : id ∈ done ∧ Got env before s id value := by
  have mem : id ∈ done := by
    refine Decidable.byContradiction fun absent => ?_
    rw [creating.fresh id absent] at has
    cases has
  refine ⟨mem, ?_⟩
  cases creating.gets id mem with
  | idle _ none =>
    rw [none] at has
    cases has
  | omitted none _ =>
    rw [none] at has
    cases has
  | got own got =>
    rw [own] at has
    cases has
    exact got

/-- A new object that a node has is there. -/
theorem Creating.inside (creating : Creating env before done s)
    (known : ∀ root, before.rootInstance = some root → root < before.heap.size) {n : ObjectId}
    (has : s.context.object? id = some n) (new : before.heap.size ≤ n) : n < s.heap.size := by
  obtain ⟨value, held, is⟩ := Option.bind_eq_some_iff.1 has
  cases (creating.got held).2 with
  | reused _ root =>
    cases is
    exact absurd (known _ root) (Nat.not_lt_of_le new)
  | scalar made =>
    rw [(simple_of_make made).1] at is
    cases is
  | made _ _ _ _ _ _ inside =>
    cases is
    exact inside

/-- Distinct nodes have distinct objects. -/
theorem Creating.distinct (creating : Creating env before done s) {other : NodeId} {n : ObjectId}
    (has : s.context.object? id = some n) (hasToo : s.context.object? other = some n) :
    id = other := by
  by_cases old : n < before.heap.size
  · -- Only the outermost element can have an object that was there before.
    have top : ∀ node, s.context.object? node = some n → node = NodeTree.root := by
      intro node has
      obtain ⟨value, held, is⟩ := Option.bind_eq_some_iff.1 has
      cases (creating.got held).2 with
      | reused top => exact top
      | scalar made =>
        rw [(simple_of_make made).1] at is
        cases is
      | made _ _ _ _ _ after =>
        cases is
        exact absurd old (Nat.not_lt_of_le after)
    rw [top id has, top other hasToo]
  · exact creating.once id other n has hasToo (Nat.le_of_not_lt old)

/-- The values that are there stay when a node that has none gets its value. -/
theorem Creating.kept (creating : Creating env before done s)
    (values : ∀ other, other ≠ id → next.context.value? other = s.context.value? other)
    (new : id ∉ done) :
    ∀ other value, s.context.value? other = some value →
      next.context.value? other = some value := by
  intro other value is
  by_cases same : other = id
  · rw [same, creating.fresh id new] at is
    cases is
  · rw [values other same, is]

/-- One more node has been seen to. -/
theorem Creating.step (creating : Creating env before done s)
    (known : ∀ root, before.rootInstance = some root → root < before.heap.size)
    (tree : ∃ gone, next.tree = before.tree.without gone ∧ Omittable before.tree env gone)
    (tolerant : next.context.tolerant = true)
    (root : id ≠ NodeTree.root → next.rootInstance = s.rootInstance)
    (size : s.heap.size ≤ next.heap.size)
    (old : ∀ n < s.heap.size, next.heap.object n = s.heap.object n)
    (values : ∀ other, other ≠ id → next.context.value? other = s.context.value? other)
    (whole : next.context.diagnostics = [] → s.context.diagnostics = [] ∧ next.tree = s.tree)
    (own : ∀ n, next.context.object? id = some n → before.heap.size ≤ n → s.heap.size ≤ n)
    (object : ∀ value, next.context.value? id = some value → (before.node id).isObject = true)
    (new : id ∉ done) (gets : Gets env before next id) :
    Creating env before (done ++ [id]) next where
  tree := tree
  whole none := (whole none).2.trans (creating.whole (whole none).1)
  tolerant := tolerant
  root absent := by
    obtain ⟨earlier, now⟩ := not_or.1 (mt List.mem_append.2 absent)
    rw [root fun top => now (top ▸ List.mem_singleton_self id), creating.root earlier]
  size := Nat.le_trans creating.size size
  old n inside := (old n (Nat.lt_of_lt_of_le inside creating.size)).trans (creating.old n inside)
  fresh other absent := by
    obtain ⟨earlier, now⟩ := not_or.1 (mt List.mem_append.2 absent)
    rw [values other fun same => now (same ▸ List.mem_singleton_self id),
      creating.fresh other earlier]
  objects other value has := by
    by_cases here : other = id
    · exact here ▸ object value (here ▸ has)
    · exact creating.objects other value ((values other here).symm.trans has)
  gets other mem := by
    rcases List.mem_append.1 mem with earlier | now
    · have ne : other ≠ id := fun same => new (same ▸ earlier)
      exact (creating.gets other earlier).mono (values other ne)
        (creating.kept values new) size old fun some none => some (whole none).1
    · rw [List.mem_singleton.1 now]
      exact gets
  once := by
    have kept : ∀ other, other ≠ id → next.context.object? other = s.context.object? other :=
      fun other ne => congrArg (Option.bind · Value.object?) (values other ne)
    -- What the node has got is newer than what the others have.
    have apart : ∀ other n, other ≠ id → next.context.object? other = some n →
        next.context.object? id = some n → before.heap.size ≤ n → False := by
      intro other n ne has hasNow after
      have inside := creating.inside known ((kept other ne).symm.trans has) after
      exact absurd (own n hasNow after) (Nat.not_le_of_lt inside)
    intro first second n hasFirst hasSecond after
    by_cases isFirst : first = id
    · by_cases isSecond : second = id
      · rw [isFirst, isSecond]
      · exact (apart second n isSecond hasSecond (isFirst ▸ hasFirst) after).elim
    · by_cases isSecond : second = id
      · exact (apart first n isFirst hasFirst (isSecond ▸ hasSecond) after).elim
      · exact creating.once first second n ((kept first isFirst).symm.trans hasFirst)
          ((kept second isSecond).symm.trans hasSecond) after

/-- A node that gets a value of its own, and no new object with it. -/
theorem Creating.valued (creating : Creating env before done s)
    (known : ∀ root, before.rootInstance = some root → root < before.heap.size) {value : Value}
    (tree : next.tree = s.tree) (heap : next.heap = s.heap)
    (tolerant : next.context.tolerant = true)
    (diagnostics : next.context.diagnostics = s.context.diagnostics)
    (root : next.rootInstance = s.rootInstance)
    (values : next.context.values = s.context.values.insert id value)
    (old : ∀ n, value.object? = some n → n < before.heap.size)
    (object : (before.node id).isObject = true) (new : id ∉ done)
    (gets : Gets env before next id) :
    Creating env before (done ++ [id]) next := by
  have there : next.context.value? id = some value := by
    rw [Context.value?, values, Table.get?_insert_self]
  refine creating.step known (tree ▸ creating.tree) tolerant (fun _ => root) (heap ▸ Nat.le_refl _)
    (fun _ _ => by rw [heap]) (fun other ne => ?_) (fun none => ⟨diagnostics ▸ none, tree⟩)
    (fun n has after => ?_) (fun _ _ => object) new gets
  · rw [Context.value?, values, Table.get?_insert_of_ne _ _ ne]
    rfl
  · rw [Context.object?, there] at has
    exact absurd (old n has) (Nat.not_lt_of_le after)

/-- A node that makes no object is passed over. -/
theorem Creating.passed (creating : Creating env before done s)
    (known : ∀ root, before.rootInstance = some root → root < before.heap.size)
    (object : (before.node id).isObject = false) (new : id ∉ done) :
    Creating env before (done ++ [id]) s := by
  have fresh := creating.fresh id new
  refine creating.step known creating.tree creating.tolerant (fun _ => rfl) (Nat.le_refl _)
    (fun _ _ => rfl) (fun _ _ => rfl) (fun none => ⟨none, rfl⟩) (fun n has _ => ?_)
    (fun value has => ?_) new (.idle object fresh)
  · rw [Context.object?, fresh] at has
    cases has
  · rw [fresh] at has
    cases has

/-- A node that makes a new object. -/
theorem Creating.withNew (creating : Creating env before done s)
    (known : ∀ root, before.rootInstance = some root → root < before.heap.size)
    (object : (before.node id).isObject = true) (new : id ∉ done) {o : Object}
    (makes : s.make env id = .ok (.object o)) :
    Creating env before (done ++ [id]) (s.withNew id o) := by
  obtain ⟨gone, tree, omittable⟩ := creating.tree
  have here := s.value?_withNew id o
  have heap := s.heap_withNew id o
  have others : ∀ other, other ≠ id →
      (s.withNew id o).context.value? other = s.context.value? other :=
    fun other ne => s.value?_withNew_of_ne o ne
  have made : Got env before (s.withNew id o) id (.object s.heap.size) := by
    refine .made (u := s) object ?_ tree omittable (creating.kept others new) creating.size ?_
    · rw [heap, show s.heap.size = (s.heap.alloc o).1 from rfl, Heap.object_alloc]
      exact makes
    · rw [heap, Heap.size_alloc]
      exact Nat.lt_succ_self _
  refine creating.step known ⟨gone, (s.tree_withNew id o).trans tree, omittable⟩
    ((s.tolerant_withNew id o).trans creating.tolerant) (s.rootInstance_withNew o)
    (by rw [heap, Heap.size_alloc]; exact Nat.le_succ _)
    (fun n inside => by rw [heap, Heap.object_alloc_of_lt inside]) others
    (fun none => ⟨(s.diagnostics_withNew id o).symm.trans none, s.tree_withNew id o⟩)
    (fun n has _ => ?_) (fun _ _ => object) new (.got here made)
  rw [Context.object?, here] at has
  cases has
  exact Nat.le_refl _

/-- A node that could not be created is left out. -/
theorem Creating.omitting (creating : Creating env before done s) (proper : before.tree.Proper)
    (linked : before.tree.Linked)
    (known : ∀ root, before.rootInstance = some root → root < before.heap.size)
    (reached : before.tree.Reaches (before.tree.templates env) NodeTree.root id)
    (object : (before.node id).isObject = true) (below : id ≠ NodeTree.root) (new : id ∉ done)
    (error : LoadError) : Creating env before (done ++ [id]) (s.omitting id error) := by
  obtain ⟨gone, tree, omittable⟩ := creating.tree
  have fresh : (s.omitting id error).context.value? id = none := creating.fresh id new
  have detached : (s.omitting id error).tree = before.tree.without (gone ++ [id]) := by
    rw [← NodeTree.detach_without linked proper gone reached.all, ← tree]
    rfl
  have recorded : (s.omitting id error).context.diagnostics ≠ [] :=
    List.append_ne_nil_of_right_ne_nil _ (List.cons_ne_nil _ _)
  refine creating.step known ⟨gone ++ [id], detached, omittable.append reached object below⟩
    creating.tolerant (fun _ => rfl) (Nat.le_refl _) (fun _ _ => rfl) (fun _ _ => rfl)
    (fun none => absurd none recorded) (fun n has _ => ?_) (fun _ _ => object) new
    (.omitted fresh recorded)
  rw [Context.object?, fresh] at has
  cases has

/-- The creation of the value of one more node. -/
theorem Creating.createValue (creating : Creating env before done s) (proper : before.tree.Proper)
    (linked : before.tree.Linked)
    (known : ∀ root, before.rootInstance = some root → root < before.heap.size)
    (reached : before.tree.Reaches (before.tree.templates env) NodeTree.root id) (new : id ∉ done)
    (ran : (Load.createValue env id).start s = (.ok (), next)) :
    Creating env before (done ++ [id]) next := by
  have fresh := creating.fresh id new
  have body : (s.node id).toNodeBody = (before.node id).toNodeBody := by
    obtain ⟨gone, tree, -⟩ := creating.tree
    rw [LoadState.node, tree, NodeTree.node_without]
    rfl
  cases Load.creates_of_createValue fresh ran with
  | idle none => exact creating.passed known (body ▸ none) new
  | @reused root object top is =>
    -- The outermost element stands for the object that the load is about.
    have earlier : before.rootInstance = some root := (creating.root (top ▸ new)).symm.trans is
    subst top
    refine creating.valued known rfl rfl creating.tolerant rfl rfl rfl (fun n same => ?_)
      (body ▸ object) new (.got (Table.get?_insert_self _ _ _) (.reused rfl earlier))
    cases same
    exact known root earlier
  | scalar object _ made =>
    refine creating.valued known rfl rfl creating.tolerant rfl rfl rfl (fun n same => ?_)
      (body ▸ object) new (.got (Table.get?_insert_self _ _ _) (.scalar made))
    rw [(simple_of_make made).1] at same
    cases same
  | made object _ made => exact creating.withNew known (body ▸ object) new made
  | omitted object below _ =>
    exact creating.omitting proper linked known reached (body ▸ object) below new _

/-- Nothing has been seen to at first. -/
theorem creating_nil (tolerant : s.context.tolerant = true) (bare : s.context.values = .empty) :
    Creating env s [] s where
  tree := ⟨[], (NodeTree.without_nil _).symm, nofun, nofun, nofun⟩
  whole _ := rfl
  tolerant := tolerant
  root _ := rfl
  size := Nat.le_refl _
  old _ _ := rfl
  fresh id _ := by
    rw [Context.value?, bare]
    rfl
  objects id value has := by
    rw [Context.value?, bare] at has
    cases has
  gets := nofun
  once id other n has := by
    rw [Context.object?, Context.value?, bare] at has
    cases has

/-- A node that is seen to next is loaded and has not been seen to, as the walk comes to no node
twice. -/
theorem next_loaded {rest : List NodeId} (proper : before.tree.Proper)
    (walk : before.loadedUpwards env = done ++ id :: rest) :
    before.tree.Reaches (before.tree.templates env) NodeTree.root id ∧ id ∉ done := by
  have mem : id ∈ before.loadedUpwards env := walk ▸ List.mem_append_right _ List.mem_cons_self
  have nodup : (before.loadedUpwards env).Nodup := NodeTree.nodup_postorder proper
  rw [walk] at nodup
  exact ⟨(NodeTree.mem_postorder proper).1 mem, fun earlier =>
    List.disjoint_of_nodup_append nodup earlier List.mem_cons_self⟩

/-- **The creation of values sees to all nodes that are loaded.** -/
theorem creating_createValues (proper : before.tree.Proper) (linked : before.tree.Linked)
    (tolerant : before.context.tolerant = true) (bare : before.context.values = .empty)
    (known : ∀ root, before.rootInstance = some root → root < before.heap.size)
    (ran : (Load.createValues env).start before = (.ok (), next)) :
    Creating env before (before.loadedUpwards env) next := by
  rw [Load.createValues, Load.start_get_bind] at ran
  refine Load.forM_along (P := fun done _ s => Creating env before done s)
    (fun done id rest s t walk creating ran => ?_) (creating_nil tolerant bare) ran
  obtain ⟨reached, new⟩ := next_loaded proper walk
  exact creating.createValue proper linked known reached new ran

end Steps

end LoadState

end MarkupLoader
