import MarkupLoader.Proofs.Twins

/-!
# What a step of the creation of values does

The creation of values handles one node after the other. **A step** (`start_createNode_scalar` and
the others) gives a node its value, or takes the node out of the tree and passes over the failure;
only the outermost element ends the load.

**What an element is made from** is not changed by taking out elements that have no value: such
elements are no texts, hold no arguments, and are no part of a template.

Main results: `start_createNode_object`, `start_createNode_failed`, `start_createValue_cases`,
`alike_make`.
-/

namespace MarkupLoader

/-! ## Steps -/

namespace LoadState

/-- The state with a value for a node. -/
def withValue (s : LoadState) (id : NodeId) (value : Value) : LoadState :=
  { s with context := { s.context with values := s.context.values.insert id value } }

/-- The state with another object in its heap. -/
def withObject (s : LoadState) (o : Object) : LoadState := { s with heap := (s.heap.alloc o).2 }

/-- The state of a load that is about an object. -/
def about (s : LoadState) (id : ObjectId) : LoadState :=
  { s with context := { s.context with rootElement := some id } }

/-- The state with an object that the outermost element stands for. -/
def adopting (s : LoadState) (id : ObjectId) : LoadState :=
  { s with rootInstance := some id, context := { s.context with rootElement := some id } }

/-- The state after a new object has been made for a node. -/
def withNew (s : LoadState) (id : NodeId) (o : Object) : LoadState :=
  let made := s.withObject o
  (if id = NodeTree.root then made.adopting s.heap.size else made).withValue id
    (.object s.heap.size)

/-- The state after the outermost element has got the object that it stands for. -/
def withRoot (s : LoadState) (object : ObjectId) : LoadState :=
  let valued := s.withValue NodeTree.root (.object object)
  { valued with context :=
    { valued.context with rootElement := s.context.rootElement.or (some object) } }

/-- The state after a node could not be created. -/
def omitting (s : LoadState) (id : NodeId) (error : LoadError) : LoadState :=
  { s with tree := s.tree.detach id }.withRecord (s.context.diagnostics ++ [error])

theorem value?_withValue (s : LoadState) (id other : NodeId) (value : Value) :
    (s.withValue id value).context.value? other =
      if other = id then some value else s.context.value? other := by
  unfold withValue Context.value?
  by_cases here : other = id
  · rw [if_pos here, here, Table.get?_insert_self]
  · rw [if_neg here, Table.get?_insert_of_ne _ _ here]

theorem value?_withValue_of_ne (s : LoadState) {id other : NodeId} (value : Value)
    (ne : other ≠ id) :
    (s.withValue id value).context.value? other = s.context.value? other := by
  rw [value?_withValue, if_neg ne]

theorem value?_withNew_of_ne (s : LoadState) {id other : NodeId} (o : Object) (ne : other ≠ id) :
    (s.withNew id o).context.value? other = s.context.value? other := by
  rw [← s.value?_withValue_of_ne (.object s.heap.size) ne]
  unfold withNew
  split <;> rfl

theorem tree_withNew (s : LoadState) (id : NodeId) (o : Object) : (s.withNew id o).tree = s.tree := by
  unfold withNew
  split <;> rfl

theorem tolerant_withNew (s : LoadState) (id : NodeId) (o : Object) :
    (s.withNew id o).context.tolerant = s.context.tolerant := by
  unfold withNew
  split <;> rfl

/-- A failure to make something is never fatal. -/
theorem isFatal_make {s : LoadState} {env : Environment} {id : NodeId} {error : LoadError}
    (failed : s.make env id = .error error) : error.isFatal = false := by
  unfold make at failed
  dsimp only at failed
  split at failed
  · cases failed
  · cases failed
    rfl
  · unfold makeObject at failed
    dsimp only at failed
    split at failed
    · cases failed
      rfl
    · split at failed
      · cases failed
        rfl
      · split at failed
        · unfold templateContent at failed
          split at failed <;> cases failed
          rfl
        · cases failed

end LoadState

namespace Load

section Steps

variable {env : Environment} {s : LoadState} {id : NodeId}

theorem start_setValue_fresh (fresh : s.context.value? id = none) (value : Value) :
    (setValue id value).start s = (.ok (), s.withValue id value) := by
  have free : s.context.values.contains id = false := by
    rw [Table.contains, show s.context.values.get? id = none from fresh]
    rfl
  have set := start_setValue id value s
  rwa [free] at set

variable (env) in
/-- What is no object gets no value. -/
theorem start_createValue_idle (none : (s.node id).isObject = false) :
    (createValue env id).start s = (.ok (), s) := by
  rw [createValue, start_get_bind, none]
  rfl

variable (env) in
/-- The outermost element takes over the object that it stands for. -/
theorem start_createValue_root (object : (s.node NodeTree.root).isObject = true) {root : ObjectId}
    (known : s.rootInstance = some root) (fresh : s.context.value? NodeTree.root = none) :
    (createValue env NodeTree.root).start s = (.ok (), s.withRoot root) := by
  rw [createValue, start_get_bind, object, known]
  exact start_bind_of_ok (start_setValue_fresh fresh (.object root))

variable (env) in
/-- Any other node is created. -/
theorem start_createValue_node (object : (s.node id).isObject = true)
    (new : id = NodeTree.root → s.rootInstance = none) :
    (createValue env id).start s = (createNode env id).start s := by
  rw [createValue, start_get_bind, object]
  cases known : s.rootInstance with
  | none => rfl
  | some root =>
    have below : id ≠ NodeTree.root := fun top =>
      Option.some_ne_none root (known.symm.trans (new top))
    show (if id = NodeTree.root then reuseRoot root else createNode env id).start s = _
    rw [if_neg below]

theorem start_createNode_scalar {value : Value} (made : s.make env id = .ok (.scalar value))
    (fresh : s.context.value? id = none) :
    (createNode env id).start s = (.ok (), s.withValue id value) := by
  have scalar := LoadState.references_of_make made
  have set := start_setValue_fresh fresh value
  rw [createNode, start_get_bind, made]
  by_cases top : id = NodeTree.root
  · -- A scalar is nothing that the outermost element could stand for.
    cases value with
    | object o => cases scalar
    | _ =>
      simp only [if_pos top]
      exact set
  · simp only [if_neg top]
    exact set

theorem start_createNode_object {o : Object} (made : s.make env id = .ok (.object o))
    (fresh : s.context.value? id = none) :
    (createNode env id).start s = (.ok (), s.withNew id o) := by
  have settled : (settleMade (.object o)).start s =
      (.ok (.object s.heap.size), s.withObject o) := rfl
  rw [createNode, start_get_bind, made]
  by_cases top : id = NodeTree.root
  · simp only [if_pos top, LoadState.withNew]
    have adopted : (adoptRoot s.heap.size).start (s.withObject o) =
      (.ok (), (s.withObject o).adopting s.heap.size) := rfl
    refine (start_bind_of_ok settled).trans ((start_bind_of_ok adopted).trans ?_)
    exact start_setValue_fresh (s := (s.withObject o).adopting s.heap.size) fresh _
  · simp only [if_neg top, LoadState.withNew]
    refine (start_bind_of_ok settled).trans ?_
    exact start_setValue_fresh (s := s.withObject o) fresh _

theorem start_createNode_failed {error : LoadError} (failed : s.make env id = .error error)
    (below : id ≠ NodeTree.root) (tolerant : s.context.tolerant = true) :
    (createNode env id).start s = (.ok (), s.omitting id error) := by
  rw [createNode, start_get_bind, failed]
  simp only [if_neg below]
  exact start_bind_of_ok (start_recover_tolerant tolerant (LoadState.isFatal_make failed))

/-- A strict load does not pass over the failure. -/
theorem start_createNode_strict {error : LoadError} (failed : s.make env id = .error error)
    (below : id ≠ NodeTree.root) (strict : s.context.tolerant = false) :
    (createNode env id).start s = (.error error, s) := by
  rw [createNode, start_get_bind, failed]
  simp only [if_neg below]
  exact start_bind_of_error (start_recover_strict strict error)

theorem start_createNode_fatal {error : LoadError}
    (failed : s.make env NodeTree.root = .error error) :
    (createNode env NodeTree.root).start s = (.error error, s) := by
  rw [createNode, start_get_bind, failed]
  rfl

theorem start_createRoot_known {root : ObjectId} (known : s.rootInstance = some root) :
    (createRoot env).start s = (.ok (), s.about root) := by
  rw [createRoot, start_get_bind, known]
  rfl

theorem start_createRoot_later (new : s.rootInstance = none) {holder : NodeId}
    (given : s.tree.arguments? NodeTree.root = some holder) :
    (createRoot env).start s = (.ok (), s) := by
  rw [createRoot, start_get_bind, new, given]
  rfl

/-- A load that makes a new object makes it first, unless the outermost element takes arguments. -/
theorem start_createRoot_new (new : s.rootInstance = none)
    (bare : s.tree.arguments? NodeTree.root = none) :
    (createRoot env).start s =
      match s.make env NodeTree.root with
      | .error error => (.error error, s)
      | .ok (.scalar value) =>
        (.error (.internal ("root element must be an object, got " ++ s.heap.kindName value)), s)
      | .ok (.object o) => (.ok (), (s.withObject o).adopting s.heap.size) := by
  rw [createRoot, start_get_bind, new, bare]
  cases made : s.make env NodeTree.root with
  | error error => rfl
  | ok made' =>
    cases made' with
    | object o => rfl
    | scalar value =>
      have references := LoadState.references_of_make made
      cases value with
      | object id => cases references
      | _ => rfl

/-- **What a step does** that sees to a node without a value and does not fail. -/
inductive Creates (env : Environment) (s : LoadState) (id : NodeId) : LoadState → Prop
  /-- A node that makes no object is passed over. -/
  | idle (none : (s.node id).isObject = false) : Creates env s id s
  /-- The outermost element gets the object that it stands for. -/
  | reused {root : ObjectId} (object : (s.node id).isObject = true) (top : id = NodeTree.root)
    (known : s.rootInstance = some root) : Creates env s id (s.withRoot root)
  | scalar {value : Value} (object : (s.node id).isObject = true)
    (new : id = NodeTree.root → s.rootInstance = none)
    (made : s.make env id = .ok (.scalar value)) : Creates env s id (s.withValue id value)
  | made {o : Object} (object : (s.node id).isObject = true)
    (new : id = NodeTree.root → s.rootInstance = none)
    (made : s.make env id = .ok (.object o)) : Creates env s id (s.withNew id o)
  /-- Any other element that cannot be made is left out, if failures are tolerated. -/
  | omitted {error : LoadError} (object : (s.node id).isObject = true)
    (below : id ≠ NodeTree.root) (failed : s.make env id = .error error) :
    Creates env s id (s.omitting id error)

/-- No other node gets a value. -/
theorem Creates.value?_of_ne {next : LoadState} (creates : Creates env s id next) {other : NodeId}
    (ne : other ≠ id) : next.context.value? other = s.context.value? other := by
  cases creates with
  | idle | omitted => rfl
  | @reused root _ top => exact s.value?_withValue_of_ne (.object root) (top ▸ ne)
  | scalar => exact s.value?_withValue_of_ne _ ne
  | made => exact s.value?_withNew_of_ne _ ne

variable (env) in
/-- A node without a value is seen to, or the load is given up, because of the outermost element or
because it is strict. -/
theorem start_createValue_cases (fresh : s.context.value? id = none) :
    (∃ next, (createValue env id).start s = (.ok (), next) ∧ Creates env s id next) ∨
    ∃ error, (createValue env id).start s = (.error error, s) ∧ s.make env id = .error error ∧
      (id = NodeTree.root ∨ s.context.tolerant = false) := by
  cases object : (s.node id).isObject with
  | false => exact .inl ⟨s, start_createValue_idle env object, .idle object⟩
  | true =>
    by_cases reused : id = NodeTree.root ∧ s.rootInstance ≠ none
    · obtain ⟨rfl, there⟩ := reused
      obtain ⟨root, known⟩ := Option.ne_none_iff_exists'.1 there
      exact .inl ⟨_, start_createValue_root env object known fresh, .reused object rfl known⟩
    · have new : id = NodeTree.root → s.rootInstance = none := fun top =>
        Decidable.byContradiction fun there => reused ⟨top, there⟩
      rw [start_createValue_node env object new]
      cases made : s.make env id with
      | ok what =>
        cases what with
        | scalar value => exact .inl ⟨_, start_createNode_scalar made fresh, .scalar object new made⟩
        | object o => exact .inl ⟨_, start_createNode_object made fresh, .made object new made⟩
      | error error =>
        by_cases top : id = NodeTree.root
        · subst top
          exact .inr ⟨error, start_createNode_fatal made, rfl, .inl rfl⟩
        · cases tolerant : s.context.tolerant with
          | true => exact .inl ⟨_, start_createNode_failed made top tolerant, .omitted object top made⟩
          | false => exact .inr ⟨error, start_createNode_strict made top tolerant, rfl, .inr rfl⟩

theorem creates_of_createValue {next : LoadState} (fresh : s.context.value? id = none)
    (ran : (createValue env id).start s = (.ok (), next)) : Creates env s id next := by
  rcases start_createValue_cases env fresh with ⟨other, ran', creates⟩ | ⟨error, failed, -⟩
  · cases ran.symm.trans ran'
    exact creates
  · cases ran.symm.trans failed

end Steps

end Load

/-! ## What an element is made from -/

namespace NodeTree

section Parts

variable {t u : NodeTree} {gone : List NodeId} {id : NodeId}

theorem filterMap_without {α : Type} {f : NodeId → Option α} (nothing : ∀ c ∈ gone, f c = none)
    (p : NodeId) :
    ((t.without gone).node p).children.filterMap f = (t.node p).children.filterMap f := by
  rw [node_without]
  dsimp only
  induction (t.node p).children with
  | nil => rfl
  | cons c rest ih =>
    by_cases out : c ∈ gone
    · rw [List.filter_cons_of_neg (by simpa using out), List.filterMap_cons, nothing c out]
      exact ih
    · rw [List.filter_cons_of_pos (by simpa using out), List.filterMap_cons, List.filterMap_cons, ih]

/-- Elements that make objects are no texts. -/
theorem textContent_without (objects : ∀ c ∈ gone, (t.node c).isObject = true) (id : NodeId) :
    (t.without gone).textContent id = t.textContent id := by
  unfold textContent
  refine congrArg String.join (Eq.trans (filterMap_without (fun c out => ?_) id) ?_)
  · have object := objects c out
    rw [node_without]
    unfold NodeBody.isObject at object
    cases kind : (t.node c).kind with
    | text content => rw [kind] at object; cases object
    | _ => rfl
  · exact List.filterMap_congr fun c _ => by rw [node_without]

/-- Elements that make objects hold no arguments. -/
theorem arguments?_without (objects : ∀ c ∈ gone, (t.node c).isObject = true) (id : NodeId) :
    (t.without gone).arguments? id = t.arguments? id := by
  unfold arguments?
  rw [node_without]
  dsimp only
  induction (t.node id).children with
  | nil => rfl
  | cons c rest ih =>
    have kind : ((t.without gone).node c).kind = (t.node c).kind := by rw [node_without]
    by_cases out : c ∈ gone
    · have object := objects c out
      unfold NodeBody.isObject at object
      rw [List.filter_cons_of_neg (by simpa using out), ih, List.find?_cons]
      cases is : (t.node c).kind with
      | property name => rw [is] at object; cases object
      | _ => rfl
    · rw [List.filter_cons_of_pos (by simpa using out), List.find?_cons, List.find?_cons, kind, ih]

/-- A forest depends on the nodes in it. -/
theorem forestOf_congr {Q : NodeId → Prop} (down : ∀ n, Q n → ∀ c ∈ (t.node n).children, Q c)
    (same : ∀ n, Q n → (u.node n).toNodeBody = (t.node n).toNodeBody ∧
      (u.node n).children = (t.node n).children) (depth : Nat) {ids : List NodeId}
    (inside : ∀ n ∈ ids, Q n) : u.forestOf depth ids = t.forestOf depth ids := by
  induction depth generalizing ids with
  | zero => rfl
  | succ depth below =>
    rw [forestOf, forestOf]
    induction ids with
    | nil => rfl
    | cons n rest later =>
      obtain ⟨here, others⟩ := List.forall_mem_cons.1 inside
      obtain ⟨body, children⟩ := same n here
      rw [List.foldr_cons, List.foldr_cons, later others, body, children, below (down n here)]

/-- A subtree taken out on its own depends on what is in it and on what is declared around it. -/
theorem extract_congr {P Q : NodeId → Prop} (size : u.size = t.size)
    (ignorable : u.ignorable = t.ignorable)
    (up : ∀ n parent, P n → (t.node n).parent = some parent → P parent)
    (around : ∀ n, P n → (u.node n).parent = (t.node n).parent ∧
      (u.node n).namespaces = (t.node n).namespaces)
    (down : ∀ n, Q n → ∀ c ∈ (t.node n).children, Q c)
    (inside : ∀ n, Q n → (u.node n).toNodeBody = (t.node n).toNodeBody ∧
      (u.node n).children = (t.node n).children) (hereUp : P id) (hereDown : Q id) :
    u.extract id = t.extract id := by
  obtain ⟨body, children⟩ := inside id hereDown
  have declared : u.declarationsAt id = t.declarationsAt id := by
    obtain ⟨equal, all⟩ := ancestorsFrom_congr up (fun n here => (around n here).1) t.size hereUp
    unfold declarationsAt ancestors
    rw [size, equal, (around id hereUp).2]
    have fold : ∀ (nodes : List NodeId) (first : List (String × String)), (∀ n ∈ nodes, P n) →
        nodes.foldl (fun declared outer => declareOuter declared (u.node outer).namespaces) first =
          nodes.foldl (fun declared outer => declareOuter declared (t.node outer).namespaces)
            first := by
      intro nodes
      induction nodes with
      | nil => exact fun _ _ => rfl
      | cons n rest ih =>
        intro first all
        obtain ⟨here, later⟩ := List.forall_mem_cons.1 all
        rw [List.foldl_cons, List.foldl_cons, (around n here).2]
        exact ih _ later
    exact fold _ _ all
  unfold extract
  rw [body, children, declared, size, ignorable, forestOf_congr down inside t.size (down id hereDown)]

/-- What is below a node that is not entered is not reached. -/
theorem Proper.not_reaches_below (proper : t.Proper) {skip : NodeId → Bool} {top n : NodeId}
    (skips : skip top = true) (below : t.Reaches (fun _ => false) top n) (ne : n ≠ top) :
    ¬ t.Reaches skip root n := by
  intro reached
  induction reached with
  | top =>
    -- Nothing is above the outermost element.
    have above := proper.le_of_reaches below
    exact ne (Nat.le_zero.1 above).symm
  | @child p c above enters listed ih =>
    obtain ⟨below', -⟩ := proper.reaches_of_listed below ne listed
    by_cases same : p = top
    · rw [same, skips] at enters
      cases enters
    · exact ih below' same

end Parts

end NodeTree

/-- Nodes that a load may leave out: elements below the outermost one that are loaded. -/
structure Omittable (t : NodeTree) (env : Environment) (gone : List NodeId) : Prop where
  loaded : ∀ c ∈ gone, t.Reaches (t.templates env) NodeTree.root c
  object : ∀ c ∈ gone, (t.node c).isObject = true
  below : NodeTree.root ∉ gone

/-- What matching elements make. -/
inductive Matching.Made (M : Matching) : MarkupLoader.Made → MarkupLoader.Made → Prop
  | scalar {v w : Value} (value : M.Values v w) : Matching.Made M (.scalar v) (.scalar w)
  | object {o p : Object} (objects : M.Objects o p) : Matching.Made M (.object o) (.object p)

section Making

variable {env : Environment} {t : NodeTree} {gone done : List NodeId} {M : Matching}
  {a b : LoadState} {id : NodeId}

/-- Nothing inside a template is left out. -/
theorem Omittable.not_mem_below (omittable : Omittable t env gone) (proper : t.Proper)
    (template : t.templates env id = true) {n c : NodeId}
    (reached : t.Reaches (fun _ => false) id n) (listed : c ∈ (t.node n).children) : c ∉ gone := by
  intro out
  have below : t.Reaches (fun _ => false) id c := .child reached rfl listed
  have above := proper.le_of_reaches reached
  have later := proper.later n c listed
  have ne : c ≠ id := fun same => Nat.not_lt_of_le above (same ▸ later)
  exact proper.not_reaches_below template below ne (omittable.loaded c out)

theorem Omittable.mono {fewer : List NodeId} (omittable : Omittable t env gone)
    (within : ∀ c ∈ fewer, c ∈ gone) : Omittable t env fewer :=
  ⟨fun c mem => omittable.loaded c (within c mem), fun c mem => omittable.object c (within c mem),
    fun mem => omittable.below (within _ mem)⟩

/-- One more element that makes an object may be left out. -/
theorem Omittable.append (omittable : Omittable t env gone)
    (reached : t.Reaches (t.templates env) NodeTree.root id) (object : (t.node id).isObject = true)
    (below : id ≠ NodeTree.root) : Omittable t env (gone ++ [id]) where
  loaded c mem := by
    rcases List.mem_append.1 mem with earlier | now
    · exact omittable.loaded c earlier
    · exact List.mem_singleton.1 now ▸ reached
  object c mem := by
    rcases List.mem_append.1 mem with earlier | now
    · exact omittable.object c earlier
    · exact List.mem_singleton.1 now ▸ object
  below mem := by
    rcases List.mem_append.1 mem with earlier | now
    · exact omittable.below earlier
    · exact below (List.mem_singleton.1 now).symm

/-- The content of a template depends on what is below the template and on what is declared around
it. -/
theorem templateContent_congr {P : NodeId → Prop} {s u : LoadState} (tree : u.tree = t)
    (size : s.tree.size = t.size) (ignorable : s.tree.ignorable = t.ignorable)
    (up : ∀ n parent, P n → (t.node n).parent = some parent → P parent)
    (around : ∀ n, P n → (s.tree.node n).parent = (t.node n).parent ∧
      (s.tree.node n).namespaces = (t.node n).namespaces)
    (inside : ∀ n, t.Reaches (fun _ => false) id n →
      (s.tree.node n).toNodeBody = (t.node n).toNodeBody ∧
        (s.tree.node n).children = (t.node n).children)
    (here : ∀ c ∈ (t.node id).children, P c) : s.templateContent id = u.templateContent id := by
  have extracted : ∀ c ∈ (t.node id).children, s.tree.extract c = t.extract c := by
    intro c listed
    exact NodeTree.extract_congr (Q := t.Reaches (fun _ => false) id) size ignorable up around
      (fun n reached c listed => .child reached rfl listed) inside (here c listed)
      (.child .top rfl listed)
  have elements : s.tree.elements id = t.elements id := by
    unfold NodeTree.elements
    rw [(inside id .top).2]
    refine List.filter_congr fun c listed => ?_
    rw [(inside c (.child .top rfl listed)).1]
  unfold LoadState.templateContent LoadState.node
  rw [tree, elements, (inside id .top).1]
  split
  case h_1 => rfl
  case h_2 content only =>
    have listed : content ∈ t.elements id := only ▸ List.mem_singleton_self content
    rw [extracted content (List.mem_filter.1 listed).1]
  case h_3 => rfl

/-- What is below a template is the same whatever has been left out. -/
theorem Omittable.same_below (omittable : Omittable t env gone) (proper : t.Proper)
    (template : t.templates env id = true) {n : NodeId} (reached : t.Reaches (fun _ => false) id n) :
    ((t.without gone).node n).toNodeBody = (t.node n).toNodeBody ∧
      ((t.without gone).node n).children = (t.node n).children := by
  rw [NodeTree.node_without]
  refine ⟨rfl, List.filter_eq_self.2 fun c listed => ?_⟩
  have stays := omittable.not_mem_below proper template reached listed
  simpa using stays

/-- The content of a template is the same whatever has been left out. -/
theorem templateContent_without (omittable : Omittable t env gone) (proper : t.Proper)
    (linked : t.Linked) (twins : Twins env (t.without gone) M a b) (tree : a.tree = t.without done)
    (within : ∀ c ∈ done, c ∈ gone) (kept : t.Keeps gone id)
    (template : t.templates env id = true) :
    a.templateContent id = b.templateContent id := by
  have keptBelow : ∀ n, t.Reaches (fun _ => false) id n → t.Keeps gone n := by
    intro n reached
    induction reached with
    | top => exact kept
    | child above _ listed ih =>
      exact ih.child listed (omittable.not_mem_below proper template above listed)
  have keptHere : ∀ c ∈ (t.node id).children, t.Keeps gone c :=
    fun c listed => keptBelow c (.child .top rfl listed)
  have up : ∀ n parent, t.Keeps gone n → (t.node n).parent = some parent → t.Keeps gone parent :=
    fun _ _ keeps above => linked.keeps_parent keeps above
  -- Below the template both trees agree with the whole one, above it in what is declared there.
  have left : a.templateContent id = LoadState.templateContent { a with tree := t } id := by
    refine templateContent_congr rfl (by rw [tree, NodeTree.size_without]) (by rw [tree]; rfl) up
      (fun n _ => ?_) (fun n reached => ?_) keptHere
    · rw [tree, NodeTree.node_without]
      exact ⟨rfl, rfl⟩
    · rw [tree]
      exact (omittable.mono within).same_below proper template reached
  have right : b.templateContent id = LoadState.templateContent { a with tree := t } id := by
    refine templateContent_congr rfl (by rw [twins.size, NodeTree.size_without])
      (by rw [twins.ignorable]; rfl) up (fun n keeps => ?_) (fun n reached => ?_) keptHere
    · rw [twins.node n keeps, NodeTree.node_without]
      exact ⟨rfl, rfl⟩
    · rw [twins.node n (keptBelow n reached)]
      exact omittable.same_below proper template reached
  rw [left, right]

/-- The arguments of an element do not change when elements without values are left out. -/
theorem argumentValues_without (omittable : Omittable t env gone)
    (twins : Twins env (t.without gone) M a b) (tree : a.tree = t.without done)
    (within : ∀ c ∈ done, c ∈ gone) (bare : ∀ c ∈ gone, a.context.value? c = none)
    (kept : t.Keeps gone id) :
    List.Forall₂ M.Values (a.argumentValues id) (b.argumentValues id) := by
  have left : a.tree.arguments? id = t.arguments? id := by
    rw [tree, NodeTree.arguments?_without (omittable.mono within).object]
  have right : b.tree.arguments? id = t.arguments? id := by
    rw [← NodeTree.arguments?_without omittable.object]
    unfold NodeTree.arguments?
    rw [twins.node id kept, ← List.head?_filter, ← List.head?_filter]
    refine congrArg List.head? (List.filter_congr fun c listed => ?_)
    rw [twins.node c (.child kept rfl listed)]
  unfold LoadState.argumentValues
  rw [left, right]
  cases holder : t.arguments? id with
  | none => exact .nil
  | some holder' =>
    have listed := List.mem_of_find?_eq_some holder
    have kind := List.find?_some holder
    have keptHolder : t.Keeps gone holder' := by
      refine kept.child listed fun out => ?_
      have object := omittable.object holder' out
      unfold NodeBody.isObject at object
      cases is : (t.node holder').kind with
      | property name => rw [is] at object; cases object
      | _ => rw [is] at kind; cases kind
    have given : (a.node holder').children.filterMap a.context.value? =
        ((t.without gone).node holder').children.filterMap a.context.value? := by
      rw [LoadState.node, tree, NodeTree.filterMap_without fun c out => bare c (within c out),
        NodeTree.filterMap_without bare]
    dsimp only
    rw [given, LoadState.node, twins.node holder' keptHolder]
    exact Matching.forall₂_filterMap fun c listed => twins.values c (.child keptHolder rfl listed)

/-- What an element makes depends on what it says, on its texts, on its arguments, and on its
content if it is a template. -/
theorem alike_make_of (natural : env.registry.Natural) (heaps : M.Heaps a.heap b.heap)
    (body : (b.node id).toNodeBody = (a.node id).toNodeBody)
    (text : b.tree.textContent id = a.tree.textContent id)
    (given : List.Forall₂ M.Values (a.argumentValues id) (b.argumentValues id))
    (content : env.registry.isTemplate (a.node id).typeName = true →
      b.templateContent id = a.templateContent id) :
    Alike M.Made (a.make env id) (b.make env id) := by
  have made : Alike M.Objects (a.makeObject env id) (b.makeObject env id) := by
    unfold LoadState.makeObject
    dsimp only
    rw [body]
    cases found : env.registry.get? (a.node id).typeName with
    | none => exact .error _
    | some d =>
      dsimp only
      have made := heaps.make (natural _ d found) given ((a.node id).directiveText? "FactoryMethod")
      generalize d.make a.heap (a.argumentValues id) _ = first at made
      generalize d.make b.heap (b.argumentValues id) _ = second at made
      cases made with
      | error fault => exact .error _
      | ok objects =>
        dsimp only
        split
        case isTrue is =>
          have template : env.registry.isTemplate (a.node id).typeName = true := by
            unfold Registry.isTemplate
            rw [found]
            simp [is]
          rw [content template]
          cases content : a.templateContent id with
          | error error => exact .error error
          | ok kept =>
            refine .ok { objects with template := ?_ }
            cases kept with
            | none => exact .none
            | some kept =>
              refine .some ⟨rfl, ?_⟩
              rw [LoadState.outerScope_templateContent content kept rfl]
              exact .nil
        case isFalse => exact .ok objects
  have scalar : ∀ value, a.make env id = .ok (.scalar value) → M.Values value value :=
    fun value made => Matching.values_self value fun i held => by
      rw [LoadState.references_of_make made] at held
      cases held
  revert scalar
  unfold LoadState.make
  dsimp only
  rw [body, text]
  split
  · exact fun scalar => .ok (.scalar (scalar _ rfl))
  · exact fun _ => .error _
  · exact fun _ => made.map fun _ _ objects => .object objects

/-- An element that stays makes the same in both loads. -/
theorem alike_make (natural : env.registry.Natural) (omittable : Omittable t env gone)
    (proper : t.Proper) (linked : t.Linked) (twins : Twins env (t.without gone) M a b)
    (tree : a.tree = t.without done) (within : ∀ c ∈ done, c ∈ gone)
    (bare : ∀ c ∈ gone, a.context.value? c = none) (kept : t.Keeps gone id)
    (object : (t.node id).isObject = true) :
    Alike M.Made (a.make env id) (b.make env id) := by
  have left : (a.node id).toNodeBody = (t.node id).toNodeBody := by
    rw [LoadState.node, tree, NodeTree.node_without]
  have right : (b.node id).toNodeBody = (t.node id).toNodeBody := by
    rw [LoadState.node, twins.node id kept, NodeTree.node_without]
  have text : b.tree.textContent id = a.tree.textContent id := by
    rw [tree, NodeTree.textContent_without (omittable.mono within).object,
      ← NodeTree.textContent_without omittable.object]
    unfold NodeTree.textContent
    rw [twins.node id kept]
    refine congrArg String.join (List.filterMap_congr fun c listed => ?_)
    rw [twins.node c (.child kept rfl listed)]
  have given := argumentValues_without omittable twins tree within bare kept
  refine alike_make_of natural twins.heaps (right.trans left.symm) text given fun template => ?_
  have isTemplate : t.templates env id = true := by
    rw [left] at template
    unfold NodeTree.templates Environment.isTemplate
    rw [object, template]
    rfl
  exact (templateContent_without omittable proper linked twins tree within kept isTemplate).symm

end Making

end MarkupLoader
