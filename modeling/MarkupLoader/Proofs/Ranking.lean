import MarkupLoader.Proofs.Holding
import MarkupLoader.Proofs.Routes
import MarkupLoader.Proofs.Writing

/-!
# Ranks of new objects

When all values are there, a new object holds nothing but what **the arguments of its constructor**
have given it: the built-in factories give numbers only. Arguments stand in the element of the
object, so the routes of the elements are ranks of their objects (`LoadState.Arranged`). In these
ranks arguments come before all other children, and so what an object has got from them comes before
anything that it gets later on.

Main results: `Makes.exists_argument`, `Course.arranged`.
-/

namespace MarkupLoader

/-! ## What is made -/

/-- No type has a factory but the built-in ones. -/
def Registry.NoCustomFactories (r : Registry) : Prop :=
  ∀ name d, r.get? name = some d → ∀ key make, d.factories.get? key = some make →
    make = Color.fromHex ∨ make = Color.fromRgba

/-- The values of a table come from the entries that it was made of. -/
theorem Table.mem_values_ofList {κ α : Type} [DecidableEq κ] {entries : List (κ × α)} {value : α}
    (mem : value ∈ (ofList entries).values) : ∃ entry ∈ entries, entry.2 = value := by
  -- Along the entries, whatever has been in the table before.
  have origin : ∀ (entries : List (κ × α)) (t : Table κ α), value ∈ (t.insertAll entries).values →
      (∃ entry ∈ entries, entry.2 = value) ∨ value ∈ t.values := by
    intro entries
    induction entries with
    | nil => exact fun t mem => .inr mem
    | cons entry rest ih =>
      intro t mem
      rcases ih _ mem with ⟨other, there, is⟩ | before
      · exact .inl ⟨other, List.mem_cons_of_mem _ there, is⟩
      · rcases mem_values_insert before with is | earlier
        · exact .inl ⟨entry, List.mem_cons_self, is.symm⟩
        · exact .inr earlier
  exact (origin entries empty mem).resolve_right nofun

/-- What an object has as properties when it is made comes from the arguments. -/
theorem TypeDescriptor.exists_argument_of_make {d : TypeDescriptor} {h : Heap}
    {arguments : List Value} {factory : Option String} {o : Object}
    (builtIn : ∀ key make, d.factories.get? key = some make →
      make = Color.fromHex ∨ make = Color.fromRgba)
    (made : d.make h arguments factory = .ok o) {value : Value} {n : ObjectId}
    (mem : value ∈ o.properties.values) (holds : n ∈ value.references) :
    ∃ argument ∈ arguments, n ∈ argument.references := by
  unfold make at made
  split at made
  case h_1 name =>
    split at made
    · cases made
    case h_2 make found =>
      split at made
      · cases made
      case h_2 entries given =>
        cases made
        -- Channels of a colour hold no objects.
        obtain ⟨red, green, blue, alpha, rfl⟩ := channels_of_factory (builtIn _ _ found) given
        obtain ⟨entry, there, rfl⟩ := Table.mem_values_ofList mem
        simp only [Color.properties, List.mem_cons, List.not_mem_nil, or_false] at there
        rcases there with rfl | rfl | rfl | rfl <;> cases holds
  case h_2 =>
    split at made
    · cases made
      cases mem
    · split at made
      · cases made
      · -- Each property is an argument, coerced to the type of its parameter.
        obtain ⟨entries, coerced, made⟩ := ok_of_bind made
        cases made
        obtain ⟨entry, there, rfl⟩ := Table.mem_values_ofList mem
        obtain ⟨⟨parameter, argument⟩, listed, given⟩ := exists_of_mapM coerced there
        have given : d.coerceArgument h parameter argument = .ok entry := given
        refine ⟨argument, (List.of_mem_zip listed).2, ?_⟩
        unfold coerceArgument at given
        split at given
        · cases given
          exact holds
        · split at given
          case h_1 stored fits =>
            cases given
            rcases Heap.eq_or_simple_of_coerce fits with rfl | simple
            · exact holds
            · rw [simple] at holds
              cases holds
          case h_2 => cases given

namespace LoadState

variable {s u : LoadState} {env : Environment} {id : NodeId} {o : Object}

/-- **What an object holds when it is made** the arguments of its constructor hold. -/
theorem Makes.exists_argument (makes : u.Makes env id o)
    (noCustom : env.registry.NoCustomFactories) {n : ObjectId} (holds : n ∈ o.references) :
    ∃ argument ∈ u.argumentValues id, n ∈ argument.references := by
  obtain ⟨value, mem, holds⟩ := Heap.references_of_properties makes.items makes.entries holds
  obtain ⟨plain, made, same⟩ := makes.made
  rw [same] at mem
  exact TypeDescriptor.exists_argument_of_make (noCustom _ _ makes.known) made mem holds

/-- An argument is the value of a child of the node that holds the arguments. -/
theorem exists_of_argumentValues {value : Value} (mem : value ∈ u.argumentValues id) :
    ∃ holder c, holder ∈ (u.node id).children ∧ u.tree.isArguments holder = true ∧
      c ∈ (u.node holder).children ∧ u.context.value? c = some value := by
  unfold argumentValues at mem
  cases is : u.tree.arguments? id with
  | none =>
    rw [is] at mem
    cases mem
  | some holder =>
    rw [is] at mem
    obtain ⟨listed, arguments⟩ := NodeTree.isArguments_of_arguments? is
    obtain ⟨c, below, has⟩ := List.mem_filterMap.1 mem
    exact ⟨holder, c, listed, arguments, below, has⟩

/-! ## Arranged states -/

/-- **A state whose new objects are ranked by the routes** in a document of which some nodes have
been left out: the objects of nodes are new, each is that of one node only, and it has the rank of
its node. -/
structure Arranged (before : Heap) (doc : NodeTree) (rank : ObjectId → List Nat) (s : LoadState) :
    Prop where
  routed : doc.Routed
  tree : ∃ gone, s.tree = doc.without gone
  reached : ∀ id n, s.context.object? id = some n → doc.Reaches (fun _ => false) NodeTree.root id
  objects : ∀ id n, s.context.object? id = some n → doc.isArguments id = false
  distinct : ∀ id other n, s.context.object? id = some n → s.context.object? other = some n →
    id = other
  values : ∀ id value, s.context.value? id = some value → ∀ n ∈ value.references,
    value = .object n
  ranked : Heap.Ranked before rank s.heap
  placed : ∀ id n, s.context.object? id = some n →
    before.size ≤ n ∧ n < s.heap.size ∧ rank n = doc.route id

namespace Arranged

variable {before : Heap} {doc : NodeTree} {rank rank' : ObjectId → List Nat} {t : LoadState}
  {c p : NodeId} {n m : ObjectId}

/-- What the value of a node holds is the object of the node. -/
theorem object_of_value (arranged : s.Arranged before doc rank) {value : Value}
    (has : s.context.value? c = some value) (holds : m ∈ value.references) :
    s.context.object? c = some m := by
  obtain rfl := arranged.values c value has m holds
  rw [Context.object?, has]
  rfl

/-- The value of a node follows an object if the node comes after it. -/
theorem follows (arranged : s.Arranged before doc rank) {value : Value}
    (has : s.context.value? c = some value) (later : rank n < doc.route c) :
    Heap.Follows before rank s.heap n value := by
  intro m holds
  obtain ⟨new, inside, is⟩ := arranged.placed c m (arranged.object_of_value has holds)
  exact ⟨new, inside, is ▸ later⟩

theorem listed (arranged : s.Arranged before doc rank) (listed : c ∈ (s.node p).children) :
    c ∈ (doc.node p).children := by
  obtain ⟨gone, tree⟩ := arranged.tree
  rw [LoadState.node, tree] at listed
  exact (NodeTree.mem_children_without.1 listed).1

theorem isArguments (arranged : s.Arranged before doc rank) (id : NodeId) :
    s.tree.isArguments id = doc.isArguments id := by
  obtain ⟨gone, tree⟩ := arranged.tree
  rw [NodeTree.isArguments, tree, NodeTree.node_without]
  rfl

/-- A later state with the same document and values, and a heap that keeps to the ranks. -/
theorem advance (arranged : s.Arranged before doc rank) (tree : t.tree = s.tree)
    (values : t.context.values = s.context.values) (ranked : Heap.Ranked before rank' t.heap)
    (size : s.heap.size ≤ t.heap.size) (same : ∀ n < s.heap.size, rank' n = rank n) :
    t.Arranged before doc rank' := by
  have value : ∀ id, t.context.value? id = s.context.value? id := fun id => by
    rw [Context.value?, values]
    rfl
  have object : ∀ id, t.context.object? id = s.context.object? id := fun id =>
    congrArg (Option.bind · Value.object?) (value id)
  refine ⟨arranged.routed, tree ▸ arranged.tree, ?_, ?_, ?_, ?_, ranked, fun id n has => ?_⟩
  · simpa only [object] using arranged.reached
  · simpa only [object] using arranged.objects
  · simpa only [object] using arranged.distinct
  · simpa only [value] using arranged.values
  · rw [object] at has
    obtain ⟨new, inside, is⟩ := arranged.placed id n has
    exact ⟨new, Nat.lt_of_lt_of_le inside size, (same n inside).trans is⟩

end Arranged

/-- What the objects of nodes hold before anything is applied: the objects of arguments. -/
def HoldsArguments (doc : NodeTree) (s : LoadState) : Prop :=
  ∀ id n m, s.context.object? id = some n → s.heap.Holds n m →
    ∃ holder c, holder ∈ (doc.node id).children ∧ doc.isArguments holder = true ∧
      c ∈ (doc.node holder).children ∧ s.context.object? c = some m

end LoadState

namespace Load

variable {env : Environment} {tolerant : Bool} {h : Heap} {doc : NodeTree}
  {s before created filled last : LoadState}

/-! ## When all values are there -/

/-- A load that makes its object starts afresh. -/
theorem Begun.fresh (begun : Begun env h doc s) :
    s.Fresh ∧ s.context.rootElement = s.rootInstance ∧ h.size ≤ s.heap.size ∧
      (∀ n < h.size, s.heap.object n = h.object n) ∧
      ∀ n, h.size ≤ n → n < s.heap.size → s.rootInstance = some n := by
  cases begun with
  | later =>
    refine ⟨⟨untouched_start _ _, rfl, nofun⟩, rfl, Nat.le_refl _, fun _ _ => rfl, ?_⟩
    exact fun n new inside => absurd inside (Nat.not_lt_of_le new)
  | @made o =>
    have size : (((Loader.unrooted h doc true).withObject o).adopting h.size).heap.size =
        h.size + 1 := Heap.size_alloc h o
    refine ⟨⟨⟨rfl, rfl, rfl, rfl⟩, rfl, ?_⟩, rfl, ?_, fun n old => Heap.object_alloc_of_lt old,
      fun n new inside => ?_⟩
    · rintro _ ⟨⟩
      rw [size]
      exact Nat.lt_succ_self _
    · omega
    · have here : n = h.size := by omega
      exact congrArg some here.symm

variable (begun : Begun env h doc s) (course : Course env tolerant s before created filled last)
  (proper : doc.Proper)

include begun course proper

/-- Every new object is that of a node when all values are there. -/
theorem Course.covered (top : (doc.node NodeTree.root).isObject = true) {n : ObjectId}
    (new : h.size ≤ n) (inside : n < filled.heap.size) :
    ∃ id, filled.context.object? id = some n := by
  obtain ⟨fresh, about, -, -, root⟩ := begun.fresh
  have properS : s.tree.Proper := begun.tree ▸ proper
  obtain ⟨before', created', populates⟩ := populates_of_start properS fresh course.begins
  by_cases earlier : n < before'.heap.size
  · -- It has been made before all others, and is that of the outermost element.
    rw [populates.prepares.heap] at earlier
    have object : (filled.node NodeTree.root).isObject = true := by
      rw [populates.isObject properS, LoadState.node, begun.tree]
      exact top
    obtain ⟨same, kept⟩ := populates.about properS fresh about object
    exact ⟨NodeTree.root, same.trans (kept n (root n new earlier))⟩
  · -- All others have been made for nodes, one after the other.
    have covering := populates.covering properS fresh about
    obtain ⟨id, has⟩ := covering.covered n (Nat.le_of_not_lt earlier) (populates.heap ▸ inside)
    exact ⟨id, (populates.object? id).trans has⟩

/-- **How the object of a node has been made**: from arguments that are the values of nodes in the
arguments of the node. -/
theorem Course.exists_makes {id : NodeId} {n : ObjectId}
    (has : last.context.object? id = some n) :
    ∃ u : LoadState, u.Makes env id (created.heap.object n) ∧
      (u.node id).typeName = (doc.node id).typeName ∧
      ∀ argument ∈ u.argumentValues id, ∀ m ∈ argument.references,
        ∃ holder c, holder ∈ (before.node id).children ∧ before.tree.isArguments holder = true ∧
          c ∈ (before.node holder).children ∧ last.context.object? c = some m := by
  have properS : s.tree.Proper := begun.tree ▸ proper
  cases course.origin (course.prepares.proper properS).1 has with
  | given top known =>
    -- The outermost object has been made before anything else, without arguments.
    have object := course.creating.old n (course.known n known)
    rw [course.prepares.heap] at object
    rw [course.prepares.rootInstance] at known
    cases begun with
    | later => cases known
    | @made o bare made =>
      cases known
      have is : created.heap.object h.size = o := object.trans (Heap.object_alloc h o)
      subst top
      refine ⟨Loader.unrooted h doc true, is ▸ LoadState.makes_of_make made, rfl,
        fun argument mem => ?_⟩
      unfold LoadState.argumentValues at mem
      rw [show (Loader.unrooted h doc true).tree.arguments? NodeTree.root = none from bare] at mem
      cases mem
  | @made u gone makes tree _ kept =>
    have name : (u.node id).typeName = (doc.node id).typeName := by
      have same := (course.prepares.kind properS id).2
      unfold LoadState.node at same ⊢
      rw [tree, NodeTree.node_without, same, begun.tree]
    refine ⟨u, makes, name, fun argument mem m holds => ?_⟩
    obtain ⟨holder, c, listed, arguments, below, value⟩ := LoadState.exists_of_argumentValues mem
    unfold LoadState.node at listed below
    rw [tree] at listed below
    rw [tree, NodeTree.isArguments, NodeTree.node_without] at arguments
    refine ⟨holder, c, (NodeTree.mem_children_without.1 listed).1, arguments,
      (NodeTree.mem_children_without.1 below).1, ?_⟩
    -- The argument is no list, so it is the object itself.
    have value := kept c argument value
    rw [Context.object?, value]
    cases argument with
    | object k => exact congrArg some (List.mem_singleton.1 holds).symm
    | list items => exact absurd rfl (course.no_list value items)
    | _ => cases holds

/-- The object of a node is of the type that the document names. -/
theorem Course.typed {id : NodeId} {n : ObjectId} (has : last.context.object? id = some n) :
    env.registry.get? (doc.node id).typeName = some (created.heap.descriptor n) := by
  obtain ⟨u, makes, name, -⟩ := course.exists_makes begun proper has
  exact name ▸ makes.known

/-- The objects of nodes are new. -/
theorem Course.placed {id : NodeId} {n : ObjectId} (has : last.context.object? id = some n) :
    h.size ≤ n ∧ n < created.heap.size := by
  have properS : s.tree.Proper := begun.tree ▸ proper
  obtain ⟨-, -, size, -⟩ := begun.fresh
  cases course.origin (course.prepares.proper properS).1 has with
  | given top known =>
    refine ⟨?_, Nat.lt_of_lt_of_le (course.known n known) course.creating.size⟩
    rw [course.prepares.rootInstance] at known
    cases begun with
    | later => cases known
    | made =>
      cases known
      exact Nat.le_refl _
  | made _ _ _ _ _ _ after inside =>
    rw [course.prepares.heap] at after
    exact ⟨Nat.le_trans size after, inside⟩

/-- The routes in the prepared document tell its places apart. -/
theorem Course.routed (ordered : doc.Ordered) : before.tree.Routed := by
  have properS : s.tree.Proper := begun.tree ▸ proper
  obtain ⟨properB, linkedB⟩ := course.prepares.proper properS
  refine ⟨properB, linkedB, fun id => ?_⟩
  have children := course.prepares.children properS id
  unfold LoadState.node at children
  rw [children, begun.tree]
  exact ordered.without _ id

omit begun proper in
/-- The values that are there stay to the end. -/
theorem Course.filled_value? (id : NodeId) :
    filled.context.value? id = last.context.value? id := by
  rw [Context.value?, Context.value?, course.settled.values]

omit begun proper in
theorem Course.filled_object? (id : NodeId) :
    filled.context.object? id = last.context.object? id :=
  congrArg (Option.bind · Value.object?) (course.filled_value? id)

/-- An object holds what the arguments of its node have given it. -/
theorem Course.holdsArguments (noCustom : env.registry.NoCustomFactories) :
    filled.HoldsArguments before.tree := by
  intro id n m has holds
  obtain ⟨u, makes, -, given⟩ :=
    course.exists_makes begun proper ((course.filled_object? id).symm.trans has)
  rw [Heap.Holds, course.heap] at holds
  obtain ⟨argument, mem, holds⟩ := makes.exists_argument noCustom holds
  obtain ⟨holder, c, listed, isArguments, below, has'⟩ := given argument mem m holds
  exact ⟨holder, c, listed, isArguments, below, (course.filled_object? c).trans has'⟩

omit begun proper in
/-- The rank of an object is the route to its node. -/
theorem Course.exists_rank : ∃ rank : ObjectId → List Nat, ∀ id n,
    filled.context.object? id = some n → rank n = before.tree.route id := by
  have ranks : ∀ n, ∃ place, ∀ id, filled.context.object? id = some n →
      place = before.tree.route id := by
    intro n
    -- An object that is that of a node is that of no other.
    by_cases some : ∃ id, filled.context.object? id = some n
    · obtain ⟨id, has⟩ := some
      refine ⟨before.tree.route id, fun other hasToo => ?_⟩
      rw [course.filled_object?] at has hasToo
      rw [course.distinct has hasToo]
    · exact ⟨[], fun id has => absurd ⟨id, has⟩ some⟩
  choose rank ranked using ranks
  exact ⟨rank, fun id n has => ranked n id has⟩

/-- No template remembers anything yet. -/
theorem Course.outerScope_of_filled {id : NodeId} {n : ObjectId} {kept : Template}
    (has : filled.context.object? id = some n)
    (keeps : (filled.heap.object n).template = some kept) : kept.outerScope = [] := by
  obtain ⟨u, makes, -, -⟩ :=
    course.exists_makes begun proper ((course.filled_object? id).symm.trans has)
  rw [course.heap] at keeps
  have template : (created.heap.object n).kind = .template :=
    Decidable.byContradiction fun other => by
      rw [makes.plain other] at keeps
      cases keeps
  exact LoadState.outerScope_templateContent (makes.content template) kept keeps

/-- Ranks by the routes are ranks of the heap: an object comes before its arguments. -/
theorem Course.ranked_of_routes (top : (doc.node NodeTree.root).isObject = true)
    (routed : before.tree.Routed) (arguments : filled.HoldsArguments before.tree)
    {rank : ObjectId → List Nat}
    (reached : ∀ id n, filled.context.object? id = some n →
      before.tree.Reaches (fun _ => false) NodeTree.root id)
    (placed : ∀ id n, filled.context.object? id = some n →
      h.size ≤ n ∧ n < filled.heap.size ∧ rank n = before.tree.route id) :
    Heap.Ranked h rank filled.heap := by
  obtain ⟨-, -, size, old, -⟩ := begun.fresh
  have inside : ∀ {n}, filled.heap.object n ≠ default → n < filled.heap.size := fun ne =>
    Nat.lt_of_not_le fun outside => ne (Heap.object_of_size_le outside)
  refine ⟨?_, fun n older => ?_, fun n m new holds => ?_, fun n new kept keeps m mem => ?_⟩
  · rw [course.heap]
    have grown := course.creating.size
    rw [course.prepares.heap] at grown
    exact Nat.le_trans size grown
  · rw [course.heap, course.creating.old n ?_, course.prepares.heap, old n older]
    rw [course.prepares.heap]
    exact Nat.lt_of_lt_of_le older size
  · obtain ⟨id, has⟩ := course.covered begun proper top new (inside fun none => by
      rw [Heap.Holds, none] at holds
      cases holds)
    obtain ⟨holder, c, listed, -, below, has'⟩ := arguments id n m has holds
    obtain ⟨new', inside', is'⟩ := placed c m has'
    -- The argument stands two levels below the node.
    refine ⟨new', inside', ?_⟩
    rw [(placed id n has).2.2, is']
    have above := reached id n has
    exact List.lt_trans (routed.lt_child above listed)
      (routed.lt_child (.child above rfl listed) below)
  · obtain ⟨id, has⟩ := course.covered begun proper top new (inside fun none => by
      rw [none] at keeps
      cases keeps)
    rw [course.outerScope_of_filled begun proper has keeps] at mem
    cases mem

/-- **When all values are there**, the routes in the prepared document are ranks of the new
objects. -/
theorem Course.arranged (ordered : doc.Ordered)
    (top : (doc.node NodeTree.root).isObject = true)
    (noCustom : env.registry.NoCustomFactories) :
    (∃ rank, filled.Arranged h before.tree rank) ∧ filled.HoldsArguments before.tree := by
  have routed := course.routed begun proper ordered
  have arguments := course.holdsArguments begun proper noCustom
  obtain ⟨rank, ranked⟩ := course.exists_rank
  have placed : ∀ id n, filled.context.object? id = some n →
      h.size ≤ n ∧ n < filled.heap.size ∧ rank n = before.tree.route id := by
    intro id n has
    obtain ⟨new, inside⟩ := course.placed begun proper ((course.filled_object? id).symm.trans has)
    exact ⟨new, course.heap ▸ inside, ranked id n has⟩
  have reached : ∀ id n, filled.context.object? id = some n →
      before.tree.Reaches (fun _ => false) NodeTree.root id := by
    intro id n has
    obtain ⟨_, held, -⟩ := Option.bind_eq_some_iff.1 has
    have loaded := course.loaded ((course.filled_value? id).symm.trans held)
    exact ((NodeTree.mem_postorder routed.proper).1 loaded).all
  refine ⟨⟨rank, {
    routed := routed
    tree := ?_
    reached := reached
    objects := fun id n has => ?_
    distinct := fun id other n has hasToo => ?_
    values := fun id v has n holds => ?_
    ranked := course.ranked_of_routes begun proper top routed arguments reached placed
    placed := placed }⟩, arguments⟩
  · obtain ⟨gone, tree, -⟩ := course.creating.tree
    exact ⟨gone, course.tree.trans tree⟩
  · obtain ⟨v, held, -⟩ := Option.bind_eq_some_iff.1 has
    rw [Context.value?, course.values] at held
    exact NodeTree.isArguments_of_isObject (course.creating.objects id v held)
  · rw [course.filled_object?] at has hasToo
    exact course.distinct has hasToo
  · rw [course.filled_value?] at has
    cases v with
    | object k => rw [List.mem_singleton.1 holds]
    | list items => exact absurd rfl (course.no_list has items)
    | _ => cases holds

end Load

end MarkupLoader
