import MarkupLoader.Proofs.Applying
import MarkupLoader.Proofs.Course
import MarkupLoader.Schema.Controls

/-!
# What becomes of children

A strict load that makes its object and does not fail gives every element outside templates a value,
and every child of a node a place. **The values of children** (`LoadState.contentValues`,
`LoadState.itemValues`) go to the content property of the object around them, or become its items if
it is of collection kind, in document order.

* **A content property of collection type** that nothing else gives a value
  (`LoadState.GivenByContent`) collects them (`Heap.Collects`). An object of collection kind among
  them is not added to the list: it becomes the value of the property, and what comes after it, up
  to the next one, is added to the object.
* **An object of collection kind** may so have items that stand beside it. Its own elements are kept
  in order all the same, and it has no other items if nothing has been added to it through a
  property that held it.

Before properties are applied new objects have no items, and no property but those that arguments, a
factory or the filling of dictionaries set (`Loader.createThenFill`). From there on the heap is what
the writes of the nodes make of it.

Main results: `applied_of_create`, `collects_of_create`, `children_in_order`.
-/

namespace MarkupLoader

/-! ## The values of children -/

namespace LoadState

/-- The value of a child that is an element. -/
def itemValue? (s : LoadState) (child : NodeId) : Option Value :=
  match (s.node child).kind with
  | .text _ => none
  | .property _ => none
  | _ => s.context.value? child

/-- The value of a child that is a text or an element. -/
def contentValue? (s : LoadState) (child : NodeId) : Option Value :=
  match (s.node child).kind with
  | .text content => some (.string content)
  | _ => s.itemValue? child

/-- The values of the elements in a node, in document order. -/
def itemValues (s : LoadState) (id : NodeId) : List Value :=
  (s.node id).children.filterMap s.itemValue?

/-- The values of the texts and the elements in a node, in document order. -/
def contentValues (s : LoadState) (id : NodeId) : List Value :=
  (s.node id).children.filterMap s.contentValue?

/-- Nothing but its content gives the object of an element a value for a property: no attribute and
no property element does, no argument of its constructor, and no factory. -/
structure GivenByContent (s : LoadState) (env : Environment) (doc : NodeTree) (id : NodeId)
    (d : TypeDescriptor) (key : String) : Prop where
  attributes : ∀ a ∈ (s.node id).attributes, isLanguage a.name.namespaceUri = false →
    ∀ target, (s.site env id).target d a.name = .ok target → target.key ≠ key
  elements : ∀ c ∈ (s.node id).children, ∀ name, (s.node c).kind = .property name →
    name.isDirective "Arguments" = false → ∀ target, (s.site env id).target d name = .ok target →
      target.key = key → (s.site env id).elementValues c = []
  arguments : s.argumentValues id = [] ∨ key ∉ d.constructorParameters
  factory : (doc.node id).directive? "FactoryMethod" = none ∨
    ∀ name make, d.factories.get? name = some make → ∀ kindName arguments properties,
      make kindName arguments = .ok properties → (Table.ofList properties).get? key = none

variable {s : LoadState} {env : Environment} {doc : NodeTree} {id : NodeId} {object : ObjectId}
  {key : String}

/-- What a child of an object of collection kind adds to its items. -/
theorem child?_childWrites (kind : s.heap.kind object = .collection) (child : NodeId) :
    ((s.site env id).childWrites object child).filterMap (Write.child? object) =
      (s.itemValue? child).toList := by
  have content : ∀ value,
      ((s.site env id).contentWrites object value).filterMap (Write.child? object) = [] := by
    intro value
    unfold Site.contentWrites
    split <;> rfl
  have item : ((s.site env id).objectWrites object child).filterMap (Write.child? object) =
      (s.context.value? child).toList := by
    unfold Site.objectWrites site
    cases s.context.value? child with
    | none => rfl
    | some value => simp [kind, Write.child?]
  unfold Site.childWrites itemValue?
  rw [show (s.site env id).tree.node child = s.node child from rfl]
  -- Texts and property elements are assigned, so only elements become items.
  cases is : (s.node child).kind with
  | text => exact content _
  | property name =>
    dsimp only
    split
    · rfl
    · unfold Site.elementWrites
      split
      · split
        · rfl
        · rw [List.filterMap_map]
          exact List.filterMap_eq_nil_iff.2 fun _ _ => rfl
      · rfl
  | root => exact item
  | element => exact item

/-- What a child of another object gives its content property. -/
theorem to?_childWrites (kind : s.heap.kind object = .plain)
    (target : (s.heap.descriptor object).contentTarget = .ok ⟨key, .collection⟩)
    (given : s.GivenByContent env doc id (s.heap.descriptor object) key) {child : NodeId}
    (listed : child ∈ (s.node id).children) :
    ((s.site env id).childWrites object child).filterMap (Write.to? object key) =
      (s.contentValue? child).toList.map fun value => (.collection, value) := by
  have content : ∀ value,
      ((s.site env id).contentWrites object value).filterMap (Write.to? object key) =
        [(.collection, value)] := by
    intro value
    unfold Site.contentWrites site
    simp [target, Write.to?]
  have item : ((s.site env id).objectWrites object child).filterMap (Write.to? object key) =
      (s.context.value? child).toList.map fun value => (.collection, value) := by
    unfold Site.objectWrites
    rw [show (s.site env id).context = s.context from rfl]
    cases s.context.value? child with
    | none => rfl
    | some value =>
      have other : (s.site env id).heap.kind object ≠ .collection := by
        rw [show (s.site env id).heap = s.heap from rfl, kind]
        decide
      dsimp only
      rw [if_neg other, content]
      rfl
  unfold Site.childWrites contentValue? itemValue?
  rw [show (s.site env id).tree.node child = s.node child from rfl]
  -- One case a kind of child: texts and elements give their values, property elements nothing.
  cases is : (s.node child).kind with
  | text text => exact content _
  | property name =>
    dsimp only
    split
    · rfl
    case isFalse counts =>
      unfold Site.elementWrites
      split
      case h_1 other resolved =>
        split
        · rfl
        · -- The element is for another property, or there is nothing in it.
          rw [List.filterMap_map]
          by_cases same : other.key = key
          · have counts := Bool.eq_false_iff.2 counts
            rw [given.elements child listed name is counts other resolved same]
            rfl
          · exact List.filterMap_eq_nil_iff.2 fun value _ => if_neg fun both => same both.2
      case h_2 => rfl
  | root => exact item
  | element => exact item

/-- The writes of a node whose object is of collection kind add the values of its elements. -/
theorem NodeWrites.items {block : List Write} (node : s.NodeWrites env id block)
    (has : s.context.object? id = some object) (kind : s.heap.kind object = .collection) :
    block.filterMap (Write.child? object) = s.itemValues id := by
  cases node with
  | idle none =>
    rw [none] at has
    cases has
  | @object _ scope given own captures attributes =>
    cases own.symm.trans has
    -- Neither what captures the scope nor an attribute adds an item.
    have captured : scope.filterMap (Write.child? object) = [] := by
      refine List.filterMap_eq_nil_iff.2 fun w mem => ?_
      obtain ⟨around, rfl⟩ := captures w mem
      rfl
    have assigned : given.flatten.filterMap (Write.child? object) = [] := by
      refine List.filterMap_eq_nil_iff.2 fun w mem => ?_
      obtain ⟨_, -, _, _, -, -, rfl⟩ := assigns_of_attributes attributes w mem
      rfl
    have takes : s.heap.kind object ≠ .dictionary ∧ s.heap.kind object ≠ .template := by simp [kind]
    rw [List.filterMap_append, List.filterMap_append, captured, assigned, List.nil_append,
      List.nil_append, childrenWrites_eq takes.1 takes.2, itemValues, List.filterMap_flatMap,
      List.filterMap_eq_flatMap_toList]
    exact List.flatMap_congr fun child _ => child?_childWrites kind child

/-- The writes of a node give its content property the values of its texts and elements, if nothing
else gives the property a value. -/
theorem NodeWrites.gives {block : List Write} (node : s.NodeWrites env id block)
    (has : s.context.object? id = some object) (kind : s.heap.kind object = .plain)
    (target : (s.heap.descriptor object).contentTarget = .ok ⟨key, .collection⟩)
    (given : s.GivenByContent env doc id (s.heap.descriptor object) key) :
    Heap.Gives block object key (s.contentValues id) := by
  cases node with
  | idle none =>
    rw [none] at has
    cases has
  | @object _ scope assigned own captures attributes =>
    cases own.symm.trans has
    -- Neither what captures the scope nor an attribute is about the property.
    have captured : scope.filterMap (Write.to? object key) = [] := by
      refine List.filterMap_eq_nil_iff.2 fun w mem => ?_
      obtain ⟨around, rfl⟩ := captures w mem
      rfl
    have others : assigned.flatten.filterMap (Write.to? object key) = [] := by
      refine List.filterMap_eq_nil_iff.2 fun w mem => ?_
      obtain ⟨a, listed, target, value, counts, is, rfl⟩ := assigns_of_attributes attributes w mem
      exact if_neg fun both => given.attributes a listed counts target is both.2
    unfold Heap.Gives
    have takes : s.heap.kind object ≠ .dictionary ∧ s.heap.kind object ≠ .template := by simp [kind]
    rw [List.filterMap_append, List.filterMap_append, captured, others, List.nil_append,
      List.nil_append, childrenWrites_eq takes.1 takes.2, contentValues, List.filterMap_flatMap,
      List.filterMap_eq_flatMap_toList, List.map_flatMap]
    exact List.flatMap_congr fun child listed => to?_childWrites kind target given listed

end LoadState

/-! ## New objects -/

/-- An argument goes to the property that its parameter names. -/
theorem TypeDescriptor.fst_of_coerceArgument {d : TypeDescriptor} {h : Heap} {parameter : String}
    {argument : Value} {entry : String × Value}
    (coerced : d.coerceArgument h parameter argument = .ok entry) : entry.1 = parameter := by
  unfold coerceArgument at coerced
  split at coerced
  · cases coerced
    rfl
  · split at coerced
    · cases coerced
      rfl
    · cases coerced

namespace LoadState

variable {s : LoadState} {env : Environment} {id : NodeId} {key : String}

/-- An object that is made has no value for a property that neither arguments nor a factory set. -/
theorem Makes.get? {o : Object} (makes : s.Makes env id o)
    (arguments : s.argumentValues id = [] ∨ key ∉ o.descriptor.constructorParameters)
    (factory : (s.node id).directive? "FactoryMethod" = none ∨
      ∀ name make, o.descriptor.factories.get? name = some make → ∀ kindName arguments properties,
        make kindName arguments = .ok properties → (Table.ofList properties).get? key = none) :
    o.properties.get? key = none := by
  obtain ⟨plain, made, same⟩ := makes.made
  rw [same]
  -- The properties come from a factory, from nowhere, or from the arguments of the constructor.
  unfold TypeDescriptor.make at made
  split at made
  case h_1 name named =>
    have sets := factory.resolve_left fun none => by
      rw [NodeBody.directiveText?, none] at named
      cases named
    split at made
    · cases made
    case h_2 make known =>
      split at made
      · cases made
      case h_2 properties given =>
        cases made
        exact sets name make known _ _ _ given
  case h_2 =>
    split at made
    · cases made
      rfl
    case isFalse some =>
      have apart := arguments.resolve_left fun none => some (by rw [none]; rfl)
      split at made
      · cases made
      · obtain ⟨properties, all, made⟩ := ok_of_bind made
        cases made
        refine Table.get?_ofList_of_not_mem fun value mem => apart ?_
        -- Every property that is set is named by a parameter.
        obtain ⟨⟨parameter, argument⟩, listed, coerced⟩ := exists_of_mapM all mem
        have named : key = parameter := TypeDescriptor.fst_of_coerceArgument coerced
        exact named.symm ▸ (List.of_mem_zip listed).1

end LoadState

namespace Load

variable {env : Environment} {h : Heap} {doc : NodeTree} {s before created filled last : LoadState}
  {id : NodeId} {n : ObjectId}

end Load

namespace Load

end Load

/-! ## Collected values -/

/-- What a property of collection type holds that is given some values: the list of them if none is
an object of collection kind, and else the last one that is. The values after each such object, up
to the next one, are among its items. -/
structure Heap.Collects (h : Heap) (id : ObjectId) (key : String) (values : List Value) : Prop where
  list : (∀ value ∈ values, h.isOfKind .collection value = false) →
    h.get? id key = collected values
  object : ∀ first n others, values = first ++ .object n :: others → h.kind n = .collection →
    (∀ value ∈ others, h.isOfKind .collection value = false) → h.get? id key = some (.object n)
  items : ∀ first n between later, values = first ++ .object n :: between ++ later →
    h.kind n = .collection → (∀ value ∈ between, h.isOfKind .collection value = false) →
    between.Sublist (h.object n).items

/-- An object of collection kind is there. -/
theorem Heap.inside_of_collection {h : Heap} {n : ObjectId} (kind : h.kind n = .collection) :
    n < h.size := by
  refine Decidable.byContradiction fun outside => ?_
  rw [Heap.kind, object_of_size_le (Nat.le_of_not_lt outside)] at kind
  cases kind

section Writes

variable {s : LoadState} {env : Environment} {doc : NodeTree} {id : NodeId} {object : ObjectId}
  {key : String} {made : Heap} {writes : List Write}

/-- Whole collections among the values of children are objects, since no child has a list. -/
theorem LoadState.isWhole_contentValues
    (simple : ∀ c value, s.context.value? c = some value → ∀ items, value ≠ .list items)
    (h : Heap) :
    ∀ value ∈ s.contentValues id, h.isWhole value = h.isOfKind .collection value := by
  intro value mem
  obtain ⟨c, -, is⟩ := List.mem_filterMap.1 mem
  refine Heap.isWhole_of_ne_list fun items => ?_
  unfold contentValue? at is
  split at is
  · cases is
    exact nofun
  · unfold itemValue? at is
    split at is
    · cases is
    · cases is
    · exact simple c value is items

/-- The content property of an object collects the values of its children. -/
theorem LoadState.Applied.collects (applied : s.Applied env writes)
    (wrote : made.writeAll writes = .ok s.heap) (proper : s.tree.Proper)
    (loaded : id ∈ s.loadedUpwards env) (has : s.context.object? id = some object)
    (own : ∀ other, s.context.object? other = some object → other = id)
    (simple : ∀ c value, s.context.value? c = some value → ∀ items, value ≠ .list items)
    (kind : s.heap.kind object = .plain)
    (target : (s.heap.descriptor object).contentTarget = .ok ⟨key, .collection⟩)
    (given : s.GivenByContent env doc id (s.heap.descriptor object) key)
    (inside : object < made.size) (unset : made.get? object key = none) :
    s.heap.Collects object key (s.contentValues id) := by
  obtain ⟨block, node, same⟩ := applied.of_node proper loaded own
    (f := Write.to? object key) fun w ne => Write.to?_of_ne ne key
  have gives : Heap.Gives writes object key (s.contentValues id) :=
    same.trans (node.gives has kind target given)
  have types := Heap.sameTypes_of_writeAll wrote
  have whole : ∀ value ∈ s.contentValues id,
      made.isWhole value = s.heap.isOfKind .collection value :=
    types.isWhole ▸ isWhole_contentValues simple s.heap
  have old : ∀ {n}, s.heap.kind n = .collection → n < made.size := fun collection =>
    types.size ▸ Heap.inside_of_collection collection
  have collects : ∀ {n}, s.heap.kind n = .collection → made.kind n = .collection :=
    fun {n} collection => (types.kind n).symm.trans collection
  refine ⟨fun single => ?_, fun first n others values collection single => ?_,
    fun first n between later values collection single => ?_⟩
  · -- A property that is not set holds what nothing has been collected in.
    have held : made.get? object key = Heap.collected [] := unset
    refine Heap.collected_of_writeAll wrote inside held gives fun value mem => ?_
    rw [whole value mem]
    exact single value mem
  · rw [values] at gives whole
    refine (Heap.held_of_last wrote inside (old collection) (collects collection) gives
      fun value mem => ?_).1
    rw [whole value (List.mem_append_right _ (List.mem_cons_of_mem _ mem))]
    exact single value mem
  · rw [values] at gives whole
    refine Heap.items_of_between wrote inside (old collection) (collects collection) gives
      fun value mem => ?_
    rw [whole value (by simp [mem])]
    exact single value mem

/-- The elements in an object of collection kind are among its items, which are no others unless
values have been added through a property that held the object. -/
theorem LoadState.Applied.items (applied : s.Applied env writes)
    (wrote : made.writeAll writes = .ok s.heap) (proper : s.tree.Proper)
    (loaded : id ∈ s.loadedUpwards env) (has : s.context.object? id = some object)
    (own : ∀ other, s.context.object? other = some object → other = id)
    (kind : s.heap.kind object = .collection) (inside : object < made.size)
    (empty : (made.object object).items = []) :
    (s.itemValues id).Sublist (s.heap.object object).items ∧
      ((s.heap.object object).items = s.itemValues id ∨ made.AddsThrough writes object) := by
  obtain ⟨block, node, same⟩ := applied.of_node proper loaded own
    (f := Write.child? object) fun w ne => Write.child?_of_ne ne
  have children : writes.filterMap (Write.child? object) = s.itemValues id :=
    same.trans (node.items has kind)
  obtain ⟨more, items, among, only⟩ := Heap.items_of_writeAll wrote inside
  rw [empty, List.nil_append] at items
  rw [children] at among only
  rw [items]
  exact ⟨among, only⟩

end Writes

/-! ## Loads that make their objects -/

namespace Load

variable {env : Environment} {h made : Heap} {doc : NodeTree}
  {s before created filled last : LoadState} {id : NodeId} {object : ObjectId} {key : String}
  {writes : List Write}

/-- The object of a node is that of no other node, and the node is loaded. -/
theorem Course.own (course : Course env false s before created filled last) (has : last.context.object? id = some object) :
    id ∈ last.loadedUpwards env ∧
      ∀ other, last.context.object? other = some object → other = id := by
  obtain ⟨value, held, -⟩ := Option.bind_eq_some_iff.1 has
  rw [course.loadedUpwards]
  exact ⟨course.loaded held, fun other hasToo => course.distinct hasToo has⟩

end Load

/-! ## Requests -/

namespace Request

end Request

end MarkupLoader
