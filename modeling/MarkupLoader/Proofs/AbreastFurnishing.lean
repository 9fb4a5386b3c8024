import MarkupLoader.Proofs.AbreastPasses
import MarkupLoader.Proofs.Later

/-!
# The later passes of loads side by side

Once their values have been created, loads that go abreast (`LoadState.Level`) register the same
names, fill the same dictionaries and assign the same values.

* **The node more** has no name and no object, and it is no entry of a dictionary.
* **What it is read for** is decided where the children of a node are assigned: at the node that it
  has been spliced into, or at the node around that one. What happens there is left to those who know
  what has been spliced in (`Load.Ordinary`).

Main results: `together_registerNames`, `together_fillResources`, `together_applyProperties`.
-/

namespace MarkupLoader

open NodeTree (moved)

/-! ## From a state on -/

/-- Loads that go abreast since all values were there: from then on they have worked on their heaps
only. -/
structure LoadState.LevelFrom (env : Environment) (x p : NodeId) (origin origin' a b : LoadState) :
    Prop extends LoadState.Level env x p a b where
  settled : origin.Settled Heap.Retains a
  settled' : origin'.Settled Heap.Retains b

/-- A step that both loads take together and that works on the heap only. -/
theorem LoadState.LevelFrom.step {env : Environment} {x p : NodeId} {origin origin' a b : LoadState}
    (both : LoadState.LevelFrom env x p origin origin' a b) {step step' : Load Unit}
    (settles : Load.SettlesAt Heap.Retains a step) (settles' : Load.SettlesAt Heap.Retains b step')
    (together : TogetherDone (LoadState.Level env x p) (step.start a) (step'.start b)) :
    TogetherDone (LoadState.LevelFrom env x p origin origin') (step.start a) (step'.start b) := by
  have chains := Heap.filling_retains.toChains
  refine Load.Together.keeping together (S := fun s t => origin.Settled Heap.Retains s ∧
    origin'.Settled Heap.Retains t) ⟨?_, ?_⟩ fun _ _ level kept => ⟨level, kept.1, kept.2⟩
  · exact both.settled.trans chains settles
  · exact both.settled'.trans chains settles'

namespace Load

variable {env : Environment} {x p i : NodeId} {a b : LoadState}

/-! ## Registering names -/

/-- A node without a value has nothing to register. -/
theorem naming?_of_value {s : LoadState} (none : s.context.value? i = .none) :
    s.naming? i = .none := by
  refine Option.eq_none_iff_forall_ne_some.2 fun n gives => ?_
  unfold LoadState.naming? at gives
  obtain ⟨_, -, gives⟩ := Option.bind_eq_some_iff.1 gives
  obtain ⟨_, -, gives⟩ := Option.bind_eq_some_iff.1 gives
  obtain ⟨_, held, -⟩ := Option.bind_eq_some_iff.1 gives
  cases none.symm.trans held

section Naming

variable (both : LoadState.Level env x p a b)

include both

theorem level_withName (name : String) (value : Value) :
    LoadState.Level env x p (a.withName 0 name value) (b.withName 0 name value) :=
  { both with
    inFirst := both.inFirst.withName name value
    inFirst' := both.inFirst'.withName name value
    names := by
      rw [a.scope_withName, if_pos ⟨rfl, both.inFirst.opened⟩, b.scope_withName,
        if_pos ⟨rfl, both.inFirst'.opened⟩]
      exact congrArg (·.insert name value) both.names }

/-- A node has the same name on both sides. -/
theorem level_naming? (loaded : a.tree.Reaches (a.isTemplate env) NodeTree.root i) :
    (b.naming? (moved x i)).map (fun n => (n.name, n.value, n.scope)) =
        (a.naming? i).map (fun n => (n.name, n.value, n.scope)) ∧
      ∀ n, a.naming? i = some n → n.scope = 0 := by
  have directive := both.directive i "Name"
  have scope := both.inFirst.nodes i loaded
  have scope' := both.inFirst'.nodes _ ((both.reaches_iff i).2 loaded)
  unfold LoadState.naming?
  rw [both.value, scope, scope']
  generalize (a.node i).directive? "Name" = found at directive
  generalize (b.node (moved x i)).directive? "Name" = found' at directive
  cases found with
  | none =>
    obtain rfl : found' = none := Option.map_eq_none_iff.1 directive
    exact ⟨rfl, fun _ is => by cases is⟩
  | some c =>
    obtain ⟨d, rfl, same⟩ := Option.map_eq_some_iff.1 directive
    have text : d.value.text? = c.value.text? := congrArg (·.value.text?) same
    show (d.value.text?.bind _).map _ = (c.value.text?.bind _).map _ ∧
      ∀ n, c.value.text?.bind _ = some n → _
    rw [text]
    cases c.value.text? with
    | none => exact ⟨rfl, fun _ is => by cases is⟩
    | some name =>
      show ((a.context.value? i).bind _).map _ = ((a.context.value? i).bind _).map _ ∧
        ∀ n, (a.context.value? i).bind _ = some n → _
      cases a.context.value? i with
      | none => exact ⟨rfl, fun _ is => by cases is⟩
      | some value => exact ⟨rfl, fun _ is => by cases is; rfl⟩

theorem together_registerName (loaded : a.tree.Reaches (a.isTemplate env) NodeTree.root i) :
    TogetherDone (LoadState.Level env x p) ((registerName i).start a)
      ((registerName (moved x i)).start b) := by
  obtain ⟨same, first⟩ := level_naming? both loaded
  unfold registerName
  rw [start_get_bind, start_get_bind]
  generalize a.naming? i = found at same first
  generalize b.naming? (moved x i) = found' at same
  cases found with
  | none =>
    obtain rfl : found' = none := Option.map_eq_none_iff.1 same
    exact together_done both
  | some n =>
    obtain ⟨m, rfl, same⟩ := Option.map_eq_some_iff.1 same
    obtain ⟨name, position, value, scope⟩ := n
    obtain ⟨name', position', value', scope'⟩ := m
    obtain ⟨rfl, rfl, rfl⟩ : name' = name ∧ value' = value ∧ scope' = scope := by simpa using same
    obtain rfl : scope' = 0 := first _ rfl
    dsimp only
    unfold Context.register
    rw [both.names]
    by_cases taken : (a.context.scope 0).names.contains name' = true
    · rw [if_pos taken, if_pos taken]
      exact together_recover (making_level env x p).toLoose both rfl
    · rw [if_neg taken, if_neg taken]
      exact together_done (level_withName both name' value')

theorem together_registerNames : TogetherDone (LoadState.Level env x p)
    ((registerNames env).start a) ((registerNames env).start b) := by
  have loaded : ∀ i ∈ a.loaded env, a.tree.Reaches (a.isTemplate env) NodeTree.root i :=
    fun i mem => (NodeTree.mem_preorder both.proper).1 mem
  unfold registerNames
  rw [start_get_bind, start_get_bind]
  -- Registering names does not change the document.
  refine together_forM both.loaded (S := fun s => s.tree = a.tree) (fun i _ s same => ?_)
    (fun i mem s t both same => ?_) (fun _ s t both _ => ?_) both rfl
  · exact (settles_registerName Heap.filling_retains.toChains i).ran rfl |>.tree.trans same
  · refine together_registerName both ?_
    have here := loaded i mem
    unfold LoadState.isTemplate LoadState.node at *
    rwa [same]
  · unfold registerName
    rw [start_get_bind, naming?_of_value both.silent]
    rfl

end Naming

/-! ## Filling dictionaries -/

theorem filter_map_moved (x : NodeId) (list : List NodeId) :
    (list.map (moved x)).filter (· ≠ x) = list.map (moved x) := by
  refine List.filter_eq_self.2 fun c mem => ?_
  obtain ⟨i, -, rfl⟩ := List.mem_map.1 mem
  simpa using NodeTree.moved_ne x i

section Filling

variable (both : LoadState.Level env x p a b)

include both

theorem together_fillEntry (dictionary : ObjectId) (i : NodeId) :
    TogetherDone (LoadState.Level env x p) ((fillEntry dictionary i).start a)
      ((fillEntry dictionary (moved x i)).start b) := by
  have loose := (making_level env x p).toLoose
  have element : (b.node (moved x i)).isElement = (a.node i).isElement := both.tree.isElement i
  unfold fillEntry
  rw [start_get_bind, start_get_bind]
  dsimp only
  rw [element, both.value, both.directiveText?]
  split
  · exact together_done both
  · cases a.context.value? i with
    | none => exact together_done both
    | some value =>
      dsimp only
      cases (a.node i).directiveText? "Key" with
      | some key => exact together_modifyHeap loose both fun _ _ akin => akin.putEntry dictionary key value
      | none => exact together_recover loose both rfl

theorem start_fillEntry_spliced (dictionary : ObjectId) :
    (fillEntry dictionary x).start b = (.ok (), b) := by
  unfold fillEntry
  rw [start_get_bind, both.silent]
  dsimp only
  split <;> rfl

theorem together_fillDictionary (dictionary : ObjectId) {list list' : List NodeId}
    (lists : list'.filter (· ≠ x) = list.map (moved x)) :
    TogetherDone (LoadState.Level env x p) ((fillDictionary dictionary list).start a)
      ((fillDictionary dictionary list').start b) :=
  together_forM lists (S := fun _ => True) (fun _ _ _ _ => trivial)
    (fun i _ _ _ both _ => together_fillEntry both dictionary i)
    (fun _ _ _ both _ => start_fillEntry_spliced both dictionary) both trivial

theorem together_dictionaryFor (owner : ObjectId) (property : String) (position position' : Position) :
    Together (LoadState.Level env x p) Eq ((dictionaryFor env owner property position).start a)
      ((dictionaryFor env owner property position').start b) := by
  have loose := (making_level env x p).toLoose
  unfold dictionaryFor
  rw [start_get_bind, start_get_bind]
  dsimp only
  rw [both.heap.get?, both.heap.isOfKind]
  cases ((a.heap.get? owner property).filter (a.heap.isOfKind .dictionary)).bind Value.object? with
  | some id => exact .ok rfl both
  | none =>
    dsimp only
    cases env.registry.get? resourceDictionaryName with
    | none =>
      exact Together.bind (together_recover loose both rfl) fun _ _ _ _ _ both _ => .ok rfl both
    | some d =>
      refine Together.bind (together_alloc loose both rfl) ?_
      rintro n _ a b - both rfl
      refine Together.bind (together_modifyHeap loose both fun _ _ akin => akin.set owner property _) ?_
      exact fun _ _ _ _ _ both _ => .ok rfl both

/-- Where the children of what is spliced in are not those of the node, elements are the same. -/
theorem level_elements (other : (a.node i).isObject = false) :
    b.tree.elements (moved x i) = (a.tree.elements i).map (moved x) :=
  both.tree.elements (both.leaf_of_not_object other)

theorem level_onlyDictionary? (other : (a.node i).isObject = false) :
    b.onlyDictionary? (moved x i) = a.onlyDictionary? i := by
  unfold LoadState.onlyDictionary?
  rw [level_elements both other]
  cases a.tree.elements i with
  | nil => rfl
  | cons c rest =>
    cases rest with
    | nil =>
      show (b.context.object? (moved x c)).filter _ = (a.context.object? c).filter _
      rw [both.object?]
      exact congrArg (Option.filter · _) (funext fun o => by rw [both.heap.kind])
    | cons d others => rfl

theorem together_fillProperty (other : (a.node i).isObject = false) (owner : ObjectId)
    (property : String) :
    TogetherDone (LoadState.Level env x p) ((fillProperty env i owner property).start a)
      ((fillProperty env (moved x i) owner property).start b) := by
  have loose := (making_level env x p).toLoose
  unfold fillProperty
  rw [start_get_bind, start_get_bind, level_onlyDictionary? both other, level_elements both other]
  cases a.onlyDictionary? i with
  | some d => exact together_modifyHeap loose both fun _ _ akin => akin.set owner property _
  | none =>
    refine Together.bind (together_dictionaryFor both owner property _ _) ?_
    rintro dictionary _ a b - both rfl
    cases dictionary with
    | none => exact together_done both
    | some d => exact together_fillDictionary both d (filter_map_moved x _)

/-- A property element is inside the same node on both sides. -/
theorem parent_of_property {name : QName} (is : (a.node i).kind = .property name)
    (reached : a.tree.Reaches (fun _ => false) NodeTree.root i) :
    (b.node (moved x i)).parent = (a.node i).parent.map (moved x) := by
  refine (both.links.parent i).resolve_right fun ⟨through, above, _⟩ => ?_
  have listed := both.tied.linked.listed_of_parent reached above
  rcases both.tree.listed_moved listed with direct | ⟨lists, inside⟩
  · exact NodeTree.moved_ne x p (Option.some.inj ((both.tied'.child _ _ direct).symm.trans through))
  · cases both.tree.spliced lists with
    | text _ leaf | empty _ _ _ leaf =>
      rw [leaf] at inside
      cases inside
    | property _ _ _ _ _ _ content => exact content i listed name is

theorem together_fillPropertyElement {name : QName} (is : (a.node i).kind = .property name)
    (reached : a.tree.Reaches (fun _ => false) NodeTree.root i) :
    TogetherDone (LoadState.Level env x p) ((fillPropertyElement env i name).start a)
      ((fillPropertyElement env (moved x i) name).start b) := by
  have other : (a.node i).isObject = false := by rw [NodeBody.isObject, is]
  unfold fillPropertyElement
  rw [start_get_bind, start_get_bind, parent_of_property both is reached]
  have object : ((a.node i).parent.map (moved x)).bind b.context.object? =
      (a.node i).parent.bind a.context.object? := by
    rw [Option.bind_map]
    exact congrArg (Option.bind _) (funext both.object?)
  rw [object]
  cases (a.node i).parent.bind a.context.object? with
  | none => exact together_done both
  | some owner =>
    dsimp only
    rw [both.heap.descriptor]
    split
    · split
      · exact together_fillProperty both other owner _
      · exact together_done both
    · exact together_done both

/-- Both sides fill what a node stands for. In a dictionary, what is spliced in holds no entries. -/
theorem together_fillNode (reached : a.tree.Reaches (fun _ => false) NodeTree.root i)
    (leaf : ∀ o, a.context.object? i = some o → a.heap.kind o = .dictionary →
      x ∈ (b.tree.node (moved x i)).children → (b.tree.node x).children = []) :
    TogetherDone (LoadState.Level env x p) ((fillNode env i).start a)
      ((fillNode env (moved x i)).start b) := by
  unfold fillNode
  rw [start_get_bind, start_get_bind]
  obtain ⟨content, content', is, is'⟩ | same :
      (∃ content content', (a.node i).kind = .text content ∧
        (b.node (moved x i)).kind = .text content') ∨
      (b.node (moved x i)).kind = (a.node i).kind := both.tree.kind_cases i
  · rw [is, is']
    exact together_done both
  rw [same]
  cases kind : (a.node i).kind
  case text content => exact together_done both
  case property name => exact together_fillPropertyElement both kind reached
  -- The outermost element and the others.
  all_goals
    rw [both.object?]
    dsimp only
    cases object : a.context.object? i with
    | none => exact together_done both
    | some o =>
      dsimp only
      rw [both.heap.kind]
      split
      case isTrue is =>
        exact together_fillDictionary both o (both.tree.children_filter (leaf o object is))
      case isFalse => exact together_done both

end Filling

/-- What is spliced in counts for nothing where dictionaries are filled: it is none of the entries of
a dictionary and stands for no dictionary property. -/
structure Filled (env : Environment) (x p : NodeId) (a b : LoadState) : Prop where
  leaf : ∀ o, a.context.object? p = some o → a.heap.kind o = .dictionary →
    x ∈ (b.tree.node (moved x p)).children → (b.tree.node x).children = []
  quiet : x ∈ (b.tree.node (moved x p)).children → ∀ name, (b.node x).kind = .property name →
    (fillPropertyElement env x name).start b = (.ok (), b)

section Text

variable {origin origin' : LoadState} (both : LoadState.LevelFrom env x p origin origin' a b)
  {text : String} (is : (origin'.node x).kind = .text text)

include both is

theorem leaf_of_text (listed : x ∈ (b.tree.node (moved x p)).children) :
    (b.tree.node x).children = [] := by
  have is : (b.tree.node x).kind = .text text := by
    rw [both.settled'.tree]
    exact is
  cases both.tree.spliced listed with
  | text _ leaf | empty _ _ _ leaf => exact leaf
  | property kind => cases is.symm.trans kind

/-- A text is no entry of a dictionary and stands for no dictionary. -/
theorem filled_of_text : Filled env x p a b where
  leaf _ _ _ listed := leaf_of_text both is listed
  quiet _ name kind := by
    rw [LoadState.node, both.settled'.tree] at kind
    cases is.symm.trans kind

end Text

/-- **Dictionaries are filled together**, if what is spliced in counts for nothing there. -/
theorem together_fillResources {origin origin' : LoadState}
    (both : LoadState.LevelFrom env x p origin origin' a b)
    (fills : ∀ s t, LoadState.LevelFrom env x p origin origin' s t → Filled env x p s t) :
    TogetherDone (LoadState.LevelFrom env x p origin origin') ((fillResources env).start a)
      ((fillResources env).start b) := by
  have settles := settles_fillNode env Heap.filling_retains
  have reached : ∀ i ∈ a.loaded env, origin.tree.Reaches (fun _ => false) NodeTree.root i :=
    fun i mem => both.settled.tree ▸ ((NodeTree.mem_preorder both.proper).1 mem).all
  unfold fillResources
  rw [start_get_bind, start_get_bind]
  refine together_forM both.loaded (S := fun _ => True) (fun _ _ _ _ => trivial)
    (fun i mem s t both _ => ?_) (fun mem s t both' _ => ?_) both trivial
  · refine both.step (settles _ s) (settles _ t) ?_
    refine together_fillNode both.toLevel (both.settled.tree.symm ▸ reached i mem) ?_
    intro o object is listed
    obtain ⟨rfl, listed⟩ := both.tree.listed_iff.1 listed
    exact (fills s t both).leaf o object is listed
  · have none := both'.object?_spliced
    have listed : x ∈ (t.tree.node (moved x p)).children := by
      rw [both'.settled'.tree, ← both.settled'.tree]
      exact both.tree.listed_of_reaches both.proper' ((NodeTree.mem_preorder both.proper').1 mem)
    unfold fillNode
    rw [start_get_bind]
    cases kind : (t.node x).kind with
    | text content => rfl
    | property name => exact (fills s t both').quiet listed name kind
    | root | element =>
      dsimp only
      rw [none]
      rfl

/-! ## Assigning -/

section Assigning

variable (both : LoadState.Level env x p a b)

include both

/-- Expressions get the same answers on both sides. -/
theorem services_akin (loaded : a.tree.Reaches (a.isTemplate env) NodeTree.root i) :
    (a.site env i).services.Akin (b.site env (moved x i)).services where
  heap := both.heap
  registry := rfl
  resource? := by
    funext key
    have objects : (b.tree.selfAndAncestors (moved x i)).filterMap b.context.object? =
        (a.tree.selfAndAncestors i).filterMap a.context.object? := by
      unfold NodeTree.selfAndAncestors
      rw [List.filterMap_cons, List.filterMap_cons, both.object?,
        ← NodeTree.filterMap_filter_ne both.object?_spliced, both.links.ancestors,
        List.filterMap_map]
      have same : b.context.object? ∘ moved x = a.context.object? := funext both.object?
      rw [same]
    show ((b.tree.selfAndAncestors (moved x i)).filterMap b.context.object? ++
        b.context.outerScope).findSome? (fun object => b.heap.resource? object key) = _
    rw [objects, both.outerScope, both.heap.resource?]
    rfl
  named? := by
    funext name
    have scope := both.inFirst'.named? ((both.reaches_iff i).2 loaded) name
    rw [both.names] at scope
    exact scope.trans (both.inFirst.named? loaded name).symm
  typeName? := by
    funext written
    show ((b.tree.lookUpNamespace (moved x i) _).map _) = ((a.tree.lookUpNamespace i _).map _)
    rw [both.tree.lookUpNamespace (both.links.ancestors i)]

/-- A name stands for the same target on both sides. -/
theorem target_of_level (i : NodeId) : (b.site env (moved x i)).target = (a.site env i).target :=
  Site.target_congr rfl (both.tree.lookUpNamespace (both.links.ancestors i)) (both.tree.typeName i)

/-- An attribute is applied alike on both sides. -/
theorem kindred_applyAttribute (blind : env.extensions.Blind)
    (loaded : a.tree.Reaches (a.isTemplate env) NodeTree.root i) (object : ObjectId)
    {c d : Attribute} (same : d.unplaced = c.unplaced) :
    Kindred Heap.Akin ((a.site env i).applyAttribute env.extensions object c)
      ((b.site env (moved x i)).applyAttribute env.extensions object d) := by
  obtain ⟨name, value, position⟩ := c
  obtain ⟨name', value', position'⟩ := d
  obtain ⟨rfl, rfl⟩ : name' = name ∧ value' = value := ⟨congrArg (·.name) same, congrArg (·.value) same⟩
  have given : Kindred Eq ((a.site env i).attributeValue env.extensions ⟨name', value', position⟩)
      ((b.site env (moved x i)).attributeValue env.extensions ⟨name', value', position'⟩) := by
    unfold Site.attributeValue
    cases value' with
    | raw text => exact .ok rfl
    | literal text => exact .ok rfl
    | expression e =>
      dsimp only
      rw [Extensions.evaluate_of_blind blind (services_akin both loaded)]
      exact (Alike.same _).kindred fun _ => rfl
  unfold Site.applyAttribute
  dsimp only
  split
  · exact .ok both.heap
  · refine given.bind ?_
    rintro v _ rfl
    have assigned : Alike Heap.Akin
        ((a.site env i).target (a.heap.descriptor object) name' >>= fun target =>
          a.heap.assign object target v)
        ((b.site env (moved x i)).target (b.heap.descriptor object) name' >>= fun target =>
          b.heap.assign object target v) := by
      rw [target_of_level both, both.heap.descriptor]
      refine (Alike.same _).bind ?_
      rintro target _ rfl
      exact both.heap.assign object target v
    exact assigned.kindred fun _ => rfl

theorem alike_assignContent (i : NodeId) (object : ObjectId) (value : Value) :
    Alike Heap.Akin ((a.site env i).assignContent object value)
      ((b.site env (moved x i)).assignContent object value) := by
  show Alike Heap.Akin ((a.heap.descriptor object).contentTarget >>= fun target =>
      a.heap.assign object target value)
    ((b.heap.descriptor object).contentTarget >>= fun target => b.heap.assign object target value)
  rw [both.heap.descriptor]
  refine (Alike.same _).bind ?_
  rintro target _ rfl
  exact both.heap.assign object target value

theorem alike_applyObject (i : NodeId) (object : ObjectId) (child : NodeId) :
    Alike Heap.Akin ((a.site env i).applyObject object child)
      ((b.site env (moved x i)).applyObject object (moved x child)) := by
  unfold Site.applyObject
  have value : (b.site env (moved x i)).context.value? (moved x child) =
      (a.site env i).context.value? child := both.value child
  rw [value]
  cases (a.site env i).context.value? child with
  | none => exact .ok both.heap
  | some v =>
    dsimp only
    have kind : (b.site env (moved x i)).heap.kind object = (a.site env i).heap.kind object :=
      both.heap.kind object
    rw [kind]
    split
    · exact .ok (both.heap.addItem object v)
    · exact alike_assignContent both i object v

/-- The values inside a property element that nothing has been spliced into. -/
theorem elementValues_of_level (site site' : NodeId) {c : NodeId}
    (other : x ∈ (b.tree.node (moved x p)).children → c ≠ p) :
    (b.site env site').elementValues (moved x c) = (a.site env site).elementValues c := by
  have unlisted : x ∉ (b.tree.node (moved x c)).children := fun listed => by
    obtain ⟨rfl, listed⟩ := both.tree.listed_iff.1 listed
    exact other listed rfl
  unfold Site.elementValues
  show (b.tree.node (moved x c)).children.filterMap _ = (a.tree.node c).children.filterMap _
  rw [both.tree.children_of_not_listed unlisted, List.filterMap_map]
  refine List.filterMap_congr fun n listed => ?_
  have kind : ((b.site env site').tree.node (moved x n)).kind =
      ((a.site env site).tree.node n).kind := by
    refine (both.tree.kind n).resolve_right fun ⟨mem, inside, _⟩ => ?_
    exact other mem (both.proper.once _ _ _ listed inside)
  have value : (b.site env site').context.value? (moved x n) = (a.site env site).context.value? n :=
    both.value n
  rw [Function.comp_apply, kind, value]

/-- A child is applied alike on both sides, unless something has been spliced into it or beside it. -/
theorem kindred_applyChild (i : NodeId) (object : ObjectId) {c : NodeId}
    (kind : (b.tree.node (moved x c)).kind = (a.tree.node c).kind)
    (other : ∀ name, (a.tree.node c).kind = .property name →
      x ∈ (b.tree.node (moved x p)).children → c ≠ p) :
    Kindred Heap.Akin ((a.site env i).applyChild object c)
      ((b.site env (moved x i)).applyChild object (moved x c)) := by
  have kind' : ((b.site env (moved x i)).tree.node (moved x c)).kind =
      ((a.site env i).tree.node c).kind := kind
  unfold Site.applyChild
  dsimp only
  rw [kind']
  cases is : ((a.site env i).tree.node c).kind with
  | text content => exact (alike_assignContent both i object _).kindred fun _ => rfl
  | property name =>
    dsimp only
    split
    · exact .ok both.heap
    · have values := elementValues_of_level both i (moved x i) (other name is)
      have applied : Alike Heap.Akin ((a.site env i).applyElement object c name)
          ((b.site env (moved x i)).applyElement object (moved x c) name) := by
        show Alike Heap.Akin
          ((a.site env i).target (a.heap.descriptor object) name >>= fun target =>
            a.heap.assignAll object target ((a.site env i).elementValues c))
          ((b.site env (moved x i)).target (b.heap.descriptor object) name >>= fun target =>
            b.heap.assignAll object target ((b.site env (moved x i)).elementValues (moved x c)))
        rw [values, target_of_level both, both.heap.descriptor]
        refine (Alike.same _).bind ?_
        rintro target _ rfl
        exact both.heap.assignAll object target _
      exact applied.kindred fun _ => rfl
  | root => exact (alike_applyObject both i object c).kindred fun _ => rfl
  | element => exact (alike_applyObject both i object c).kindred fun _ => rfl

theorem together_captureScope (i : NodeId) (object : ObjectId) :
    TogetherDone (LoadState.Level env x p)
      ((captureScope object (a.site env i).outerScope).start a)
      ((captureScope object (b.site env (moved x i)).outerScope).start b) := by
  have around : (b.site env (moved x i)).outerScope = (a.site env i).outerScope := by
    show (b.tree.ancestors (moved x i)).filterMap b.context.object? ++ b.context.outerScope =
      (a.tree.ancestors i).filterMap a.context.object? ++ a.context.outerScope
    rw [← NodeTree.filterMap_filter_ne both.object?_spliced, both.links.ancestors,
      List.filterMap_map, both.outerScope]
    have same : b.context.object? ∘ moved x = a.context.object? := funext both.object?
    rw [same]
  rw [around]
  generalize (a.site env i).outerScope = scope
  let capture (o : Object) : Object :=
    { o with template := o.template.map fun t => { t with outerScope := scope } }
  have commutes : ∀ o, (capture o).unplaced = capture o.unplaced := fun o => by
    simp only [capture, Object.unplaced, Option.map_map]
    rfl
  exact together_modifyHeap (making_level env x p).toLoose both fun _ _ akin =>
    akin.modify object commutes

theorem together_applyAttributes (blind : env.extensions.Blind)
    (loaded : a.tree.Reaches (a.isTemplate env) NodeTree.root i) (object : ObjectId) :
    TogetherDone (LoadState.Level env x p) ((applyAttributes env i object).start a)
      ((applyAttributes env (moved x i) object).start b) := by
  have chains := Heap.assigning_retains.toChains
  have attributes : (b.node (moved x i)).attributes.map (·.unplaced) =
      (a.node i).attributes.map (·.unplaced) := NodeBody.attributes_of_bare (both.tree.body i)
  have lists : List.Forall₂ (fun c d => d.unplaced = c.unplaced) (a.node i).attributes
      (b.node (moved x i)).attributes := by
    have flipped : List.Forall₂ Eq ((a.node i).attributes.map (·.unplaced))
        ((b.node (moved x i)).attributes.map (·.unplaced)) := by
      rw [attributes]
      exact List.forall₂_same.2 fun _ _ => rfl
    exact (List.forall₂_map_left_iff.1 (List.forall₂_map_right_iff.1 flipped)).imp
      fun _ _ => Eq.symm
  unfold applyAttributes
  rw [start_get_bind, start_get_bind]
  refine together_forM₂ lists (S := fun s => a.Settled Heap.Retains s) (fun c s settled => ?_)
    (fun c d s t same both settled => ?_) both (.refl chains a)
  · refine settled.trans chains ?_
    exact settles_changeHeap chains fun _ => (Heap.assigning_retains.toWriting.to object).attribute
  · refine together_changeHeap (making_level env x p).toLoose both
      (kindred_applyAttribute both blind ?_ object same)
    unfold LoadState.isTemplate LoadState.node at *
    rwa [settled.tree]

omit both in
/-- A failure of the second load alone counts for nothing, if it is passed over. -/
theorem passes_of_error {origin origin' : LoadState}
    (both : LoadState.LevelFrom env x p origin origin' a b)
    (tolerant : origin'.context.tolerant = true) {change : Except LoadError Heap}
    {error : LoadError} (passes : error.isFatal = false) (failed : change = .error error) :
    ∃ b', (changeHeap change).start b = (.ok (), b') ∧
      LoadState.LevelFrom env x p origin origin' a b' := by
  refine ⟨b.withRecord (b.context.diagnostics ++ [error]), ?_, ?_, both.settled, ?_⟩
  · rw [failed]
    exact start_recover_tolerant (both.settled'.tolerant.trans tolerant) passes
  · exact (making_level env x p).record both.toLevel a.context.diagnostics _
  · exact { both.settled' with }

/-- **The children of a node are applied alike**, if each of them is, and if what has been spliced in
there counts for nothing. -/
theorem together_applyChildren_of (object : ObjectId)
    (lists : (b.node (moved x i)).children.filter (· ≠ x) = (a.node i).children.map (moved x))
    (alike : ∀ c ∈ (a.node i).children, ∀ s t, LoadState.LevelFrom env x p a b s t →
      Kindred Heap.Akin ((s.site env i).applyChild object c)
        ((t.site env (moved x i)).applyChild object (moved x c)))
    (passing : x ∈ (b.node (moved x i)).children → ∀ s t, LoadState.LevelFrom env x p a b s t →
      ∃ t', (changeHeap ((t.site env (moved x i)).applyChild object x)).start t = (.ok (), t') ∧
        LoadState.LevelFrom env x p a b s t') :
    TogetherDone (LoadState.Level env x p) ((applyChildren env i object).start a)
      ((applyChildren env (moved x i) object).start b) := by
  have loose := (making_level env x p).toLoose
  have settles : ∀ i c s, SettlesAt Heap.Retains s (do
      let s ← get
      changeHeap ((s.site env i).applyChild object c) : Load Unit) := fun i c s =>
    settles_changeHeap Heap.assigning_retains.toChains fun _ =>
      (Heap.assigning_retains.toWriting.to object).child
  have content : TogetherDone (LoadState.LevelFrom env x p a b)
      (((a.node i).children.forM fun child => do
        let s ← get
        changeHeap ((s.site env i).applyChild object child) : Load Unit).start a)
      (((b.node (moved x i)).children.forM fun child => do
        let s ← get
        changeHeap ((s.site env (moved x i)).applyChild object child) : Load Unit).start b) := by
    refine together_forM_passing lists (S := fun _ => True) (fun _ _ _ _ => trivial)
      (fun c mem s t both _ => ?_) (fun mem s t both _ => passing mem s t both)
      ⟨both, .refl Heap.filling_retains.toChains a, .refl Heap.filling_retains.toChains b⟩ trivial
    exact both.step (settles i c s) (settles (moved x i) (moved x c) t)
      (together_changeHeap loose both.toLevel (alike c mem s t both))
  have content : TogetherDone (LoadState.Level env x p) _ _ :=
    Together.mono content fun _ _ both => both.toLevel
  unfold applyChildren
  rw [start_get_bind, start_get_bind, both.heap.kind]
  cases a.heap.kind object with
  | dictionary => exact together_done both
  | template => exact together_done both
  | plain => exact content
  | collection => exact content

/-- The children of a node are applied alike, if nothing has been spliced in there or into one of
them. -/
theorem together_applyChildren (object : ObjectId)
    (ordinary : x ∈ (b.tree.node (moved x p)).children → i ≠ p ∧
      ∀ c ∈ (a.tree.node i).children, c = p → (a.tree.node c).isObject = true) :
    TogetherDone (LoadState.Level env x p) ((applyChildren env i object).start a)
      ((applyChildren env (moved x i) object).start b) := by
  have unlisted : x ∉ (b.tree.node (moved x i)).children := fun listed => by
    obtain ⟨rfl, listed⟩ := both.tree.listed_iff.1 listed
    exact (ordinary listed).1 rfl
  have children := both.tree.children_of_not_listed unlisted
  refine together_applyChildren_of both object ?_ (fun c mem s t later => ?_)
    fun listed => absurd listed unlisted
  · show (b.tree.node (moved x i)).children.filter (· ≠ x) = _
    rw [children, filter_map_moved]
    rfl
  · refine kindred_applyChild later.toLevel i object ?_ fun name is listed => ?_
    · rw [later.settled.tree, later.settled'.tree]
      exact (both.tree.kind c).resolve_right fun ⟨listed, inside, _⟩ =>
        (ordinary listed).1 (both.proper.once _ _ _ mem inside)
    · rw [later.settled.tree] at is
      rw [later.settled'.tree] at listed
      intro here
      have object := (ordinary listed).2 c mem here
      rw [NodeBody.isObject, is] at object
      cases object

end Assigning

/-- What is done to the children of a node, and to what has been spliced in there or into one of
them. -/
def AppliedAt (env : Environment) (x p i : NodeId) (a b : LoadState) : Prop :=
  x ∈ (b.tree.node (moved x p)).children → ∀ object, a.context.object? i = some object →
    (i = p ∨ p ∈ (a.tree.node i).children ∧ (a.tree.node p).isObject = false) →
    TogetherDone (LoadState.Level env x p) ((applyChildren env i object).start a)
      ((applyChildren env (moved x i) object).start b)

/-- What is done to the children of all nodes. -/
def Applied (env : Environment) (x p : NodeId) (a b : LoadState) : Prop :=
  ∀ i, AppliedAt env x p i a b

theorem together_applyNode {origin origin' : LoadState}
    (both : LoadState.LevelFrom env x p origin origin' a b) (blind : env.extensions.Blind)
    (applied : ∀ s t, LoadState.LevelFrom env x p origin origin' s t → AppliedAt env x p i s t)
    (loaded : a.tree.Reaches (a.isTemplate env) NodeTree.root i) :
    TogetherDone (LoadState.Level env x p) ((applyNode env i).start a)
      ((applyNode env (moved x i)).start b) := by
  have retains := Heap.assigning_retains.toWriting
  -- After its attributes, a node gets its children.
  have content : ∀ object s t, LoadState.LevelFrom env x p origin origin' s t →
      a.Settled Heap.Retains s → a.context.object? i = some object →
      TogetherDone (LoadState.Level env x p)
        ((applyAttributes env i object >>= fun _ => applyChildren env i object).start s)
        ((applyAttributes env (moved x i) object >>= fun _ =>
          applyChildren env (moved x i) object).start t) := by
    intro object s t both since has
    have loaded : s.tree.Reaches (s.isTemplate env) NodeTree.root i := by
      unfold LoadState.isTemplate LoadState.node at *
      rwa [since.tree]
    have attributes := both.step (settles_applyAttributes (retains.to object) env i s)
      (settles_applyAttributes (retains.to object) env (moved x i) t)
      (together_applyAttributes both.toLevel blind loaded object)
    refine Together.bind attributes fun _ _ s' t' ran both _ => ?_
    have later : a.Settled Heap.Retains s' := since.trans Heap.assigning_retains.toChains
      ((settles_applyAttributes (retains.to object) env i).ran ran)
    have has : s'.context.object? i = some object := (congrFun later.object? i).trans has
    by_cases special : x ∈ (t'.tree.node (moved x p)).children ∧
        (i = p ∨ p ∈ (s'.tree.node i).children ∧ (s'.tree.node p).isObject = false)
    · exact applied s' t' both special.1 object has special.2
    · refine together_applyChildren both.toLevel object fun listed => ?_
      refine ⟨fun is => special ⟨listed, .inl is⟩, ?_⟩
      rintro c mem rfl
      cases holds : (s'.tree.node c).isObject with
      | true => rfl
      | false => exact absurd ⟨listed, .inr ⟨mem, holds⟩⟩ special
  unfold applyNode
  rw [start_get_bind, start_get_bind, both.object?]
  cases has : a.context.object? i with
  | none => exact together_done both.toLevel
  | some object =>
    dsimp only
    rw [both.heap.kind]
    split
    · have captures : ∀ s scope, SettlesAt Heap.Retains s (captureScope object scope) :=
        fun s scope => ⟨rfl, rfl, rfl, Heap.assigning_retains.scope _ _ _⟩
      have captured := both.step (captures _ _) (captures _ _) (together_captureScope both.toLevel i object)
      exact Together.bind captured fun _ _ s t ran both _ =>
        content object s t both ((captures a _).ran ran) has
    · exact content object a b both (.refl Heap.assigning_retains.toChains a) has

/-- **Values are assigned together**, if they are where something has been spliced in. -/
theorem together_applyProperties {origin origin' : LoadState}
    (both : LoadState.LevelFrom env x p origin origin' a b) (blind : env.extensions.Blind)
    (applied : ∀ s t, LoadState.LevelFrom env x p origin origin' s t → Applied env x p s t) :
    TogetherDone (LoadState.LevelFrom env x p origin origin') ((applyProperties env).start a)
      ((applyProperties env).start b) := by
  have settles := settles_applyNode env Heap.assigning_retains
  have reached : ∀ i ∈ a.loadedUpwards env,
      origin.tree.Reaches (fun n => env.isTemplate (origin.tree.node n).toNodeBody) NodeTree.root i := by
    intro i mem
    rw [← both.settled.tree]
    exact (NodeTree.mem_postorder both.proper).1 mem
  unfold applyProperties
  rw [start_get_bind, start_get_bind]
  refine together_forM both.loadedUpwards (S := fun _ => True) (fun _ _ _ _ => trivial)
    (fun i mem s t both _ => ?_) (fun _ s t both _ => ?_) both trivial
  · refine both.step (settles i s) (settles _ t)
      (together_applyNode both blind (fun s t since => applied s t since i) ?_)
    unfold LoadState.isTemplate LoadState.node
    rw [both.settled.tree]
    exact reached i mem
  · have none := both.object?_spliced
    unfold applyNode
    rw [start_get_bind]
    dsimp only
    rw [none]
    rfl

/-- **Names are registered and dictionaries filled together.** -/
theorem together_fill (both : LoadState.Level env x p a b)
    (fills : ∀ s t, LoadState.LevelFrom env x p a b s t → Filled env x p s t) :
    TogetherDone (LoadState.LevelFrom env x p a b)
      (([Pass.nameRegistration, .resourceDictionaryFill].forM (completePass env)).start a)
      (([Pass.nameRegistration, .resourceDictionaryFill].forM (completePass env)).start b) := by
  have loose := (making_level env x p).toLoose
  have chains := Heap.filling_retains.toChains
  have from_here : LoadState.LevelFrom env x p a b a b := ⟨both, .refl chains a, .refl chains b⟩
  have completes : ∀ pass {s t}, LoadState.LevelFrom env x p a b s t →
      Settles Heap.Retains (runPass env pass) →
      TogetherDone (LoadState.Level env x p) ((runPass env pass).start s)
        ((runPass env pass).start t) →
      TogetherDone (LoadState.LevelFrom env x p a b) ((completePass env pass).start s)
        ((completePass env pass).start t) := fun pass _ _ both settles together =>
    both.step (settles_completePass chains settles _) (settles_completePass chains settles _)
      (together_completePass loose pass together)
  rw [start_forM_cons, start_forM_cons]
  refine Together.bind (completes .nameRegistration from_here
    (settles_registerNames env Heap.filling_retains)
    (together_registerNames both)) fun _ _ s t _ both _ => ?_
  rw [start_forM_cons, start_forM_cons]
  refine Together.bind (completes .resourceDictionaryFill both
    (settles_fillResources env Heap.filling_retains)
    (Together.mono (together_fillResources both fills) fun _ _ both => both.toLevel))
    fun _ _ s t _ both _ => ?_
  exact together_done both

/-- **The later passes go together**, if they do where something has been spliced in. -/
theorem together_furnish (both : LoadState.Level env x p a b) (blind : env.extensions.Blind)
    (fills : ∀ s t, LoadState.LevelFrom env x p a b s t → Filled env x p s t)
    (applied : ∀ s t, LoadState.LevelFrom env x p a b s t → Applied env x p s t) :
    TogetherDone (LoadState.Level env x p) ((furnish env).start a) ((furnish env).start b) := by
  rw [start_furnish, start_furnish]
  refine Together.bind (together_fill both fills) fun _ _ s t _ both _ => ?_
  rw [start_forM_cons, start_forM_cons]
  refine Together.bind (together_completePass (making_level env x p).toLoose .propertyApplication
    (Together.mono (together_applyProperties both blind applied) fun _ _ both => both.toLevel))
    fun _ _ s t _ both _ => ?_
  exact together_done both

end Load

end MarkupLoader
