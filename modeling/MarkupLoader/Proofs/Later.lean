import MarkupLoader.Load.Passes
import MarkupLoader.Proofs.Failing

/-!
# What the later passes leave alone

After the creation of values a load changes neither its document nor the values of nodes; from then
on it works on the heap (`LoadState.Settled`). What becomes of the heap is said by a relation, and a
pass stays within it if every single change of the heap does:

* the registration of names and the filling of dictionaries, if **putting entries** and giving a
  **property of dictionary type** its dictionary do (`Heap.Filling`);
* the application of properties, if **setting** any property and **adding an item**
  (`Heap.Writing`), and letting a template remember what is around it do (`Heap.Assigning`). A
  single node only writes to its own object and to collections (`Heap.WritingTo`).

Two such relations are needed elsewhere. What objects are and what a template keeps is not changed
by any later pass (`Heap.Retains`), and no dictionary that is filled has a say in the items and the
other properties of an object (`Heap.Fills`).

What an assignment does is said once (`Heap.Assigned`): it sets a property, or adds an item to the
object of collection kind that a property holds.

Main results: `settles_fillResources`, `assigned_of_assign`, `settles_applyProperties`,
`filling_fills`.
-/

namespace MarkupLoader

/-- A later state of a load, with the same document and values; `H` says what has become of the
heap. -/
structure LoadState.Settled (H : Heap → Heap → Prop) (s t : LoadState) : Prop where
  tree : t.tree = s.tree
  tolerant : t.context.tolerant = s.context.tolerant
  values : t.context.values = s.context.values
  heap : H s.heap t.heap

namespace Heap

/-- A relation that any number of changes stays within if each one does. -/
structure Chains (H : Heap → Heap → Prop) : Prop where
  refl : ∀ h, H h h
  trans : ∀ ⦃a b c⦄, H a b → H b c → H a c

/-- A relation that the filling of dictionaries stays within. -/
structure Filling (H : Heap → Heap → Prop) : Prop extends Chains H where
  entry : ∀ h id key value, H h (h.putEntry id key value)
  property : ∀ h id name p value, (h.descriptor id).property? name = some p →
    p.type = .dictionary → H h (h.set id name value)
  /-- A property that has no dictionary yet gets a new one. -/
  made : ∀ h id name p d, (h.descriptor id).property? name = some p → p.type = .dictionary →
    H h ((h.alloc (.ofType d)).2.set id name (.object h.size))

/-- A relation that assignments to one object stay within: its properties are set, and it gets
items, as any object of collection kind may. -/
structure WritingTo (H : Heap → Heap → Prop) (id : ObjectId) : Prop extends Chains H where
  set : ∀ h property value, H h (h.set id property value)
  item : ∀ h other value, other = id ∨ h.kind other = .collection → H h (h.addItem other value)

/-- A relation that assignments stay within. -/
structure Writing (H : Heap → Heap → Prop) : Prop extends Chains H where
  set : ∀ h id property value, H h (h.set id property value)
  item : ∀ h id value, H h (h.addItem id value)

theorem Writing.to {H : Heap → Heap → Prop} (writing : Writing H) (id : ObjectId) :
    WritingTo H id :=
  { writing with
    set := fun h => writing.set h id
    item := fun h other value _ => writing.item h other value }

/-- A relation that the application of properties stays within. -/
structure Assigning (H : Heap → Heap → Prop) : Prop extends Writing H where
  scope : ∀ h id (around : List ObjectId), H h (h.modify id fun o =>
    { o with template := o.template.map fun t => { t with outerScope := around } })

end Heap

theorem LoadState.Settled.trans {H : Heap → Heap → Prop} {s t u : LoadState}
    (chains : Heap.Chains H) (first : s.Settled H t) (second : t.Settled H u) : s.Settled H u where
  tree := second.tree.trans first.tree
  tolerant := second.tolerant.trans first.tolerant
  values := second.values.trans first.values
  heap := chains.trans first.heap second.heap

theorem LoadState.Settled.refl {H : Heap → Heap → Prop} (chains : Heap.Chains H) (s : LoadState) :
    s.Settled H s := ⟨rfl, rfl, rfl, chains.refl _⟩

theorem LoadState.Settled.object? {H : Heap → Heap → Prop} {s t : LoadState}
    (settled : s.Settled H t) : t.context.object? = s.context.object? := by
  funext id
  unfold Context.object? Context.value?
  rw [settled.values]

namespace Load

variable {H : Heap → Heap → Prop} {α β : Type} {s : LoadState}

/-- A step from a state only works on the heap, also if it fails. -/
def SettlesAt (H : Heap → Heap → Prop) (s : LoadState) (step : Load α) : Prop :=
  s.Settled H (step.start s).2

/-- A step only works on the heap. -/
def Settles (H : Heap → Heap → Prop) (step : Load α) : Prop := ∀ s, SettlesAt H s step

/-! ## Rules -/

theorem SettlesAt.ran {t : LoadState} {step : Load α} {ended : Except LoadError α}
    (settles : SettlesAt H s step) (ran : step.start s = (ended, t)) : s.Settled H t := by
  unfold SettlesAt at settles
  rwa [ran] at settles

theorem Settles.ran {t : LoadState} {step : Load α} (settles : Settles H step)
    {ended : Except LoadError α} (ran : step.start s = (ended, t)) : s.Settled H t :=
  (settles s).ran ran

theorem SettlesAt.change {t : LoadState} {step : Load α} {ended : Except LoadError α}
    (ran : step.start s = (ended, t)) (settled : s.Settled H t) : SettlesAt H s step := by
  unfold SettlesAt
  rwa [ran]

theorem SettlesAt.bind (chains : Heap.Chains H) {step : Load α}
    {next : α → Load β} (first : SettlesAt H s step) (second : ∀ a, Settles H (next a)) :
    SettlesAt H s (step >>= next) := by
  unfold SettlesAt at *
  rw [start_bind]
  rcases ran : step.start s with ⟨error | a, t⟩ <;> rw [ran] at first
  · exact first
  · exact first.trans chains (second a t)

/-- A loop from a state only works on the heap if its steps do, wherever they start on the way. -/
theorem settlesAt_forM (chains : Heap.Chains H) {step : α → Load Unit}
    (each : ∀ a t, s.Settled H t → SettlesAt H t (step a)) (list : List α) :
    SettlesAt H s (list.forM step) := by
  have from_there : ∀ t, s.Settled H t → s.Settled H ((list.forM step).start t).2 := by
    induction list with
    | nil => exact fun _ settled => settled
    | cons a rest ih =>
      intro t settled
      have here := settled.trans chains (each a t settled)
      rw [start_forM_cons, start_bind]
      rcases ran : (step a).start t with ⟨error | _, u⟩ <;> rw [ran] at here
      · exact here
      · exact ih u here
  exact from_there s (.refl chains s)

/-- A loop only works on the heap if its steps do. -/
theorem settles_forM (chains : Heap.Chains H) {step : α → Load Unit}
    (each : ∀ a, Settles H (step a)) (list : List α) : Settles H (list.forM step) :=
  fun _ => settlesAt_forM chains (fun a t _ => each a t) list

theorem settles_recover (chains : Heap.Chains H) (error : LoadError) :
    Settles H (recover error) := by
  intro s
  have ran := start_recover error s
  by_cases recovers : s.context.tolerant && !error.isFatal
  · rw [Context.recover, if_pos recovers] at ran
    exact .change ran ⟨rfl, rfl, rfl, chains.refl _⟩
  · rw [Context.recover, if_neg recovers] at ran
    exact .change ran (.refl chains s)

theorem settles_changeHeap (chains : Heap.Chains H) {outcome : Except LoadError Heap}
    (within : ∀ heap, outcome = .ok heap → H s.heap heap) :
    SettlesAt H s (changeHeap outcome) := by
  cases outcome with
  | ok heap => exact .change rfl ⟨rfl, rfl, rfl, within heap rfl⟩
  | error error => exact settles_recover chains error s

/-- A pass that only works on the heap does no more when it is noted. -/
theorem SettlesAt.completePass {env : Environment} (chains : Heap.Chains H) {pass : Pass}
    (settles : SettlesAt H s (runPass env pass)) : SettlesAt H s (completePass env pass) :=
  settles.bind chains fun _ _ => ⟨rfl, rfl, rfl, chains.refl _⟩

theorem settles_completePass {env : Environment} (chains : Heap.Chains H) {pass : Pass}
    (settles : Settles H (runPass env pass)) : Settles H (completePass env pass) :=
  fun s => (settles s).completePass chains

/-! ## Names and dictionaries -/

section Filling

theorem settles_registerName (chains : Heap.Chains H) (id : NodeId) :
    Settles H (registerName id) := by
  intro s
  unfold SettlesAt registerName
  rw [start_get_bind]
  cases s.naming? id with
  | none => exact .refl chains _
  | some n =>
    dsimp only
    cases registered : s.context.register n.scope n.name n.value with
    | some context =>
      obtain rfl := Context.eq_of_register registered
      exact ⟨rfl, rfl, rfl, chains.refl _⟩
    | none => exact settles_recover chains _ s

theorem settles_registerNames (env : Environment) (filling : Heap.Filling H) :
    Settles H (registerNames env) :=
  fun s => settles_forM filling.toChains (settles_registerName filling.toChains) (s.loaded env) s

theorem settles_fillDictionary (filling : Heap.Filling H) (dictionary : ObjectId)
    (nodes : List NodeId) : Settles H (fillDictionary dictionary nodes) := by
  refine settles_forM filling.toChains (fun id s => ?_) nodes
  unfold SettlesAt fillEntry
  rw [start_get_bind]
  dsimp only
  split
  · exact .refl filling.toChains _
  · split
    · exact .refl filling.toChains _
    · split
      · exact ⟨rfl, rfl, rfl, filling.entry _ _ _ _⟩
      · exact settles_recover filling.toChains _ s

/-- The dictionary of a property is there, or is made for it. -/
theorem settles_dictionaryFor (env : Environment) (filling : Heap.Filling H) {owner : ObjectId}
    {name : String} {p : Property} (declared : (s.heap.descriptor owner).property? name = some p)
    (type : p.type = .dictionary) (position : Position) :
    SettlesAt H s (dictionaryFor env owner name position) := by
  unfold SettlesAt dictionaryFor
  rw [start_get_bind]
  dsimp only
  split
  · exact .refl filling.toChains _
  · split
    · exact ⟨rfl, rfl, rfl, filling.made _ _ _ p _ declared type⟩
    · exact SettlesAt.bind filling.toChains (settles_recover filling.toChains _ s)
        fun _ _ => .refl filling.toChains _

theorem settles_fillProperty (env : Environment) (filling : Heap.Filling H) (id : NodeId)
    {owner : ObjectId} {name : String} {p : Property}
    (declared : (s.heap.descriptor owner).property? name = some p) (type : p.type = .dictionary) :
    SettlesAt H s (fillProperty env id owner name) := by
  unfold SettlesAt fillProperty
  rw [start_get_bind]
  split
  · exact ⟨rfl, rfl, rfl, filling.property _ _ _ p _ declared type⟩
  · refine (settles_dictionaryFor env filling declared type _).bind filling.toChains fun found => ?_
    cases found with
    | some dictionary => exact settles_fillDictionary filling dictionary _
    | none => exact fun _ => .refl filling.toChains _

theorem settles_fillNode (env : Environment) (filling : Heap.Filling H) (id : NodeId) :
    Settles H (fillNode env id) := by
  intro s
  unfold SettlesAt fillNode
  rw [start_get_bind]
  -- Texts fill nothing; what property elements and elements fill is a dictionary.
  split
  · exact .refl filling.toChains _
  · unfold fillPropertyElement
    rw [start_get_bind]
    split
    · exact .refl filling.toChains _
    · dsimp only
      split
      case h_1 p declared =>
        split
        · exact settles_fillProperty env filling id declared ‹_›
        · exact .refl filling.toChains _
      case h_2 => exact .refl filling.toChains _
  · split
    · split
      · exact settles_fillDictionary filling _ _ s
      · exact .refl filling.toChains _
    · exact .refl filling.toChains _

/-- Filling dictionaries only works on the heap. -/
theorem settles_fillResources (env : Environment) (filling : Heap.Filling H) :
    Settles H (fillResources env) :=
  fun s => settles_forM filling.toChains (settles_fillNode env filling) (s.loaded env) s

end Filling

end Load

/-! ## Assignments -/

namespace Heap

/-- Whether a value is a whole collection, which replaces what a property of collection type
holds. -/
def isWhole (h : Heap) : Value → Bool
  | .list _ => true
  | value => h.isOfKind .collection value

theorem isWhole_of_ne_list {h : Heap} {value : Value} (other : ∀ items, value ≠ .list items) :
    h.isWhole value = h.isOfKind .collection value := by
  cases value with
  | list items => exact absurd rfl (other items)
  | _ => rfl

/-- What assigning a value does. -/
inductive Assigned (h : Heap) (id : ObjectId) (target : Target) (value : Value) : Heap → Prop
  | whole (type : target.type = .collection) (whole : h.isWhole value = true) :
      Assigned h id target value (h.set id target.key value)
  | first (type : target.type = .collection) (single : h.isWhole value = false)
      (free : h.get? id target.key = none ∨ h.get? id target.key = some .null) :
      Assigned h id target value (h.set id target.key (.list [value]))
  | next {items : List Value} (type : target.type = .collection) (single : h.isWhole value = false)
      (held : h.get? id target.key = some (.list items)) :
      Assigned h id target value (h.set id target.key (.list (items ++ [value])))
  | added {n : ObjectId} (type : target.type = .collection) (single : h.isWhole value = false)
      (held : h.get? id target.key = some (.object n)) (kind : h.kind n = .collection) :
      Assigned h id target value (h.addItem n value)
  | coerced {stored : Value} (type : target.type ≠ .collection) :
      Assigned h id target value (h.set id target.key stored)

variable {h after : Heap} {id : ObjectId}

theorem assigned_of_append {target : Target} {value : Value} (type : target.type = .collection)
    (single : h.isWhole value = false) (appended : h.append id target.key value = .ok after) :
    h.Assigned id target value after := by
  unfold append at appended
  split at appended
  case h_1 none =>
    cases appended
    exact .first type single (.inl none)
  case h_2 null =>
    cases appended
    exact .first type single (.inr null)
  case h_3 items held =>
    cases appended
    exact .next type single held
  case h_4 held _ is =>
    split at appended
    · split at appended
      case isTrue kind =>
        cases appended
        exact .added type single is kind
      case isFalse => cases appended
    · cases appended

theorem assigned_of_assign {target : Target} {value : Value}
    (assigned : h.assign id target value = .ok after) : h.Assigned id target value after := by
  unfold assign at assigned
  split at assigned
  case isTrue type =>
    split at assigned
    · cases assigned
      exact .whole type rfl
    case h_2 other =>
      have whole : h.isWhole value = h.isOfKind .collection value := isWhole_of_ne_list other
      split at assigned
      case isTrue is =>
        cases assigned
        exact .whole type (whole.trans is)
      case isFalse isNot =>
        exact assigned_of_append type (whole.trans (Bool.eq_false_iff.2 isNot))
          (ok_of_mapError assigned)
  case isFalse type =>
    split at assigned
    · cases assigned
      exact .coerced type
    · cases assigned

end Heap

section Assigning

variable {H : Heap → Heap → Prop} {h after : Heap} {s : Site} {object : ObjectId}

/-- Assigning a value sets a property or adds an item. -/
theorem Heap.WritingTo.assign {id : ObjectId} (writing : Heap.WritingTo H id) {target : Target}
    {value : Value} (assigned : h.assign id target value = .ok after) : H h after := by
  cases Heap.assigned_of_assign assigned with
  | added _ _ _ kind => exact writing.item _ _ _ (.inr kind)
  | _ => exact writing.set _ _ _

theorem Heap.WritingTo.assignAll {id : ObjectId} (writing : Heap.WritingTo H id) {target : Target}
    {values : List Value} (assigned : h.assignAll id target values = .ok after) : H h after := by
  unfold Heap.assignAll at assigned
  split at assigned
  · cases assigned
    exact writing.refl _
  · split at assigned
    · exact foldlM_keeps assigned (writing.refl h) fun _ _ _ _ so_far step =>
        writing.trans so_far (writing.assign step)
    · split at assigned
      · cases assigned
        exact writing.refl _
      · exact writing.assign assigned
      · cases assigned

variable (writing : Heap.WritingTo H object)

include writing

theorem Heap.WritingTo.attribute {extensions : Extensions} {a : Attribute}
    (applied : s.applyAttribute extensions object a = .ok after) : H s.heap after := by
  unfold Site.applyAttribute at applied
  split at applied
  · cases applied
    exact writing.refl _
  · obtain ⟨value, -, applied⟩ := ok_of_bind applied
    obtain ⟨target, -, assigned⟩ := ok_of_bind (ok_of_mapError applied)
    exact writing.assign assigned

theorem Heap.WritingTo.content {value : Value}
    (assigned : s.assignContent object value = .ok after) : H s.heap after := by
  obtain ⟨target, -, assigned⟩ := ok_of_bind assigned
  exact writing.assign assigned

theorem Heap.WritingTo.child {child : NodeId}
    (applied : s.applyChild object child = .ok after) : H s.heap after := by
  unfold Site.applyChild at applied
  dsimp only at applied
  split at applied
  · exact writing.content (ok_of_mapError applied)
  · split at applied
    · cases applied
      exact writing.refl _
    · obtain ⟨target, -, assigned⟩ := ok_of_bind (ok_of_mapError applied)
      exact writing.assignAll assigned
  · have applied := ok_of_mapError applied
    unfold Site.applyObject at applied
    split at applied
    · cases applied
      exact writing.refl _
    · split at applied
      · cases applied
        exact writing.item _ _ _ (.inl rfl)
      · exact writing.content applied

namespace Load

theorem settles_applyAttributes (env : Environment) (id : NodeId) :
    Settles H (applyAttributes env id object) := by
  intro s
  unfold SettlesAt applyAttributes
  rw [start_get_bind]
  refine settles_forM writing.toChains (fun a t => ?_) _ s
  exact settles_changeHeap (s := t) writing.toChains fun _ => writing.attribute

theorem settles_applyChildren (env : Environment) (id : NodeId) :
    Settles H (applyChildren env id object) := by
  intro s
  unfold SettlesAt applyChildren
  rw [start_get_bind]
  split
  · exact .refl writing.toChains _
  · exact .refl writing.toChains _
  · refine settles_forM writing.toChains (fun c t => ?_) _ s
    exact settles_changeHeap (s := t) writing.toChains fun _ => writing.child

omit writing

/-- Applying one node only works on the heap: it writes to the object of the node, and lets it
remember what is around. -/
theorem SettlesAt.applyNode {s : LoadState} (env : Environment) (chains : Heap.Chains H)
    {id : NodeId} (writing : ∀ object, s.context.object? id = some object →
      Heap.WritingTo H object)
    (scope : ∀ object, s.context.object? id = some object → ∀ around : List ObjectId,
      H s.heap (s.heap.modify object fun o =>
        { o with template := o.template.map fun t => { t with outerScope := around } })) :
    SettlesAt H s (applyNode env id) := by
  unfold SettlesAt Load.applyNode
  rw [start_get_bind]
  split
  · exact .refl chains _
  case h_2 object has =>
    have applies : Settles H (do
        applyAttributes env id object
        applyChildren env id object) :=
      fun s => (settles_applyAttributes (writing object has) env id s).bind chains
        fun _ => settles_applyChildren (writing object has) env id
    split
    · exact SettlesAt.bind chains (.change rfl ⟨rfl, rfl, rfl, scope object has _⟩) fun _ => applies
    · exact applies s

theorem settles_applyNode (env : Environment) (assigning : Heap.Assigning H) (id : NodeId) :
    Settles H (applyNode env id) :=
  fun _ => .applyNode env assigning.toChains (fun _ _ => assigning.toWriting.to _)
    fun _ _ around => assigning.scope _ _ around

/-- Applying properties from a state only works on the heap: it writes to the objects of nodes, and
lets them remember what is around. -/
theorem SettlesAt.applyProperties {s : LoadState} (env : Environment) (chains : Heap.Chains H)
    (writing : ∀ id object, s.context.object? id = some object → Heap.WritingTo H object)
    (scope : ∀ h id object, s.context.object? id = some object → ∀ around : List ObjectId,
      H h (h.modify object fun o =>
        { o with template := o.template.map fun t => { t with outerScope := around } })) :
    SettlesAt H s (applyProperties env) := by
  refine settlesAt_forM chains (fun id t settled => ?_) (s.loadedUpwards env)
  -- The nodes have the objects that they had.
  have same : t.context.object? id = s.context.object? id := by
    rw [Context.object?, Context.value?, settled.values, Context.object?, Context.value?]
  refine .applyNode env chains (fun object has => ?_) fun object has => ?_
  · exact writing id object (same ▸ has)
  · exact scope t.heap id object (same ▸ has)

/-- Applying properties only works on the heap. -/
theorem settles_applyProperties (env : Environment) (assigning : Heap.Assigning H) :
    Settles H (applyProperties env) :=
  fun _ => .applyProperties env assigning.toChains (fun _ _ _ => assigning.toWriting.to _)
    fun _ _ _ _ around => assigning.scope _ _ around

end Load

end Assigning

/-! ## What objects are and what templates keep -/

namespace Heap

/-- A heap whose objects go on being of their types, and its templates keep what they have. -/
structure Retains (h after : Heap) : Prop where
  size : h.size ≤ after.size
  descriptor : ∀ id < h.size, after.descriptor id = h.descriptor id
  content : ∀ id < h.size,
    (after.object id).template.map (·.tree) = (h.object id).template.map (·.tree)

theorem Retains.refl (h : Heap) : h.Retains h := ⟨Nat.le_refl _, fun _ _ => rfl, fun _ _ => rfl⟩

theorem Retains.trans {a b c : Heap} (first : a.Retains b) (second : b.Retains c) :
    a.Retains c where
  size := Nat.le_trans first.size second.size
  descriptor id inside := (second.descriptor id (Nat.lt_of_lt_of_le inside first.size)).trans
    (first.descriptor id inside)
  content id inside := (second.content id (Nat.lt_of_lt_of_le inside first.size)).trans
    (first.content id inside)

/-- Changing an object, but not what it is. -/
theorem retains_modify (h : Heap) (id : ObjectId) {change : Object → Object}
    (type : ∀ o, (change o).descriptor = o.descriptor)
    (content : ∀ o, (change o).template.map (·.tree) = o.template.map (·.tree)) :
    h.Retains (h.modify id change) where
  size := Nat.le_of_eq (size_modify h id change).symm
  descriptor other inside := by
    unfold Heap.descriptor
    by_cases same : other = id
    · rw [same, object_modify change (same ▸ inside), type]
    · rw [object_modify_of_ne change same]
  content other inside := by
    by_cases same : other = id
    · rw [same, object_modify change (same ▸ inside), content]
    · rw [object_modify_of_ne change same]

theorem retains_alloc (h : Heap) (o : Object) : h.Retains (h.alloc o).2 where
  size := by
    rw [size_alloc]
    exact Nat.le_succ _
  descriptor _ inside := congrArg Object.descriptor (object_alloc_of_lt inside)
  content _ inside := congrArg (fun o => o.template.map (·.tree)) (object_alloc_of_lt inside)

theorem filling_retains : Filling Retains where
  refl := .refl
  trans _ _ _ := .trans
  entry h id _ _ := retains_modify h id (fun _ => rfl) fun _ => rfl
  property h id _ _ _ _ _ := retains_modify h id (fun _ => rfl) fun _ => rfl
  made h id _ _ d _ _ := (retains_alloc h (.ofType d)).trans
    (retains_modify _ id (fun _ => rfl) fun _ => rfl)

theorem assigning_retains : Assigning Retains where
  refl := .refl
  trans _ _ _ := .trans
  set h id _ _ := retains_modify h id (fun _ => rfl) fun _ => rfl
  item h id _ := retains_modify h id (fun _ => rfl) fun _ => rfl
  scope h id _ := by
    refine retains_modify h id (fun _ => rfl) fun o => ?_
    cases o.template <;> rfl

/-! ## What filling dictionaries leaves alone -/

/-- A heap whose objects go on having their items, and their properties that are not declared to
hold dictionaries. -/
structure Fills (h after : Heap) : Prop extends Retains h after where
  items : ∀ id < h.size, (after.object id).items = (h.object id).items
  properties : ∀ id < h.size, ∀ name,
    (∀ p, (h.descriptor id).property? name = some p → p.type ≠ .dictionary) →
      after.get? id name = h.get? id name

theorem Fills.refl (h : Heap) : h.Fills h := ⟨.refl h, fun _ _ => rfl, fun _ _ _ _ => rfl⟩

theorem Fills.trans {a b c : Heap} (first : a.Fills b) (second : b.Fills c) : a.Fills c where
  toRetains := first.toRetains.trans second.toRetains
  items id inside := (second.items id (Nat.lt_of_lt_of_le inside first.size)).trans
    (first.items id inside)
  properties id inside name others := by
    have inside' := Nat.lt_of_lt_of_le inside first.size
    rw [second.properties id inside' name (by rwa [first.descriptor id inside]),
      first.properties id inside name others]

/-- A property that is declared to hold a dictionary is set. -/
theorem Fills.set {h middle : Heap} (fills : h.Fills middle) {id : ObjectId} {name : String}
    {p : Property} (declared : (h.descriptor id).property? name = some p)
    (type : p.type = .dictionary) (value : Value) : h.Fills (middle.set id name value) where
  toRetains := fills.toRetains.trans (retains_modify middle id (fun _ => rfl) fun _ => rfl)
  items other inside := by
    rw [← fills.items other inside]
    unfold Heap.set
    by_cases same : other = id
    · rw [same, object_modify _ (same ▸ Nat.lt_of_lt_of_le inside fills.size)]
    · rw [object_modify_of_ne _ same]
  properties other inside key others := by
    rw [← fills.properties other inside key others]
    unfold Heap.get? Heap.set
    by_cases same : other = id
    · -- The property that is set holds a dictionary, so it is another one.
      have ne : key ≠ name := fun is => others p (same ▸ is ▸ declared) type
      rw [same, object_modify _ (same ▸ Nat.lt_of_lt_of_le inside fills.size),
        Table.get?_insert_of_ne _ _ ne]
    · rw [object_modify_of_ne _ same]

end Heap

end MarkupLoader
