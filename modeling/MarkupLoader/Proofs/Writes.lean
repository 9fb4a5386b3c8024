import MarkupLoader.Proofs.Later

/-!
# Writes to the heap

The application of properties changes the heap in three ways (`Write`): a value is assigned to a
property of an object, a child becomes an item of an object of collection kind, and a template gets
to know the objects around it. Here is what becomes of one property and of the items of one object
**in the course of any sequence of writes** (`Heap.writeAll`).

* A property of collection type that is given **single values** holds the list of them, in order;
  a single value is neither a list nor an object of collection kind.
* If it **holds an object of collection kind**, it goes on holding it, and single values become
  items of that object, in order, until another such object comes.
* The items of an object are the children that became items, in order, and all else has been
  **added through a property** that held the object (`Heap.AddsThrough`).

Main results: `collected_of_writeAll`, `held_of_last`, `items_of_between`, `items_of_writeAll`.
-/

namespace MarkupLoader

/-- A change that the application of properties makes to the heap. -/
inductive Write where
  /-- A value is assigned to a property of an object. -/
  | assign (object : ObjectId) (target : Target) (value : Value)
  /-- A child becomes an item of an object. -/
  | item (object : ObjectId) (value : Value)
  /-- A template gets to know the objects around it. -/
  | scope (template : ObjectId) (around : List ObjectId)

namespace Write

/-- The object that a write is about. -/
def object : Write → ObjectId
  | assign object _ _ => object
  | item object _ => object
  | scope template _ => template

/-- The value that is assigned to a property of an object, with the type of the property. -/
def to? (object : ObjectId) (key : String) : Write → Option (PropertyType × Value)
  | assign o target value =>
    if o = object ∧ target.key = key then some (target.type, value) else none
  | _ => none

/-- The child that becomes an item of an object. -/
def child? (object : ObjectId) : Write → Option Value
  | item o value => if o = object then some value else none
  | _ => none

theorem to?_of_ne {w : Write} {object : ObjectId} (ne : w.object ≠ object) (key : String) :
    w.to? object key = none := by
  cases w with
  | assign o target value => exact if_neg fun same => ne same.1
  | item => rfl
  | scope => rfl

theorem child?_of_ne {w : Write} {object : ObjectId} (ne : w.object ≠ object) :
    w.child? object = none := by
  cases w with
  | item o value => exact if_neg ne
  | assign => rfl
  | scope => rfl

end Write

namespace Heap

/-- The heap after a write. -/
def write (h : Heap) : Write → Except AssignmentFault Heap
  | .assign object target value => h.assign object target value
  | .item object value => .ok (h.addItem object value)
  | .scope template around => .ok <| h.modify template fun o =>
      { o with template := o.template.map fun t => { t with outerScope := around } }

/-- The heap after a sequence of writes. -/
def writeAll (h : Heap) (writes : List Write) : Except AssignmentFault Heap := writes.foldlM write h

/-- Somewhere in a sequence of writes a value is added to an object through a property that holds
the object. -/
def AddsThrough (h : Heap) (writes : List Write) (n : ObjectId) : Prop :=
  ∃ earlier object target value later middle,
    writes = earlier ++ .assign object target value :: later ∧ h.writeAll earlier = .ok middle ∧
      target.type = .collection ∧ middle.isWhole value = false ∧
      middle.get? object target.key = some (.object n)

/-! ## Single writes -/

section Single

variable {h after : Heap} {id n : ObjectId} {key : String}

/-- What a change makes of an object that is there. -/
theorem object_modify_of_inside (h : Heap) (id : ObjectId) (change : Object → Object)
    (inside : n < h.size) :
    (h.modify id change).object n = if n = id then change (h.object n) else h.object n := by
  split
  case isTrue same =>
    subst same
    exact object_modify change inside
  case isFalse ne => exact object_modify_of_ne change ne

/-- An object is changed in no place but one. -/
theorem object_modify_or (h : Heap) (id : ObjectId) (change : Object → Object) (n : ObjectId) :
    (h.modify id change).object n = h.object n ∨
      n = id ∧ (h.modify id change).object n = change (h.object n) := by
  by_cases same : n = id
  · subst same
    by_cases inside : n < h.size
    · exact .inr ⟨rfl, object_modify change inside⟩
    · -- There is no such object.
      have outside : h.objects.size ≤ n := Nat.le_of_not_lt inside
      left
      simp [modify, object, outside]
  · exact .inl (object_modify_of_ne change same)

theorem get?_set (h : Heap) (id : ObjectId) (property : String) (value : Value)
    (inside : n < h.size) :
    (h.set id property value).get? n key =
      if n = id ∧ key = property then some value else h.get? n key := by
  unfold get? set
  rw [object_modify_of_inside h id _ inside]
  by_cases same : n = id
  · by_cases here : key = property
    · rw [if_pos same, if_pos ⟨same, here⟩, here, Table.get?_insert_self]
    · rw [if_pos same, if_neg fun both => here both.2, Table.get?_insert_of_ne _ _ here]
  · rw [if_neg same, if_neg fun both => same both.1]

/-- Changes of what is no property leave the properties alone. -/
theorem get?_modify (h : Heap) (id : ObjectId) {change : Object → Object}
    (properties : ∀ o, (change o).properties = o.properties) :
    (h.modify id change).get? n key = h.get? n key := by
  unfold get?
  rcases object_modify_or h id change n with same | ⟨rfl, is⟩
  · rw [same]
  · rw [is, properties]

theorem get?_addItem (h : Heap) (id : ObjectId) (value : Value) :
    (h.addItem id value).get? n key = h.get? n key :=
  get?_modify h id fun _ => rfl

theorem get?_scope (h : Heap) (id : ObjectId) (around : List ObjectId) :
    (h.modify id fun o =>
      { o with template := o.template.map fun t => { t with outerScope := around } }).get? n key =
      h.get? n key :=
  get?_modify h id fun _ => rfl

theorem items_set (h : Heap) (id : ObjectId) (property : String) (value : Value)
    (inside : n < h.size) :
    ((h.set id property value).object n).items = (h.object n).items := by
  unfold set
  rw [object_modify_of_inside h id _ inside]
  split <;> rfl

theorem items_addItem (h : Heap) (id : ObjectId) (value : Value) (inside : n < h.size) :
    ((h.addItem id value).object n).items =
      (h.object n).items ++ if n = id then [value] else [] := by
  unfold addItem
  rw [object_modify_of_inside h id _ inside]
  split
  · rfl
  · rw [List.append_nil]

/-- Writes make no objects, and none becomes one of another type. -/
structure SameTypes (h after : Heap) : Prop where
  size : after.size = h.size
  descriptor : after.descriptor = h.descriptor

theorem sameTypes_modify (h : Heap) (id : ObjectId) {change : Object → Object}
    (keeps : ∀ o, (change o).descriptor = o.descriptor) : h.SameTypes (h.modify id change) where
  size := size_modify h id change
  descriptor := by
    funext other
    unfold Heap.descriptor
    by_cases inside : other < h.size
    · rw [object_modify_of_inside h id change inside]
      split
      · exact keeps _
      · rfl
    · -- There is no such object, before and after.
      have outside : h.objects.size ≤ other := Nat.le_of_not_lt inside
      simp [modify, object, outside]

theorem assigning_sameTypes : Assigning SameTypes where
  refl _ := ⟨rfl, rfl⟩
  trans _ _ _ first second :=
    ⟨second.size.trans first.size, second.descriptor.trans first.descriptor⟩
  set h id _ _ := sameTypes_modify h id fun _ => rfl
  item h id _ := sameTypes_modify h id fun _ => rfl
  scope h id _ := sameTypes_modify h id fun _ => rfl

theorem sameTypes_of_write {w : Write} (wrote : h.write w = .ok after) : h.SameTypes after := by
  cases w with
  | assign object target value => exact (assigning_sameTypes.to _).assign wrote
  | item object value =>
    cases wrote
    exact assigning_sameTypes.item _ _ _
  | scope template around =>
    cases wrote
    exact assigning_sameTypes.scope _ _ _

theorem SameTypes.kind (same : h.SameTypes after) (n : ObjectId) : after.kind n = h.kind n :=
  congrArg TypeDescriptor.kind (congrFun same.descriptor n)

/-- Which values are whole collections depends on the types of objects only. -/
theorem SameTypes.isWhole (same : h.SameTypes after) : after.isWhole = h.isWhole := by
  funext value
  unfold Heap.isWhole Heap.isOfKind
  rw [funext same.kind]

/-- A property that nothing is assigned to stays as it is. -/
theorem get?_of_write {w : Write} (wrote : h.write w = .ok after) (inside : id < h.size)
    (others : w.to? id key = none) : after.get? id key = h.get? id key := by
  cases w with
  | assign object target value =>
    have apart : ¬ (id = object ∧ key = target.key) := by
      rintro ⟨rfl, rfl⟩
      simp [Write.to?] at others
    cases assigned_of_assign wrote with
    | added => rw [get?_addItem]
    | _ => rw [get?_set _ _ _ _ inside, if_neg apart]
  | item object value =>
    cases wrote
    exact get?_addItem _ _ _
  | scope template around =>
    cases wrote
    exact get?_scope _ _ _

/-- What a write adds to the items of an object: the child that becomes one, or a value that is
assigned to a property that holds the object. -/
theorem items_of_write {w : Write} (wrote : h.write w = .ok after) (inside : n < h.size) :
    ((after.object n).items = (h.object n).items ++ (w.child? n).toList) ∨
      ∃ object target value, w = .assign object target value ∧ target.type = .collection ∧
        h.isWhole value = false ∧ h.get? object target.key = some (.object n) ∧
        (after.object n).items = (h.object n).items ++ [value] := by
  cases w with
  | assign object target value =>
    have others : ((Write.assign object target value).child? n).toList = [] := rfl
    rw [others, List.append_nil]
    cases assigned_of_assign wrote with
    | @added m type single held _ =>
      rw [items_addItem _ _ _ inside]
      by_cases same : n = m
      · subst same
        rw [if_pos rfl]
        exact .inr ⟨object, target, value, rfl, type, single, held, rfl⟩
      · rw [if_neg same, List.append_nil]
        exact .inl rfl
    | _ => exact .inl (items_set _ _ _ _ inside)
  | item object value =>
    cases wrote
    rw [items_addItem _ _ _ inside, Write.child?]
    by_cases same : object = n
    · rw [if_pos same, if_pos same.symm]
      exact .inl rfl
    · rw [if_neg same, if_neg (Ne.symm same)]
      exact .inl rfl
  | scope template around =>
    cases wrote
    have others : ((Write.scope template around).child? n).toList = [] := rfl
    rw [object_modify_of_inside _ _ _ inside, others, List.append_nil]
    left
    split <;> rfl

end Single

/-! ## Sequences of writes -/

section Sequences

variable {h after : Heap} {id n : ObjectId} {key : String} {writes : List Write}

/-- The first of some writes, and the others. -/
theorem writeAll_cons {w : Write} (ran : h.writeAll (w :: writes) = .ok after) :
    ∃ middle, h.write w = .ok middle ∧ middle.writeAll writes = .ok after := by
  unfold writeAll at ran
  rw [List.foldlM_cons] at ran
  exact ok_of_bind ran

theorem writeAll_append {more : List Write} {middle : Heap} (ran : h.writeAll writes = .ok middle) :
    h.writeAll (writes ++ more) = middle.writeAll more := by
  unfold writeAll at *
  rw [List.foldlM_append, ran]
  rfl

theorem exists_of_writeAll_append {more : List Write}
    (ran : h.writeAll (writes ++ more) = .ok after) :
    ∃ middle, h.writeAll writes = .ok middle ∧ middle.writeAll more = .ok after := by
  unfold writeAll at ran
  rw [List.foldlM_append] at ran
  exact ok_of_bind ran

theorem sameTypes_of_writeAll (ran : h.writeAll writes = .ok after) : h.SameTypes after :=
  foldlM_keeps ran (assigning_sameTypes.refl h) fun _ _ _ _ so_far step =>
    assigning_sameTypes.trans so_far (sameTypes_of_write step)

/-- What a property of collection type holds that has been given single values. -/
def collected : List Value → Option Value
  | [] => none
  | value :: others => some (.list (value :: others))

theorem collected_append (done : List Value) (value : Value) :
    collected (done ++ [value]) = some (.list (done ++ [value])) := by
  cases done <;> rfl

/-- Writes that only assign some values to a property of collection type. -/
def Gives (writes : List Write) (id : ObjectId) (key : String) (values : List Value) : Prop :=
  writes.filterMap (Write.to? id key) = values.map fun value => (.collection, value)

/-- The writes up to some place assign the values up to some place. -/
theorem Gives.split {first others : List Value} (gives : Gives writes id key (first ++ others)) :
    ∃ earlier later, writes = earlier ++ later ∧ Gives earlier id key first ∧
      Gives later id key others := by
  unfold Gives at gives
  rw [List.map_append] at gives
  exact List.filterMap_eq_append_iff.1 gives

/-- The first write assigns no value to the property, or the first of the values. -/
theorem Gives.cases {w : Write} {values : List Value} (gives : Gives (w :: writes) id key values) :
    (w.to? id key = none ∧ Gives writes id key values) ∨
      ∃ value others target, w = .assign id target value ∧ target.key = key ∧
        target.type = .collection ∧ values = value :: others ∧ Gives writes id key others := by
  unfold Gives at gives
  rw [List.filterMap_cons] at gives
  cases is : w.to? id key with
  | none =>
    rw [is] at gives
    exact .inl ⟨rfl, gives⟩
  | some given =>
    rw [is] at gives
    cases values with
    | nil => cases gives
    | cons value others =>
      obtain ⟨rfl, later⟩ := List.cons.inj gives
      unfold Write.to? at is
      split at is
      case h_1 object target _ =>
        split at is
        case isTrue here =>
          obtain ⟨type, rfl⟩ := Prod.mk.inj (Option.some.inj is)
          exact .inr ⟨_, others, target, by rw [here.1], here.2, type, rfl, later⟩
        case isFalse => cases is
      case h_2 => cases is

/-- **Single values are collected in a list**, in the order they come. -/
theorem collected_of_writeAll (ran : h.writeAll writes = .ok after) (inside : id < h.size)
    {done values : List Value} (held : h.get? id key = collected done)
    (gives : Gives writes id key values) (single : ∀ value ∈ values, h.isWhole value = false) :
    after.get? id key = collected (done ++ values) := by
  -- The induction is on the writes; what the property holds is the list of what has come by then.
  induction writes generalizing h done values with
  | nil =>
    cases ran
    have none : values = [] := by
      have none : values.map (fun value => (PropertyType.collection, value)) = [] := gives.symm
      exact List.map_eq_nil_iff.1 none
    rw [none, List.append_nil]
    exact held
  | cons w rest ih =>
    obtain ⟨middle, wrote, runs⟩ := writeAll_cons ran
    have same := sameTypes_of_write wrote
    have inside' : id < middle.size := same.size ▸ inside
    rcases gives.cases with ⟨others, later⟩ | ⟨value, others, target, rfl, rfl, type, rfl, later⟩
    · refine ih runs inside' ?_ later (by rwa [same.isWhole])
      rw [get?_of_write wrote inside others, held]
    · obtain ⟨singly, singles⟩ := List.forall_mem_cons.1 single
      have now : middle.get? id target.key = collected (done ++ [value]) := by
        rw [collected_append]
        cases assigned_of_assign wrote with
        | whole _ whole => exact absurd (whole.symm.trans singly) nofun
        | coerced other => exact absurd type other
        | first _ _ free =>
          have none : done = [] := by
            cases done with
            | nil => rfl
            | cons _ _ =>
              rw [held] at free
              rcases free with is | is <;> cases is
          rw [get?_set _ _ _ _ inside, if_pos ⟨rfl, rfl⟩, none]
          rfl
        | next _ _ list =>
          rw [get?_set _ _ _ _ inside, if_pos ⟨rfl, rfl⟩]
          cases done with
          | nil =>
            rw [held] at list
            cases list
          | cons _ _ =>
            rw [held] at list
            cases list
            rfl
        | added _ _ object =>
          cases done <;> rw [held] at object <;> cases object
      rw [List.append_cons]
      exact ih runs inside' now later (by rwa [same.isWhole])

/-- **The items of an object** are the children that became items, in order, and what has been added
through a property that held the object. -/
theorem items_of_writeAll (ran : h.writeAll writes = .ok after) (inside : n < h.size) :
    ∃ more, (after.object n).items = (h.object n).items ++ more ∧
      (writes.filterMap (Write.child? n)).Sublist more ∧
      (more = writes.filterMap (Write.child? n) ∨ h.AddsThrough writes n) := by
  -- The induction is on the writes; once something has been added through a property, it has been.
  induction writes generalizing h with
  | nil =>
    cases ran
    exact ⟨[], (List.append_nil _).symm, .slnil, .inl rfl⟩
  | cons w rest ih =>
    obtain ⟨middle, wrote, runs⟩ := writeAll_cons ran
    obtain ⟨more, items, children, exact⟩ := ih runs ((sameTypes_of_write wrote).size ▸ inside)
    have split : (w :: rest).filterMap (Write.child? n) =
        (w.child? n).toList ++ rest.filterMap (Write.child? n) := by
      rw [List.filterMap_cons]
      cases w.child? n <;> rfl
    rw [split]
    rcases items_of_write wrote inside with
      child | ⟨object, target, value, rfl, type, single, held, through⟩
    · refine ⟨(w.child? n).toList ++ more, ?_, children.append_left _, ?_⟩
      · rw [items, child, List.append_assoc]
      · rcases exact with same | ⟨earlier, o, t, v, later, last, is, before, through⟩
        · exact .inl (by rw [same])
        · refine .inr ⟨w :: earlier, o, t, v, later, last, by rw [is]; rfl, ?_, through⟩
          unfold writeAll
          rw [List.foldlM_cons, wrote]
          exact before
    · refine ⟨value :: more, ?_, ?_, ?_⟩
      · rw [items, through, List.append_assoc]
        rfl
      · exact .cons _ children
      · exact .inr ⟨[], object, target, value, rest, h, rfl, rfl, type, single, held⟩

/-- **A property that holds an object of collection kind** goes on holding it, and single values
that are assigned to the property become items of the object, in order. -/
theorem held_of_writeAll (ran : h.writeAll writes = .ok after) (inside : id < h.size)
    (there : n < h.size) {values : List Value} (held : h.get? id key = some (.object n))
    (gives : Gives writes id key values) (single : ∀ value ∈ values, h.isWhole value = false) :
    after.get? id key = some (.object n) ∧
      ∃ more, (after.object n).items = (h.object n).items ++ more ∧ values.Sublist more := by
  -- The induction is on the writes; the object stays where it is, and its items only grow.
  induction writes generalizing h values with
  | nil =>
    cases ran
    have none : values = [] := by
      have none : values.map (fun value => (PropertyType.collection, value)) = [] := gives.symm
      exact List.map_eq_nil_iff.1 none
    exact ⟨held, [], (List.append_nil _).symm, none ▸ .slnil⟩
  | cons w rest ih =>
    obtain ⟨middle, wrote, runs⟩ := writeAll_cons ran
    have same := sameTypes_of_write wrote
    have inside' : id < middle.size := same.size ▸ inside
    have there' : n < middle.size := same.size ▸ there
    rcases gives.cases with ⟨others, later⟩ | ⟨value, others, target, rfl, rfl, type, rfl, later⟩
    · have now : middle.get? id key = some (.object n) :=
        (get?_of_write wrote inside others).trans held
      obtain ⟨last, more, items, all⟩ := ih runs inside' there' now later (by rwa [same.isWhole])
      refine ⟨last, ?_⟩
      rcases items_of_write wrote there with child | ⟨_, _, value, -, -, -, -, through⟩
      · refine ⟨(w.child? n).toList ++ more, ?_, List.sublist_append_of_sublist_right all⟩
        rw [items, child, List.append_assoc]
      · refine ⟨value :: more, ?_, .cons _ all⟩
        rw [items, through, List.append_assoc]
        rfl
    · obtain ⟨singly, singles⟩ := List.forall_mem_cons.1 single
      have added : middle = h.addItem n value := by
        cases assigned_of_assign wrote with
        | whole _ whole => exact absurd (whole.symm.trans singly) nofun
        | coerced other => exact absurd type other
        | first _ _ free =>
          rw [held] at free
          rcases free with is | is <;> cases is
        | next _ _ list =>
          rw [held] at list
          cases list
        | added _ _ object =>
          rw [held] at object
          cases object
          rfl
      have now : middle.get? id target.key = some (.object n) := by
        rw [added, get?_addItem, held]
      obtain ⟨last, more, items, all⟩ := ih runs inside' there' now later (by rwa [same.isWhole])
      refine ⟨last, value :: more, ?_, all.cons_cons _⟩
      rw [items, added, items_addItem _ _ _ there, if_pos rfl, List.append_assoc]
      rfl

/-- The same if the first value that the property is given is an object of collection kind. -/
theorem held_of_first (ran : h.writeAll writes = .ok after) (inside : id < h.size)
    (there : n < h.size) (whole : h.kind n = .collection) {others : List Value}
    (gives : Gives writes id key (.object n :: others))
    (single : ∀ value ∈ others, h.isWhole value = false) :
    after.get? id key = some (.object n) ∧ others.Sublist (after.object n).items := by
  induction writes generalizing h with
  | nil => cases gives
  | cons w rest ih =>
    obtain ⟨middle, wrote, runs⟩ := writeAll_cons ran
    have same := sameTypes_of_write wrote
    have inside' : id < middle.size := same.size ▸ inside
    have there' : n < middle.size := same.size ▸ there
    have single' : ∀ value ∈ others, middle.isWhole value = false := by rwa [same.isWhole]
    rcases gives.cases with ⟨-, later⟩ | ⟨value, others, target, rfl, rfl, type, is, later⟩
    · exact ih runs inside' there' ((same.kind n).trans whole) later single'
    · cases is
      have is : h.isWhole (.object n) = true := decide_eq_true whole
      have now : middle.get? id target.key = some (.object n) := by
        cases assigned_of_assign wrote with
        | whole => rw [get?_set _ _ _ _ inside, if_pos ⟨rfl, rfl⟩]
        | coerced other => exact absurd type other
        | first _ not => exact absurd (is.symm.trans not) nofun
        | next _ not => exact absurd (is.symm.trans not) nofun
        | added _ not => exact absurd (is.symm.trans not) nofun
      obtain ⟨last, more, items, all⟩ := held_of_writeAll runs inside' there' now later single'
      exact ⟨last, items ▸ List.sublist_append_of_sublist_right all⟩

/-- **The last object of collection kind** among the values stays, whatever came before it. -/
theorem held_of_last (ran : h.writeAll writes = .ok after) (inside : id < h.size)
    (there : n < h.size) (whole : h.kind n = .collection) {first others : List Value}
    (gives : Gives writes id key (first ++ .object n :: others))
    (single : ∀ value ∈ others, h.isWhole value = false) :
    after.get? id key = some (.object n) ∧ others.Sublist (after.object n).items := by
  obtain ⟨earlier, later, rfl, -, gives⟩ := gives.split
  obtain ⟨middle, wrote, runs⟩ := exists_of_writeAll_append ran
  have same := sameTypes_of_writeAll wrote
  exact held_of_first runs (same.size ▸ inside) (same.size ▸ there) ((same.kind n).trans whole)
    gives (by rwa [same.isWhole])

/-- **The values after an object of collection kind** become items of it, until another such object
comes. -/
theorem items_of_between (ran : h.writeAll writes = .ok after) (inside : id < h.size)
    (there : n < h.size) (whole : h.kind n = .collection) {first between later : List Value}
    (gives : Gives writes id key (first ++ .object n :: between ++ later))
    (single : ∀ value ∈ between, h.isWhole value = false) :
    between.Sublist (after.object n).items := by
  obtain ⟨earlier, rest, rfl, gives, -⟩ := gives.split
  obtain ⟨middle, wrote, runs⟩ := exists_of_writeAll_append ran
  have added := (held_of_last wrote inside there whole gives single).2
  -- Items are not taken away by what comes later.
  obtain ⟨more, items, -⟩ := items_of_writeAll runs ((sameTypes_of_writeAll wrote).size ▸ there)
  exact items ▸ List.sublist_append_of_sublist_left added

end Sequences

end Heap

end MarkupLoader
