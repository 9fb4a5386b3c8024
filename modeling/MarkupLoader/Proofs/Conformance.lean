import MarkupLoader.Load.Assignment

/-!
# Values conform to the types of their properties

Declared properties are written by constructors and factories, when dictionaries are filled, and
when attributes and content are assigned; not all of these writes go through `Heap.coerce`. What
they all keep is **soundness** (`Heap.Sound`):

* a declared property holds a value that conforms to its declared type (`Heap.Conforms`),
* values hold only objects that are there (`Heap.Has`), since an object is known to be of a type
  only once it has been made,
* no type declares a name with a dot in it, so that what another type declares for an object
  never meets what its own type declares.

Objects keep their types and more are added (`Heap.Grows`), so a value that conforms once
conforms from then on.

Main results: `conforms_of_coerce`, `Sound.make`, `Sound.assign`.
-/

namespace MarkupLoader

/-- Whether no declared property has a dot in its name. -/
def TypeDescriptor.Undotted (d : TypeDescriptor) : Prop := ∀ p ∈ d.properties, '.' ∉ p.name.toList

instance (d : TypeDescriptor) : Decidable d.Undotted :=
  inferInstanceAs (Decidable (∀ p ∈ d.properties, '.' ∉ p.name.toList))

namespace Heap

/-! ## Conforming values -/

/-- A value that a property of a type may hold. -/
inductive Conforms (h : Heap) : PropertyType → Value → Prop
  | null (type : PropertyType) : Conforms h type .null
  | string (s : String) : Conforms h .string (.string s)
  | bool (b : Bool) : Conforms h .bool (.bool b)
  | int (n : Int64) : Conforms h .int (.int n)
  | float (x : Float) : Conforms h .float (.float x)
  | member {members : List String} {s : String} (mem : s ∈ members) :
      Conforms h (.oneOf members) (.string s)
  /-- A text stands for an object until somebody makes one of it. -/
  | text (constraint : Option String) (s : String) : Conforms h (.object constraint) (.string s)
  | type (name : QName) : Conforms h (.object none) (.type name)
  | object (id : ObjectId) : Conforms h (.object none) (.object id)
  | assignable {constraint : String} {id : ObjectId}
      (fits : (h.descriptor id).isAssignableTo constraint = true) :
      Conforms h (.object (some constraint)) (.object id)
  | list (items : List Value) : Conforms h .collection (.list items)
  | collection {id : ObjectId} (kind : h.kind id = .collection) :
      Conforms h .collection (.object id)
  | dictionary {id : ObjectId} (kind : h.kind id = .dictionary) :
      Conforms h .dictionary (.object id)
  | any (value : Value) : Conforms h .any value

/-- The objects that a value holds are there. -/
def Has (h : Heap) (value : Value) : Prop := ∀ id ∈ value.references, id < h.size

/-- Another heap has the same objects with the same types, and perhaps more. -/
structure Grows (h after : Heap) : Prop where
  size : h.size ≤ after.size
  descriptor : ∀ id < h.size, after.descriptor id = h.descriptor id

theorem Grows.refl (h : Heap) : h.Grows h := ⟨Nat.le_refl _, fun _ _ => rfl⟩

theorem Grows.trans {h middle after : Heap} (first : h.Grows middle)
    (second : middle.Grows after) : h.Grows after where
  size := Nat.le_trans first.size second.size
  descriptor id inside := by
    have inside' : id < middle.size := Nat.lt_of_lt_of_le inside first.size
    rw [second.descriptor id inside', first.descriptor id inside]

theorem Has.grows {h after : Heap} {value : Value} (has : h.Has value) (grows : h.Grows after) :
    after.Has value :=
  fun id mem => Nat.lt_of_lt_of_le (has id mem) grows.size

@[simp]
theorem has_object {h : Heap} {id : ObjectId} : h.Has (.object id) ↔ id < h.size := by
  simp [Has, Value.references]

@[simp]
theorem has_list {h : Heap} {items : List Value} :
    h.Has (.list items) ↔ ∀ value ∈ items, h.Has value := by
  have flat : Value.referencesOf items = items.flatMap Value.references := by
    induction items with
    | nil => rfl
    | cons value rest ih => rw [Value.referencesOf, ih, List.flatMap_cons]
  simp only [Has, Value.references, flat, List.mem_flatMap]
  exact ⟨fun all value mem id held => all id ⟨value, mem, held⟩,
    fun all id ⟨value, mem, held⟩ => all value mem id held⟩

/-- A value that holds no objects. -/
theorem has_of_references {h : Heap} {value : Value} (none : value.references = []) :
    h.Has value := by
  intro id mem
  rw [none] at mem
  cases mem

/-- A value goes on conforming while the heap grows. -/
theorem Conforms.grows {h after : Heap} {type : PropertyType} {value : Value}
    (conforms : h.Conforms type value) (has : h.Has value) (grows : h.Grows after) :
    after.Conforms type value := by
  have kind : ∀ id < h.size, after.kind id = h.kind id := fun id inside =>
    congrArg TypeDescriptor.kind (grows.descriptor id inside)
  cases conforms with
  | null => exact .null _
  | string s => exact .string s
  | bool b => exact .bool b
  | int n => exact .int n
  | float x => exact .float x
  | member mem => exact .member mem
  | text constraint s => exact .text constraint s
  | type name => exact .type name
  | object id => exact .object id
  | assignable fits => exact .assignable (by rwa [grows.descriptor _ (has_object.1 has)])
  | list items => exact .list items
  | collection is => exact .collection (by rwa [kind _ (has_object.1 has)])
  | dictionary is => exact .dictionary (by rwa [kind _ (has_object.1 has)])
  | any value => exact .any value

/-! ## Coercion gives conforming values -/

theorem conforms_of_coerceText {h : Heap} {text : String} {type : PropertyType} {value : Value}
    (coerced : coerceText text type = .ok value) :
    h.Conforms type value ∧ h.Has value := by
  cases type <;> simp only [coerceText] at coerced
  case string => cases coerced; exact ⟨.string _, has_of_references rfl⟩
  case object => cases coerced; exact ⟨.text _ _, has_of_references rfl⟩
  case any => cases coerced; exact ⟨.any _, has_of_references rfl⟩
  case collection => cases coerced
  case dictionary => cases coerced
  case oneOf members =>
    split at coerced
    case isTrue mem =>
      cases coerced
      exact ⟨.member (List.contains_iff_mem.1 mem), has_of_references rfl⟩
    case isFalse => cases coerced
  all_goals
    split at coerced
    · cases coerced
      exact ⟨by constructor, has_of_references rfl⟩
    · cases coerced

theorem conforms_of_coerceObject {h : Heap} {id : ObjectId} {type : PropertyType} {value : Value}
    (coerced : h.coerceObject id type = .ok value) :
    h.Conforms type value ∧ value = .object id := by
  unfold coerceObject at coerced
  split at coerced
  case h_1 => cases coerced; exact ⟨.any _, rfl⟩
  case h_2 => cases coerced; exact ⟨.object id, rfl⟩
  case h_3 =>
    split at coerced
    · cases coerced; exact ⟨.assignable ‹_›, rfl⟩
    · cases coerced
  case h_4 =>
    split at coerced
    · cases coerced; exact ⟨.collection ‹_›, rfl⟩
    · cases coerced
  case h_5 =>
    split at coerced
    · cases coerced; exact ⟨.dictionary ‹_›, rfl⟩
    · cases coerced
  case h_6 => cases coerced

/-- What a value is coerced to conforms, and holds no other objects. -/
theorem conforms_of_coerce {h : Heap} {given value : Value} {type : PropertyType}
    (coerced : h.coerce given type = .ok value) (has : h.Has given) :
    h.Conforms type value ∧ h.Has value := by
  unfold coerce at coerced
  split at coerced
  case h_1 => cases coerced; exact ⟨.null _, has⟩
  case h_2 => cases coerced; exact ⟨.any _, has⟩
  case h_3 => exact conforms_of_coerceText coerced
  case h_13 =>
    obtain ⟨conforms, rfl⟩ := conforms_of_coerceObject coerced
    exact ⟨conforms, has⟩
  case h_14 => cases coerced
  case h_12 => cases coerced; exact ⟨.list _, has⟩
  -- Scalars hold no objects.
  all_goals cases coerced; exact ⟨by constructor, has_of_references rfl⟩

/-! ## Sound heaps -/

/-- An object that a heap may have: all that it holds is there and conforms. -/
structure Admits (h : Heap) (o : Object) : Prop where
  /-- Declared properties hold values that conform. -/
  typed : ∀ name p value, o.descriptor.property? name = some p →
    o.properties.get? name = some value → h.Conforms p.type value
  undotted : o.descriptor.Undotted
  properties : ∀ name value, o.properties.get? name = some value → h.Has value
  items : ∀ value ∈ o.items, h.Has value
  entries : ∀ key value, o.entries.get? key = some value → h.Has value
  /-- The objects that a template remembers are there. -/
  templates : ∀ content, o.template = some content → ∀ around ∈ content.outerScope, around < h.size

/-- A heap whose objects hold what they should. -/
def Sound (h : Heap) : Prop := ∀ id, h.Admits (h.object id)

theorem Admits.grows {h after : Heap} {o : Object} (admits : h.Admits o) (grows : h.Grows after) :
    after.Admits o where
  typed name p value declared held :=
    (admits.typed name p value declared held).grows (admits.properties name value held) grows
  undotted := admits.undotted
  properties name value held := (admits.properties name value held).grows grows
  items value held := (admits.items value held).grows grows
  entries key value held := (admits.entries key value held).grows grows
  templates content kept around mem :=
    Nat.lt_of_lt_of_le (admits.templates content kept around mem) grows.size

theorem grows_alloc (h : Heap) (o : Object) : h.Grows (h.alloc o).2 where
  size := by
    rw [size_alloc]
    exact Nat.le_succ _
  descriptor _ inside := congrArg Object.descriptor (object_alloc_of_lt inside)

/-- A new object is admitted. -/
theorem Sound.alloc {h : Heap} {o : Object} (sound : h.Sound) (admitted : h.Admits o) :
    (h.alloc o).2.Sound := by
  intro id
  refine Admits.grows ?_ (grows_alloc h o)
  by_cases new : id = h.size
  · rw [new, show h.size = (h.alloc o).1 from rfl, object_alloc]
    exact admitted
  · have old : (h.alloc o).2.object id = h.object id := by
      have other : id ≠ h.objects.size := new
      simp [Heap.alloc, object, Array.getElem?_push, other]
    rw [old]
    exact sound id

/-- Changes that keep the type of an object let the heap grow. -/
theorem grows_modify (h : Heap) (id : ObjectId) {change : Object → Object}
    (keeps : ∀ o, (change o).descriptor = o.descriptor) : h.Grows (h.modify id change) where
  size := Nat.le_of_eq (size_modify h id change).symm
  descriptor other inside := by
    by_cases same : other = id
    · subst same
      rw [descriptor, object_modify change inside, keeps]
      rfl
    · rw [descriptor, object_modify_of_ne change same]
      rfl

/-- A changed object is admitted again. -/
theorem Sound.modify {h : Heap} {id : ObjectId} {change : Object → Object} (sound : h.Sound)
    (keeps : ∀ o, (change o).descriptor = o.descriptor)
    (admitted : h.Admits (change (h.object id))) : (h.modify id change).Sound := by
  intro other
  refine Admits.grows ?_ (grows_modify h id keeps)
  by_cases same : other = id
  · subst same
    by_cases inside : other < h.size
    · rw [object_modify change inside]
      exact admitted
    · have outside : h.objects.size ≤ other := Nat.le_of_not_lt inside
      have unchanged : (h.modify other change).object other = h.object other := by
        simp [Heap.modify, object, outside]
      rw [unchanged]
      exact sound other
  · rw [object_modify_of_ne change same]
    exact sound other

/-! ## Writing -/

section Writing

variable {h after : Heap} {id : ObjectId}

theorem grows_set (h : Heap) (id : ObjectId) (property : String) (value : Value) :
    h.Grows (h.set id property value) := grows_modify h id fun _ => rfl

theorem grows_addItem (h : Heap) (id : ObjectId) (value : Value) :
    h.Grows (h.addItem id value) := grows_modify h id fun _ => rfl

theorem grows_putEntry (h : Heap) (id : ObjectId) (key : String) (value : Value) :
    h.Grows (h.putEntry id key value) := grows_modify h id fun _ => rfl

theorem Sound.set {property : String} {value : Value} (sound : h.Sound) (has : h.Has value)
    (conforms : ∀ p, (h.descriptor id).property? property = some p → h.Conforms p.type value) :
    (h.set id property value).Sound := by
  refine sound.modify (fun _ => rfl) ?_
  refine { sound id with typed := fun name p found declared held => ?_,
                         properties := fun name found held => ?_ }
  · rcases Table.get?_insert held with ⟨rfl, rfl⟩ | before
    · exact conforms p declared
    · exact (sound id).typed name p found declared before
  · rcases Table.get?_insert held with ⟨rfl, rfl⟩ | before
    · exact has
    · exact (sound id).properties name found before

theorem Sound.addItem {value : Value} (sound : h.Sound) (has : h.Has value) :
    (h.addItem id value).Sound := by
  refine sound.modify (fun _ => rfl) ?_
  refine { sound id with items := fun found mem => ?_ }
  rcases List.mem_append.1 mem with before | last
  · exact (sound id).items found before
  · rwa [List.mem_singleton.1 last]

theorem Sound.putEntry {key : String} {value : Value} (sound : h.Sound) (has : h.Has value) :
    (h.putEntry id key value).Sound := by
  refine sound.modify (fun _ => rfl) ?_
  refine { sound id with entries := fun other found held => ?_ }
  rcases Table.get?_insert held with ⟨rfl, rfl⟩ | before
  · exact has
  · exact (sound id).entries other found before

/-- Additions go to a collection, whether that is a list or an object of its own. -/
theorem Sound.append {property : String} {value : Value} (sound : h.Sound) (has : h.Has value)
    (collects : ∀ p, (h.descriptor id).property? property = some p → p.type = .collection)
    (appended : h.append id property value = .ok after) : after.Sound ∧ h.Grows after := by
  have setList : ∀ items : List Value, (∀ item ∈ items, h.Has item) →
      (h.set id property (.list items)).Sound ∧ h.Grows (h.set id property (.list items)) := by
    intro items all
    refine ⟨sound.set (has_list.2 all) fun p declared => ?_, grows_set _ _ _ _⟩
    rw [collects p declared]
    exact .list items
  have setNew := setList [value] (by simpa using has)
  unfold Heap.append at appended
  split at appended
  · cases appended
    exact setNew
  · cases appended
    exact setNew
  case h_3 items held =>
    cases appended
    refine setList _ fun item mem => ?_
    rcases List.mem_append.1 mem with before | last
    · exact has_list.1 ((sound id).properties property _ held) item before
    · rwa [List.mem_singleton.1 last]
  · split at appended
    · split at appended
      · cases appended
        exact ⟨sound.addItem has, grows_addItem _ _ _⟩
      · cases appended
    · cases appended

end Writing

end Heap

end MarkupLoader
