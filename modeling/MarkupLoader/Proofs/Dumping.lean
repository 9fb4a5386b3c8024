import Mathlib.Data.List.Perm.Subperm
import Mathlib.Logic.Relation
import MarkupLoader.Dump

/-!
# Where a dump is cut

A dump goes from an object to all that it shows, and objects may show each other in a circle. Its
rules (`Heap.Dumps`) say what stands for a value at the end of a path of objects that are being
written: a mark for the objects that the rules cut, and everything in it for any other. **A dump
follows the rules that cut the objects on the path and no others**, in heaps of all shapes; that a
derivation is finite says that the dump ends.

Where no circle can be reached nothing is cut: the same dump follows the rules that cut nowhere.

The members of an object are put into one table, in which the last one counts. They are all there
if no property has the name of a member that a dump adds (`Object.Legible`).

Main result: `Heap.dump_cuts_circles`.
-/

namespace MarkupLoader

open Relation

/-! ## What a dump shows -/

namespace Object

/-- The entries of an object that a dump shows. -/
def shownEntries (o : Object) : List Value :=
  if o.kind = .dictionary then o.entries.values else []

/-- All that a dump shows of an object. -/
def shown (o : Object) : List Value := o.properties.values ++ o.items ++ o.shownEntries

/-- The members that stand for an object, given the dumps of what is in it. -/
def written (o : Object) (properties items entries : List JsonValue) :
    List (String × JsonValue) :=
  ("$type", .text o.typeName) :: o.properties.keys.zip properties ++
    (if o.items = [] then [] else [("$items", .array items)]) ++
    if o.kind = .dictionary then [("$resources", .members (o.entries.keys.zip entries))] else []

/-- No property has the name of a member that stands for something else, and neither two
properties nor two entries have one name. -/
structure Legible (o : Object) : Prop where
  properties : o.properties.keys.Nodup
  entries : o.entries.keys.Nodup
  type : "$type" ∉ o.properties.keys
  items : o.items ≠ [] → "$items" ∉ o.properties.keys
  resources : o.kind = .dictionary → "$resources" ∉ o.properties.keys

end Object

namespace Heap

/-- What stands for an object that is cut. -/
def mark (h : Heap) (id : ObjectId) : JsonValue := .members [("$ref", .text (h.object id).typeName)]

/-- **The rules of a dump**: what stands for a value in an object at the end of a path, if the
objects that are cut there are known. The path holds the objects around, innermost first. -/
inductive Dumps (h : Heap) (cut : List ObjectId → ObjectId → Prop) :
    List ObjectId → Value → JsonValue → Prop
  | null {path} : Dumps h cut path .null .null
  | bool {path} (b : Bool) : Dumps h cut path (.bool b) (.bool b)
  | int {path} (n : Int64) : Dumps h cut path (.int n) (.number (toString n.toInt))
  | float {path} (x : Float) : Dumps h cut path (.float x) (.ofFloat x)
  | string {path} (s : String) : Dumps h cut path (.string s) (.text s)
  | type {path} (name : QName) :
      Dumps h cut path (.type name) (.members [("$typeof", .text name.localName)])
  | nil {path} : Dumps h cut path (.list []) (.array [])
  | cons {path} {value : Value} {values : List Value} {j : JsonValue} {js : List JsonValue} :
      Dumps h cut path value j → Dumps h cut path (.list values) (.array js) →
        Dumps h cut path (.list (value :: values)) (.array (j :: js))
  | marked {path} {id : ObjectId} : cut path id → Dumps h cut path (.object id) (h.mark id)
  | whole {path} {id : ObjectId} {properties items entries : List JsonValue} :
      ¬ cut path id →
        Dumps h cut (id :: path) (.list (h.object id).properties.values) (.array properties) →
        Dumps h cut (id :: path) (.list (h.object id).items) (.array items) →
        Dumps h cut (id :: path) (.list (h.object id).shownEntries) (.array entries) →
          Dumps h cut path (.object id) (dumpObject (h.object id) properties items entries)

/-- Cutting the objects that are being written. -/
def OnPath (path : List ObjectId) (id : ObjectId) : Prop := id ∈ path

/-- Cutting nothing. -/
def Nowhere (_ : List ObjectId) (_ : ObjectId) : Prop := False

variable {h : Heap} {cut : List ObjectId → ObjectId → Prop} {path : List ObjectId} {v : Value}
  {id : ObjectId}

/-- The rules leave no choice. -/
theorem Dumps.unique {j : JsonValue} (dumps : h.Dumps cut path v j) :
    ∀ {k : JsonValue}, h.Dumps cut path v k → j = k := by
  induction dumps with
  | null | bool | int | float | string | type | nil =>
    intro k other
    cases other
    rfl
  | cons _ _ first rest =>
    intro k other
    cases other with
    | cons here later => rw [first here, JsonValue.array.inj (rest later)]
  | marked cut =>
    intro k other
    cases other with
    | marked => rfl
    | whole uncut => exact absurd cut uncut
  | whole uncut _ _ _ properties items entries =>
    intro k other
    cases other with
    | marked cut => exact absurd cut uncut
    | whole _ properties' items' entries' =>
      rw [JsonValue.array.inj (properties properties'), JsonValue.array.inj (items items'),
        JsonValue.array.inj (entries entries')]

/-! ## The dump follows the rules -/

mutual

/-- Values are dumped by the rules if the objects in them are. -/
theorem dumps_dumpWith {dumpId : ObjectId → JsonValue}
    (objects : ∀ id, h.Dumps cut path (.object id) (dumpId id)) :
    ∀ v, h.Dumps cut path v (dumpWith dumpId v)
  | .null => .null
  | .bool b => .bool b
  | .int n => .int n
  | .float x => .float x
  | .string s => .string s
  | .type name => .type name
  | .list items => dumps_dumpAllWith objects items
  | .object id => objects id

theorem dumps_dumpAllWith {dumpId : ObjectId → JsonValue}
    (objects : ∀ id, h.Dumps cut path (.object id) (dumpId id)) :
    ∀ vs, h.Dumps cut path (.list vs) (.array (dumpAllWith dumpId vs))
  | [] => .nil
  | v :: vs => .cons (dumps_dumpWith objects v) (dumps_dumpAllWith objects vs)

end

/-- What is not shown of an object does not count. -/
theorem dumpObject_shownEntries (o : Object) (properties items : List JsonValue)
    (dumpId : ObjectId → JsonValue) :
    dumpObject o properties items (dumpAllWith dumpId o.entries.values) =
      dumpObject o properties items (dumpAllWith dumpId o.shownEntries) := by
  unfold dumpObject Object.shownEntries
  by_cases dictionary : o.kind = .dictionary
  · rw [if_pos dictionary]
  · simp only [if_neg dictionary]

/-- A path of different objects of the heap that a dump may still go down. -/
structure Open (h : Heap) (depth : Nat) (path : List ObjectId) : Prop where
  nodup : path.Nodup
  inside : ∀ id ∈ path, id < h.size
  deep : h.size < depth + path.length

/-- Such a path is no longer than the heap, and so there is always something left to go down. -/
theorem Open.pos {depth : Nat} (isOpen : h.Open depth path) : 0 < depth := by
  have among : path ⊆ List.range h.size := fun id mem => List.mem_range.2 (isOpen.inside id mem)
  have fits := (List.subperm_of_subset isOpen.nodup among).length_le
  have deep := isOpen.deep
  rw [List.length_range] at fits
  omega

theorem Open.enter {depth : Nat} (isOpen : h.Open (depth + 1) path) (new : id ∉ path)
    (inside : id < h.size) : h.Open depth (id :: path) := by
  have deep := isOpen.deep
  refine ⟨List.nodup_cons.2 ⟨new, isOpen.nodup⟩, ?_, ?_⟩
  · exact List.forall_mem_cons.2 ⟨inside, isOpen.inside⟩
  · rw [List.length_cons]
    omega

/-- Nothing is in an object outside the heap. -/
theorem shown_of_size_le (outside : h.size ≤ id) :
    (h.object id).properties.values = [] ∧ (h.object id).items = [] ∧
      (h.object id).shownEntries = [] := by
  rw [object_of_size_le outside]
  refine ⟨rfl, rfl, ?_⟩
  unfold Object.shownEntries
  split <;> rfl

/-- As long as its path is open, a dump follows the rules that cut the objects on the path. -/
theorem dumps_of_open {depth : Nat} : ∀ {path : List ObjectId}, h.Open depth path →
    ∀ v, h.Dumps OnPath path v (dumpWith (h.dumpFrom depth path) v) := by
  induction depth with
  | zero => exact fun isOpen => absurd isOpen.pos (Nat.lt_irrefl 0)
  | succ depth ih =>
    intro path isOpen
    refine dumps_dumpWith fun id => ?_
    unfold dumpFrom
    by_cases mem : id ∈ path
    · rw [if_pos (List.contains_iff_mem.2 mem)]
      exact .marked mem
    rw [if_neg (fun contained => mem (List.contains_iff_mem.1 contained)),
      dumpObject_shownEntries]
    by_cases inside : id < h.size
    · have deeper := ih (isOpen.enter mem inside)
      exact .whole mem (deeper (.list _)) (deeper (.list _)) (deeper (.list _))
    · -- The path is not entered, for there is nothing to go on with.
      obtain ⟨properties, items, entries⟩ := shown_of_size_le (Nat.le_of_not_lt inside)
      refine .whole mem ?_ ?_ ?_
      · rw [properties]
        exact .nil
      · rw [items]
        exact .nil
      · rw [entries]
        exact .nil

/-- **A dump is what the rules say.** -/
theorem dump_eq_iff {j : JsonValue} : h.dump v = j ↔ h.Dumps OnPath [] v j := by
  have isOpen : h.Open (h.size + 1) [] := ⟨List.nodup_nil, nofun, by simp⟩
  have dumps : h.Dumps OnPath [] v (h.dump v) := dumps_of_open isOpen v
  exact ⟨fun same => same ▸ dumps, fun other => dumps.unique other⟩

/-! ## Marks and members -/

theorem Dumps.length_eq {values : List Value} :
    ∀ {js : List JsonValue}, h.Dumps cut path (.list values) (.array js) →
      js.length = values.length := by
  induction values with
  | nil =>
    intro js dumps
    cases dumps
    rfl
  | cons value values ih =>
    intro js dumps
    cases dumps with
    | cons _ rest => rw [List.length_cons, List.length_cons, ih rest]

/-- The first member of an object is its type. -/
theorem exists_dumpObject (o : Object) (properties items entries : List JsonValue) :
    ∃ first rest, dumpObject o properties items entries = .members (("$type", first) :: rest) := by
  have insert : ∀ (t : Table String JsonValue) key value, t.keys.head? = some "$type" →
      (t.insert key value).keys.head? = some "$type" := by
    intro t key value first
    by_cases mem : key ∈ t.keys
    · rw [Table.keys_insert_of_mem t value mem, first]
    · rw [Table.keys_insert_of_not_mem t value mem, List.head?_append, first, Option.some_or]
  have insertAll : ∀ (added : List (String × JsonValue)) (t : Table String JsonValue),
      t.keys.head? = some "$type" → (t.insertAll added).keys.head? = some "$type" := by
    intro added
    induction added with
    | nil => exact fun t first => first
    | cons entry rest ih => exact fun t first => ih _ (insert t entry.1 entry.2 first)
  obtain ⟨t, is, first⟩ : ∃ t : Table String JsonValue,
      dumpObject o properties items entries = .members t.entries ∧
        t.keys.head? = some "$type" := by
    refine ⟨_, rfl, ?_⟩
    have start := insertAll (o.properties.keys.zip properties)
      (Table.ofList [("$type", .text o.typeName)]) rfl
    split
    · apply insert
      split
      · exact start
      · exact insert _ _ _ start
    · split
      · exact start
      · exact insert _ _ _ start
  obtain ⟨entries⟩ := t
  cases entries with
  | nil => cases first
  | cons entry rest =>
    obtain ⟨key, value⟩ := entry
    obtain rfl : key = "$type" := Option.some.inj first
    exact ⟨value, rest, is⟩

/-- A mark cannot be taken for an object. -/
theorem dumpObject_ne_mark (o : Object) (properties items entries : List JsonValue) :
    dumpObject o properties items entries ≠ h.mark id := by
  obtain ⟨first, rest, is⟩ := exists_dumpObject o properties items entries
  rw [is]
  intro same
  simp [mark, JsonValue.members] at same

/-- Exactly the objects that are cut become marks. -/
theorem Dumps.eq_mark_iff {j : JsonValue} (dumps : h.Dumps cut path (.object id) j) :
    j = h.mark id ↔ cut path id := by
  cases dumps with
  | marked cut => exact ⟨fun _ => cut, fun _ => rfl⟩
  | whole uncut =>
    exact ⟨fun same => absurd same (dumpObject_ne_mark _ _ _ _), fun cut => absurd cut uncut⟩

/-- No member of a legible object gets lost. -/
theorem dumpObject_of_legible {o : Object} (legible : o.Legible)
    {properties items entries : List JsonValue}
    (propertiesLength : properties.length = o.properties.values.length)
    (itemsLength : items.length = o.items.length)
    (entriesLength : entries.length = o.shownEntries.length) :
    dumpObject o properties items entries = .members (o.written properties items entries) := by
  have keys : (o.properties.keys.zip properties).map Prod.fst = o.properties.keys := by
    refine List.map_fst_zip (Nat.le_of_eq ?_)
    rw [propertiesLength, Table.keys, Table.values, List.length_map, List.length_map]
  -- The type and the properties.
  generalize named : (Table.ofList [("$type", JsonValue.text o.typeName)]).insertAll
    (o.properties.keys.zip properties) = withProperties
  have start : withProperties.entries =
      ("$type", .text o.typeName) :: o.properties.keys.zip properties := by
    rw [← named]
    refine Table.entries_insertAll (by rw [keys]; exact legible.properties) ?_
    intro entry mem there
    obtain same : entry.1 = "$type" := List.mem_singleton.1 there
    exact legible.type (same ▸ keys ▸ List.mem_map_of_mem mem)
  have startKeys : withProperties.keys = "$type" :: o.properties.keys := by
    rw [Table.keys, start, List.map_cons, keys]
  -- The items.
  generalize namedItems : (if items.isEmpty then withProperties
    else withProperties.insert "$items" (.array items)) = withItems
  have more : withItems.entries = withProperties.entries ++
      if o.items = [] then [] else [("$items", .array items)] := by
    rw [← namedItems]
    by_cases none : o.items = []
    · have noItems : items = [] := List.eq_nil_of_length_eq_zero (by rw [itemsLength, none]; rfl)
      rw [if_pos none, noItems, List.append_nil]
      rfl
    · have someItems : items ≠ [] := fun noItems =>
        none (List.eq_nil_of_length_eq_zero (by rw [← itemsLength, noItems]; rfl))
      rw [if_neg none, if_neg (fun empty => someItems (List.isEmpty_iff.1 empty))]
      refine Table.entries_insert_of_not_mem _ _ ?_
      rw [startKeys]
      exact fun there => (List.mem_cons.1 there).elim (by decide) (legible.items none)
  -- The entries.
  have whole : ∀ value, o.kind = .dictionary → (withItems.insert "$resources" value).entries =
      withItems.entries ++ [("$resources", value)] := by
    intro value dictionary
    refine Table.entries_insert_of_not_mem _ _ fun there => ?_
    rw [Table.keys, more, List.map_append, List.mem_append] at there
    rcases there with there | there
    · have there : "$resources" ∈ withProperties.keys := there
      rw [startKeys] at there
      exact (List.mem_cons.1 there).elim (by decide) (legible.resources dictionary)
    · split at there
      · cases there
      · have same : "$resources" = "$items" := List.mem_singleton.1 there
        exact absurd same (by decide)
  unfold dumpObject Object.written
  dsimp only
  rw [named, namedItems]
  by_cases dictionary : o.kind = .dictionary
  · have entriesKeys : (o.entries.keys.zip entries).map Prod.fst = o.entries.keys := by
      refine List.map_fst_zip (Nat.le_of_eq ?_)
      rw [entriesLength, Object.shownEntries, if_pos dictionary, Table.keys, Table.values,
        List.length_map, List.length_map]
    have table : Table.ofList (o.entries.keys.zip entries) = ⟨o.entries.keys.zip entries⟩ :=
      Table.ofList_eq (by rw [entriesKeys]; exact legible.entries)
    rw [if_pos dictionary, if_pos dictionary, whole _ dictionary, more, start, table]
  · rw [if_neg dictionary, if_neg dictionary, more, start, List.append_nil]

/-! ## Circles -/

/-- A dump shows an object in another. -/
def Shows (h : Heap) (a b : ObjectId) : Prop := ∃ value ∈ (h.object a).shown, b ∈ value.references

/-- What a value shows leads to no circle. -/
def Acyclic (h : Heap) (v : Value) : Prop :=
  ∀ root ∈ v.references, ∀ id, ReflTransGen h.Shows root id → ¬ TransGen h.Shows id id

theorem mem_references_list {values : List Value} {b : ObjectId}
    (mem : b ∈ (Value.list values).references) : ∃ value ∈ values, b ∈ value.references := by
  induction values with
  | nil => cases mem
  | cons value rest ih =>
    rcases List.mem_append.1 (show b ∈ value.references ++ Value.referencesOf rest from mem)
      with here | later
    · exact ⟨value, List.mem_cons_self, here⟩
    · obtain ⟨other, listed, there⟩ := ih later
      exact ⟨other, List.mem_cons_of_mem _ listed, there⟩

/-- What an object shows, it shows in one of three lists. -/
theorem shows_of_mem {values : List Value} {b : ObjectId}
    (part : values = (h.object id).properties.values ∨ values = (h.object id).items ∨
      values = (h.object id).shownEntries) (mem : b ∈ (Value.list values).references) :
    h.Shows id b := by
  obtain ⟨value, listed, there⟩ := mem_references_list mem
  refine ⟨value, ?_, there⟩
  simp only [Object.shown, List.mem_append]
  rcases part with rfl | rfl | rfl
  · exact .inl (.inl listed)
  · exact .inl (.inr listed)
  · exact .inr listed

/-- Where no circle is met, the objects on the path are not come to again. -/
theorem Dumps.nowhere {j : JsonValue} (dumps : h.Dumps OnPath path v j) (acyclic : h.Acyclic v)
    (leads : ∀ a ∈ path, ∀ b ∈ v.references, TransGen h.Shows a b) :
    h.Dumps Nowhere path v j := by
  induction dumps with
  | null => exact .null
  | bool b => exact .bool b
  | int n => exact .int n
  | float x => exact .float x
  | string s => exact .string s
  | type name => exact .type name
  | nil => exact .nil
  | cons _ _ first rest =>
    refine .cons (first ?_ ?_) (rest ?_ ?_)
    · exact fun root mem => acyclic root (List.mem_append_left _ mem)
    · exact fun a on b mem => leads a on b (List.mem_append_left _ mem)
    · exact fun root mem => acyclic root (List.mem_append_right _ mem)
    · exact fun a on b mem => leads a on b (List.mem_append_right _ mem)
  | @marked path id on =>
    have circle := leads id on id (List.mem_singleton_self id)
    exact absurd circle (acyclic id (List.mem_singleton_self id) id .refl)
  | @whole path id _ _ _ _ _ _ _ properties items entries =>
    have below : ∀ {values : List Value}, (values = (h.object id).properties.values ∨
        values = (h.object id).items ∨ values = (h.object id).shownEntries) →
        h.Acyclic (.list values) ∧ ∀ a ∈ id :: path, ∀ b ∈ (Value.list values).references,
          TransGen h.Shows a b := by
      intro values part
      constructor
      · intro root mem n reached
        exact acyclic id (List.mem_singleton_self id) n (.head (shows_of_mem part mem) reached)
      · intro a on b mem
        have shows := shows_of_mem part mem
        rcases List.mem_cons.1 on with rfl | on
        · exact .single shows
        · exact .tail (leads a on id (List.mem_singleton_self id)) shows
    obtain ⟨propertiesAcyclic, propertiesLead⟩ := below (.inl rfl)
    obtain ⟨itemsAcyclic, itemsLead⟩ := below (.inr (.inl rfl))
    obtain ⟨entriesAcyclic, entriesLead⟩ := below (.inr (.inr rfl))
    exact .whole (fun never => never) (properties propertiesAcyclic propertiesLead)
      (items itemsAcyclic itemsLead) (entries entriesAcyclic entriesLead)

/-! ## Main result -/

/-- What stands for an object has its type, all its properties, its items if it has any, and its
entries if it is a dictionary, each dumped below the object. -/
def InFull (h : Heap) (cut : List ObjectId → ObjectId → Prop) (path : List ObjectId)
    (id : ObjectId) (j : JsonValue) : Prop :=
  ∃ properties items entries,
    h.Dumps cut (id :: path) (.list (h.object id).properties.values) (.array properties) ∧
    h.Dumps cut (id :: path) (.list (h.object id).items) (.array items) ∧
    h.Dumps cut (id :: path) (.list (h.object id).shownEntries) (.array entries) ∧
    j = .members ((h.object id).written properties items entries)

theorem Dumps.inFull {j : JsonValue} (dumps : h.Dumps cut path (.object id) j)
    (uncut : ¬ cut path id) (legible : (h.object id).Legible) : h.InFull cut path id j := by
  cases dumps with
  | marked cut => exact absurd cut uncut
  | whole _ properties items entries =>
    exact ⟨_, _, _, properties, items, entries,
      dumpObject_of_legible legible properties.length_eq items.length_eq entries.length_eq⟩

/-- **A dump ends, and cuts where an object is being written already.** It is the one thing that
the rules say that cut the objects on the path: there, an object becomes a mark exactly if it is
on the path, and is written in full anywhere else, provided that it is legible. If the value leads
to no circle, the dump is what the rules say that cut nothing. -/
theorem dump_cuts_circles (h : Heap) (v : Value) :
    (∀ j, h.dump v = j ↔ h.Dumps OnPath [] v j) ∧
    (∀ path id j, h.Dumps OnPath path (.object id) j →
      (j = h.mark id ↔ id ∈ path) ∧
      (id ∉ path → (h.object id).Legible → h.InFull OnPath path id j)) ∧
    (h.Acyclic v → h.Dumps Nowhere [] v (h.dump v)) := by
  refine ⟨fun j => dump_eq_iff, ?_, ?_⟩
  · intro path id j dumps
    exact ⟨dumps.eq_mark_iff, fun outside legible => dumps.inFull outside legible⟩
  · intro acyclic
    exact (dump_eq_iff.1 rfl).nowhere acyclic nofun

/-- An object of a type `Node`. -/
def nodeWith (properties : List (String × Value)) : Object :=
  { Object.ofType (.named "" "Node") with properties := ⟨properties⟩ }

/-- An object that holds another one twice, and what the other one holds. -/
def pair (back : List (String × Value)) : Heap :=
  ⟨#[nodeWith [("Left", .object 1), ("Right", .object 1)], nodeWith back], []⟩

theorem shows_pair {a b : ObjectId} (shows : (pair []).Shows a b) : a = 0 ∧ b = 1 := by
  obtain ⟨value, shown, mem⟩ := shows
  match a with
  | 0 =>
    have shown : value ∈ [Value.object 1, .object 1] := shown
    simp only [List.mem_cons, List.not_mem_nil, or_false, or_self] at shown
    rw [shown] at mem
    exact ⟨rfl, List.mem_singleton.1 mem⟩
  | 1 => exact nomatch (show value ∈ [] from shown)
  | n + 2 =>
    have outside : (pair []).size ≤ n + 2 := Nat.le_add_left 2 n
    obtain ⟨properties, items, entries⟩ := shown_of_size_le outside
    rw [Object.shown, properties, items, entries] at shown
    cases shown

/-- Two objects in a circle: the one that the dump begins with is written in full. Without the way
back nothing is cut, although one object is written twice. -/
theorem dump_cuts_circles_pair :
    let circle := pair [("Back", .object 0)]
    circle.InFull OnPath [] 0 (circle.dump (.object 0)) ∧
      (pair []).Dumps Nowhere [] (.object 0) ((pair []).dump (.object 0)) := by
  intro circle
  constructor
  · obtain ⟨follows, cuts, -⟩ := dump_cuts_circles circle (.object 0)
    have legible : (circle.object 0).Legible :=
      ⟨by decide, by decide, by decide, fun items => absurd rfl items,
        fun dictionary => by cases dictionary⟩
    exact (cuts [] 0 _ ((follows _).1 rfl)).2 nofun legible
  · refine (dump_cuts_circles (pair []) (.object 0)).2.2 fun root mem id reached circle => ?_
    -- Every step goes from the first object to the second.
    have steps : ∀ {a b : ObjectId}, TransGen (pair []).Shows a b → a = 0 ∧ b = 1 := by
      intro a b path
      induction path with
      | single shows => exact shows_pair shows
      | tail _ shows before => exact absurd ((shows_pair shows).1.symm.trans before.2) (by decide)
    obtain ⟨first, second⟩ := steps circle
    exact absurd (first.symm.trans second) (by decide)

/-- A property with the name of the member for the type takes its place, so that the type is not
written. -/
theorem property_hides_type :
    let h : Heap := ⟨#[nodeWith [("$type", .string "Other")]], []⟩
    h.dump (.object 0) = .members [("$type", .text "Other")] ∧
      ¬ h.InFull OnPath [] 0 (h.dump (.object 0)) := by
  intro h
  have dump : h.dump (.object 0) = .members [("$type", .text "Other")] := rfl
  refine ⟨dump, ?_⟩
  rintro ⟨properties, items, entries, -, -, -, same⟩
  rw [dump] at same
  have same : JsonValue.members [("$type", .text "Other")] =
    .members (("$type", .text "Node") :: ["$type"].zip properties ++ [] ++ []) := same
  simp [JsonValue.members, JsonValue.text] at same

end Heap

end MarkupLoader
