import MarkupLoader.Heap.Basic
import MarkupLoader.Proofs.Failing

/-!
# Heaps that match

Two loads of one document need not make their objects at the same places. **A matching** says
which object of one heap stands for which of another; it takes no object twice. Values match
(`Matching.Values`) if they differ in matched objects only, and heaps match (`Matching.Heaps`) if
matched objects have the same type and hold matching values at the same places and in the same
order.

* Reading matching heaps at matched places gives what matches, and so does writing there.
* A matching is extended when both heaps get an object, and goes on as it is when only one of them
  gets another.

Main results: `Heaps.modify`, `Heaps.extend`, `Heaps.resource`, `Heaps.append`.
-/

namespace MarkupLoader

/-- Which objects of one heap stand for which objects of another. -/
structure Matching where
  rel : ObjectId → ObjectId → Prop
  right : ∀ {i j k}, rel i j → rel i k → j = k
  left : ∀ {i j k}, rel i k → rel j k → i = j

namespace Matching

/-- Another matching matches what this one does, and perhaps more. -/
def Within (M N : Matching) : Prop := ∀ i j, M.rel i j → N.rel i j

theorem Within.refl (M : Matching) : M.Within M := fun _ _ related => related

theorem Within.trans {M N O : Matching} (first : M.Within N) (second : N.Within O) :
    M.Within O :=
  fun i j related => second i j (first i j related)

/-- Matched objects are the same on one side when they are on the other. -/
theorem eq_iff {M : Matching} {i i' j j' : ObjectId} (related : M.rel i j)
    (related' : M.rel i' j') : i' = i ↔ j' = j := by
  constructor
  · rintro rfl
    exact M.right related' related
  · rintro rfl
    exact M.left related' related

/-- The matching of every object below a place with itself. -/
def identity (size : Nat) : Matching where
  rel i j := i = j ∧ i < size
  right first second := first.1.symm.trans second.1
  left first second := first.1.trans second.1.symm

/-- A matching with one more pair, of objects that it does not match. -/
def extend (M : Matching) (i j : ObjectId) (newLeft : ∀ k, ¬ M.rel i k)
    (newRight : ∀ k, ¬ M.rel k j) : Matching where
  rel a b := M.rel a b ∨ a = i ∧ b = j
  right := by
    rintro a b c (first | ⟨rfl, rfl⟩) (second | ⟨is, rfl⟩)
    · exact M.right first second
    · exact absurd first (is ▸ newLeft b)
    · exact absurd second (newLeft c)
    · rfl
  left := by
    rintro a b c (first | ⟨rfl, rfl⟩) (second | ⟨rfl, is⟩)
    · exact M.left first second
    · exact absurd first (is ▸ newRight a)
    · exact absurd second (newRight b)
    · rfl

theorem within_extend (M : Matching) {i j : ObjectId} (newLeft : ∀ k, ¬ M.rel i k)
    (newRight : ∀ k, ¬ M.rel k j) : M.Within (M.extend i j newLeft newRight) := fun _ _ => Or.inl

/-! ## Values -/

section Options

variable {α β : Type} {r r' : α → β → Prop} {a : Option α} {b : Option β}

theorem isSome_of_rel (related : Option.Rel r a b) : a.isSome = b.isSome := by
  cases related <;> rfl

theorem exists_of_rel (related : Option.Rel r a b) {x : α} (is : a = some x) :
    ∃ y, b = some y ∧ r x y := by
  cases related with
  | some related =>
    cases is
    exact ⟨_, rfl, related⟩
  | none => cases is

theorem rel_mono (related : Option.Rel r a b) (weaken : ∀ x y, r x y → r' x y) :
    Option.Rel r' a b := by
  cases related with
  | some related => exact .some (weaken _ _ related)
  | none => exact .none

/-- What two functions find for the members of a list goes together. -/
theorem forall₂_filterMap {ι : Type} {f : ι → Option α} {g : ι → Option β} {list : List ι}
    (related : ∀ i ∈ list, Option.Rel r (f i) (g i)) :
    List.Forall₂ r (list.filterMap f) (list.filterMap g) := by
  induction list with
  | nil => exact .nil
  | cons i rest ih =>
    obtain ⟨here, later⟩ := List.forall_mem_cons.1 related
    rw [List.filterMap_cons, List.filterMap_cons]
    generalize f i = found at here
    generalize g i = found' at here
    cases here with
    | none => exact ih later
    | some related => exact .cons related (ih later)

end Options

section Values

/-- Values that differ in matched objects only. -/
inductive Values (M : Matching) : Value → Value → Prop
  | null : Values M .null .null
  | bool (b : Bool) : Values M (.bool b) (.bool b)
  | int (n : Int64) : Values M (.int n) (.int n)
  | float (x : Float) : Values M (.float x) (.float x)
  | string (s : String) : Values M (.string s) (.string s)
  | type (name : QName) : Values M (.type name) (.type name)
  | list {as bs : List Value} (length : as.length = bs.length)
      (items : ∀ p ∈ as.zip bs, Values M p.1 p.2) : Values M (.list as) (.list bs)
  | object {i j : ObjectId} (related : M.rel i j) : Values M (.object i) (.object j)

variable {M N : Matching}

theorem values_list {as bs : List Value} :
    M.Values (.list as) (.list bs) ↔ List.Forall₂ M.Values as bs := by
  rw [List.forall₂_iff_zip]
  constructor
  · intro matched
    cases matched with
    | list length items => exact ⟨length, fun mem => items _ mem⟩
  · rintro ⟨length, items⟩
    exact .list length fun p mem => items mem

theorem Values.mono {v w : Value} (matched : M.Values v w) (within : M.Within N) :
    N.Values v w := by
  induction matched with
  | null => exact .null
  | bool b => exact .bool b
  | int n => exact .int n
  | float x => exact .float x
  | string s => exact .string s
  | type name => exact .type name
  | list length _ ih => exact .list length ih
  | object related => exact .object (within _ _ related)

theorem Values.object? {v w : Value} (matched : M.Values v w) :
    Option.Rel M.rel v.object? w.object? := by
  cases matched with
  | object related => exact .some related
  | _ => exact .none

mutual

/-- A value matches itself, if all objects that it holds do. -/
theorem values_self : ∀ v : Value, (∀ i ∈ v.references, M.rel i i) → M.Values v v
  | .null, _ => .null
  | .bool b, _ => .bool b
  | .int n, _ => .int n
  | .float x, _ => .float x
  | .string s, _ => .string s
  | .type name, _ => .type name
  | .list items, held => values_list.2 (forall₂_values_self items held)
  | .object i, held => .object (held i List.mem_cons_self)

theorem forall₂_values_self :
    ∀ vs : List Value, (∀ i ∈ Value.referencesOf vs, M.rel i i) → List.Forall₂ M.Values vs vs
  | [], _ => .nil
  | v :: vs, held =>
    .cons (values_self v fun i mem => held i (List.mem_append_left _ mem))
      (forall₂_values_self vs fun i mem => held i (List.mem_append_right _ mem))

end

end Values

/-! ## Tables -/

section Tables

/-- Entries with the same keys and matching values. -/
def Entries (M : Matching) (entries others : List (String × Value)) : Prop :=
  List.Forall₂ (fun p q => p.1 = q.1 ∧ M.Values p.2 q.2) entries others

/-- Tables with the same keys in the same order and matching values. -/
def Tables (M : Matching) (t u : Table String Value) : Prop := M.Entries t.entries u.entries

variable {M N : Matching} {t u : Table String Value}

theorem Entries.mono {entries others : List (String × Value)} (matched : M.Entries entries others)
    (within : M.Within N) : N.Entries entries others :=
  List.Forall₂.imp (fun _ _ ⟨key, value⟩ => ⟨key, value.mono within⟩) matched

theorem tables_empty : M.Tables .empty .empty := List.Forall₂.nil

theorem Tables.mono (matched : M.Tables t u) (within : M.Within N) : N.Tables t u :=
  Entries.mono matched within

theorem Tables.get? (matched : M.Tables t u) (key : String) :
    Option.Rel M.Values (t.get? key) (u.get? key) := by
  obtain ⟨entries⟩ := t
  obtain ⟨others⟩ := u
  unfold Tables Entries at matched
  unfold Table.get?
  dsimp only at matched ⊢
  induction matched with
  | nil => exact .none
  | @cons p q rest rest' here _ ih =>
    obtain ⟨k, v⟩ := p
    obtain ⟨k', w⟩ := q
    obtain ⟨rfl, value⟩ : k = k' ∧ M.Values v w := here
    simp only [Table.find?]
    split
    · exact .some value
    · exact ih

theorem Tables.contains (matched : M.Tables t u) (key : String) :
    t.contains key = u.contains key :=
  isSome_of_rel (matched.get? key)

theorem Tables.insert (matched : M.Tables t u) (key : String) {v w : Value}
    (value : M.Values v w) : M.Tables (t.insert key v) (u.insert key w) := by
  obtain ⟨entries⟩ := t
  obtain ⟨others⟩ := u
  show M.Entries (Table.put key v entries) (Table.put key w others)
  unfold Tables Entries at matched
  dsimp only at matched
  induction matched with
  | nil => exact .cons ⟨rfl, value⟩ .nil
  | @cons p q rest rest' here later ih =>
    obtain ⟨k, old⟩ := p
    obtain ⟨k', old'⟩ := q
    obtain ⟨rfl, before⟩ : k = k' ∧ M.Values old old' := here
    simp only [Table.put]
    split
    · exact .cons ⟨rfl, value⟩ later
    · exact .cons ⟨rfl, before⟩ ih

theorem Entries.ofList {entries others : List (String × Value)}
    (matched : M.Entries entries others) : M.Tables (.ofList entries) (.ofList others) := by
  have all : ∀ t u : Table String Value, M.Tables t u →
      M.Tables (t.insertAll entries) (u.insertAll others) := by
    induction matched with
    | nil => exact fun _ _ tables => tables
    | @cons p q rest rest' here _ ih =>
      intro t u tables
      obtain ⟨k, v⟩ := p
      obtain ⟨k', w⟩ := q
      obtain ⟨rfl, value⟩ : k = k' ∧ M.Values v w := here
      exact ih _ _ (tables.insert k value)
  exact all _ _ tables_empty

end Tables

/-! ## Objects -/

/-- Templates of one document with matched objects around them. -/
structure Templates (M : Matching) (t u : Template) : Prop where
  tree : t.tree = u.tree
  outerScope : List.Forall₂ M.rel t.outerScope u.outerScope

/-- Objects of one type that hold matching values in the same places. -/
structure Objects (M : Matching) (o p : Object) : Prop where
  descriptor : o.descriptor = p.descriptor
  properties : M.Tables o.properties p.properties
  items : List.Forall₂ M.Values o.items p.items
  entries : M.Tables o.entries p.entries
  template : Option.Rel M.Templates o.template p.template

section Objects

variable {M N : Matching} {o p : Object}

theorem Templates.mono {t u : Template} (matched : M.Templates t u) (within : M.Within N) :
    N.Templates t u :=
  ⟨matched.tree, matched.outerScope.imp within⟩

theorem Objects.mono (matched : M.Objects o p) (within : M.Within N) : N.Objects o p where
  descriptor := matched.descriptor
  properties := matched.properties.mono within
  items := matched.items.imp fun _ _ value => value.mono within
  entries := matched.entries.mono within
  template := rel_mono matched.template fun _ _ template => template.mono within

theorem objects_ofType (d : TypeDescriptor) : M.Objects (.ofType d) (.ofType d) :=
  ⟨rfl, tables_empty, .nil, tables_empty, .none⟩

/-- An object matches itself, if all objects that it knows of do. -/
theorem objects_self {o : Object} (held : ∀ i ∈ o.references, M.rel i i)
    (around : ∀ t ∈ o.template, ∀ i ∈ t.outerScope, M.rel i i) : M.Objects o o := by
  have tables : ∀ t : Table String Value, (∀ i ∈ Value.referencesOf t.values, M.rel i i) →
      M.Tables t t := by
    rintro ⟨entries⟩ held
    unfold Tables Entries
    induction entries with
    | nil => exact .nil
    | cons entry rest ih =>
      refine .cons ⟨rfl, values_self entry.2 fun i mem => ?_⟩ (ih fun i mem => ?_)
      · exact held i (List.mem_append_left _ mem)
      · exact held i (List.mem_append_right _ mem)
  unfold Object.references at held
  refine ⟨rfl, tables _ fun i mem => ?_, forall₂_values_self _ fun i mem => ?_,
    tables _ fun i mem => ?_, ?_⟩
  · exact held i (List.mem_append_left _ (List.mem_append_left _ mem))
  · exact held i (List.mem_append_left _ (List.mem_append_right _ mem))
  · exact held i (List.mem_append_right _ mem)
  · cases template : o.template with
    | none => exact .none
    | some t => exact .some ⟨rfl, List.forall₂_same.2 (around t template)⟩

end Objects

/-! ## Heaps -/

/-- Heaps whose matched objects match. -/
structure Heaps (M : Matching) (h k : Heap) : Prop where
  inside : ∀ i j, M.rel i j → i < h.size ∧ j < k.size
  objects : ∀ i j, M.rel i j → M.Objects (h.object i) (k.object j)
  dead : ∀ i j, M.rel i j → (i ∈ h.dead ↔ j ∈ k.dead)
  /-- Only objects that there have been are dead. -/
  deadInside : (∀ i ∈ h.dead, i < h.size) ∧ ∀ j ∈ k.dead, j < k.size

namespace Heaps

variable {M : Matching} {h k : Heap}

section Reading

variable {i j : ObjectId}

theorem descriptor (heaps : M.Heaps h k) (related : M.rel i j) :
    h.descriptor i = k.descriptor j :=
  (heaps.objects i j related).descriptor

theorem kind (heaps : M.Heaps h k) (related : M.rel i j) : h.kind i = k.kind j :=
  congrArg TypeDescriptor.kind (heaps.descriptor related)

theorem typeName (heaps : M.Heaps h k) (related : M.rel i j) :
    (h.object i).typeName = (k.object j).typeName :=
  congrArg (fun d => d.name.localName) (heaps.descriptor related)

theorem get? (heaps : M.Heaps h k) (related : M.rel i j) (property : String) :
    Option.Rel M.Values (h.get? i property) (k.get? j property) :=
  (heaps.objects i j related).properties.get? property

theorem entry? (heaps : M.Heaps h k) (related : M.rel i j) (key : String) :
    Option.Rel M.Values (h.entry? i key) (k.entry? j key) :=
  (heaps.objects i j related).entries.get? key

theorem kindName (heaps : M.Heaps h k) {v w : Value} (value : M.Values v w) :
    h.kindName v = k.kindName w := by
  cases value with
  | object related => exact heaps.typeName related
  | _ => rfl

theorem isOfKind (heaps : M.Heaps h k) {v w : Value} (value : M.Values v w) (kind : TypeKind) :
    h.isOfKind kind v = k.isOfKind kind w := by
  cases value with
  | object related => exact congrArg (fun given => decide (given = kind)) (heaps.kind related)
  | _ => rfl

theorem rel_or {a a' b b' : Option Value} (first : Option.Rel M.Values a a')
    (second : Option.Rel M.Values b b') : Option.Rel M.Values (a.or b) (a'.or b') := by
  cases first with
  | some value => exact .some value
  | none => exact second

theorem resource? (heaps : M.Heaps h k) (related : M.rel i j) (key : String) :
    Option.Rel M.Values (h.resource? i key) (k.resource? j key) := by
  unfold Heap.resource?
  refine rel_or ?_ ?_
  · rw [heaps.kind related]
    split
    · exact heaps.entry? related key
    · exact .none
  · have held := heaps.get? related Heap.resourcesProperty
    generalize h.get? i Heap.resourcesProperty = found at held
    generalize k.get? j Heap.resourcesProperty = found' at held
    cases held with
    | none => exact .none
    | some value =>
      cases value with
      | @object resources resources' inner =>
        -- An object is not its own resources, on either side.
        dsimp only
        by_cases own : resources = i
        · rw [if_pos own, if_pos ((M.eq_iff related inner).1 own)]
          exact .none
        · rw [if_neg own, if_neg fun own' => own ((M.eq_iff related inner).2 own')]
          exact heaps.entry? inner key
      | _ => exact .none

end Reading

/-! ### Writing -/

section Writing

variable {i j : ObjectId}

/-- Two changes of matched objects that leave them matching. -/
theorem modify (heaps : M.Heaps h k) (related : M.rel i j) {change change' : Object → Object}
    (changed : M.Objects (change (h.object i)) (change' (k.object j))) :
    M.Heaps (h.modify i change) (k.modify j change') where
  inside a b pair := by
    rw [Heap.size_modify, Heap.size_modify]
    exact heaps.inside a b pair
  objects a b pair := by
    obtain ⟨inside, inside'⟩ := heaps.inside i j related
    by_cases here : a = i
    · obtain rfl := here
      obtain rfl := M.right related pair
      rw [Heap.object_modify _ inside, Heap.object_modify _ inside']
      exact changed
    · rw [Heap.object_modify_of_ne _ here,
        Heap.object_modify_of_ne _ fun there => here ((M.eq_iff related pair).2 there)]
      exact heaps.objects a b pair
  dead := heaps.dead
  deadInside := by
    rw [Heap.size_modify, Heap.size_modify]
    exact heaps.deadInside

theorem set (heaps : M.Heaps h k) (related : M.rel i j) (property : String) {v w : Value}
    (value : M.Values v w) : M.Heaps (h.set i property v) (k.set j property w) := by
  have before := heaps.objects i j related
  exact heaps.modify related { before with properties := before.properties.insert property value }

theorem addItem (heaps : M.Heaps h k) (related : M.rel i j) {v w : Value}
    (value : M.Values v w) : M.Heaps (h.addItem i v) (k.addItem j w) := by
  have before := heaps.objects i j related
  exact heaps.modify related
    { before with items := List.rel_append before.items (.cons value .nil) }

theorem append (heaps : M.Heaps h k) (related : M.rel i j) (property : String) {v w : Value}
    (value : M.Values v w) :
    Alike M.Heaps (h.append i property v) (k.append j property w) := by
  have fresh : M.Values (.list [v]) (.list [w]) := values_list.2 (.cons value .nil)
  unfold Heap.append
  have held := heaps.get? related property
  generalize h.get? i property = found at held
  generalize k.get? j property = found' at held
  cases held with
  | none => exact .ok (heaps.set related property fresh)
  | some held =>
    have name := heaps.kindName held
    cases held with
    | null => exact .ok (heaps.set related property fresh)
    | list length items =>
      have items := values_list.1 (.list length items)
      exact .ok (heaps.set related property
        (values_list.2 (List.rel_append items (.cons value .nil))))
    | object inner =>
      dsimp only
      rw [heaps.kind inner, name]
      split
      · exact .ok (heaps.addItem inner value)
      · exact .error _
    | _ => exact .error _

/-- An object of the first heap alone is matched with nothing. -/
theorem allocLeft (heaps : M.Heaps h k) (o : Object) : M.Heaps (h.alloc o).2 k where
  inside a b pair := by
    obtain ⟨inside, inside'⟩ := heaps.inside a b pair
    exact ⟨Nat.lt_of_lt_of_le inside (h.size_alloc o ▸ Nat.le_succ _), inside'⟩
  objects a b pair := by
    rw [Heap.object_alloc_of_lt (heaps.inside a b pair).1]
    exact heaps.objects a b pair
  dead := heaps.dead
  deadInside :=
    ⟨fun a mem => Nat.lt_of_lt_of_le (heaps.deadInside.1 a mem) (h.size_alloc o ▸ Nat.le_succ _),
      heaps.deadInside.2⟩

/-- The next objects of two heaps are matched with nothing. -/
theorem unmatched (heaps : M.Heaps h k) :
    (∀ b, ¬ M.rel h.size b) ∧ ∀ a, ¬ M.rel a k.size := by
  constructor
  · intro b pair
    exact Nat.lt_irrefl _ (heaps.inside _ _ pair).1
  · intro a pair
    exact Nat.lt_irrefl _ (heaps.inside _ _ pair).2

/-- Matching objects are matched when both heaps get them, and no others are. -/
theorem extend (heaps : M.Heaps h k) {o p : Object} (objects : M.Objects o p) :
    (M.extend h.size k.size heaps.unmatched.1 heaps.unmatched.2).Heaps
      (h.alloc o).2 (k.alloc p).2 := by
  refine ⟨?_, ?_, ?_, ?_, ?_⟩
  · rintro a b (pair | ⟨rfl, rfl⟩)
    · obtain ⟨inside, inside'⟩ := heaps.inside a b pair
      rw [Heap.size_alloc, Heap.size_alloc]
      exact ⟨Nat.lt_succ_of_lt inside, Nat.lt_succ_of_lt inside'⟩
    · rw [Heap.size_alloc, Heap.size_alloc]
      exact ⟨Nat.lt_succ_self _, Nat.lt_succ_self _⟩
  · rintro a b (pair | ⟨rfl, rfl⟩)
    · obtain ⟨inside, inside'⟩ := heaps.inside a b pair
      rw [Heap.object_alloc_of_lt inside, Heap.object_alloc_of_lt inside']
      exact (heaps.objects a b pair).mono (M.within_extend _ _)
    · have here : (h.alloc o).2.object h.size = o := Heap.object_alloc h o
      have there : (k.alloc p).2.object k.size = p := Heap.object_alloc k p
      rw [here, there]
      exact objects.mono (M.within_extend _ _)
  · rintro a b (pair | ⟨rfl, rfl⟩)
    · exact heaps.dead a b pair
    · exact ⟨fun mem => absurd (heaps.deadInside.1 _ mem) (Nat.lt_irrefl _),
        fun mem => absurd (heaps.deadInside.2 _ mem) (Nat.lt_irrefl _)⟩
  · intro a mem
    rw [Heap.size_alloc]
    exact Nat.lt_succ_of_lt (heaps.deadInside.1 a mem)
  · intro b mem
    rw [Heap.size_alloc]
    exact Nat.lt_succ_of_lt (heaps.deadInside.2 b mem)

theorem alloc (heaps : M.Heaps h k) {o p : Object} (objects : M.Objects o p) :
    ∃ N : Matching, M.Within N ∧ N.rel h.size k.size ∧ N.Heaps (h.alloc o).2 (k.alloc p).2 :=
  ⟨_, M.within_extend _ _, Or.inr ⟨rfl, rfl⟩, heaps.extend objects⟩

end Writing

end Heaps

end Matching

/-! ## A heap and itself -/

/-- A heap in which nothing names an object that there has never been. -/
structure Heap.Closed (h : Heap) : Prop where
  held : ∀ id < h.size, ∀ i ∈ (h.object id).references, i < h.size
  around : ∀ id < h.size, ∀ t ∈ (h.object id).template, ∀ i ∈ t.outerScope, i < h.size
  dead : ∀ i ∈ h.dead, i < h.size

theorem Heap.Closed.heaps {h : Heap} (closed : h.Closed) :
    (Matching.identity h.size).Heaps h h where
  inside := by
    rintro i _ ⟨rfl, inside⟩
    exact ⟨inside, inside⟩
  objects := by
    rintro i _ ⟨rfl, inside⟩
    exact Matching.objects_self (fun j mem => ⟨rfl, closed.held i inside j mem⟩)
      fun t mem j around => ⟨rfl, closed.around i inside t mem j around⟩
  dead := by
    rintro i _ ⟨rfl, -⟩
    exact Iff.rfl
  deadInside := ⟨closed.dead, closed.dead⟩

end MarkupLoader
