import Mathlib.Data.Set.Finite.Basic
import Mathlib.Logic.Relation
import MarkupLoader.Heap.Liveness
import MarkupLoader.Proofs.Valued
import MarkupLoader.Proofs.Writes

/-!
# What holds what

An object holds others in its properties, items and entries (`Heap.Holds`); a template does not
hold what it remembers. Objects that hold each other in a circle stay alive when nothing else holds
any of them. **Where there is no circle, only what a root leads to survives**
(`reached_of_survives`).

A load makes no circle if its objects can be given ranks that grow from an object to what it holds
(`Heap.Ranked`). Every write keeps to the ranks if the value that is written does (`Heap.Follows`).
One write needs more: a value that is added to a property may become an item of **the collection
that the property holds**, and so it has to come after that one, too (`Heap.Under`). Objects that
take values in the order of their ranks keep to this (`Heap.Takes`).

Main results: `reached_of_survives`, `Ranked.releases`, `Ranked.assign`, `Ranked.assignAll`.
-/

namespace MarkupLoader

open Relation

/-! ## References -/

theorem Value.mem_referencesOf {values : List Value} {n : ObjectId} :
    n ∈ referencesOf values ↔ ∃ value ∈ values, n ∈ value.references := by
  induction values with
  | nil => simp [referencesOf]
  | cons value rest ih => simp [referencesOf, ih]

/-- What is in a table after an insertion has been inserted or was there. -/
theorem Table.mem_values_insert {κ α : Type} [DecidableEq κ] {t : Table κ α} {key : κ}
    {value found : α} (mem : found ∈ (t.insert key value).values) :
    found = value ∨ found ∈ t.values := by
  obtain ⟨entries⟩ := t
  simp only [insert, values] at mem ⊢
  induction entries with
  | nil => simpa [put] using mem
  | cons entry rest ih =>
    unfold put at mem
    split at mem
    · rw [List.map_cons, List.mem_cons] at mem
      exact mem.imp_right (List.mem_cons_of_mem _)
    · rw [List.map_cons, List.mem_cons] at mem
      rcases mem with here | later
      · exact .inr (here ▸ List.mem_cons_self)
      · exact (ih later).imp_right (List.mem_cons_of_mem _)

theorem Object.mem_references {o : Object} {n : ObjectId} :
    n ∈ o.references ↔ (∃ value ∈ o.properties.values, n ∈ value.references) ∨
      (∃ value ∈ o.items, n ∈ value.references) ∨
        ∃ value ∈ o.entries.values, n ∈ value.references := by
  simp only [references, List.mem_append, Value.mem_referencesOf, or_assoc]

namespace Heap

variable {h : Heap}

/-- An object holds another. -/
def Holds (h : Heap) (n m : ObjectId) : Prop := m ∈ (h.object n).references

instance (n m : ObjectId) : Decidable (h.Holds n m) :=
  inferInstanceAs (Decidable (m ∈ (h.object n).references))

/-- An object holds those that are in its properties. -/
theorem holds_of_get? {n m : ObjectId} {key : String} (is : h.get? n key = some (.object m)) :
    h.Holds n m := by
  refine Object.mem_references.2 (.inl ⟨.object m, ?_, List.mem_singleton_self m⟩)
  exact List.mem_map.2 ⟨(key, .object m), Table.mem_entries_of_get? is, rfl⟩

/-- What holds no object but by its properties. -/
theorem references_of_properties {o : Object} {n : ObjectId}
    (items : o.items = []) (entries : o.entries = .empty) (mem : n ∈ o.references) :
    ∃ value ∈ o.properties.values, n ∈ value.references := by
  rcases Object.mem_references.1 mem with held | held | held
  · exact held
  · rw [items] at held
    simp at held
  · rw [entries] at held
    simp [Table.empty, Table.values] at held

/-! ## What survives -/

section Surviving

variable {roots : List ObjectId} {n : ObjectId}

theorem mem_held {kept : List ObjectId} :
    n ∈ h.held roots kept ↔ n ∈ roots ∨ ∃ m ∈ kept, h.Holds m n := by
  simp [held, Holds]

/-- After enough rounds all that is left is held. -/
theorem mem_held_of_keepHeld {rounds : Nat} {kept : List ObjectId} (enough : kept.length ≤ rounds)
    (mem : n ∈ h.keepHeld roots rounds kept) :
    n ∈ h.held roots (h.keepHeld roots rounds kept) := by
  induction rounds generalizing kept with
  | zero =>
    rw [List.eq_nil_of_length_eq_zero (Nat.le_zero.1 enough)] at mem
    cases mem
  | succ rounds ih =>
    unfold keepHeld at mem ⊢
    dsimp only at mem ⊢
    split at mem
    case isTrue same =>
      rw [if_pos same]
      simpa using List.length_filter_eq_length_iff.1 same n mem
    case isFalse fewer =>
      have less := List.length_filter_le (h.held roots kept).contains kept
      rw [if_neg fewer]
      exact ih (by omega) mem

/-- What survives is a root, or held by what survives. -/
theorem held_of_survives (survives : n ∈ h.survivors roots) :
    n ∈ roots ∨ ∃ m ∈ h.survivors roots, h.Holds m n := by
  have enough : h.living.length ≤ h.size := by
    have fewer := List.length_filter_le h.isAlive (List.range h.size)
    rwa [List.length_range] at fewer
  exact mem_held.1 (mem_held_of_keepHeld enough survives)

theorem inside_of_survives (survives : n ∈ h.survivors roots) : n < h.size :=
  List.mem_range.1 (List.mem_filter.1 (keepHeld_subset h roots _ survives)).1

theorem survives_of_isAlive (alive : (h.retain roots).isAlive n = true) :
    n ∈ h.survivors roots := by
  refine (mem_living_retain h roots n).1 (List.mem_filter.2 ⟨List.mem_range.2 ?_, alive⟩)
  unfold isAlive at alive
  simp only [Bool.and_eq_true, decide_eq_true_eq] at alive
  exact alive.1

/-- Some roots lead to an object. -/
def ReachedFrom (h : Heap) (roots : List ObjectId) (n : ObjectId) : Prop :=
  ∃ root ∈ roots, ReflTransGen h.Holds root n

/-- **What survives without a circle is what the roots lead to.** -/
theorem reached_of_survives (survives : n ∈ h.survivors roots)
    (acyclic : ∀ m, ReflTransGen h.Holds m n → ¬ TransGen h.Holds m m) :
    h.ReachedFrom roots n := by
  -- Going up from a survivor to one that holds it comes to an end, as there are finitely many.
  let Leading := {m : Fin h.size // m.1 ∈ h.survivors roots ∧ ReflTransGen h.Holds m.1 n}
  let above : Leading → Leading → Prop := fun a b => TransGen h.Holds a.1.1 b.1.1
  have : IsTrans Leading above := ⟨fun _ _ _ first second => first.trans second⟩
  have : Std.Irrefl above := ⟨fun a => acyclic a.1.1 a.2.2⟩
  have : Finite Leading := Subtype.finite
  have ends : WellFounded above := Finite.wellFounded_of_trans_of_irrefl above
  suffices each : ∀ a : Leading, h.ReachedFrom roots a.1.1 from
    each ⟨⟨n, inside_of_survives survives⟩, survives, .refl⟩
  intro a
  induction a using ends.induction with
  | _ a ih =>
    rcases held_of_survives a.2.1 with root | ⟨m, there, holds⟩
    · exact ⟨_, root, .refl⟩
    · obtain ⟨root, mem, path⟩ :=
        ih ⟨⟨m, inside_of_survives there⟩, there, a.2.2.head holds⟩ (.single holds)
      exact ⟨root, mem, path.tail holds⟩

end Surviving

/-! ## Ranked heaps -/

/-- A later heap in which the objects of before are as they were, and each new one holds only new
ones of a later rank. -/
structure Ranked (before : Heap) (rank : ObjectId → List Nat) (h : Heap) : Prop where
  size : before.size ≤ h.size
  old : ∀ n < before.size, h.object n = before.object n
  held : ∀ n m, before.size ≤ n → h.Holds n m → before.size ≤ m ∧ m < h.size ∧ rank n < rank m
  /-- What a new template remembers is new. -/
  around : ∀ n, before.size ≤ n → ∀ kept, (h.object n).template = some kept →
    ∀ m ∈ kept.outerScope, before.size ≤ m ∧ m < h.size

/-- What a load leaves that has made no circle. -/
structure Releases (before after : Heap) : Prop where
  /-- Objects hold each other in a circle only where they have done so before. -/
  acyclic : ∀ n, TransGen after.Holds n n → TransGen before.Holds n n
  /-- Once nothing but what has been there before is kept, all that is new dies. -/
  dies : ∀ roots, (∀ root ∈ roots, root < before.size) → ∀ n, before.size ≤ n →
    (after.retain roots).isAlive n = false
  /-- Whatever is kept, no more of what is new stays alive than that leads to. -/
  reached : ∀ roots n, before.size ≤ n → (after.retain roots).isAlive n = true →
    after.ReachedFrom roots n
  /-- What a new template sees of the objects around it is what leads from what is kept. -/
  around : ∀ roots n, before.size ≤ n → ∀ m ∈ (Request.instantiate n).around (after.retain roots),
    after.ReachedFrom roots m

section Ranked

variable {before : Heap} {rank : ObjectId → List Nat} {n m : ObjectId}

/-- What is new leads to what is new and later. -/
theorem Ranked.later (ranked : Ranked before rank h) (new : before.size ≤ n)
    (path : TransGen h.Holds n m) : before.size ≤ m ∧ rank n < rank m := by
  induction path with
  | single holds =>
    obtain ⟨new', -, less⟩ := ranked.held _ _ new holds
    exact ⟨new', less⟩
  | tail _ holds ih =>
    obtain ⟨new', -, less⟩ := ranked.held _ _ ih.1 holds
    exact ⟨new', List.lt_trans ih.2 less⟩

theorem Ranked.irrefl (ranked : Ranked before rank h) (new : before.size ≤ n) :
    ¬ TransGen h.Holds n n :=
  fun circle => List.lt_irrefl _ (ranked.later new circle).2

/-- What was there leads to what was there by ways that were there. -/
theorem Ranked.before_of_path (ranked : Ranked before rank h) (path : TransGen h.Holds n m)
    (old : m < before.size) : TransGen before.Holds n m := by
  have step : ∀ {a b}, b < before.size → h.Holds a b → a < before.size ∧ before.Holds a b := by
    intro a b old holds
    have oldToo : a < before.size := Nat.lt_of_not_le fun new =>
      absurd (ranked.held a b new holds).1 (Nat.not_le_of_lt old)
    refine ⟨oldToo, ?_⟩
    unfold Holds at holds ⊢
    rwa [← ranked.old a oldToo]
  -- From the end of the way, which is the place that is known to be old.
  induction path with
  | single holds => exact .single (step old holds).2
  | tail _ holds ih =>
    obtain ⟨oldToo, holds'⟩ := step old holds
    exact (ih oldToo).tail holds'

/-- What leads to something new is new, if what was there held nothing that was not. -/
theorem Ranked.new_of_path (ranked : Ranked before rank h) (closed : before.Closed)
    (path : ReflTransGen h.Holds m n) (new : before.size ≤ n) : before.size ≤ m := by
  refine Nat.le_of_not_lt fun old => ?_
  -- From the start of the way: what was there still holds only what was there.
  induction path using ReflTransGen.head_induction_on with
  | refl => exact absurd old (Nat.not_lt_of_le new)
  | head holds _ ih =>
    unfold Holds at holds
    rw [ranked.old _ old] at holds
    exact ih (closed.held _ old _ holds)

/-- **A load that keeps to ranks makes no circle**, and so all that it has made dies when it is no
longer kept. -/
theorem Ranked.releases (ranked : Ranked before rank h) (closed : before.Closed) :
    before.Releases h := by
  have reached : ∀ roots n, before.size ≤ n → (h.retain roots).isAlive n = true →
      h.ReachedFrom roots n := by
    intro roots n new alive
    refine reached_of_survives (survives_of_isAlive alive) fun m path => ?_
    exact ranked.irrefl (ranked.new_of_path closed path new)
  refine ⟨fun n circle => ?_, fun roots old n new => ?_, reached, fun roots n new m seen => ?_⟩
  · -- A new object is on no circle, and an old one only by ways that were there.
    have old : n < before.size := Nat.lt_of_not_le fun new => ranked.irrefl new circle
    exact ranked.before_of_path circle old
  · -- What would keep a new object alive is new itself.
    refine Bool.eq_false_iff.2 fun alive => ?_
    obtain ⟨root, mem, path⟩ := reached roots n new alive
    exact absurd (ranked.new_of_path closed path new) (Nat.not_le_of_lt (old root mem))
  · have same : ((h.retain roots).object n).template = (h.object n).template := rfl
    simp only [Request.around, same] at seen
    cases keeps : (h.object n).template with
    | none =>
      rw [keeps] at seen
      cases seen
    | some kept =>
      rw [keeps] at seen
      obtain ⟨mem, alive⟩ := List.mem_filter.1 seen
      obtain ⟨newToo, inside⟩ := ranked.around n new kept keeps m mem
      have here : m < (h.retain roots).size := inside
      refine reached roots m newToo ?_
      rw [isAlive, decide_eq_true here]
      exact alive

/-! ## Writes -/

/-- What a value holds is new and comes after an object. -/
def Follows (before : Heap) (rank : ObjectId → List Nat) (h : Heap) (n : ObjectId) (value : Value) :
    Prop :=
  ∀ m ∈ value.references, before.size ≤ m ∧ m < h.size ∧ rank n < rank m

/-- Objects of a kind that are in the properties of an object come before some place. -/
def Under (rank : ObjectId → List Nat) (kind : TypeKind) (h : Heap) (n : ObjectId)
    (place : List Nat) : Prop :=
  ∀ key m, h.get? n key = some (.object m) → h.kind m = kind → rank m < place

theorem follows_of_simple {value : Value} (none : value.references = []) :
    Follows before rank h n value := by
  intro m mem
  rw [none] at mem
  cases mem

theorem Under.mono {kind : TypeKind} {place other : List Nat} (under : Under rank kind h n place)
    (less : place < other) : Under rank kind h n other :=
  fun key m is kind => List.lt_trans (under key m is kind) less

theorem Ranked.modify (ranked : Ranked before rank h) (new : before.size ≤ n)
    {change : Object → Object}
    (held : ∀ m ∈ (change (h.object n)).references,
      h.Holds n m ∨ before.size ≤ m ∧ m < h.size ∧ rank n < rank m)
    (around : ∀ kept, (change (h.object n)).template = some kept → ∀ m ∈ kept.outerScope,
      before.size ≤ m ∧ m < h.size) : Ranked before rank (h.modify n change) where
  size := (size_modify h n change).symm ▸ ranked.size
  old m old := by
    rw [object_modify_of_ne change (Nat.ne_of_lt (Nat.lt_of_lt_of_le old new)), ranked.old m old]
  held k m newToo holds := by
    rw [size_modify]
    rw [Holds] at holds
    rcases object_modify_or h n change k with same | ⟨rfl, is⟩
    · rw [same] at holds
      exact ranked.held k m newToo holds
    · rcases held m (is ▸ holds) with earlier | now
      · exact ranked.held k m newToo earlier
      · exact now
  around k newToo kept keeps m mem := by
    rw [size_modify]
    rcases object_modify_or h n change k with same | ⟨rfl, is⟩
    · exact ranked.around k newToo kept (same ▸ keeps) m mem
    · exact around kept (is ▸ keeps) m mem

/-- Properties of a new object are set to values that come after it. -/
theorem Ranked.set (ranked : Ranked before rank h) (new : before.size ≤ n) (key : String)
    {value : Value} (follows : Follows before rank h n value) :
    Ranked before rank (h.set n key value) := by
  refine ranked.modify new (fun m mem => ?_) (ranked.around n new)
  rcases Object.mem_references.1 mem with ⟨found, there, holds⟩ | others
  · rcases Table.mem_values_insert there with rfl | earlier
    · exact .inr (follows m holds)
    · exact .inl (Object.mem_references.2 (.inl ⟨found, earlier, holds⟩))
  · exact .inl (Object.mem_references.2 (.inr others))

theorem Ranked.addItem (ranked : Ranked before rank h) (new : before.size ≤ n) {value : Value}
    (follows : Follows before rank h n value) : Ranked before rank (h.addItem n value) := by
  refine ranked.modify new (fun m mem => ?_) (ranked.around n new)
  rcases Object.mem_references.1 mem with property | ⟨found, there, holds⟩ | entry
  · exact .inl (Object.mem_references.2 (.inl property))
  · rcases List.mem_append.1 there with earlier | last
    · exact .inl (Object.mem_references.2 (.inr (.inl ⟨found, earlier, holds⟩)))
    · rw [List.mem_singleton.1 last] at holds
      exact .inr (follows m holds)
  · exact .inl (Object.mem_references.2 (.inr (.inr entry)))

theorem Ranked.putEntry (ranked : Ranked before rank h) (new : before.size ≤ n) (key : String)
    {value : Value} (follows : Follows before rank h n value) :
    Ranked before rank (h.putEntry n key value) := by
  refine ranked.modify new (fun m mem => ?_) (ranked.around n new)
  rcases Object.mem_references.1 mem with property | item | ⟨found, there, holds⟩
  · exact .inl (Object.mem_references.2 (.inl property))
  · exact .inl (Object.mem_references.2 (.inr (.inl item)))
  · rcases Table.mem_values_insert there with rfl | earlier
    · exact .inr (follows m holds)
    · exact .inl (Object.mem_references.2 (.inr (.inr ⟨found, earlier, holds⟩)))

/-- A new template remembers what is new. -/
theorem Ranked.scope (ranked : Ranked before rank h) (new : before.size ≤ n)
    {around : List ObjectId} (all : ∀ m ∈ around, before.size ≤ m ∧ m < h.size) :
    Ranked before rank (h.modify n fun o =>
      { o with template := o.template.map fun t => { t with outerScope := around } }) := by
  refine ranked.modify new (fun m mem => .inl mem) fun kept keeps m mem => ?_
  obtain ⟨_, -, rfl⟩ := Option.map_eq_some_iff.1 keeps
  exact all m mem

/-- A new object with nothing in it may be given any rank. -/
theorem Ranked.alloc (ranked : Ranked before rank h) (d : TypeDescriptor)
    {rank' : ObjectId → List Nat} (same : ∀ m < h.size, rank' m = rank m) :
    Ranked before rank' (h.alloc (.ofType d)).2 := by
  have size := size_alloc h (.ofType d)
  have here : (h.alloc (.ofType d)).2.object h.size = .ofType d := object_alloc h _
  -- What is at other places is as it was, or not there.
  have others : ∀ n, n ≠ h.size → (h.alloc (.ofType d)).2.object n = h.object n := by
    intro n ne
    have other : n ≠ h.objects.size := ne
    simp [Heap.alloc, object, Array.getElem?_push, other]
  have outside : ∀ n m, h.Holds n m → n < h.size := by
    intro n m holds
    refine Nat.lt_of_not_le fun outside => ?_
    rw [Holds, object_of_size_le outside] at holds
    cases holds
  refine ⟨?_, fun n old => ?_, fun n m new holds => ?_, fun n new kept keeps m mem => ?_⟩
  · have grown := ranked.size
    omega
  · have ne : n ≠ h.size := Nat.ne_of_lt (Nat.lt_of_lt_of_le old ranked.size)
    rw [others n ne, ranked.old n old]
  · by_cases ne : n = h.size
    · rw [Holds, ne, here] at holds
      cases holds
    · rw [Holds, others n ne] at holds
      obtain ⟨new', inside, less⟩ := ranked.held n m new holds
      rw [same n (outside n m holds), same m inside, size]
      exact ⟨new', Nat.lt_succ_of_lt inside, less⟩
  · by_cases ne : n = h.size
    · rw [ne, here] at keeps
      cases keeps
    · rw [others n ne] at keeps
      obtain ⟨new', inside⟩ := ranked.around n new kept keeps m mem
      exact ⟨new', size ▸ Nat.lt_succ_of_lt inside⟩

/-! ## Assignments -/

section Under

variable {kind : TypeKind} {place : List Nat}

/-- Where kinds and properties stay, so does what is in the properties. -/
theorem Under.congr {after : Heap} (under : Under rank kind h n place) (kinds : after.kind = h.kind)
    (same : ∀ key, after.get? n key = h.get? n key) : Under rank kind after n place := by
  intro key m is kindOf
  rw [same] at is
  rw [kinds] at kindOf
  exact under key m is kindOf

theorem kind_set (h : Heap) (id : ObjectId) (key : String) (value : Value) :
    (h.set id key value).kind = h.kind :=
  funext (assigning_sameTypes.set h id key value).kind

theorem kind_addItem (h : Heap) (id : ObjectId) (value : Value) :
    (h.addItem id value).kind = h.kind :=
  funext (assigning_sameTypes.item h id value).kind

/-- A property is set to an object of the kind that comes before the place, or to anything else. -/
theorem Under.set (under : Under rank kind h n place) (key : String) {value : Value}
    (first : ∀ m, value = .object m → h.kind m = kind → rank m < place) :
    Under rank kind (h.set n key value) n place := by
  intro other m is kindOf
  rw [kind_set] at kindOf
  unfold Heap.get? Heap.set at is
  rcases object_modify_or h n (fun o => { o with properties := o.properties.insert key value }) n
    with same | ⟨-, changed⟩
  · rw [same] at is
    exact under other m is kindOf
  · rw [changed] at is
    rcases Table.get?_insert is with ⟨-, rfl⟩ | earlier
    · exact first m rfl kindOf
    · exact under other m earlier kindOf

end Under

/-- Coercion gives the value itself or one that holds no object. -/
theorem eq_or_simple_of_coerce {type : PropertyType} {value stored : Value}
    (coerced : h.coerce value type = .ok stored) : stored = value ∨ stored.references = [] := by
  unfold coerce at coerced
  split at coerced
  case h_3 =>
    -- What a text is read as holds nothing that would have to be in a heap.
    have nowhere := (conforms_of_coerceText (h := .empty) coerced).2
    exact .inr (List.eq_nil_iff_forall_not_mem.2 fun m mem => Nat.not_lt_zero m (nowhere m mem))
  case h_13 => exact .inl (conforms_of_coerceObject coerced).2
  case h_14 => cases coerced
  all_goals
    cases coerced
    first | exact .inl rfl | exact .inr rfl

/-- An object has taken some values: the ranks are kept, and collections in its properties come
before every place that they came before, if the values do. -/
structure Takes (before : Heap) (rank : ObjectId → List Nat) (h : Heap) (n : ObjectId)
    (values : List Value) (after : Heap) : Prop where
  ranked : Ranked before rank after
  under : ∀ place, Under rank .collection h n place →
    (∀ value ∈ values, ∀ m ∈ value.references, rank m < place) →
      Under rank .collection after n place

namespace Takes

variable {middle after : Heap} {values others : List Value}

theorem nothing (ranked : Ranked before rank h) : Takes before rank h n values h :=
  ⟨ranked, fun _ earlier _ => earlier⟩

theorem append (first : Takes before rank h n values middle)
    (second : Takes before rank middle n others after) :
    Takes before rank h n (values ++ others) after := by
  refine ⟨second.ranked, fun place earlier all => ?_⟩
  obtain ⟨here, later⟩ := List.forall_mem_append.1 all
  exact second.under place (first.under place earlier here) later

/-- A property that does not hold a collection of a late place is set. -/
theorem set (ranked : Ranked before rank h) (new : before.size ≤ n) (key : String) {value : Value}
    (follows : Follows before rank h n value)
    (first : ∀ m, value = .object m → ∃ given ∈ values, m ∈ given.references) :
    Takes before rank h n values (h.set n key value) := by
  refine ⟨ranked.set new key follows, fun place earlier all => earlier.set key fun m is _ => ?_⟩
  obtain ⟨given, mem, holds⟩ := first m is
  exact all given mem m holds

/-- A new object takes an item; its properties stay. -/
theorem item (ranked : Ranked before rank h) {k : ObjectId} (new : before.size ≤ k) {value : Value}
    (follows : Follows before rank h k value) :
    Takes before rank h n values (h.addItem k value) := by
  refine ⟨ranked.addItem new follows, fun place earlier _ => ?_⟩
  exact earlier.congr (kind_addItem h k value) fun _ => get?_addItem h k value

end Takes

/-- **Assigning a value keeps to the ranks** if the value comes after the object and after the
collections that the object has as properties. Only what the value holds can have become a property
of the object. -/
theorem Ranked.assign (ranked : Ranked before rank h) (new : before.size ≤ n) {target : Target}
    {value : Value} {after : Heap} (follows : Follows before rank h n value)
    (under : ∀ m ∈ value.references, Under rank .collection h n (rank m))
    (assigned : h.assign n target value = .ok after) :
    Takes before rank h n [value] after := by
  have whole : Takes before rank h n [value] (h.set n target.key value) :=
    .set ranked new _ follows fun m is =>
      ⟨value, List.mem_singleton_self value, is ▸ List.mem_singleton_self m⟩
  by_cases type : target.type = .collection
  · cases assigned_of_assign assigned with
    | whole => exact whole
    | first =>
      refine .set ranked new _ (fun m mem => follows m ?_) fun _ is => by cases is
      simpa [Value.references, Value.referencesOf] using mem
    | @next items _ _ held =>
      refine .set ranked new _ (fun m mem => ?_) fun _ is => by cases is
      obtain ⟨found, there, holds⟩ := Value.mem_referencesOf.1 mem
      rcases List.mem_append.1 there with earlier | last
      · -- What the list has held before, the object has held.
        refine ranked.held n m new (Object.mem_references.2 (.inl ⟨.list items, ?_, ?_⟩))
        · exact List.mem_map.2 ⟨(target.key, .list items), Table.mem_entries_of_get? held, rfl⟩
        · exact Value.mem_referencesOf.2 ⟨found, earlier, holds⟩
      · exact follows m (List.mem_singleton.1 last ▸ holds)
    | @added k _ _ held kind =>
      obtain ⟨newToo, -, -⟩ := ranked.held n k new (holds_of_get? held)
      refine .item ranked newToo fun m mem => ?_
      -- The collection comes before the value, since it is a property of the object.
      obtain ⟨new', inside, -⟩ := follows m mem
      exact ⟨new', inside, under m mem _ k held kind⟩
    | coerced other => exact absurd type other
  · -- A property of another type is set to what the value is coerced to.
    unfold Heap.assign at assigned
    rw [if_neg type] at assigned
    split at assigned
    case h_1 stored coerced =>
      cases assigned
      rcases eq_or_simple_of_coerce coerced with rfl | simple
      · exact whole
      · refine .set ranked new _ (follows_of_simple simple) fun m is => ?_
        rw [is] at simple
        cases simple
    case h_2 => cases assigned

/-- Values are assigned one after the other, in the order of their ranks. -/
theorem Ranked.assignEach (ranked : Ranked before rank h) (new : before.size ≤ n) {target : Target}
    {values : List Value} {after : Heap}
    (follows : ∀ value ∈ values, Follows before rank h n value)
    (under : ∀ value ∈ values, ∀ m ∈ value.references, Under rank .collection h n (rank m))
    (ascending : values.Pairwise fun value later =>
      ∀ m ∈ value.references, ∀ m' ∈ later.references, rank m < rank m')
    (assigned : values.foldlM (fun h value => h.assign n target value) h = .ok after) :
    Takes before rank h n values after := by
  -- Along the values; those that are left come after the one that has just been assigned.
  induction values generalizing h with
  | nil =>
    cases assigned
    exact .nothing ranked
  | cons value rest ih =>
    obtain ⟨here, later⟩ := List.forall_mem_cons.1 follows
    obtain ⟨underHere, underLater⟩ := List.forall_mem_cons.1 under
    obtain ⟨first, ascending⟩ := List.pairwise_cons.1 ascending
    rw [List.foldlM_cons] at assigned
    obtain ⟨middle, step, assigned⟩ := ok_of_bind assigned
    have takes := ranked.assign new here underHere step
    have size : middle.size = h.size := ((assigning_sameTypes.toWriting.to n).assign step).size
    refine takes.append (ih takes.ranked (fun w mem m holds => size ▸ later w mem m holds)
      (fun w mem m holds => takes.under _ (underLater w mem m holds) ?_) ascending assigned)
    intro given is m' holds'
    rw [List.mem_singleton.1 is] at holds'
    exact first w mem m' holds' m holds

/-- The values of a property element are assigned in the order of their ranks. -/
theorem Ranked.assignAll (ranked : Ranked before rank h) (new : before.size ≤ n) {target : Target}
    {values : List Value} {after : Heap}
    (follows : ∀ value ∈ values, Follows before rank h n value)
    (under : ∀ value ∈ values, ∀ m ∈ value.references, Under rank .collection h n (rank m))
    (ascending : values.Pairwise fun value later =>
      ∀ m ∈ value.references, ∀ m' ∈ later.references, rank m < rank m')
    (assigned : h.assignAll n target values = .ok after) :
    Takes before rank h n values after := by
  unfold Heap.assignAll at assigned
  split at assigned
  · cases assigned
    exact .nothing ranked
  · split at assigned
    · exact ranked.assignEach new follows under ascending assigned
    · split at assigned
      case h_1 =>
        cases assigned
        exact .nothing ranked
      case h_2 value =>
        exact ranked.assign new (follows value (List.mem_singleton_self value))
          (under value (List.mem_singleton_self value)) assigned
      case h_3 => cases assigned

end Ranked

end Heap

end MarkupLoader
