import MarkupLoader.Proofs.RankedFilling

/-!
# The walk that fills dictionaries

The walk over a document meets dictionaries in two ways: at their own elements, and at the property
elements for properties that hold them. **A property element whose only element is a dictionary**
sets its property and puts nothing in; the entries of that dictionary come when the walk reaches its
element. All others put their elements into the dictionary that the property holds by then
(`LoadState.Receives`): the last that has been given to it (`LoadState.given?`), or else the one
that it has held before the walk, or a new one.

What has been filled when some nodes have been seen to (`LoadState.Filled`) is told by these nodes
alone, as nodes have objects of their own (`LoadState.Placed`).

Main results: `LoadState.Filled.element`, `LoadState.Filled.property`, `LoadState.Filled.fillNode`,
`LoadState.Placed.fillResources`.
-/

namespace MarkupLoader

theorem Table.insertAll_append {κ α : Type} [DecidableEq κ] (t : Table κ α)
    (first second : List (κ × α)) :
    t.insertAll (first ++ second) = (t.insertAll first).insertAll second :=
  List.foldl_append

/-! ## Dictionaries in properties -/

/-- Objects of the type have a property that holds a dictionary. -/
def TypeDescriptor.HoldsDictionary (d : TypeDescriptor) (key : String) : Prop :=
  ∃ p, d.property? key = some p ∧ p.type = .dictionary

theorem TypeDescriptor.filledKey?_eq_some {d : TypeDescriptor} {name : QName} {key : String} :
    d.filledKey? name = some key ↔
      Text.afterLast '.' name.localName = key ∧ d.HoldsDictionary key := by
  unfold filledKey? HoldsDictionary
  dsimp only
  constructor
  · intro filled
    split at filled
    case h_1 p declared =>
      split at filled
      case isTrue type =>
        cases filled
        exact ⟨rfl, p, declared, type⟩
      case isFalse => cases filled
    case h_2 => cases filled
  · rintro ⟨rfl, p, declared, type⟩
    rw [declared]
    exact if_pos type

namespace Heap

variable {h : Heap} {n m D other : ObjectId} {key : String}

/-- The dictionary that an object holds in a property. -/
def dictionary? (h : Heap) (n : ObjectId) (key : String) : Option ObjectId :=
  ((h.get? n key).filter (h.isOfKind .dictionary)).bind Value.object?

theorem dictionary?_eq_some : h.dictionary? n key = some D ↔
    h.get? n key = some (.object D) ∧ h.kind D = .dictionary := by
  unfold dictionary?
  constructor
  · intro is
    obtain ⟨value, held, is⟩ := Option.bind_eq_some_iff.1 is
    obtain ⟨held, kind⟩ := Option.filter_eq_some_iff.1 held
    cases value <;> cases is
    exact ⟨held, of_decide_eq_true kind⟩
  · rintro ⟨held, kind⟩
    rw [held, Option.filter_some_pos (by simpa [isOfKind] using kind)]
    rfl

/-- There are no dictionaries outside the heap. -/
theorem inside_of_dictionary (kind : h.kind D = .dictionary) : D < h.size := by
  refine Nat.lt_of_not_le fun outside => ?_
  rw [Heap.kind, object_of_size_le outside] at kind
  cases kind

/-- An object holds the dictionaries that it held if its properties stay, and objects their
types. -/
theorem dictionary?_congr {after : Heap} (same : after.get? n key = h.get? n key)
    (kinds : ∀ D, h.get? n key = some (.object D) → after.kind D = h.kind D) :
    after.dictionary? n key = h.dictionary? n key := by
  ext D
  rw [dictionary?_eq_some, dictionary?_eq_some, same]
  exact and_congr_right fun held => by rw [kinds D held]

theorem dictionary?_set (inside : n < h.size) (kind : h.kind D = .dictionary) :
    (h.set n key (.object D)).dictionary? n key = some D := by
  rw [dictionary?_eq_some, kind_set]
  refine ⟨?_, kind⟩
  unfold get? set
  rw [object_modify _ inside]
  exact Table.get?_insert_self _ _ _

theorem get?_set_of_other (h : Heap) (value : Value) {m : ObjectId} {key' : String}
    (apart : m = n → key' ≠ key) : (h.set n key value).get? m key' = h.get? m key' := by
  by_cases same : m = n
  · subst same
    unfold get? set
    rcases object_modify_or h m _ m with is | ⟨-, is⟩
    · rw [is]
    · rw [is, Table.get?_insert_of_ne _ _ (apart rfl)]
  · exact get?_set_of_ne h key value same key'

theorem entries_set (h : Heap) (n : ObjectId) (key : String) (value : Value) (m : ObjectId) :
    ((h.set n key value).object m).entries = (h.object m).entries := by
  unfold set
  rcases object_modify_or h n _ m with is | ⟨-, is⟩
  all_goals rw [is]

theorem dictionary?_putAll (h : Heap) (entries : List (String × Value)) (m : ObjectId)
    (key : String) : (h.putAll n entries).dictionary? m key = h.dictionary? m key := by
  obtain ⟨types, properties⟩ := putAll_leaves h n entries
  exact dictionary?_congr (properties m key) fun D _ => types.kind D

/-- Entries are put into one object, after those that it has. -/
theorem entries_putAll (inside : n < h.size) (entries : List (String × Value)) (m : ObjectId) :
    ((h.putAll n entries).object m).entries =
      if m = n then (h.object m).entries.insertAll entries else (h.object m).entries := by
  induction entries generalizing h with
  | nil => exact (ite_self _).symm
  | cons entry rest ih =>
    have size : (h.putEntry n entry.1 entry.2).size = h.size := size_modify h n _
    have first : ((h.putEntry n entry.1 entry.2).object m).entries =
        if m = n then (h.object m).entries.insert entry.1 entry.2 else (h.object m).entries := by
      unfold putEntry
      split
      case isTrue same =>
        subst same
        rw [object_modify _ inside]
      case isFalse ne => rw [object_modify_of_ne _ ne]
    refine (ih (size ▸ inside)).trans ?_
    rw [first]
    split <;> rfl

end Heap


namespace Heap

variable {h : Heap} (d : TypeDescriptor) (n : ObjectId) (key : String)

/-- The heap with a new object that is held in a property. -/
def make (h : Heap) (d : TypeDescriptor) (n : ObjectId) (key : String) : Heap :=
  (h.alloc (.ofType d)).2.set n key (.object h.size)

theorem size_make : (h.make d n key).size = h.size + 1 :=
  (size_modify _ n _).trans (size_alloc h _)

/-- The new object has no entries, as nothing has any where it is now. -/
theorem entries_make (m : ObjectId) :
    ((h.make d n key).object m).entries = (h.object m).entries := by
  rw [make, entries_set]
  rcases Nat.lt_trichotomy m h.size with inside | here | outside
  · rw [object_alloc_of_lt inside]
  · have new : (h.alloc (.ofType d)).2.object m = .ofType d := here ▸ object_alloc h _
    rw [new, object_of_size_le (Nat.le_of_eq here.symm)]
    rfl
  · rw [object_of_size_le (Nat.le_of_lt outside), object_of_size_le]
    rw [size_alloc]
    exact outside

theorem descriptor_make : (h.make d n key).descriptor h.size = d := by
  have new : (h.alloc (.ofType d)).2.descriptor h.size = d :=
    congrArg Object.descriptor (object_alloc h _)
  exact (congrFun (assigning_sameTypes.set _ n key _).descriptor h.size).trans new

variable {d n key} in
theorem dictionary?_make (kind : d.kind = .dictionary) (inside : n < h.size) :
    (h.make d n key).dictionary? n key = some h.size := by
  refine dictionary?_set ?_ ?_
  · rw [size_alloc]
    exact Nat.lt_succ_of_lt inside
  · have new : (h.alloc (.ofType d)).2.object h.size = .ofType d := object_alloc h _
    rw [Heap.kind, new]
    exact kind

variable {n key} in
theorem get?_make_of_other {m : ObjectId} {key' : String} (inside : m < h.size)
    (apart : m = n → key' ≠ key) : (h.make d n key).get? m key' = h.get? m key' := by
  rw [make, get?_set_of_other _ _ apart, get?, object_alloc_of_lt inside]
  rfl

end Heap

/-! ## What the walk does -/

namespace LoadState

variable {s t u v : LoadState} {env : Environment} {p q c : NodeId} {n m D : ObjectId}
  {key : String}

/-- Whether a node is a property element for a property of the object of another node. -/
def isFiller (s : LoadState) (p : NodeId) (key : String) (c : NodeId) : Bool :=
  (s.node c).parent = some p &&
    match (s.node c).kind with
    | .property name => Text.afterLast '.' name.localName = key
    | _ => false

/-- The dictionary that the last property element gives to a property, of those among some nodes
that give one. -/
def given? (s : LoadState) (nodes : List NodeId) (p : NodeId) (key : String) : Option ObjectId :=
  ((nodes.filter (s.isFiller p key)).filterMap s.onlyDictionary?).getLast?

/-- The dictionary that a property holds when some nodes have been filled, unless one has been made
for it: the last that has been given to it, or else the one that it has held before. -/
def holding? (s : LoadState) (nodes : List NodeId) (p : NodeId) (n : ObjectId) (key : String) :
    Option ObjectId :=
  (s.given? nodes p key).or (s.heap.dictionary? n key)

/-- The entries that the children of some nodes make, one node after the other. -/
def contents (s : LoadState) (nodes : List NodeId) : List (String × Value) :=
  nodes.flatMap fun c => (s.node c).children.filterMap s.entry?

/-- What objects hold, and that nodes share none, when dictionaries begin to be filled. -/
structure Placed (s : LoadState) : Prop where
  objects : ∀ id n, s.context.object? id = some n → (s.node id).isObject = true
  inside : ∀ id n, s.context.object? id = some n → n < s.heap.size
  distinct : ∀ id other n, s.context.object? id = some n → s.context.object? other = some n →
    id = other
  closed : ∀ id n key D, s.context.object? id = some n → s.heap.get? n key = some (.object D) →
    D < s.heap.size

/-- **The children of a node go into a dictionary**, when some nodes have been seen to: into that of
the node itself, or into the one that the property holds by then which the node is for. -/
inductive Receives (s : LoadState) (seen : List NodeId) (c : NodeId) (D : ObjectId) : Prop
  | own (has : s.context.object? c = some D) (kind : s.heap.kind D = .dictionary)
  | property {p : NodeId} {n : ObjectId} {key : String} (has : s.context.object? p = some n)
    (holder : (s.heap.descriptor n).HoldsDictionary key) (filler : s.isFiller p key c = true)
    (entries : s.onlyDictionary? c = none) (holds : s.holding? seen p n key = some D)

/-- **The state between two nodes of the walk**: what properties hold, and what has come into the
dictionaries that were there, and into those that have been made. -/
structure Filled (s : LoadState) (d : TypeDescriptor) (done : List NodeId) (u : LoadState) :
    Prop where
  settled : s.Settled Heap.Retains u
  closed : ∀ id n key D, s.context.object? id = some n → u.heap.get? n key = some (.object D) →
    D < u.heap.size
  holds : ∀ p n key D, s.context.object? p = some n →
    (s.heap.descriptor n).HoldsDictionary key → s.holding? done p n key = some D →
      u.heap.dictionary? n key = some D
  nothing : ∀ p n key, s.context.object? p = some n →
    (s.heap.descriptor n).HoldsDictionary key → s.holding? done p n key = none →
      done.filter (s.isFiller p key) = [] → u.heap.dictionary? n key = none
  made : ∀ p n key, s.context.object? p = some n →
    (s.heap.descriptor n).HoldsDictionary key → s.holding? done p n key = none →
      done.filter (s.isFiller p key) ≠ [] →
        ∃ D, s.heap.size ≤ D ∧ u.heap.dictionary? n key = some D ∧ u.heap.descriptor D = d ∧
          (u.heap.object D).entries = .ofList (s.contents (done.filter (s.isFiller p key)))
  /-- No two properties hold one new dictionary. -/
  apart : ∀ p n key p' n' key' D, s.context.object? p = some n → s.context.object? p' = some n' →
    s.heap.size ≤ D → u.heap.dictionary? n key = some D → u.heap.dictionary? n' key' = some D →
      p = p' ∧ key = key'
  /-- What has come into a dictionary is told by any test that says of each node whether its
  children have. -/
  received : ∀ D < s.heap.size, ∀ test : NodeId → Bool,
    (∀ seen c rest, done = seen ++ c :: rest → (test c = true ↔ s.Receives seen c D)) →
      (u.heap.object D).entries = (s.heap.object D).entries.insertAll (s.contents (done.filter test))

/-- Where the dictionary comes from that a property holds once a property element for it has been
seen to. -/
inductive Supplies (s u : LoadState) (d : TypeDescriptor) (c : NodeId) (n : ObjectId) (key : String)
    (v : LoadState) (D : ObjectId) : Prop
  | whole (only : s.onlyDictionary? c = some D)
  | held (entries : s.onlyDictionary? c = none) (held : u.heap.dictionary? n key = some D)
  | made (entries : s.onlyDictionary? c = none) (nothing : u.heap.dictionary? n key = none)
    (new : D = u.heap.size) (type : v.heap.descriptor D = d)

/-! ### Nodes and lists of nodes -/

theorem contents_append (s : LoadState) (first second : List NodeId) :
    s.contents (first ++ second) = s.contents first ++ s.contents second :=
  List.flatMap_append

theorem isFiller_eq_true : s.isFiller p key c = true ↔ (s.node c).parent = some p ∧
    ∃ name, (s.node c).kind = .property name ∧ Text.afterLast '.' name.localName = key := by
  unfold isFiller
  rw [Bool.and_eq_true, decide_eq_true_iff]
  refine and_congr_right fun _ => ?_
  cases (s.node c).kind with
  | property name => simp
  | _ => simp

/-- Only property elements are for a property. -/
theorem isFiller_eq_false (other : ∀ name, (s.node c).kind ≠ .property name) :
    s.isFiller p key c = false :=
  Bool.eq_false_iff.2 fun yes => by
    obtain ⟨-, name, kind, -⟩ := isFiller_eq_true.1 yes
    exact other name kind

/-- A property element is for one property only. -/
theorem isFiller_unique {key' : String} (first : s.isFiller p key c = true)
    (second : s.isFiller q key' c = true) : p = q ∧ key = key' := by
  obtain ⟨above, name, kind, is⟩ := isFiller_eq_true.1 first
  obtain ⟨above', name', kind', is'⟩ := isFiller_eq_true.1 second
  rw [above] at above'
  rw [kind] at kind'
  cases above'
  cases kind'
  exact ⟨rfl, is.symm.trans is'⟩

variable {seen done : List NodeId}

theorem given?_append (first second : List NodeId) :
    s.given? (first ++ second) p key = (s.given? second p key).or (s.given? first p key) := by
  rw [given?, List.filter_append, List.filterMap_append, List.getLast?_append]
  rfl

theorem given?_concat_of_not (not : s.isFiller p key c = false) :
    s.given? (done ++ [c]) p key = s.given? done p key := by
  simp [given?, List.filter_append, not]

theorem given?_concat (filler : s.isFiller p key c = true) :
    s.given? (done ++ [c]) p key = (s.onlyDictionary? c).or (s.given? done p key) := by
  rw [given?_append]
  congr 1
  unfold given?
  cases only : s.onlyDictionary? c <;> simp [filler, only]

/-- What has been given to a property is the only element of one of the property elements. -/
theorem exists_of_given? (given : s.given? done p key = some D) :
    ∃ c ∈ done, s.isFiller p key c = true ∧ s.onlyDictionary? c = some D := by
  obtain ⟨c, mem, only⟩ := List.mem_filterMap.1 (List.mem_of_getLast? given)
  obtain ⟨mem, filler⟩ := List.mem_filter.1 mem
  exact ⟨c, mem, filler, only⟩

theorem given?_eq_none : s.given? done p key = none ↔
    ∀ c ∈ done.filter (s.isFiller p key), s.onlyDictionary? c = none := by
  rw [given?, List.getLast?_eq_none_iff, List.filterMap_eq_nil_iff]

theorem holding?_concat_of_not (not : s.isFiller p key c = false) :
    s.holding? (done ++ [c]) p n key = s.holding? done p n key := by
  rw [holding?, given?_concat_of_not not]
  rfl

theorem holding?_concat (filler : s.isFiller p key c = true) :
    s.holding? (done ++ [c]) p n key = (s.onlyDictionary? c).or (s.holding? done p n key) := by
  rw [holding?, given?_concat filler, Option.or_assoc]
  rfl

namespace Placed

variable (placed : s.Placed)

include placed

theorem inside_of_onlyDictionary (only : s.onlyDictionary? c = some D) : D < s.heap.size := by
  obtain ⟨single, -, has, -⟩ := of_onlyDictionary? only
  exact placed.inside single D has

/-- Neither texts nor property elements have objects. -/
theorem not_object (plain : (s.node c).isObject = false) (D : ObjectId) :
    s.context.object? c ≠ some D := fun has =>
  Bool.false_ne_true (plain.symm.trans (placed.objects c D has))

/-- Two places are those of two properties if no filler is for both. -/
theorem other {key' : String} (has : s.context.object? p = some n)
    (has' : s.context.object? q = some m) (ne : ¬ (p = q ∧ key = key')) : m = n → key' ≠ key := by
  rintro rfl rfl
  exact ne ⟨placed.distinct p q m has has', rfl⟩

end Placed

/-! ### Steps of the walk -/

section Steps

variable {d : TypeDescriptor} (placed : s.Placed) (filled : s.Filled d done u)

include placed filled

omit placed in
theorem Filled.kind (inside : D < s.heap.size) : u.heap.kind D = s.heap.kind D :=
  congrArg TypeDescriptor.kind (filled.settled.heap.descriptor D inside)

omit placed in
theorem Filled.node (c : NodeId) : u.node c = s.node c := by
  rw [LoadState.node, filled.settled.tree]
  rfl

omit placed in
theorem Filled.object? (c : NodeId) : u.context.object? c = s.context.object? c :=
  congrFun filled.settled.object? c

theorem Filled.onlyDictionary? (c : NodeId) : u.onlyDictionary? c = s.onlyDictionary? c := by
  unfold LoadState.onlyDictionary?
  rw [filled.settled.tree]
  split
  case h_1 single _ =>
    rw [filled.object?]
    cases has : s.context.object? single with
    | none => rfl
    | some o =>
      simp only [Option.filter, filled.kind (placed.inside single o has)]
  case h_2 => rfl

omit placed in
theorem Filled.entry? (c : NodeId) : u.entry? c = s.entry? c := by
  unfold LoadState.entry? LoadState.node Context.value?
  rw [filled.settled.tree, filled.settled.values]

omit placed in
/-- One node more has been seen to. -/
theorem Filled.received_concat (inside : D < s.heap.size)
    (some : s.Receives done c D →
      (v.heap.object D).entries = (u.heap.object D).entries.insertAll (s.contents [c]))
    (none : ¬ s.Receives done c D → (v.heap.object D).entries = (u.heap.object D).entries)
    (test : NodeId → Bool) (tells : ∀ seen other rest, done ++ [c] = seen ++ other :: rest →
      (test other = true ↔ s.Receives seen other D)) :
    (v.heap.object D).entries =
      (s.heap.object D).entries.insertAll (s.contents ((done ++ [c]).filter test)) := by
  have before := filled.received D inside test fun seen other rest is =>
    tells seen other (rest ++ [c]) (by rw [is, List.append_assoc]; rfl)
  have here := tells done c [] rfl
  rw [List.filter_append, contents_append, Table.insertAll_append, ← before]
  by_cases receives : s.Receives done c D
  · rw [some receives, List.filter_cons_of_pos (here.2 receives)]
    rfl
  · rw [none receives, List.filter_cons_of_neg (fun yes => receives (here.1 yes))]
    rfl

/-- **A node that is no property element** for a dictionary, but may be one itself. -/
theorem Filled.element (settled : s.Settled Heap.Retains v)
    (not : ∀ p n key, s.context.object? p = some n → (s.heap.descriptor n).HoldsDictionary key →
      s.isFiller p key c = false)
    (size : v.heap.size = u.heap.size) (types : ∀ D, v.heap.descriptor D = u.heap.descriptor D)
    (properties : ∀ n key, v.heap.get? n key = u.heap.get? n key)
    (entries : ∀ D, (v.heap.object D).entries =
      if s.context.object? c = some D ∧ s.heap.kind D = .dictionary then
        (u.heap.object D).entries.insertAll (s.contents [c]) else (u.heap.object D).entries) :
    s.Filled d (done ++ [c]) v := by
  have holds : ∀ n key, v.heap.dictionary? n key = u.heap.dictionary? n key := fun n key =>
    Heap.dictionary?_congr (properties n key) fun D _ => congrArg TypeDescriptor.kind (types D)
  have fillers : ∀ p n key, s.context.object? p = some n →
      (s.heap.descriptor n).HoldsDictionary key →
        (done ++ [c]).filter (s.isFiller p key) = done.filter (s.isFiller p key) := by
    intro p n key has holder
    simp [List.filter_append, not p n key has holder]
  refine ⟨settled, ?_, ?_, ?_, ?_, ?_, ?_⟩
  · intro id n key D has is
    rw [properties] at is
    exact size ▸ filled.closed id n key D has is
  · intro p n key D has holder is
    rw [holding?_concat_of_not (not p n key has holder)] at is
    exact (holds n key).trans (filled.holds p n key D has holder is)
  · intro p n key has holder is none
    rw [holding?_concat_of_not (not p n key has holder)] at is
    rw [fillers p n key has holder] at none
    exact (holds n key).trans (filled.nothing p n key has holder is none)
  · intro p n key has holder is some
    rw [holding?_concat_of_not (not p n key has holder)] at is
    rw [fillers p n key has holder] at some ⊢
    obtain ⟨D, new, held, type, content⟩ := filled.made p n key has holder is some
    refine ⟨D, new, (holds n key).trans held, (types D).trans type, ?_⟩
    -- The objects of nodes have been there before.
    rw [entries D, if_neg, content]
    rintro ⟨own, -⟩
    exact absurd (placed.inside c D own) (Nat.not_lt_of_le new)
  · intro p n key p' n' key' D has has' new held held'
    rw [holds] at held held'
    exact filled.apart p n key p' n' key' D has has' new held held'
  · intro D inside test tells
    refine filled.received_concat inside (fun receives => ?_) (fun receives => ?_) test tells
    · cases receives with
      | own has kind => rw [entries D, if_pos ⟨has, kind⟩]
      | property has holder filler =>
        rw [not _ _ _ has holder] at filler
        cases filler
    · rw [entries D, if_neg fun own => receives (.own own.1 own.2)]

/-- A new dictionary that a property holds is supplied to no other. -/
theorem Filled.not_supplied {key' : String} (has : s.context.object? p = some n)
    (supplies : s.Supplies u d c n key v D) (has' : s.context.object? q = some m)
    (ne : ¬ (p = q ∧ key = key')) (new : s.heap.size ≤ D) :
    u.heap.dictionary? m key' ≠ some D := by
  intro held'
  cases supplies with
  | whole only => exact absurd (placed.inside_of_onlyDictionary only) (Nat.not_lt_of_le new)
  | held _ held => exact ne (filled.apart p n key q m key' D has has' new held held')
  | made _ _ is _ =>
    have inside := Heap.inside_of_dictionary (Heap.dictionary?_eq_some.1 held').2
    exact absurd inside (Nat.not_lt_of_le (Nat.le_of_eq is.symm))

omit placed in
/-- No property holds what is not there if only one has been filled, with a dictionary. -/
theorem Filled.closed_of_holds (grown : u.heap.Retains v.heap)
    (holds : v.heap.dictionary? n key = some D)
    (others : ∀ q m key', s.context.object? q = some m → (m = n → key' ≠ key) →
      v.heap.get? m key' = u.heap.get? m key') (id : NodeId) (m : ObjectId) (key' : String)
    (E : ObjectId) (has : s.context.object? id = some m)
    (held : v.heap.get? m key' = some (.object E)) : E < v.heap.size := by
  by_cases here : m = n ∧ key' = key
  · obtain ⟨rfl, rfl⟩ := here
    obtain ⟨new, kind⟩ := Heap.dictionary?_eq_some.1 holds
    obtain ⟨⟩ := Option.some.inj (new.symm.trans held)
    exact Heap.inside_of_dictionary kind
  · rw [others id m key' has fun same is => here ⟨same, is⟩] at held
    exact Nat.lt_of_lt_of_le (filled.closed id m key' E has held) grown.size

omit placed filled in
/-- Elements go into the dictionary that the property holds. -/
theorem Supplies.eq_of_held (supplies : s.Supplies u d c n key v D)
    (entries : s.onlyDictionary? c = none) (held : u.heap.dictionary? n key = some m) : D = m := by
  cases supplies with
  | whole only => exact absurd (only.symm.trans entries) (Option.some_ne_none _)
  | held _ heldToo => exact Option.some.inj (heldToo.symm.trans held)
  | made _ nothing => exact absurd (held.symm.trans nothing) (Option.some_ne_none _)

omit placed in
/-- An older dictionary that a property holds has been given to it, or it has held it before. -/
theorem Filled.holding_of_old (has : s.context.object? p = some n)
    (holder : (s.heap.descriptor n).HoldsDictionary key) (inside : D < s.heap.size)
    (held : u.heap.dictionary? n key = some D) : s.holding? done p n key = some D := by
  cases is : s.holding? done p n key with
  | some E => exact (filled.holds p n key E has holder is).symm.trans held
  | none =>
    by_cases first : done.filter (s.isFiller p key) = []
    · have nothing := filled.nothing p n key has holder is first
      exact absurd (held.symm.trans nothing) (Option.some_ne_none _)
    · obtain ⟨E, new, heldToo, -⟩ := filled.made p n key has holder is first
      obtain rfl := Option.some.inj (held.symm.trans heldToo)
      exact absurd inside (Nat.not_lt_of_le new)

section Filler

variable (has : s.context.object? p = some n)
  (holder : (s.heap.descriptor n).HoldsDictionary key) (filler : s.isFiller p key c = true)
  (supplies : s.Supplies u d c n key v D)
  (entries : ∀ E, (v.heap.object E).entries =
    if s.onlyDictionary? c = none ∧ E = D then
      (u.heap.object E).entries.insertAll (s.contents [c]) else (u.heap.object E).entries)

include has holder filler supplies entries

omit placed in
/-- What a new dictionary has got from the property elements seen to, this one included. -/
theorem Filled.made_concat (grown : u.heap.Retains v.heap)
    (holds : v.heap.dictionary? n key = some D)
    (is : s.holding? (done ++ [c]) p n key = none) :
    ∃ D, s.heap.size ≤ D ∧ v.heap.dictionary? n key = some D ∧ v.heap.descriptor D = d ∧
      (v.heap.object D).entries =
        .ofList (s.contents ((done ++ [c]).filter (s.isFiller p key))) := by
  rw [holding?_concat filler, Option.or_eq_none_iff] at is
  obtain ⟨none, is⟩ := is
  have put := entries D
  rw [if_pos ⟨none, rfl⟩] at put
  have last : (done ++ [c]).filter (s.isFiller p key) =
      done.filter (s.isFiller p key) ++ [c] := by
    simp [List.filter_append, filler]
  rw [last, contents_append]
  -- It has been made just now, or when the first of the property elements was seen to.
  by_cases first : done.filter (s.isFiller p key) = []
  · have nothing := filled.nothing p n key has holder is first
    cases supplies with
    | whole only => exact absurd (only.symm.trans none) (Option.some_ne_none _)
    | held _ held => exact absurd (held.symm.trans nothing) (Option.some_ne_none _)
    | made _ _ new type =>
      refine ⟨D, new ▸ filled.settled.heap.size, holds, type, put.trans ?_⟩
      rw [Heap.object_of_size_le (Nat.le_of_eq new.symm), first]
      rfl
  · obtain ⟨E, new, held, type, content⟩ := filled.made p n key has holder is first
    obtain rfl := supplies.eq_of_held none held
    have inside := Heap.inside_of_dictionary (Heap.dictionary?_eq_some.1 held).2
    refine ⟨D, new, holds, (grown.descriptor D inside).trans type, put.trans ?_⟩
    rw [content]
    exact (Table.insertAll_append _ _ _).symm

/-- The children of the property element go into the dictionary that it finds in the property, and
into no other that has been there before. -/
theorem Filled.received_filler {E : ObjectId} (inside : E < s.heap.size) :
    (s.Receives done c E →
      (v.heap.object E).entries = (u.heap.object E).entries.insertAll (s.contents [c])) ∧
    (¬ s.Receives done c E → (v.heap.object E).entries = (u.heap.object E).entries) := by
  refine ⟨fun receives => ?_, fun receives => ?_⟩
  · cases receives with
    | own own =>
      obtain ⟨-, name, kind, -⟩ := isFiller_eq_true.1 filler
      exact absurd own (placed.not_object (by rw [NodeBody.isObject, kind]) E)
    | property has' holder' filler' none is =>
      obtain ⟨rfl, rfl⟩ := isFiller_unique filler filler'
      obtain rfl := Option.some.inj (has.symm.trans has')
      have held := filled.holds _ _ _ E has holder is
      rw [entries E, if_pos ⟨none, (supplies.eq_of_held none held).symm⟩]
  · rw [entries E, if_neg]
    rintro ⟨none, rfl⟩
    cases supplies with
    | whole only => exact absurd (only.symm.trans none) (Option.some_ne_none _)
    | held _ held =>
      exact receives (.property has holder filler none
        (filled.holding_of_old has holder inside held))
    | made _ _ new => exact absurd inside (Nat.not_lt_of_le (new ▸ filled.settled.heap.size))

/-- **A property element for a dictionary.** -/
theorem Filled.property (settled : s.Settled Heap.Retains v) (grown : u.heap.Retains v.heap)
    (holds : v.heap.dictionary? n key = some D)
    (others : ∀ q m key', s.context.object? q = some m → (m = n → key' ≠ key) →
      v.heap.get? m key' = u.heap.get? m key') :
    s.Filled d (done ++ [c]) v := by
  have unfilled : ∀ q m key', s.context.object? q = some m → ¬ (p = q ∧ key = key') →
      s.isFiller q key' c = false ∧ v.heap.dictionary? m key' = u.heap.dictionary? m key' := by
    intro q m key' has' ne
    refine ⟨Bool.eq_false_iff.2 fun yes => ne (isFiller_unique filler yes), ?_⟩
    refine Heap.dictionary?_congr (others q m key' has' (placed.other has has' ne)) fun E held => ?_
    exact congrArg TypeDescriptor.kind (grown.descriptor E (filled.closed q m key' E has' held))
  -- What is new in the dictionaries of other properties is not affected.
  have apart : ∀ q m key' E, s.context.object? q = some m → ¬ (p = q ∧ key = key') →
      s.heap.size ≤ E → u.heap.dictionary? m key' = some E → E ≠ D := by
    rintro q m key' E has' ne new held rfl
    exact filled.not_supplied placed has supplies has' ne new held
  have same : ∀ m, s.context.object? p = some m → m = n := fun m has' =>
    Option.some.inj (has'.symm.trans has)
  refine ⟨settled, filled.closed_of_holds grown holds others, ?_, ?_, ?_, ?_, ?_⟩
  · intro q m key' E has' holder' is
    by_cases here : p = q ∧ key = key'
    · obtain ⟨rfl, rfl⟩ := here
      obtain rfl := same m has'
      rw [holding?_concat filler] at is
      rw [holds, ← is]
      cases only : s.onlyDictionary? c with
      | some F =>
        rw [Option.some_or]
        cases supplies with
        | whole onlyToo => exact onlyToo.symm.trans only
        | held none | made none => exact absurd (only.symm.trans none) (Option.some_ne_none _)
      | none =>
        rw [only, Option.none_or] at is
        rw [Option.none_or, is, supplies.eq_of_held only (filled.holds p m key E has holder is)]
    · obtain ⟨not, kept⟩ := unfilled q m key' has' here
      rw [holding?_concat_of_not not] at is
      exact kept.trans (filled.holds q m key' E has' holder' is)
  · intro q m key' has' holder' is none
    by_cases here : p = q ∧ key = key'
    · obtain ⟨rfl, rfl⟩ := here
      simp [List.filter_append, filler] at none
    · obtain ⟨not, kept⟩ := unfilled q m key' has' here
      rw [holding?_concat_of_not not] at is
      exact kept.trans (filled.nothing q m key' has' holder' is
        (by simpa [List.filter_append, not] using none))
  · intro q m key' has' holder' is some
    by_cases here : p = q ∧ key = key'
    · obtain ⟨rfl, rfl⟩ := here
      obtain rfl := same m has'
      exact filled.made_concat has holder filler supplies entries grown holds is
    · obtain ⟨not, kept⟩ := unfilled q m key' has' here
      have fillers : (done ++ [c]).filter (s.isFiller q key') = done.filter (s.isFiller q key') := by
        simp [List.filter_append, not]
      rw [holding?_concat_of_not not] at is
      rw [fillers] at some ⊢
      obtain ⟨E, new, held, type, content⟩ := filled.made q m key' has' holder' is some
      have inside := Heap.inside_of_dictionary (Heap.dictionary?_eq_some.1 held).2
      refine ⟨E, new, kept.trans held, (grown.descriptor E inside).trans type, ?_⟩
      rw [entries E, if_neg fun both => apart q m key' E has' here new held both.2, content]
  · intro q m key' q' m' key'' E has₁ has₂ new held₁ held₂
    by_cases first : p = q ∧ key = key'
    · obtain ⟨rfl, rfl⟩ := first
      obtain rfl := same m has₁
      obtain rfl := Option.some.inj (holds.symm.trans held₁)
      by_cases second : p = q' ∧ key = key''
      · exact second
      · rw [(unfilled q' m' key'' has₂ second).2] at held₂
        exact absurd rfl (apart q' m' key'' D has₂ second new held₂)
    · rw [(unfilled q m key' has₁ first).2] at held₁
      by_cases second : p = q' ∧ key = key''
      · obtain ⟨rfl, rfl⟩ := second
        obtain rfl := same m' has₂
        obtain rfl := Option.some.inj (holds.symm.trans held₂)
        exact absurd rfl (apart q m key' D has₁ first new held₁)
      · rw [(unfilled q' m' key'' has₂ second).2] at held₂
        exact filled.apart q m key' q' m' key'' E has₁ has₂ new held₁ held₂
  · intro E inside
    obtain ⟨some, none⟩ :=
      filled.received_filler placed has holder filler supplies entries inside
    exact filled.received_concat inside some none

end Filler

end Steps

/-! ### The walk -/

section Walk

variable {d : TypeDescriptor} (placed : s.Placed) (filled : s.Filled d done u)
  (known : env.registry.get? resourceDictionaryName = some d) (dictionaries : d.kind = .dictionary)

/-- Texts and property elements among the nodes of an element make no entries. -/
theorem filterMap_elements (s : LoadState) (id : NodeId) :
    (s.tree.elements id).filterMap s.entry? = (s.node id).children.filterMap s.entry? := by
  unfold NodeTree.elements
  rw [List.filterMap_filter]
  refine List.filterMap_congr fun c _ => ?_
  unfold entry?
  split <;> simp_all [LoadState.node]

theorem contents_singleton (s : LoadState) (c : NodeId) :
    s.contents [c] = (s.node c).children.filterMap s.entry? := List.append_nil _

include filled in
theorem Filled.contents (c : NodeId) :
    (u.node c).children.filterMap u.entry? = s.contents [c] := by
  rw [contents_singleton, LoadState.node, filled.settled.tree]
  exact List.filterMap_congr fun other _ => filled.entry? other

/-- The property around a property element is filled in one of three ways. -/
inductive FillsFrom (u : LoadState) (d : TypeDescriptor) (c : NodeId) (n : ObjectId) (key : String)
    (v : LoadState) : Prop
  | whole {D : ObjectId} (only : u.onlyDictionary? c = some D)
    (heap : v.heap = u.heap.set n key (.object D))
  | held {D : ObjectId} (entries : u.onlyDictionary? c = none)
    (held : u.heap.dictionary? n key = some D)
    (heap : v.heap = u.heap.putAll D ((u.node c).children.filterMap u.entry?))
  | made (entries : u.onlyDictionary? c = none) (nothing : u.heap.dictionary? n key = none)
    (heap : v.heap =
      (u.heap.make d n key).putAll u.heap.size ((u.node c).children.filterMap u.entry?))

theorem fillsFrom_of_fillProperty (known : env.registry.get? resourceDictionaryName = some d)
    (ran : (Load.fillProperty env c n key).start u = (.ok (), v)) : u.FillsFrom d c n key v := by
  rw [Load.fillProperty, Load.start_get_bind] at ran
  cases only : u.onlyDictionary? c with
  | some D =>
    rw [only] at ran
    cases ran
    exact .whole only rfl
  | none =>
    rw [only] at ran
    obtain ⟨found, w, first, later⟩ := Load.ok_of_start_bind ran
    rw [Load.dictionaryFor, Load.start_get_bind] at first
    dsimp only at first
    rw [show ((u.heap.get? n key).filter (u.heap.isOfKind .dictionary)).bind Value.object? =
      u.heap.dictionary? n key from rfl] at first
    cases held : u.heap.dictionary? n key with
    | some D =>
      rw [held] at first
      cases first
      refine .held only held ?_
      rw [Load.ok_of_fillDictionary later, filterMap_elements]
    | none =>
      rw [held, known] at first
      cases first
      refine .made only held ?_
      rw [Load.ok_of_fillDictionary later, filterMap_elements]
      rfl

include placed filled in
/-- A node that is neither a dictionary nor a property element for one is passed by. -/
theorem Filled.idle (not : ∀ p n key, s.context.object? p = some n →
      (s.heap.descriptor n).HoldsDictionary key → s.isFiller p key c = false)
    (other : ∀ D, s.context.object? c = some D → s.heap.kind D ≠ .dictionary) :
    s.Filled d (done ++ [c]) u := by
  refine filled.element placed filled.settled not rfl (fun _ => rfl) (fun _ _ => rfl) fun D => ?_
  rw [if_neg fun own => other D own.1 own.2]

include placed filled dictionaries in
/-- A property element that fills a property. -/
theorem Filled.fillsFrom (has : s.context.object? p = some n)
    (holder : (s.heap.descriptor n).HoldsDictionary key) (filler : s.isFiller p key c = true)
    (settled : s.Settled Heap.Retains v) (grown : u.heap.Retains v.heap)
    (fills : u.FillsFrom d c n key v) : s.Filled d (done ++ [c]) v := by
  have inside : n < u.heap.size :=
    Nat.lt_of_lt_of_le (placed.inside p n has) filled.settled.heap.size
  have only := filled.onlyDictionary? placed c
  cases fills with
  | @whole D is heap =>
    obtain ⟨-, -, -, kind⟩ := of_onlyDictionary? is
    have given : s.onlyDictionary? c = some D := only.symm.trans is
    refine filled.property placed has holder filler (.whole given) (fun E => ?_) settled grown ?_
      fun q m key' _ apart => ?_
    · rw [heap, Heap.entries_set, given]
      exact (if_neg fun both => Option.some_ne_none _ both.1).symm
    · rw [heap]
      exact Heap.dictionary?_set inside kind
    · rw [heap]
      exact Heap.get?_set_of_other _ _ apart
  | @held D is held heap =>
    have there := Heap.inside_of_dictionary (Heap.dictionary?_eq_some.1 held).2
    rw [filled.contents] at heap
    obtain ⟨-, properties⟩ := Heap.putAll_leaves u.heap D (s.contents [c])
    refine filled.property placed has holder filler (.held (only ▸ is) held) (fun E => ?_) settled
      grown ?_ fun q m key' _ _ => ?_
    · rw [heap, Heap.entries_putAll there, ← only]
      simp only [is, true_and]
    · rw [heap, Heap.dictionary?_putAll, held]
    · rw [heap, properties]
  | made is nothing heap =>
    rw [filled.contents] at heap
    have there' : ∀ q m, s.context.object? q = some m → m < u.heap.size := fun q m has =>
      Nat.lt_of_lt_of_le (placed.inside q m has) filled.settled.heap.size
    obtain ⟨types, properties⟩ := Heap.putAll_leaves (u.heap.make d n key) u.heap.size
      (s.contents [c])
    have there : u.heap.size < (u.heap.make d n key).size :=
      Heap.size_make (h := u.heap) d n key ▸ Nat.lt_succ_self _
    have type : v.heap.descriptor u.heap.size = d := by
      rw [heap, types.descriptor, Heap.descriptor_make]
    refine filled.property placed has holder filler (.made (only ▸ is) nothing rfl type)
      (fun E => ?_) settled grown ?_ fun q m key' has' apart => ?_
    · rw [heap, Heap.entries_putAll there, Heap.entries_make, ← only]
      simp only [is, true_and]
    · rw [heap, Heap.dictionary?_putAll, Heap.dictionary?_make dictionaries inside]
    · rw [heap, properties]
      exact Heap.get?_make_of_other d (there' q m has') apart

include placed filled known dictionaries in
/-- A property element fills the property that it is for, if that is one for a dictionary. -/
theorem Filled.fillNode_property {name : QName} (kind : (s.node c).kind = .property name)
    (settled : s.Settled Heap.Retains v) (grown : u.heap.Retains v.heap)
    (ran : (Load.fillNode env c).start u = (.ok (), v)) : s.Filled d (done ++ [c]) v := by
  have noObject := placed.not_object (show (s.node c).isObject = false by rw [NodeBody.isObject, kind])
  cases around : (s.node c).parent.bind s.context.object? with
  | none =>
    rw [Load.fillNode, Load.start_get_bind, filled.node, kind] at ran
    dsimp only at ran
    rw [Load.fillPropertyElement, Load.start_get_bind, filled.node, funext filled.object?,
      around] at ran
    cases ran
    refine filled.idle placed (fun p n key has _ => ?_) fun D has => absurd has (noObject D)
    refine Bool.eq_false_iff.2 fun yes => ?_
    rw [(isFiller_eq_true.1 yes).1, Option.bind_some, has] at around
    cases around
  | some n =>
    obtain ⟨p, above, has⟩ := Option.bind_eq_some_iff.1 around
    rw [Load.start_fillNode_property ((filled.node c).symm ▸ kind) ((filled.node c).symm ▸ above)
      ((filled.object? p).trans has),
      filled.settled.heap.descriptor n (placed.inside p n has)] at ran
    cases is : (s.heap.descriptor n).filledKey? name with
    | none =>
      rw [is] at ran
      cases ran
      refine filled.idle placed (fun q m key has' holder => ?_) fun D has => absurd has (noObject D)
      refine Bool.eq_false_iff.2 fun yes => ?_
      obtain ⟨above', name', kind', named⟩ := isFiller_eq_true.1 yes
      cases above.symm.trans above'
      cases kind.symm.trans kind'
      cases has.symm.trans has'
      rw [TypeDescriptor.filledKey?_eq_some.2 ⟨named, holder⟩] at is
      cases is
    | some key =>
      rw [is] at ran
      obtain ⟨named, holder⟩ := TypeDescriptor.filledKey?_eq_some.1 is
      exact filled.fillsFrom placed dictionaries has holder
        (isFiller_eq_true.2 ⟨above, name, kind, named⟩) settled grown
        (fillsFrom_of_fillProperty known ran)

include placed filled in
/-- A dictionary takes in what its children make. -/
theorem Filled.fillDictionary (has : s.context.object? c = some D)
    (type : s.heap.kind D = .dictionary) (notFiller : ∀ p key, s.isFiller p key c = false)
    (settled : s.Settled Heap.Retains v)
    (ran : (Load.fillDictionary D (u.node c).children).start u = (.ok (), v)) :
    s.Filled d (done ++ [c]) v := by
  have heap := Load.ok_of_fillDictionary ran
  rw [filled.contents] at heap
  have there := Nat.lt_of_lt_of_le (placed.inside c D has) filled.settled.heap.size
  obtain ⟨types, properties⟩ := Heap.putAll_leaves u.heap D (s.contents [c])
  refine filled.element placed settled (fun p _ key _ _ => notFiller p key)
    (heap ▸ types.size) (fun E => heap ▸ congrFun types.descriptor E)
    (fun m key => heap ▸ properties m key) fun E => ?_
  rw [heap, Heap.entries_putAll there]
  by_cases same : E = D
  · subst same
    rw [if_pos rfl, if_pos ⟨has, type⟩]
  · rw [if_neg same, if_neg fun own => same (Option.some.inj (own.1.symm.trans has))]

include placed filled known dictionaries in
/-- **One node of the walk.** -/
theorem Filled.fillNode (ran : (Load.fillNode env c).start u = (.ok (), v)) :
    s.Filled d (done ++ [c]) v := by
  have step := (Load.settles_fillNode env Heap.filling_retains c).ran ran
  have settled := filled.settled.trans Heap.filling_retains.toChains step
  cases kind : (s.node c).kind with
  | text content =>
    rw [Load.fillNode, Load.start_get_bind, filled.node, kind] at ran
    cases ran
    refine filled.idle placed (fun _ _ _ _ _ => isFiller_eq_false fun name is => ?_) fun D has => ?_
    · cases kind.symm.trans is
    · exact absurd has (placed.not_object (by rw [NodeBody.isObject, kind]) D)
  | property name =>
    exact filled.fillNode_property placed known dictionaries kind settled step.heap ran
  | root | element =>
    have notFiller : ∀ p key, s.isFiller p key c = false := fun p key =>
      isFiller_eq_false fun name is => by cases kind.symm.trans is
    rw [Load.fillNode, Load.start_get_bind, filled.node, kind] at ran
    dsimp only at ran
    rw [filled.object?] at ran
    cases has : s.context.object? c with
    | none =>
      rw [has] at ran
      cases ran
      exact filled.idle placed (fun p _ key _ _ => notFiller p key)
        fun D other => absurd (other.symm.trans has) (Option.some_ne_none _)
    | some D =>
      rw [has] at ran
      dsimp only at ran
      rw [filled.kind (placed.inside c D has)] at ran
      by_cases type : s.heap.kind D = .dictionary
      · rw [if_pos type, ← filled.node] at ran
        exact filled.fillDictionary placed has type notFiller settled ran
      · rw [if_neg type] at ran
        cases ran
        refine filled.idle placed (fun p _ key _ _ => notFiller p key) fun E other => ?_
        rwa [← Option.some.inj (has.symm.trans other)]

include placed in
/-- Before the walk nothing has been filled. -/
theorem Placed.start (same : s.Settled Eq u) : s.Filled d [] u where
  settled := ⟨same.tree, same.tolerant, same.values, same.heap ▸ .refl _⟩
  closed := same.heap ▸ placed.closed
  holds _ _ _ _ _ _ is := same.heap ▸ is
  nothing _ _ _ _ _ is _ := same.heap ▸ is
  made _ _ _ _ _ _ some := absurd rfl some
  apart _ _ _ _ _ _ _ _ _ new held _ := by
    have inside := Heap.inside_of_dictionary (Heap.dictionary?_eq_some.1 held).2
    exact absurd (same.heap ▸ inside) (Nat.not_lt_of_le new)
  received _ _ _ _ := same.heap ▸ rfl

include placed known dictionaries in
/-- **The whole walk**, from a state that differs in nothing that it is about. -/
theorem Placed.fillResources (same : s.Settled Eq u)
    (ran : (Load.fillResources env).start u = (.ok (), t)) : s.Filled d (s.loaded env) t := by
  have order : u.loaded env = s.loaded env := by
    unfold loaded isTemplate node
    rw [same.tree]
  rw [Load.fillResources, Load.start_get_bind, order] at ran
  exact Load.forM_along (P := fun done _ u => s.Filled d done u)
    (fun _ _ _ _ _ _ filled ran => filled.fillNode placed known dictionaries ran)
    (placed.start same) ran

end Walk

end LoadState

end MarkupLoader
