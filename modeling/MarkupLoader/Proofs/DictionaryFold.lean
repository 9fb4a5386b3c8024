import Mathlib.Data.List.DropRight
import MarkupLoader.Proofs.DictionaryWalk

/-!
# Filling dictionaries is a fold

A property holds in the end what has been given to it last, and that dictionary has the entries of
its own element and of the property elements after the one that has given it, **each key at the
place where it came first, with the value that it came with last** (`Table.FoldOf`), in the order of
the document.

Whether nothing else has come in depends on what objects hold before the walk. A dictionary that is
held by two properties gets what is meant for either, and so does one that a property holds when a
property element gives it to another. **Where no dictionary belongs to two properties**
(`LoadState.Unshared`), what the walk leaves is such a fold (`LoadState.Folded`).

Main results: `Table.foldOf_ofList`, `LoadState.Unshared.receives_iff`,
`LoadState.Unshared.folded`, `LoadState.Unshared.folded_alone`.
-/

namespace MarkupLoader

/-! ## Tables that are folded up -/

namespace Table

variable {κ α : Type} [DecidableEq κ]

/-- **What becomes of entries that are put in one after the other**: each key is at the place where
it came first, with the value that it came with last. -/
structure FoldOf (t : Table κ α) (entries : List (κ × α)) : Prop where
  keys : t.keys = (entries.map Prod.fst).eraseDups
  value : ∀ key, t.get? key = ((entries.filter (·.1 = key)).getLast?).map Prod.snd

theorem foldOf_ofList (entries : List (κ × α)) : (ofList entries).FoldOf entries := by
  -- From the end, since the last entry is the one put in last.
  induction entries using List.reverseRecOn with
  | nil => exact ⟨rfl, fun _ => rfl⟩
  | append_singleton entries entry ih =>
    obtain ⟨keys, value⟩ := ih
    have last : ofList (entries ++ [entry]) = (ofList entries).insert entry.1 entry.2 :=
      insertAll_append empty entries [entry]
    rw [last]
    constructor
    · rw [List.map_append, List.eraseDups_append, ← keys]
      by_cases there : entry.1 ∈ (ofList entries).keys
      · have listed : entry.1 ∈ entries.map Prod.fst := by
          rwa [keys, List.mem_eraseDups] at there
        rw [keys_insert_of_mem _ _ there]
        simp [List.removeAll, listed]
      · have new : entry.1 ∉ entries.map Prod.fst := by
          rwa [keys, List.mem_eraseDups] at there
        rw [keys_insert_of_not_mem _ _ there]
        simp [List.removeAll, new, List.eraseDups_cons]
    · intro key
      rw [List.filter_append]
      by_cases same : entry.1 = key
      · subst same
        simp
      · rw [get?_insert_of_ne _ _ (Ne.symm same), value key]
        simp [same]

end Table

/-! ## What is in a dictionary in the end -/

namespace LoadState

variable {s t : LoadState} {env : Environment} {p q c : NodeId} {n m D : ObjectId} {key : String}

/-- The property elements for a property after the last one that gives it a dictionary. -/
def laterFillers (s : LoadState) (nodes : List NodeId) (p : NodeId) (key : String) : List NodeId :=
  (nodes.filter (s.isFiller p key)).rtakeWhile fun c => (s.onlyDictionary? c).isNone

/-- **No dictionary is that of two properties**, and what properties hold before dictionaries are
filled is in no property element that gives a dictionary. -/
structure Unshared (s : LoadState) : Prop extends s.Placed where
  proper : s.tree.Proper
  bare : ∀ id n, s.context.object? id = some n → (s.heap.object n).entries = .empty
  own : ∀ p n key D, s.context.object? p = some n → s.heap.dictionary? n key = some D →
    ∃ e, s.context.object? e = some D
  held : ∀ p n key p' n' key' D, s.context.object? p = some n → s.context.object? p' = some n' →
    s.heap.dictionary? n key = some D → s.heap.dictionary? n' key' = some D → p = p' ∧ key = key'
  entered : ∀ p n key p' n' key' c D, s.context.object? p = some n →
    s.heap.dictionary? n key = some D → s.context.object? p' = some n' →
      (s.heap.descriptor n').HoldsDictionary key' → s.isFiller p' key' c = true →
        s.onlyDictionary? c ≠ some D

/-- **How a property of dictionary type has been filled** when the walk is over: it holds what has
been given to it last, or what it has held before, or a new dictionary that no other property holds;
and the dictionary has the entries of its own element and of the property elements after the last
one that gives a dictionary, in the order of the document. -/
structure Folded (s : LoadState) (env : Environment) (d : TypeDescriptor) (p : NodeId)
    (n : ObjectId) (key : String) (t : LoadState) (D : ObjectId) : Prop where
  held : t.heap.get? n key = some (.object D)
  kind : t.heap.kind D = .dictionary
  source : s.holding? (s.loaded env) p n key = some D ∨
    s.holding? (s.loaded env) p n key = none ∧ s.heap.size ≤ D ∧ t.heap.descriptor D = d ∧
      ∀ q m key', s.context.object? q = some m → t.heap.get? m key' = some (.object D) →
        q = p ∧ key' = key
  entries : (t.heap.object D).entries.FoldOf <| s.contents <| (s.loaded env).filter fun c =>
    s.context.object? c = some D || (s.laterFillers (s.loaded env) p key).contains c

/-- Of a list without duplicates an element is in the end that meets a test if it and all after it
do. -/
theorem mem_rtakeWhile_iff {α : Type} {test : α → Bool} {first rest : List α} {a : α}
    (nodup : (first ++ a :: rest).Nodup) :
    a ∈ (first ++ a :: rest).rtakeWhile test ↔ test a = true ∧ ∀ b ∈ rest, test b = true := by
  have apart := (List.nodup_cons.1 (List.nodup_append.1 nodup).2.1).1
  have is : (first ++ a :: rest).reverse = rest.reverse ++ a :: first.reverse := by simp
  rw [List.rtakeWhile, List.mem_reverse, is, List.takeWhile_append]
  constructor
  · intro mem
    split at mem
    case isTrue all =>
      have passed := (List.takeWhile_eq_self_iff.1
        ((List.takeWhile_sublist _).eq_of_length all))
      refine ⟨?_, fun b mem => passed b (List.mem_reverse.2 mem)⟩
      rcases List.mem_append.1 mem with there | here
      · exact absurd (List.mem_reverse.1 there) apart
      · exact List.mem_takeWhile_imp here
    case isFalse =>
      exact absurd (List.mem_reverse.1 ((List.takeWhile_sublist _).subset mem)) apart
  · rintro ⟨here, all⟩
    have whole : rest.reverse.takeWhile test = rest.reverse :=
      List.takeWhile_eq_self_iff.2 fun b mem => all b (List.mem_reverse.1 mem)
    rw [if_pos (congrArg List.length whole), List.takeWhile_cons_of_pos here]
    exact List.mem_append_right _ List.mem_cons_self

namespace Unshared

variable (unshared : s.Unshared)

include unshared

/-- The walk meets no node twice. -/
theorem nodup_loaded : (s.loaded env).Nodup :=
  ((NodeTree.perm_preorder unshared.proper.layers _).nodup_iff).2
    (NodeTree.nodup_postorder unshared.proper)

/-- A dictionary is the only element of one node. -/
theorem once {other : NodeId} (only : s.onlyDictionary? c = some D)
    (onlyToo : s.onlyDictionary? other = some D) : c = other := by
  obtain ⟨single, listed, has, -⟩ := of_onlyDictionary? only
  obtain ⟨single', listed', has', -⟩ := of_onlyDictionary? onlyToo
  obtain rfl := unshared.distinct single single' D has has'
  exact unshared.proper.once c other single listed listed'

/-- A dictionary belongs to one property. -/
theorem eq_of_holding {key' : String} {seen all : List NodeId} (has : s.context.object? p = some n)
    (has' : s.context.object? q = some m) (holder : (s.heap.descriptor n).HoldsDictionary key)
    (holder' : (s.heap.descriptor m).HoldsDictionary key')
    (holds : s.holding? seen p n key = some D) (holds' : s.holding? all q m key' = some D) :
    p = q ∧ key = key' := by
  rcases Option.or_eq_some_iff.1 holds with is | ⟨-, held⟩ <;>
    rcases Option.or_eq_some_iff.1 holds' with is' | ⟨-, held'⟩
  · obtain ⟨c, -, filler, only⟩ := exists_of_given? is
    obtain ⟨c', -, filler', only'⟩ := exists_of_given? is'
    obtain rfl := unshared.once only only'
    exact isFiller_unique filler filler'
  · obtain ⟨c, -, filler, only⟩ := exists_of_given? is
    exact absurd only (unshared.entered q m key' p n key c D has' held' has holder filler)
  · obtain ⟨c, -, filler, only⟩ := exists_of_given? is'
    exact absurd only (unshared.entered p n key q m key' c D has held has' holder' filler)
  · exact unshared.held p n key q m key' D has has' held held'

omit unshared in
/-- What a property holds in the end is a dictionary, unless it is a new one. -/
theorem kind_of_holding {seen : List NodeId} (holds : s.holding? seen p n key = some D) :
    s.heap.kind D = .dictionary := by
  rcases Option.or_eq_some_iff.1 holds with is | ⟨-, held⟩
  · obtain ⟨c, -, -, only⟩ := exists_of_given? is
    obtain ⟨-, -, -, kind⟩ := of_onlyDictionary? only
    exact kind
  · exact (Heap.dictionary?_eq_some.1 held).2

/-- A property element puts its elements into the dictionary that the property holds in the end if
none that comes later gives it another. -/
theorem later_iff {seen rest : List NodeId} (nodup : (seen ++ c :: rest).Nodup)
    (has : s.context.object? p = some n) (holder : (s.heap.descriptor n).HoldsDictionary key)
    (filler : s.isFiller p key c = true)
    (holds : s.holding? (seen ++ c :: rest) p n key = some D) :
    c ∈ s.laterFillers (seen ++ c :: rest) p key ↔
      s.onlyDictionary? c = none ∧ s.holding? seen p n key = some D := by
  have split : (seen ++ c :: rest).filter (s.isFiller p key) =
      seen.filter (s.isFiller p key) ++ c :: rest.filter (s.isFiller p key) := by
    simp [List.filter_append, filler]
  have nodup' := nodup.filter (s.isFiller p key)
  rw [split] at nodup'
  have whole : s.holding? (seen ++ c :: rest) p n key = (s.given? rest p key).or
      ((s.onlyDictionary? c).or (s.holding? seen p n key)) := by
    rw [← List.singleton_append, ← List.append_assoc, holding?, given?_append, Option.or_assoc,
      ← holding?_concat filler]
    rfl
  rw [laterFillers, split, mem_rtakeWhile_iff nodup', Option.isNone_iff_eq_none]
  refine and_congr_right fun entries => ?_
  rw [whole, entries, Option.none_or] at holds
  simp only [Option.isNone_iff_eq_none, ← given?_eq_none]
  constructor
  · intro none
    rwa [none, Option.none_or] at holds
  · intro before
    -- What a later one gives is neither given by an earlier one nor held from the beginning.
    refine Option.eq_none_iff_forall_ne_some.2 fun E given => ?_
    rw [given, Option.some_or] at holds
    cases holds
    obtain ⟨b, late, filler', only⟩ := exists_of_given? given
    rcases Option.or_eq_some_iff.1 before with is | ⟨-, held⟩
    · obtain ⟨b', early, -, only'⟩ := exists_of_given? is
      obtain rfl := unshared.once only only'
      exact (List.nodup_append.1 nodup).2.2 b early b (List.mem_cons_of_mem _ late) rfl
    · exact unshared.entered p n key p n key b D has held has holder filler' only

/-- **What comes into the dictionary that a property holds in the end**: the children of its own
element, and those of the property elements after the last one that gives a dictionary. -/
theorem receives_iff {seen rest : List NodeId} (nodup : (seen ++ c :: rest).Nodup)
    (has : s.context.object? p = some n) (holder : (s.heap.descriptor n).HoldsDictionary key)
    (holds : s.holding? (seen ++ c :: rest) p n key = some D) :
    (s.context.object? c = some D ∨ c ∈ s.laterFillers (seen ++ c :: rest) p key) ↔
      s.Receives seen c D := by
  constructor
  · rintro (own | later)
    · exact .own own (kind_of_holding holds)
    · have filler := (List.mem_filter.1 ((List.rtakeWhile_suffix _ _).subset later)).2
      obtain ⟨entries, before⟩ := (unshared.later_iff nodup has holder filler holds).1 later
      exact .property has holder filler entries before
  · intro receives
    cases receives with
    | own own => exact .inl own
    | property has' holder' filler entries before =>
      obtain ⟨rfl, rfl⟩ := unshared.eq_of_holding has' has holder' holder before holds
      obtain rfl := Option.some.inj (has'.symm.trans has)
      exact .inr ((unshared.later_iff nodup has holder filler holds).2 ⟨entries, before⟩)

variable {d : TypeDescriptor}

/-- **A property of dictionary type** for which there are property elements. -/
theorem folded (filled : s.Filled d (s.loaded env) t)
    (has : s.context.object? p = some n) (holder : (s.heap.descriptor n).HoldsDictionary key)
    (some : (s.loaded env).filter (s.isFiller p key) ≠ []) :
    ∃ D, s.Folded env d p n key t D := by
  have nodup : (s.loaded env).Nodup := unshared.nodup_loaded
  cases is : s.holding? (s.loaded env) p n key with
  | some D =>
    obtain ⟨held, kind⟩ := Heap.dictionary?_eq_some.1 (filled.holds p n key D has holder is)
    have inside := Heap.inside_of_dictionary (kind_of_holding is)
    refine ⟨D, held, kind, .inl is, ?_⟩
    -- It had no entries when the walk began.
    have bare : (s.heap.object D).entries = .empty := by
      rcases Option.or_eq_some_iff.1 is with given | ⟨-, held⟩
      · obtain ⟨c, -, -, only⟩ := exists_of_given? given
        obtain ⟨single, -, own, -⟩ := of_onlyDictionary? only
        exact unshared.bare single D own
      · obtain ⟨e, own⟩ := unshared.own p n key D has held
        exact unshared.bare e D own
    have received := filled.received D inside
      (fun c => s.context.object? c = Option.some D ||
        (s.laterFillers (s.loaded env) p key).contains c) fun seen c rest split => by
      rw [Bool.or_eq_true, decide_eq_true_iff, List.contains_iff_mem, split]
      exact unshared.receives_iff (split ▸ nodup) has holder (split ▸ is)
    rw [received, bare]
    exact Table.foldOf_ofList _
  | none =>
    obtain ⟨D, new, held, type, content⟩ := filled.made p n key has holder is some
    obtain ⟨held', kind⟩ := Heap.dictionary?_eq_some.1 held
    refine ⟨D, held', kind, .inr ⟨is, new, type, fun q m key' has' other => ?_⟩, ?_⟩
    · exact filled.apart q m key' p n key D has' has new
        (Heap.dictionary?_eq_some.2 ⟨other, kind⟩) held
    · -- None of the property elements gives a dictionary, and the new one is that of no element.
      have all : s.laterFillers (s.loaded env) p key =
          (s.loaded env).filter (s.isFiller p key) := by
        rw [laterFillers, List.rtakeWhile_eq_self_iff]
        intro c mem
        rw [given?_eq_none.1 (Option.or_eq_none_iff.1 is).1 c mem]
        rfl
      have same : (s.loaded env).filter (fun c => s.context.object? c = Option.some D ||
          (s.laterFillers (s.loaded env) p key).contains c) =
            (s.loaded env).filter (s.isFiller p key) := by
        refine List.filter_congr fun c mem => ?_
        have none : s.context.object? c ≠ Option.some D := fun own =>
          Nat.not_lt_of_le new (unshared.inside c D own)
        rw [all, decide_eq_false none, Bool.false_or, Bool.eq_iff_iff, List.contains_iff_mem,
          List.mem_filter]
        exact and_iff_right mem
      rw [same, content]
      exact Table.foldOf_ofList _

/-- **Any other dictionary** that is the object of an element has the entries of that element. -/
theorem folded_alone {e : NodeId} (filled : s.Filled d (s.loaded env) t)
    (mem : e ∈ s.loaded env) (own : s.context.object? e = some D)
    (kind : s.heap.kind D = .dictionary)
    (alone : ∀ p n key, s.context.object? p = some n → s.heap.dictionary? n key ≠ some D)
    (notOnly : ∀ c, s.onlyDictionary? c ≠ some D) :
    (t.heap.object D).entries.FoldOf (s.contents [e]) := by
  have received := filled.received D (unshared.inside e D own) (· = e) fun seen c rest split => by
    rw [decide_eq_true_iff]
    constructor
    · rintro rfl
      exact .own own kind
    · intro receives
      cases receives with
      | own has => exact unshared.distinct c e D has own
      | property has holder filler entries holds =>
        rcases Option.or_eq_some_iff.1 holds with is | ⟨-, held⟩
        · obtain ⟨c, -, -, only⟩ := exists_of_given? is
          exact absurd only (notOnly c)
        · exact absurd held (alone _ _ _ has)
  have single : (s.loaded env).filter (fun c => decide (c = e)) = [e] := by
    rw [List.filter_eq, List.count_eq_one_of_mem unshared.nodup_loaded mem]
    rfl
  rw [received, unshared.bare e D own, single]
  exact Table.foldOf_ofList _

end Unshared

end LoadState

end MarkupLoader
