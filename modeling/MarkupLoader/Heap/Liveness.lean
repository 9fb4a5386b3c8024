import MarkupLoader.Heap.Basic

/-!
# Which objects are alive

An object lives as long as something holds it: a root, or a living object. **Objects that hold
each other keep each other alive**, also when nothing else holds any of them; the objects that a
template remembers are not held by it.

So what stays alive is the greatest set of living objects of which each is a root or held by one
of the set. `Heap.retain` reaches it from above: it lets go of objects that nothing holds until
all that are left are held.

Main statement: `mem_living_retain`.
-/

namespace MarkupLoader.Heap

/-- Whether an object is alive. -/
def isAlive (h : Heap) (id : ObjectId) : Bool := id < h.size && !h.dead.contains id

/-- The objects that are alive. -/
def living (h : Heap) : List ObjectId := (List.range h.size).filter h.isAlive

/-- The objects held by a root or by one of `kept`. -/
def held (h : Heap) (roots kept : List ObjectId) : List ObjectId :=
  roots ++ kept.flatMap fun id => (h.object id).references

/-- Lets go of objects in `kept` that nothing holds, until there are none or `rounds` is used
up. -/
def keepHeld (h : Heap) (roots : List ObjectId) : Nat → List ObjectId → List ObjectId
  | 0, kept => kept
  | rounds + 1, kept =>
    let held := h.held roots kept
    let next := kept.filter held.contains
    -- Once a round lets go of nothing, neither will those after it.
    if next.length = kept.length then kept else h.keepHeld roots rounds next

/-- The objects that stay alive when only the roots and the objects themselves hold any. -/
def survivors (h : Heap) (roots : List ObjectId) : List ObjectId :=
  h.keepHeld roots h.size h.living

/-- The heap with all objects dead that nothing holds any more. -/
def retain (h : Heap) (roots : List ObjectId) : Heap :=
  let kept := h.survivors roots
  { h with dead := (List.range h.size).filter fun id => !kept.contains id }

/-! ## Laws -/

/-- Letting go adds nothing. -/
theorem keepHeld_subset (h : Heap) (roots : List ObjectId) (rounds : Nat) {kept : List ObjectId}
    {id : ObjectId} (mem : id ∈ h.keepHeld roots rounds kept) : id ∈ kept := by
  induction rounds generalizing kept with
  | zero => exact mem
  | succ rounds ih =>
    simp only [keepHeld] at mem
    split at mem
    · exact mem
    · exact (List.mem_filter.1 (ih mem)).1

/-- What is alive after letting go are the survivors. -/
theorem mem_living_retain (h : Heap) (roots : List ObjectId) (id : ObjectId) :
    id ∈ (h.retain roots).living ↔ id ∈ h.survivors roots := by
  -- Survivors are among the living, and those are places of the heap.
  have inside : id ∈ h.survivors roots → id < h.objects.size := fun mem =>
    List.mem_range.1 (List.mem_filter.1 (keepHeld_subset h roots _ mem)).1
  simp only [living, isAlive, retain, size, List.mem_filter, List.mem_range, Bool.and_eq_true,
    List.contains_eq_mem, Bool.not_eq_true', decide_eq_false_iff_not]
  constructor
  · rintro ⟨bound, -, alive⟩
    by_cases mem : id ∈ h.survivors roots
    · exact mem
    -- What is in the heap and no survivor has been marked as dead.
    · simp [bound, mem] at alive
  · intro mem
    have bound := inside mem
    exact ⟨bound, decide_eq_true bound, by simp [mem]⟩

end MarkupLoader.Heap
