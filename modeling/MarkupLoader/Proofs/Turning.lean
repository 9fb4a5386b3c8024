import MarkupLoader.Proofs.Later
import MarkupLoader.Proofs.Made

/-!
# What becomes of the heap

A step **turns** a heap into another (`Load.Turns`), also where it fails. What is said of the two is
kept by any number of steps if it chains, and then a load keeps it if its single changes of the heap
do. The passes up to the registration of names change the heap in one way only: elements make new
objects (`Heap.Making`).

Main results: `turns_createNode`, `turns_createValues`, `turns_createRoot`.
-/

namespace MarkupLoader

/-- A relation that the making of objects stays within. -/
structure Heap.Making (env : Environment) (H : Heap → Heap → Prop) : Prop
    extends Heap.Chains H where
  made : ∀ (s : LoadState) (id : NodeId) (o : Object), s.Makes env id o →
    H s.heap (s.heap.alloc o).2

namespace Load

variable {α β : Type} {H : Heap → Heap → Prop} {env : Environment}

/-- A step turns heaps into heaps that are related to them, also where it fails. -/
def Turns (H : Heap → Heap → Prop) (step : Load α) : Prop :=
  ∀ s, H s.heap (step.start s).2.heap

/-! ## Rules -/

section Chains

variable (chains : Heap.Chains H)

include chains

theorem Turns.bind {step : Load α} {next : α → Load β} (first : Turns H step)
    (second : ∀ a, Turns H (next a)) : Turns H (step >>= next) := by
  intro s
  have here := first s
  rw [start_bind]
  rcases ran : step.start s with ⟨error | a, t⟩ <;> rw [ran] at here
  · exact here
  · exact chains.trans here (second a t)

theorem turns_forM {step : α → Load Unit} {list : List α}
    (each : ∀ a ∈ list, Turns H (step a)) : Turns H (list.forM step) := by
  induction list with
  | nil => exact fun s => chains.refl s.heap
  | cons a rest ih =>
    refine (each a List.mem_cons_self).bind chains fun _ => ih fun b mem => ?_
    exact each b (List.mem_cons_of_mem _ mem)

theorem turns_modifyContext (change : Context → Context) : Turns H (modifyContext change) :=
  fun s => chains.refl s.heap

theorem turns_modifyTree (change : NodeTree → NodeTree) : Turns H (modifyTree change) :=
  fun s => chains.refl s.heap

theorem turns_recover (error : LoadError) : Turns H (recover error) := by
  intro s
  rw [start_recover]
  split <;> exact chains.refl s.heap

theorem turns_adoptRoot (id : ObjectId) : Turns H (adoptRoot id) := fun s => chains.refl s.heap

theorem turns_setValue (id : NodeId) (value : Value) : Turns H (setValue id value) := by
  intro s
  rw [start_setValue]
  split <;> exact chains.refl s.heap

theorem Turns.completePass {pass : Pass} (turns : Turns H (runPass env pass)) :
    Turns H (completePass env pass) :=
  turns.bind chains fun _ => turns_modifyContext chains _

end Chains

theorem Settles.turns {step : Load α} (settles : Settles H step) : Turns H step :=
  fun s => (settles s).heap

/-! ## Making objects -/

section Making

variable (making : Heap.Making env H)

include making

theorem turns_settleMade {s : LoadState} {id : NodeId} {made : Made}
    (makes : s.make env id = .ok made) : H s.heap ((settleMade made).start s).2.heap := by
  cases made with
  | scalar value => exact making.refl s.heap
  | object o => exact making.made s id o (LoadState.makes_of_make makes)

theorem turns_createNode (id : NodeId) : Turns H (createNode env id) := by
  intro s
  have chains := making.toChains
  rw [createNode, start_get_bind]
  cases makes : s.make env id with
  | ok made =>
    have settled := turns_settleMade making makes
    dsimp only
    rw [start_bind]
    rcases ran : (settleMade made).start s with ⟨error | value, t⟩ <;> rw [ran] at settled
    · exact settled
    · have set := turns_setValue chains id value
      refine chains.trans settled ?_
      dsimp only
      split
      · split
        · exact (turns_adoptRoot chains _).bind chains (fun _ => set) t
        · exact set t
      · exact set t
  | error error =>
    dsimp only
    split
    · exact chains.refl s.heap
    · exact (turns_recover chains error).bind chains (fun _ => turns_modifyTree chains _) s

theorem turns_createValues : Turns H (createValues env) := by
  intro s
  have chains := making.toChains
  have each : Turns H ((s.loadedUpwards env).forM (createValue env)) := ?_
  · exact each s
  refine turns_forM chains fun id _ s => ?_
  have creates := turns_createNode making id s
  rw [createValue, start_get_bind]
  split
  · exact chains.refl s.heap
  · split
    · split
      · exact (turns_setValue chains _ _).bind chains (fun _ => turns_modifyContext chains _) s
      · exact creates
    · exact creates

theorem turns_createRoot : Turns H (createRoot env) := by
  intro s
  have chains := making.toChains
  rw [createRoot, start_get_bind]
  split
  · exact chains.refl s.heap
  · split
    · exact chains.refl s.heap
    · cases makes : s.make env NodeTree.root with
      | error error => exact chains.refl s.heap
      | ok made =>
        have settled := turns_settleMade making makes
        show H s.heap ((settleMade made >>= _).start s).2.heap
        rw [start_bind]
        rcases ran : (settleMade made).start s with ⟨error | value, t⟩ <;> rw [ran] at settled
        · exact settled
        · dsimp only
          split <;> exact settled

end Making

end Load

end MarkupLoader
