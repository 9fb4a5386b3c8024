import MarkupLoader.Proofs.Instantiating
import MarkupLoader.Proofs.OwnRules

/-!
# Loads that fail early

A load into an object works on objects that were there before, and what it has done to them stays
done if it fails. **It does not begin to before dictionaries are filled.** The passes up to the
registration of names make new objects, and what they find out about the document is kept apart from
the heap. So a load that they give up leaves the target and all other objects as they were
(`Heap.Spares`), as one does that finds no document to load.

Main results: `Load.spares_early`, `Loader.early_failure_spares`.
-/

namespace MarkupLoader

/-- A later heap in which nothing has been done to the objects that were there. -/
structure Heap.Spares (h after : Heap) : Prop extends h.Keeps after where
  dead : after.dead = h.dead

/-- The passes up to the registration of names. -/
def Pass.early : List Pass :=
  [.parentLinking, .markupExpansion, .pruneIgnored, .namescoping, .valueCreation, .nameRegistration]

theorem Pass.all_eq : Pass.all = Pass.early ++ [.resourceDictionaryFill, .propertyApplication] := rfl

namespace Heap

theorem Spares.refl (h : Heap) : h.Spares h := ⟨.refl h, rfl⟩

theorem Spares.trans {a b c : Heap} (first : a.Spares b) (second : b.Spares c) : a.Spares c where
  size := Nat.le_trans first.size second.size
  object id inside := (second.object id (Nat.lt_of_lt_of_le inside first.size)).trans
    (first.object id inside)
  dead := second.dead.trans first.dead

theorem making_spares (env : Environment) : Making env Spares where
  refl := .refl
  trans _ _ _ := .trans
  made s _ o _ := ⟨(Keeps.refl s.heap).alloc o, rfl⟩

end Heap

namespace Load

variable {env : Environment} {s : LoadState} {error : LoadError}

/-- **The passes up to the registration of names spare the objects that were there**, whether they
fail or not. -/
theorem spares_early (env : Environment) :
    Turns Heap.Spares (Pass.early.forM (completePass env)) := by
  have making := Heap.making_spares env
  have chains := making.toChains
  have prepares : Turns Heap.Spares (prepare env) := (careful_prepare env).turns chains
  have creates : Turns Heap.Spares (completePass env .valueCreation) :=
    Turns.completePass chains (turns_createValues making)
  have names : Settles Heap.Spares (registerNames env) := fun s =>
    settles_forM chains (settles_registerName chains) (s.loaded env) s
  have registers : Turns Heap.Spares (completePass env .nameRegistration) :=
    Turns.completePass chains names.turns
  intro s
  have order : (Pass.early.forM (completePass env)).start s =
      (prepare env >>= fun _ => [Pass.valueCreation, .nameRegistration].forM (completePass env)).start
        s :=
    start_forM_append (completePass env) [.parentLinking, .markupExpansion, .pruneIgnored, .namescoping]
      _ s
  rw [order]
  refine prepares.bind chains (fun _ => turns_forM chains fun pass mem => ?_) s
  simp only [List.mem_cons, List.not_mem_nil, or_false] at mem
  rcases mem with rfl | rfl
  · exact creates
  · exact registers

/-- When an early pass fails the load is over. -/
theorem start_runPasses_early {t : LoadState}
    (stopped : (Pass.early.forM (completePass env)).start s = (.error error, t)) :
    (runPasses env).start s = (.error error, t) := by
  rw [runPasses, Pass.all_eq, start_forM_append, start_bind_of_error stopped]

end Load

namespace Loader

/-- Loading markup into an object comes to nothing before dictionaries are filled. -/
inductive FailsEarly (l : Loader) (h : Heap) (target : ObjectId) (markup : String) :
    LoadError → Prop
  /-- The text is no document. -/
  | unread {fault : FaultAt} (unread : NodeTree.read markup = .error fault) :
      FailsEarly l h target markup (.ofFault fault)
  /-- One of the passes up to the registration of names fails. -/
  | stopped {tree : NodeTree} {error : LoadError} (read : NodeTree.read markup = .ok tree)
      (stopped : ((Pass.early.forM (Load.completePass l.environment)).start
        (.initial tree (some target) (.start (some target) l.tolerant []) h)).1 = .error error) :
      FailsEarly l h target markup error

variable {l : Loader} {h : Heap} {target : ObjectId} {markup : String} {error : LoadError}

theorem spares_loadInto (fails : l.FailsEarly h target markup error) :
    (l.loadInto h target markup).result = .error error ∧
      h.Spares (l.loadInto h target markup).heap := by
  unfold loadInto
  cases fails with
  | unread unread =>
    rw [unread]
    exact ⟨rfl, .refl h⟩
  | @stopped tree _ read stopped =>
    rw [read]
    have ran := Load.start_runPasses_early (Prod.ext stopped rfl)
    have spares := Load.spares_early l.environment
      (.initial tree (some target) (.start (some target) l.tolerant []) h)
    dsimp only
    rw [runInto, Run.ofStep, ran]
    exact ⟨rfl, spares⟩

/--
**An early failure leaves the target untouched.** If the text to be loaded into an object is no
document, or one of the passes up to the registration of names fails, then the load fails, strict or
not, and the target and all other objects are as before. So it is for a component, also if there is no
document for it.
-/
theorem early_failure_spares (l : Loader) (h : Heap) (target : ObjectId) :
    (∀ markup error, l.FailsEarly h target markup error →
      (l.loadInto h target markup).result = .error error ∧
        h.Spares (l.loadInto h target markup).heap) ∧
    ∀ (r : Resolver) (cache : ResourceCache) (c : Component) (error : LoadError),
      (r.resolveMarkup cache c).1 = .error error ∨
        (∃ markup, (r.resolveMarkup cache c).1 = .ok markup ∧
          l.FailsEarly h target markup error) →
      (l.loadComponent r cache h target c).1.result = .error error ∧
        h.Spares (l.loadComponent r cache h target c).1.heap := by
  refine ⟨fun markup error => spares_loadInto, fun r cache c error fails => ?_⟩
  unfold loadComponent
  rcases resolved : r.resolveMarkup cache c with ⟨missing | markup, later⟩ <;> rw [resolved] at fails
  · rcases fails with is | ⟨markup, is, -⟩
    · cases is
      exact ⟨rfl, .refl h⟩
    · cases is
  · rcases fails with is | ⟨markup, is, early⟩
    · cases is
    · cases is
      exact spares_loadInto early

/-- A strict load makes a label and comes to an element of no known type. There is no document for
the component. -/
theorem early_failure_spares_layout :
    let l : Loader := ⟨⟨.controls, .builtIn⟩, false⟩
    let layout : Object := { Object.ofType Controls.stackLayout with
      properties := .ofList [("Children", .list [.string "a"])]
      items := [.string "b"]
      entries := .ofList [("k", .string "c")] }
    let h : Heap := ⟨#[layout], []⟩
    let markup :=
      "<StackLayout xmlns=\"http://xamarin.com/schemas/2014/forms\"><Label/><Missing/></StackLayout>"
    let error : LoadError := .unresolvedType ⟨formsNamespace, "Missing"⟩ ⟨1, 68⟩
    let component : Component := ⟨"App.Page", ⟨"app", [], false⟩⟩
    let loaded := (l.loadComponent ⟨none⟩ .empty h 0 component).1
    l.FailsEarly h 0 markup error ∧ (l.loadInto h 0 markup).result = .error error ∧
      h.Spares (l.loadInto h 0 markup).heap ∧ (l.loadInto h 0 markup).heap.size = 2 ∧
      (Resolver.resolveMarkup ⟨none⟩ .empty component).1 = .error (.documentNotFound "App.Page") ∧
      loaded.result = .error (.documentNotFound "App.Page") ∧ h.Spares loaded.heap := by
  intro l layout h markup error component loaded
  let forms (localName : String) : QName := ⟨formsNamespace, localName⟩
  let t : NodeTree := ⟨#[
    ⟨⟨.root, forms "StackLayout", [], [], [("", formsNamespace)], ⟨1, 1⟩⟩, [1, 2], none⟩,
    ⟨⟨.element, forms "Label", [], [], [], ⟨1, 60⟩⟩, [], none⟩,
    ⟨⟨.element, forms "Missing", [], [], [], ⟨1, 68⟩⟩, [], none⟩], []⟩
  have read : NodeTree.read markup = .ok t := NodeTree.read_of_toOption (by decide +kernel)
  obtain ⟨stopped, size, unknown⟩ :
      ((Pass.early.forM (Load.completePass l.environment)).start
        (.initial t (some 0) (.start (some 0) l.tolerant []) h)).1 = .error error ∧
      (l.loadInto h 0 markup).heap.size = 2 ∧
      (Resolver.resolveMarkup ⟨none⟩ .empty component).1 =
        .error (.documentNotFound "App.Page") := by
    decide +kernel
  have fails : l.FailsEarly h 0 markup error := .stopped read stopped
  obtain ⟨markups, components⟩ := early_failure_spares l h 0
  obtain ⟨failed, spares⟩ := markups markup error fails
  obtain ⟨failed', spares'⟩ := components ⟨none⟩ .empty component _ (.inl unknown)
  exact ⟨fails, failed, spares, size, unknown, failed', spares'⟩

end Loader

end MarkupLoader
