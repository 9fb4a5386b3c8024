import MarkupLoader.Load.Loader
import MarkupLoader.Proofs.Creating
import MarkupLoader.Schema.Controls

/-!
# Where the outermost object comes from

A load makes the object of the outermost element itself, or is given one to load into. **Both ways
meet in one state**: a load that makes its object first goes on exactly like a load into an object
that has just been made.

* **A fresh object** is what the registry makes of the name of the outermost element
  (`Registry.create`).
* **A scalar** at the outermost place (`NodeTree.scalarRoot`) is read before the registry is asked,
  and is no object.
* **The content of a template** at the outermost place (`NodeTree.rootContent`) is put into the
  template by the load that makes it. An object of template kind that is loaded into keeps what it
  has.

Main statement: `create_eq_loadInto`.
-/

namespace MarkupLoader

namespace NodeTree

/-- Whether the outermost element stands for a scalar. -/
def scalarRoot (tree : NodeTree) : Bool :=
  let name := (tree.node root).typeName
  isLanguage name.namespaceUri && (scalar? name.localName (tree.textContent root)).isSome

/-- What a template at the outermost place keeps, as the document is before any pass. -/
def rootContent (tree : NodeTree) : Except LoadError (Option Template) :=
  (LoadState.initial tree none default .empty).templateContent root

/-- What a text is read as, asked in a form that can be decided. -/
theorem read_of_toOption {markup : String} {tree : NodeTree}
    (reads : (NodeTree.read markup).toOption = some tree) : NodeTree.read markup = .ok tree :=
  ok_of_toOption reads

end NodeTree

namespace Loader

variable {env : Environment} {h heap : Heap} {tree : NodeTree} {target : ObjectId}

/-- A registry makes an object of the type that it has under the name. -/
theorem exists_type_of_create {registry : Registry} {name : QName}
    (fresh : registry.create h name = .ok (target, heap)) :
    ∃ d, registry.get? name = some d ∧ target = h.size ∧ heap = (h.alloc (.ofType d)).2 := by
  unfold Registry.create at fresh
  split at fresh
  case h_1 d known =>
    cases fresh
    exact ⟨d, known, rfl, rfl⟩
  case h_2 => cases fresh

/-- A new object that is changed at once might have been made so. -/
theorem modify_alloc (h : Heap) (o : Object) (change : Object → Object) :
    (h.alloc o).2.modify h.size change = (h.alloc (change o)).2 := by
  have objects : (h.objects.push o).modify h.objects.size change =
      h.objects.push (change o) := by
    refine Array.ext (by simp) fun i inside _ => ?_
    rw [Array.getElem_modify, Array.getElem_push, Array.getElem_push]
    split <;> split <;> grind
  simp [Heap.alloc, Heap.modify, Heap.size, objects]

section Made

variable {d : TypeDescriptor} {s : LoadState}

/-- Without arguments and factory the outermost element makes an empty object, or an empty template
around what the document has in it. -/
theorem makeObject_root (known : env.registry.get? (s.node NodeTree.root).typeName = some d)
    (noArguments : s.tree.arguments? NodeTree.root = none)
    (noFactory : (s.node NodeTree.root).directive? "FactoryMethod" = none) :
    s.makeObject env NodeTree.root =
      (if d.kind = .template then s.tree.rootContent else .ok none).map fun kept =>
        { Object.ofType d with template := kept } := by
  have arguments : s.argumentValues NodeTree.root = [] := by
    simp only [LoadState.argumentValues, noArguments]
  have content : s.templateContent NodeTree.root = s.tree.rootContent := rfl
  simp only [LoadState.makeObject, known, arguments, NodeBody.directiveText?, noFactory,
    Option.bind_none, TypeDescriptor.make_nil, content]
  split
  · cases s.tree.rootContent <;> rfl
  · rfl

/-- An outermost element that is no scalar makes an object. -/
theorem make_of_not_scalarRoot (noScalar : s.tree.scalarRoot = false) :
    s.make env NodeTree.root = (s.makeObject env NodeTree.root).map .object := by
  have none : (if isLanguage (s.node NodeTree.root).typeName.namespaceUri then
      scalar? (s.node NodeTree.root).typeName.localName (s.tree.textContent NodeTree.root)
      else none) = none := by
    split
    case isTrue language =>
      simp only [NodeTree.scalarRoot, Bool.and_eq_false_imp, Option.isSome_eq_false_iff,
        Option.isNone_iff_eq_none] at noScalar
      exact noScalar language
    case isFalse => rfl
  simp only [LoadState.make, none]

/-- An outermost element that stands for a scalar makes no object. -/
theorem make_of_scalarRoot (scalar : s.tree.scalarRoot = true) :
    (∃ value, s.make env NodeTree.root = .ok (.scalar value)) ∨
      ∃ error, s.make env NodeTree.root = .error error := by
  simp only [NodeTree.scalarRoot, Bool.and_eq_true, Option.isSome_iff_exists] at scalar
  obtain ⟨language, read, reads⟩ := scalar
  simp only [LoadState.make, LoadState.node, language, if_true, reads]
  cases read with
  | ok value => exact .inl ⟨value, rfl⟩
  | error reason => exact .inr ⟨_, rfl⟩

end Made

/-! ## The two ways -/

variable {markup : String}

/-- The state before a load that makes its object. -/
def unrooted (h : Heap) (tree : NodeTree) (tolerant : Bool) : LoadState :=
  .initial tree none (.start none tolerant []) h

/-- A load that cannot make its object is over, and leaves the heap as it is. -/
theorem create_of_failed {error : LoadError} (l : Loader) (tolerant : Bool)
    (read : NodeTree.read markup = .ok tree)
    (failed : (Load.createRoot l.environment).start (unrooted h tree tolerant) =
      (.error error, unrooted h tree tolerant)) :
    l.create h markup tolerant = ⟨.error error, h⟩ := by
  have ran : (createThenRun l.environment).start (unrooted h tree tolerant) =
      (.error error, unrooted h tree tolerant) := Load.start_bind_of_error failed
  unfold unrooted at ran
  simp only [create, read, runCreate, Run.ofStep, ran]
  rfl

/-- A load that makes its object goes on like a load into that object. -/
theorem create_of_made {o : Object} (l : Loader) (tolerant : Bool)
    (read : NodeTree.read markup = .ok tree)
    (made : (Load.createRoot l.environment).start (unrooted h tree tolerant) =
      (.ok (), ((unrooted h tree tolerant).withObject o).adopting h.size)) :
    l.create h markup tolerant =
      (Loader.mk l.environment tolerant).loadInto (h.alloc o).2 h.size markup := by
  have runs : (createThenRun l.environment).start (unrooted h tree tolerant) =
      (Load.runPasses l.environment).start
        (.initial tree (some h.size) (.start (some h.size) tolerant []) (h.alloc o).2) :=
    Load.start_bind_of_ok made
  unfold unrooted at runs
  simp only [create, loadInto, read, runCreate, runInto, Run.ofStep, runs]

/--
**Making an object and loading into a fresh one is the same**, for an outermost element without
arguments and factory whose type is registered. In both cases the load ends in the same way, with
the same report and the same heap, whether it tolerates failures or not, if the type is of none of
two sorts:

* a template, which has the content of the document in it if the load makes it. The load goes on
  as it does into a fresh object that has been given this content, unless there is too much of it;
* a scalar, whose name makes no object even if a type is registered under it.
-/
theorem create_eq_loadInto (l : Loader) (tolerant : Bool)
    (read : NodeTree.read markup = .ok tree)
    (noArguments : tree.arguments? NodeTree.root = none)
    (noFactory : (tree.node NodeTree.root).directive? "FactoryMethod" = none)
    (fresh : l.environment.registry.create h (tree.node NodeTree.root).typeName =
      .ok (target, heap)) :
    let into := fun heap => (Loader.mk l.environment tolerant).loadInto heap target markup
    let template := l.environment.registry.isTemplate (tree.node NodeTree.root).typeName
    if tree.scalarRoot then ∃ error, l.create h markup tolerant = ⟨.error error, h⟩
    else if template then
      l.create h markup tolerant =
        match tree.rootContent with
        | .error error => ⟨.error error, h⟩
        | .ok kept => into (heap.modify target fun o => { o with template := kept })
    else l.create h markup tolerant = into heap := by
  intro into template
  obtain ⟨d, known, rfl, rfl⟩ := exists_type_of_create fresh
  have kind : template = decide (d.kind = .template) := by
    simp [template, Registry.isTemplate, known]
  -- Only the step that makes the object differs, so it is enough to say how that one ends.
  let s := unrooted h tree tolerant
  have begins : (Load.createRoot l.environment).start s = _ :=
    Load.start_createRoot_new rfl noArguments
  cases scalar : tree.scalarRoot with
  | true =>
    have makes : (∃ value, s.make l.environment NodeTree.root = .ok (.scalar value)) ∨
        ∃ error, s.make l.environment NodeTree.root = .error error := make_of_scalarRoot scalar
    obtain ⟨value, made⟩ | ⟨error, failed⟩ := makes
    · rw [made] at begins
      exact ⟨_, create_of_failed l tolerant read begins⟩
    · rw [failed] at begins
      exact ⟨_, create_of_failed l tolerant read begins⟩
  | false =>
    rw [make_of_not_scalarRoot (s := s) scalar,
      makeObject_root (s := s) known noArguments noFactory] at begins
    rw [if_neg Bool.false_ne_true, kind]
    by_cases isTemplate : d.kind = .template
    · have content : s.tree.rootContent = tree.rootContent := rfl
      simp only [isTemplate, decide_true, if_true, content] at begins ⊢
      cases found : tree.rootContent with
      | error error =>
        rw [found] at begins
        exact create_of_failed l tolerant read begins
      | ok kept =>
        rw [found] at begins
        -- The content is there before the first pass, as if the fresh object had been given it.
        rw [create_of_made l tolerant read begins]
        simp only [into, modify_alloc]
    · -- What is made has nothing in it, as what the registry makes.
      simp only [isTemplate, decide_false, if_false] at begins ⊢
      exact create_of_made l tolerant read begins

/-- A label is made or loaded into. -/
theorem create_eq_loadInto_label :
    let l : Loader := ⟨⟨.controls, .builtIn⟩, false⟩
    let markup := "<Label xmlns=\"http://xamarin.com/schemas/2014/forms\" Text=\"Hello\"/>"
    let tree : NodeTree := ⟨#[⟨⟨.root, ⟨formsNamespace, "Label"⟩, [],
      [⟨⟨"", "Text"⟩, .raw "Hello", ⟨1, 54⟩⟩], [("", formsNamespace)], ⟨1, 1⟩⟩, [], none⟩], []⟩
    let heap := (Heap.empty.alloc (.ofType Controls.label)).2
    NodeTree.read markup = .ok tree ∧ tree.arguments? NodeTree.root = none ∧
      (tree.node NodeTree.root).directive? "FactoryMethod" = none ∧
      l.environment.registry.create .empty (tree.node NodeTree.root).typeName = .ok (0, heap) ∧
      ∀ tolerant, l.create .empty markup tolerant =
        (Loader.mk l.environment tolerant).loadInto heap 0 markup := by
  intro l markup tree heap
  have read : NodeTree.read markup = .ok tree := NodeTree.read_of_toOption (by decide +kernel)
  have noArguments : tree.arguments? NodeTree.root = none := by decide +kernel
  have noFactory : (tree.node NodeTree.root).directive? "FactoryMethod" = none := by
    decide +kernel
  have fresh : l.environment.registry.create .empty (tree.node NodeTree.root).typeName =
      .ok (0, heap) := rfl
  have noScalar : tree.scalarRoot = false := by decide +kernel
  have noTemplate :
      l.environment.registry.isTemplate (tree.node NodeTree.root).typeName = false := by
    decide +kernel
  refine ⟨read, noArguments, noFactory, fresh, fun tolerant => ?_⟩
  have agree := create_eq_loadInto l tolerant read noArguments noFactory fresh
  rw [noScalar, noTemplate] at agree
  exact agree

/-- A template that a load makes has its content, and one that is loaded into stays empty. -/
theorem template_loaded_into_stays_empty :
    let l : Loader := ⟨⟨.controls, .builtIn⟩, false⟩
    let markup := "<DataTemplate xmlns=\"http://xamarin.com/schemas/2014/forms\">" ++
      "<Label/></DataTemplate>"
    let made := l.create .empty markup false
    let loaded := l.loadInto (Heap.empty.alloc (.ofType Controls.dataTemplate)).2 0 markup
    made.result.toOption.map (·.root) = some 0 ∧ loaded.result.toOption.map (·.root) = some 0 ∧
      (made.heap.object 0).template.isSome = true ∧
      (loaded.heap.object 0).template.isSome = false := by
  intro l markup made loaded
  let tree : NodeTree := ⟨#[
    ⟨⟨.root, ⟨formsNamespace, "DataTemplate"⟩, [], [], [("", formsNamespace)], ⟨1, 1⟩⟩, [1], none⟩,
    ⟨⟨.element, ⟨formsNamespace, "Label"⟩, [], [], [], ⟨1, 61⟩⟩, [], none⟩], []⟩
  have read : NodeTree.read markup = .ok tree := NodeTree.read_of_toOption (by decide +kernel)
  simp only [made, loaded, create, loadInto, read]
  decide +kernel

end Loader

end MarkupLoader
