import MarkupLoader.Proofs.LexicalScope
import MarkupLoader.Proofs.RankedApplying
import MarkupLoader.Proofs.Soundness

/-!
# Loads let go of what they have made

An expression may refer to any object of a document, also to one that holds the object it is
evaluated for. **Without expressions a load makes no circle**: what an object gets comes from its
own element, and so the objects can be ranked by the routes to their elements.

There is one way to a circle left. Filling dictionaries does not pass over the arguments of a
constructor, as applying properties does. A type that declares a property of dictionary type under
the name of the directive gets its arguments put into the dictionary that the property holds, and if
that has been an argument itself, it is **put into itself**. Such types are left out
(`NodeTree.SparesArguments`).

Main results: `Course.ranked`, `Loader.create_releases`.
-/

namespace MarkupLoader

/-! ## Registries and documents -/

theorem Registry.Regular.noCustomFactories {r : Registry} (regular : r.Regular) :
    r.NoCustomFactories :=
  fun name d found key make given => (regular.factories name d found key make given).1

/-- Whether an attribute is an expression. Directives are texts in any case. -/
def Attribute.isExpression (a : Attribute) : Bool :=
  !isLanguage a.name.namespaceUri &&
    match a.value with
    | .expression _ => true
    | .literal _ => false
    | .raw text =>
      match AttributeText.read text with
      | .ok (.expression _) => true
      | _ => false

namespace NodeTree

/-- No attribute of a document is an expression. -/
def WithoutExpressions (t : NodeTree) : Prop :=
  ∀ n ∈ t.nodes.toList, ∀ a ∈ n.attributes, a.isExpression = false

instance (t : NodeTree) : Decidable t.WithoutExpressions :=
  inferInstanceAs (Decidable (∀ n ∈ t.nodes.toList, ∀ a ∈ n.attributes, a.isExpression = false))

/-- **Filling spares the arguments**: where an element takes some, its type declares no property of
dictionary type under the name of the directive. -/
def SparesArguments (t : NodeTree) (r : Registry) : Prop :=
  ∀ id < t.size, (t.arguments? id).isSome = true → ∀ d ∈ r.get? (t.node id).typeName,
    ∀ p ∈ d.property? "Arguments", p.type ≠ .dictionary

instance (t : NodeTree) (r : Registry) : Decidable (t.SparesArguments r) :=
  inferInstanceAs (Decidable (∀ id < t.size, (t.arguments? id).isSome = true →
    ∀ d ∈ r.get? (t.node id).typeName, ∀ p ∈ d.property? "Arguments", p.type ≠ .dictionary))

variable {t : NodeTree} {id c : NodeId}

theorem WithoutExpressions.attribute_of (without : t.WithoutExpressions) {a : Attribute}
    (mem : a ∈ (t.node id).attributes) : a.isExpression = false := by
  unfold node at mem
  cases here : t.nodes[id]? with
  | none =>
    rw [here] at mem
    cases mem
  | some n =>
    rw [here] at mem
    exact without n (Array.mem_toList_iff.2 (Array.mem_of_getElem? here)) a mem

/-- A text that is no expression does not become one. -/
theorem ne_expression_of_expandAttribute {extensions : Extensions} {a b : Attribute} {text : String}
    (raw : b.value = .raw text) (no : b.isExpression = false)
    (expanded : t.expandAttribute extensions id b = .ok a) (x : Expression) :
    a.value ≠ .expression x := by
  intro is
  unfold expandAttribute at expanded
  rw [raw] at expanded
  dsimp only at expanded
  split at expanded
  · cases expanded
    rw [raw] at is
    cases is
  · split at expanded
    · cases expanded
      cases is
    case isFalse counts =>
      split at expanded
      case h_1 value given =>
        cases expanded
        obtain rfl : value = .expression x := is
        -- What is read of the text would be an expression.
        unfold Attribute.isExpression at no
        rw [Bool.eq_false_iff.2 counts, raw] at no
        dsimp only at no
        unfold expandText at given
        split at given
        · cases given
        · cases given
        · cases given
        case h_4 read =>
          rw [read] at no
          cases no
      case h_2 => cases expanded

/-- Filling takes arguments for no property of an object, if it spares them. -/
theorem SparesArguments.filledKey? {r : Registry} (spares : t.SparesArguments r)
    (listed : c ∈ (t.node id).children) (arguments : t.isArguments c = true) {d : TypeDescriptor}
    (type : r.get? (t.node id).typeName = some d) {name : QName}
    (kind : (t.node c).kind = .property name) : d.filledKey? name = none := by
  have takes : (t.arguments? id).isSome = true := List.find?_isSome.2 ⟨c, listed, arguments⟩
  have inside : id < t.size := by
    refine Nat.lt_of_not_le fun outside => ?_
    have nothing : t.node id = default := by
      have outside : t.nodes.size ≤ id := outside
      simp [node, outside]
    rw [nothing] at listed
    cases listed
  have directive : name.isDirective "Arguments" = true := by
    unfold isArguments at arguments
    rwa [kind] at arguments
  have named : name.localName = "Arguments" := by
    simpa using (Bool.and_eq_true_iff.1 directive).2
  -- Filling looks for a property of the name behind the last dot, and does not ask for directives.
  unfold TypeDescriptor.filledKey?
  dsimp only
  rw [named, show Text.afterLast '.' "Arguments" = "Arguments" by decide +kernel]
  cases declared : d.property? "Arguments" with
  | none => rfl
  | some p => exact if_neg (spares id inside takes d type p declared)

end NodeTree

/-! ## Loads without expressions -/

namespace Load

variable {env : Environment} {tolerant : Bool} {h : Heap} {doc : NodeTree}
  {s before created filled last t : LoadState}

/-- Registering names leaves the heap as it is. -/
theorem settled_of_registerNames (ran : (registerNames env).start s = (.ok (), t)) :
    s.Settled Eq t := by
  have chains : Heap.Chains Eq := ⟨fun _ => rfl, fun _ _ _ => Eq.trans⟩
  have settles : Settles Eq (registerNames env) :=
    fun s => settles_forM chains (settles_registerName chains) (s.loaded env) s
  exact settles.ran ran

/-- Dictionaries are filled in states whose objects are ranked. -/
theorem ranked_of_fills {rank : ObjectId → List Nat}
    (fillable : ∀ rest, filled.Fillable h doc rank rest)
    (fills : ([Pass.nameRegistration, .resourceDictionaryFill].forM (completePass env)).start
      filled = (.ok (), t)) : ∃ rank', t.Fillable h doc rank' [] := by
  obtain ⟨_, u, first, ran⟩ := ok_of_start_bind fills
  obtain ⟨v, registered, rfl⟩ := ok_of_completePass first
  obtain ⟨_, w, second, ran⟩ := ok_of_start_bind ran
  cases ran
  obtain ⟨w, furnished, rfl⟩ := ok_of_completePass second
  have named := settled_of_registerNames registered
  have ready : ∀ rest, { v with context := v.context.completed .nameRegistration }.Fillable
      h doc rank rest := fun rest => (fillable rest).moved named.tree named.values named.heap.symm
  obtain ⟨-, rank', filled⟩ := (ready _).fillResources furnished
  exact ⟨rank', filled.moved rfl rfl rfl⟩

section Ranks

variable (begun : Begun env h doc s) (course : Course env tolerant s before created filled last)
  (proper : doc.Proper)

include begun course proper

/-- No attribute of a document without expressions is an expression when attributes are applied. -/
theorem Course.texts (without : doc.WithoutExpressions) (unread : ∀ id, (doc.node id).Unread)
    (id : NodeId) : ∀ a ∈ (filled.node id).attributes, ∀ x, a.value ≠ .expression x := by
  intro a mem x
  have properS : s.tree.Proper := begun.tree ▸ proper
  obtain ⟨gone, tree, -⟩ := course.creating.tree
  rw [LoadState.node, course.tree.trans tree, NodeTree.node_without] at mem
  obtain ⟨b, listed, origin⟩ := course.prepares.attribute_origin properS id a mem
  rw [LoadState.node, begun.tree] at listed
  obtain ⟨text, raw⟩ := unread id b listed
  rcases origin with rfl | expanded
  · rw [raw]
    intro is
    cases is
  · exact NodeTree.ne_expression_of_expandAttribute raw (without.attribute_of listed) expanded x

/-- Filling takes arguments for no property. -/
theorem Course.apart (spares : doc.SparesArguments env.registry) {id c : NodeId} {n : ObjectId}
    (has : filled.context.object? id = some n) (listed : c ∈ (filled.node id).children)
    (arguments : before.tree.isArguments c = true) {name : QName}
    (kind : (filled.node c).kind = .property name) :
    (filled.heap.descriptor n).filledKey? name = none := by
  have properS : s.tree.Proper := begun.tree ▸ proper
  obtain ⟨gone, tree, -⟩ := course.creating.tree
  -- The node is a child of the same kind in the document that was read.
  have kinds : ∀ id, (before.node id).kind = (doc.node id).kind := fun id => by
    rw [(course.prepares.kind properS id).1, LoadState.node, begun.tree]
  have listedThen : c ∈ (before.node id).children := by
    rw [LoadState.node, course.tree.trans tree] at listed
    exact (NodeTree.mem_children_without.1 listed).1
  rw [course.prepares.children properS, begun.tree] at listedThen
  have sameKind : (doc.node c).kind = .property name := by
    rw [← kinds, ← kind, LoadState.node, LoadState.node, course.tree.trans tree,
      NodeTree.node_without]
  have isArguments : doc.isArguments c = true := by
    unfold NodeTree.isArguments at arguments ⊢
    rwa [← kinds c]
  have object : last.context.object? id = some n := (congrFun course.settled.object? id).trans has
  rw [course.heap]
  exact spares.filledKey? (NodeTree.mem_children_without.1 listedThen).1 isArguments
    (course.typed begun proper object) sameKind

/-- **The objects that a load without expressions leaves are ranked.** -/
theorem Course.ranked (ordered : doc.Ordered) (top : (doc.node NodeTree.root).isObject = true)
    (unread : ∀ id, (doc.node id).Unread) (noCustom : env.registry.NoCustomFactories)
    (without : doc.WithoutExpressions) (spares : doc.SparesArguments env.registry) :
    ∃ rank, Heap.Ranked h rank last.heap := by
  have properS : s.tree.Proper := begun.tree ▸ proper
  obtain ⟨⟨rank, arranged⟩, arguments⟩ := course.arranged begun proper ordered top noCustom
  have fillable := arranged.fillable arguments fun p n has c listed isArguments name kind =>
    course.apart begun proper spares has listed isArguments kind
  obtain ⟨t, u, fills, applied, rfl⟩ := ok_of_furnish course.ran
  obtain ⟨rank', ready⟩ := ranked_of_fills fillable fills
  have tree := ((settles_fill Heap.filling_retains env).ran fills).tree
  -- Nothing is around the document.
  have outermost : t.context.outerScope = [] := by
    have fresh := begun.fresh.1
    obtain ⟨_, _, populates⟩ := populates_of_start properS fresh course.begins
    rw [(populates.named_of_furnished properS fresh fills).outerScope, populates.outerScope]
    cases begun <;> rfl
  have last := ready.applyProperties outermost (fun id a mem => ?_) ready.collections applied
  · exact ⟨rank', last.ranked⟩
  rw [LoadState.node, tree] at mem
  exact course.texts begun proper without unread id a mem

end Ranks

end Load

/-- **A load without expressions lets go of all that it has made**, in both modes: it has made no
circle, and once its report is dropped what is left of it is what leads from what is kept. -/
theorem Loader.create_releases (l : Loader) {h : Heap} (closed : h.Closed) {markup : String}
    {tree : NodeTree} (tolerant : Bool) {report : Report}
    (noCustom : l.environment.registry.NoCustomFactories)
    (read : NodeTree.read markup = .ok tree) (without : tree.WithoutExpressions)
    (spares : tree.SparesArguments l.environment.registry)
    (made : (l.create h markup tolerant).result = .ok report) :
    h.Releases (l.create h markup tolerant).heap := by
  have proper := (NodeTree.proper_of_read read).1
  have top : (tree.node NodeTree.root).isObject = true := by
    rw [NodeBody.isObject, (NodeTree.shaped_of_read read).1]
  have is : l.create h markup tolerant = (l.runCreate h tree tolerant).outcome := by
    rw [Loader.create, read]
  have run : l.runCreate h tree tolerant =
      .ofStep (createThenRun l.environment) (unrooted h tree tolerant) := rfl
  rw [is, run, Run.ofStep] at made
  rw [is, run, Run.ofStep]
  rcases ran : (createThenRun l.environment).start (unrooted h tree tolerant) with ⟨error | _, last⟩
  · rw [ran] at made
    cases made
  · rw [Run.heap_outcome]
    obtain ⟨s, before, created, filled, begun, -, course⟩ := Load.course_of_create proper ran
    obtain ⟨rank, ranked⟩ := course.ranked begun proper (NodeTree.ordered_of_read read) top
      (NodeTree.unread_of_read read) noCustom without spares
    exact ranked.releases closed

/-- A layout with a template, and with an argument. -/
theorem Loader.create_releases_layout :
    let l : Loader := ⟨⟨.controls, .builtIn⟩, false⟩
    let markup := "<Grid xmlns=\"http://xamarin.com/schemas/2014/forms\"" ++
      " xmlns:x=\"http://schemas.microsoft.com/winfx/2009/xaml\"><Style><x:Arguments><Label/>" ++
      "</x:Arguments></Style><DataTemplate><Label/></DataTemplate></Grid>"
    let outcome := l.create .empty markup false
    l.environment.registry.NoCustomFactories ∧
      (∀ tree, NodeTree.read markup = .ok tree →
        tree.WithoutExpressions ∧ tree.SparesArguments l.environment.registry) ∧
      outcome.result.toOption.isSome = true ∧ Heap.empty.Releases outcome.heap := by
  intro l markup outcome
  let named (localName : String) : QName := ⟨formsNamespace, localName⟩
  let arguments : QName := ⟨language2009, "Arguments"⟩
  let tree : NodeTree := ⟨#[
    ⟨⟨.root, named "Grid", [], [], [("", formsNamespace), ("x", language2009)], ⟨1, 1⟩⟩, [1, 4],
      none⟩,
    ⟨⟨.element, named "Style", [], [], [], ⟨1, 108⟩⟩, [2], none⟩,
    ⟨⟨.property arguments, arguments, [], [], [], ⟨1, 115⟩⟩, [3], none⟩,
    ⟨⟨.element, named "Label", [], [], [], ⟨1, 128⟩⟩, [], none⟩,
    ⟨⟨.element, named "DataTemplate", [], [], [], ⟨1, 158⟩⟩, [5], none⟩,
    ⟨⟨.element, named "Label", [], [], [], ⟨1, 172⟩⟩, [], none⟩], []⟩
  have read : NodeTree.read markup = .ok tree := NodeTree.read_of_toOption (by decide +kernel)
  have ran : outcome = (l.runCreate .empty tree false).outcome := by
    simp only [outcome, create, read]
  have noCustom : l.environment.registry.NoCustomFactories := controls_regular.noCustomFactories
  obtain ⟨without, spares⟩ :
      tree.WithoutExpressions ∧ tree.SparesArguments l.environment.registry := by
    decide +kernel
  have some : outcome.result.toOption.isSome = true := by
    rw [ran]
    decide +kernel
  obtain ⟨report, made⟩ : ∃ report, outcome.result = .ok report := by
    cases is : outcome.result with
    | ok report => exact ⟨report, rfl⟩
    | error error =>
      rw [is] at some
      cases some
  have closed : Heap.empty.Closed :=
    ⟨fun id inside => absurd inside id.not_lt_zero, fun id inside => absurd inside id.not_lt_zero,
      nofun⟩
  refine ⟨noCustom, fun other is => ?_, some, ?_⟩
  · obtain rfl := Except.ok.inj (read.symm.trans is)
    exact ⟨without, spares⟩
  · exact create_releases l closed false noCustom read without spares made

/-- **A dictionary that is put into itself**: it is an argument, it goes to the property that the
arguments are filled into, and so nothing lets go of it and of what it holds. -/
theorem Loader.arguments_filled_into_themselves :
    let holder := (TypeDescriptor.named formsNamespace "Holder").property "Arguments" .dictionary
      |>.property "Other" .any |>.constructor ["Arguments", "Other"]
    let l : Loader := ⟨⟨Registry.controls.register holder, .builtIn⟩, false⟩
    let markup := "<Holder xmlns=\"http://xamarin.com/schemas/2014/forms\"" ++
      " xmlns:x=\"http://schemas.microsoft.com/winfx/2009/xaml\"><x:Arguments>" ++
      "<ResourceDictionary x:Key=\"a\"/><Label x:Key=\"b\"/></x:Arguments></Holder>"
    let outcome := l.create .empty markup false
    l.environment.registry.NoCustomFactories ∧
      (∀ tree, NodeTree.read markup = .ok tree → tree.WithoutExpressions) ∧
      outcome.result.toOption.isSome = true ∧ outcome.heap.Holds 0 0 ∧
      (outcome.heap.retain []).isAlive 0 = true ∧ ¬ Heap.empty.Releases outcome.heap := by
  intro holder l markup outcome
  let language (localName : String) : QName := ⟨language2009, localName⟩
  let tree : NodeTree := ⟨#[
    ⟨⟨.root, ⟨formsNamespace, "Holder"⟩, [], [], [("", formsNamespace), ("x", language2009)],
      ⟨1, 1⟩⟩, [1], none⟩,
    ⟨⟨.property (language "Arguments"), language "Arguments", [], [], [], ⟨1, 110⟩⟩, [2, 3], none⟩,
    ⟨⟨.element, ⟨formsNamespace, "ResourceDictionary"⟩, [],
      [⟨language "Key", .raw "a", ⟨1, 143⟩⟩], [], ⟨1, 123⟩⟩, [], none⟩,
    ⟨⟨.element, ⟨formsNamespace, "Label"⟩, [], [⟨language "Key", .raw "b", ⟨1, 161⟩⟩], [],
      ⟨1, 154⟩⟩, [], none⟩], []⟩
  have read : NodeTree.read markup = .ok tree := NodeTree.read_of_toOption (by decide +kernel)
  have ran : outcome = (l.runCreate .empty tree false).outcome := by
    simp only [outcome, create, read]
  have noCustom : l.environment.registry.NoCustomFactories := by
    intro name d found key make given
    rcases Table.get?_insert found with ⟨-, rfl⟩ | found
    · cases given
    · exact controls_regular.noCustomFactories name d found key make given
  obtain ⟨some, circle, alive⟩ :
      (l.runCreate .empty tree false).outcome.result.toOption.isSome = true ∧
      (l.runCreate .empty tree false).outcome.heap.Holds 0 0 ∧
      ((l.runCreate .empty tree false).outcome.heap.retain []).isAlive 0 = true := by
    decide +kernel
  rw [← ran] at some circle alive
  refine ⟨noCustom, fun other is => ?_, some, circle, alive, fun releases => ?_⟩
  · obtain rfl := Except.ok.inj (read.symm.trans is)
    decide +kernel
  · exact absurd (releases.dies [] nofun 0 (Nat.zero_le 0)) (by rw [alive]; nofun)

end MarkupLoader
