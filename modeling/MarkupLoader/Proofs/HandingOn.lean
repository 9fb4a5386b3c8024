import Mathlib.Data.List.Pairwise
import Mathlib.Data.List.Perm.Subperm
import MarkupLoader.Proofs.DictionaryFold
import MarkupLoader.Proofs.Releasing
import MarkupLoader.Proofs.Stages

/-!
# What constructors hand on

Before dictionaries are filled, an object holds what its constructor or factory has handed on to it.
A constructor hands on each argument to one property. **A factory may do otherwise**: it may give
one object to two properties, or hold one back and give it to all that it makes, and then what is
filled into one property is in the others, too. A factory that hands on its arguments, each of them
once at most, does not (`Factory.HandsOn`).

Arguments stand in the element of the object that they are handed on to. So no dictionary is held by
two properties, and the one that a property holds is the only element of no property element — but
**the arguments themselves may be taken for a property element**, by a type that declares a property
of dictionary type under the name of the directive. Such types are left out here
(`NodeTree.SparesArguments`).

Main results: `TypeDescriptor.handsOn_of_make`, `Load.Populates.unshared`,
`Request.dictionaries_folded`.
-/

namespace MarkupLoader

/-! ## Factories and constructors -/

/-- The objects among some values. -/
def Value.objectsOf (values : List Value) : List ObjectId := values.filterMap Value.object?

/-- **A factory that hands on its arguments**: it gives the new object no others, and each of them
once at most. -/
def Factory.HandsOn (make : Factory) : Prop := ∀ kindName arguments entries,
  make kindName arguments = .ok entries →
    (Value.objectsOf (entries.map Prod.snd)).Subperm (Value.objectsOf arguments)

/-- All factories hand on their arguments. -/
def Registry.HandsOn (r : Registry) : Prop :=
  ∀ name d, r.get? name = some d → ∀ key make, d.factories.get? key = some make → make.HandsOn

/-- The channels of a colour are no objects. -/
theorem Factory.handsOn_of_builtIn {make : Factory}
    (builtIn : make = Color.fromHex ∨ make = Color.fromRgba) : make.HandsOn := by
  intro kindName arguments entries made
  obtain ⟨red, green, blue, alpha, rfl⟩ := channels_of_factory builtIn made
  exact List.nil_subperm

theorem Registry.NoCustomFactories.handsOn {r : Registry} (noCustom : r.NoCustomFactories) :
    r.HandsOn :=
  fun name d found key make given =>
    Factory.handsOn_of_builtIn (noCustom name d found key make given)

namespace TypeDescriptor

variable {d : TypeDescriptor} {h : Heap}

/-- A property gets its argument, or a value without objects that is read from it. -/
theorem objectsOf_coerceArgument {parameter : String} {argument : Value} {entry : String × Value}
    (coerced : d.coerceArgument h parameter argument = .ok entry) :
    (Value.objectsOf [entry.2]).Sublist (Value.objectsOf [argument]) := by
  unfold coerceArgument at coerced
  split at coerced
  · cases coerced
    exact .refl _
  · split at coerced
    case h_1 stored fits =>
      cases coerced
      rcases Heap.eq_or_simple_of_coerce fits with rfl | simple
      · exact .refl _
      · cases stored with
        | object n => cases simple
        | _ => exact List.nil_sublist _
    case h_2 => cases coerced

theorem objectsOf_coerceArguments {list : List (String × Value)} {entries : List (String × Value)}
    (coerced : (list.mapM fun (parameter, argument) => d.coerceArgument h parameter argument) =
      .ok entries) :
    (Value.objectsOf (entries.map Prod.snd)).Sublist (Value.objectsOf (list.map Prod.snd)) := by
  induction list generalizing entries with
  | nil =>
    cases coerced
    exact .refl _
  | cons pair rest ih =>
    rw [List.mapM_cons] at coerced
    obtain ⟨entry, first, coerced⟩ := ok_of_bind coerced
    obtain ⟨others, later, coerced⟩ := ok_of_bind coerced
    cases coerced
    have here : (Value.objectsOf [entry.2]).Sublist (Value.objectsOf [pair.2]) :=
      objectsOf_coerceArgument first
    have both := here.append (ih later)
    rwa [Value.objectsOf, Value.objectsOf, ← List.filterMap_append, Value.objectsOf, Value.objectsOf,
      ← List.filterMap_append] at both

/-- **An object is made of its arguments**, each of which is handed on once at most. -/
theorem handsOn_of_make {arguments : List Value} {factory : Option String} {o : Object}
    (handsOn : ∀ key make, d.factories.get? key = some make → make.HandsOn)
    (made : d.make h arguments factory = .ok o) :
    ∃ entries, o.properties = .ofList entries ∧
      (Value.objectsOf (entries.map Prod.snd)).Subperm (Value.objectsOf arguments) := by
  unfold make at made
  split at made
  case h_1 name =>
    split at made
    · cases made
    case h_2 make found =>
      split at made
      · cases made
      case h_2 entries given =>
        cases made
        exact ⟨entries, rfl, handsOn _ _ found _ _ _ given⟩
  case h_2 =>
    split at made
    · cases made
      exact ⟨[], rfl, List.nil_subperm⟩
    · split at made
      · cases made
      case isFalse fits =>
        obtain ⟨entries, coerced, made⟩ := ok_of_bind made
        cases made
        refine ⟨entries, rfl, ?_⟩
        have same : (d.constructorParameters.zip arguments).map Prod.snd = arguments :=
          List.map_snd_zip (Nat.le_of_eq (Decidable.not_not.1 fits))
        exact same ▸ (objectsOf_coerceArguments coerced).subperm

end TypeDescriptor

/-- Entries with one object among objects without duplicates are one entry. -/
theorem eq_of_objectsOf_nodup {entries : List (String × Value)} {key key' : String} {n : ObjectId}
    (nodup : (Value.objectsOf (entries.map Prod.snd)).Nodup)
    (mem : (key, .object n) ∈ entries) (mem' : (key', .object n) ∈ entries) : key = key' := by
  rw [Value.objectsOf, List.filterMap_map, List.Nodup, List.pairwise_filterMap] at nodup
  refine Decidable.byContradiction fun ne => ?_
  have symmetric : Std.Symm fun (a b : String × Value) =>
      ∀ x, (Value.object? ∘ Prod.snd) a = some x → ∀ y, (Value.object? ∘ Prod.snd) b = some y →
        x ≠ y := ⟨fun a b apart x is y is' => (apart y is' x is).symm⟩
  have apart := nodup.forall mem mem' (fun same => ne (congrArg Prod.fst same))
  exact apart n rfl n rfl rfl

/-! ## What objects hold when all values are there -/

namespace Load

variable {env : Environment} {tolerant : Bool} {h : Heap} {doc : NodeTree}
  {s before created filled t : LoadState} {p q c : NodeId} {n m D : ObjectId} {key key' : String}

section Populated

variable (begun : Begun env h doc s) (populates : Populates env tolerant s before created filled)
  (proper : doc.Proper)

include begun populates proper

/-- **How the object of a node has been made**: it is bare but for properties, and these have been
handed on from the arguments that the node has, each of which is the object of another node. -/
theorem Populates.exists_makes (has : filled.context.object? p = some n) :
    ∃ u : LoadState, u.Makes env p (filled.heap.object n) ∧
      (u.node p).typeName = (doc.node p).typeName ∧
      (Value.objectsOf (u.argumentValues p)).Nodup ∧
      ∀ m ∈ Value.objectsOf (u.argumentValues p),
        ∃ holder c, holder ∈ (before.node p).children ∧ before.tree.isArguments holder = true ∧
          c ∈ (before.node holder).children ∧ filled.context.object? c = some m := by
  have properS : s.tree.Proper := begun.tree ▸ proper
  have properB := (populates.prepares.proper properS).1
  have hasC := (populates.object? p).symm.trans has
  obtain ⟨value, held, is⟩ := Option.bind_eq_some_iff.1 hasC
  cases (populates.creating.got held).2 with
  | scalar made =>
    rw [(LoadState.simple_of_make made).1] at is
    cases is
  | reused top known =>
    cases is
    subst top
    have older := populates.known n known
    rw [populates.prepares.rootInstance] at known
    -- The outermost object has been made before anything else, without arguments.
    cases begun with
    | later => cases known
    | @made o bare made =>
      cases known
      have object : filled.heap.object h.size = o := by
        rw [populates.heap, populates.creating.old _ older, populates.prepares.heap]
        exact Heap.object_alloc h o
      have none : (Loader.unrooted h doc true).argumentValues NodeTree.root = [] := by
        unfold LoadState.argumentValues
        rw [show (Loader.unrooted h doc true).tree.arguments? NodeTree.root = none from bare]
      refine ⟨_, object ▸ LoadState.makes_of_make made, rfl, ?_, ?_⟩
      · rw [none]
        exact List.nodup_nil
      · rw [none]
        exact fun m mem => absurd mem List.not_mem_nil
  | @made u gone n object made tree omittable kept =>
    cases is
    have name : (u.node p).typeName = (doc.node p).typeName := by
      have same := (populates.prepares.kind properS p).2
      unfold LoadState.node at same ⊢
      rw [tree, NodeTree.node_without, same, begun.tree]
    have value : ∀ c m, (u.context.value? c).bind Value.object? = some m →
        filled.context.object? c = some m := by
      intro c m is
      obtain ⟨v, held, is⟩ := Option.bind_eq_some_iff.1 is
      rw [populates.object?, Context.object?, kept c v held]
      exact is
    refine ⟨u, populates.heap ▸ LoadState.makes_of_make made, name, ?_⟩
    unfold LoadState.argumentValues
    cases takes : u.tree.arguments? p with
    | none => exact ⟨List.nodup_nil, fun m mem => absurd mem List.not_mem_nil⟩
    | some holder =>
      obtain ⟨listed, arguments⟩ := NodeTree.isArguments_of_arguments? takes
      dsimp only
      rw [Value.objectsOf, List.filterMap_filterMap]
      have children : (u.node holder).children.Nodup := by
        rw [LoadState.node, tree]
        exact (properB.without gone).nodup holder
      refine ⟨List.pairwise_filterMap.2 (children.imp fun {a b} ne x is y is' same => ?_),
        fun m mem => ?_⟩
      · subst same
        exact ne (populates.distinct (value a x is) (value b x is'))
      · obtain ⟨c, below, is⟩ := List.mem_filterMap.1 mem
        rw [tree] at listed arguments
        rw [LoadState.node, tree] at below
        rw [NodeTree.isArguments, NodeTree.node_without] at arguments
        exact ⟨holder, c, (NodeTree.mem_children_without.1 listed).1, arguments,
          (NodeTree.mem_children_without.1 below).1, value c m is⟩

/-- What an object holds in a property is the object of an argument, and it is in no other. -/
theorem Populates.handed (handsOn : env.registry.HandsOn) (has : filled.context.object? p = some n)
    (held : filled.heap.get? n key = some (.object D)) :
    (∃ holder c, holder ∈ (before.node p).children ∧ before.tree.isArguments holder = true ∧
      c ∈ (before.node holder).children ∧ filled.context.object? c = some D) ∧
    ∀ key', filled.heap.get? n key' = some (.object D) → key = key' := by
  obtain ⟨u, makes, -, nodup, given⟩ := populates.exists_makes begun proper has
  obtain ⟨plain, made, same⟩ := makes.made
  obtain ⟨entries, is, handed⟩ :=
    TypeDescriptor.handsOn_of_make (handsOn _ _ makes.known) made
  have mem : ∀ {key}, filled.heap.get? n key = some (.object D) → (key, .object D) ∈ entries := by
    intro key held
    rw [Heap.get?, same, is] at held
    exact Table.mem_of_get?_ofList held
  refine ⟨given D (handed.subset ?_), fun key' held' => ?_⟩
  · exact List.mem_filterMap.2 ⟨_, List.mem_map_of_mem (mem held), rfl⟩
  · obtain ⟨part, perm, sublist⟩ := handed
    exact eq_of_objectsOf_nodup (perm.nodup_iff.1 (nodup.sublist sublist)) (mem held) (mem held')

/-- The object of a node is of the type that the document names. -/
theorem Populates.typed (has : filled.context.object? p = some n) :
    env.registry.get? (doc.node p).typeName = some (filled.heap.descriptor n) := by
  obtain ⟨u, makes, name, -⟩ := populates.exists_makes begun proper has
  exact name ▸ makes.known

/-- Filling takes arguments for no property of an object whose node they stand in. -/
theorem Populates.spared (spares : doc.SparesArguments env.registry)
    (has : filled.context.object? p = some n) (listed : c ∈ (before.node p).children)
    (arguments : before.tree.isArguments c = true) {name : QName}
    (kind : (filled.node c).kind = .property name) :
    (filled.heap.descriptor n).filledKey? name = none := by
  have properS : s.tree.Proper := begun.tree ▸ proper
  have sameKind : (doc.node c).kind = .property name := by
    rw [← kind, populates.kind properS c, LoadState.node, begun.tree]
  have isArguments : doc.isArguments c = true := by
    have same : (before.tree.node c).kind = (doc.node c).kind := by
      have kept := (populates.prepares.kind properS c).1
      rwa [LoadState.node, LoadState.node, begun.tree] at kept
    unfold NodeTree.isArguments at arguments ⊢
    rwa [← same]
  rw [populates.prepares.children properS, begun.tree] at listed
  exact spares.filledKey? (NodeTree.mem_children_without.1 listed).1 isArguments
    (populates.typed begun proper has) sameKind

/-- **When all values are there, no dictionary is that of two properties**, and arguments give none
to a property element. -/
theorem Populates.unshared (handsOn : env.registry.HandsOn)
    (spares : doc.SparesArguments env.registry) : filled.Unshared := by
  have properS : s.tree.Proper := begun.tree ▸ proper
  obtain ⟨properB, linkedB⟩ := populates.prepares.proper properS
  obtain ⟨properF, linkedF⟩ := populates.proper properS
  obtain ⟨gone, tree, -⟩ := populates.without
  have handed : ∀ {p n key D}, filled.context.object? p = some n →
      filled.heap.get? n key = some (.object D) → _ :=
    fun has held => populates.handed begun proper handsOn has held
  refine {
    objects := fun id n has => ?_
    inside := fun id n has => (populates.of_object has).1
    distinct := fun id other n => populates.distinct
    closed := fun id n key D has held => ?_
    proper := properF
    bare := fun id n has => ?_
    own := fun p n key D has held => ?_
    held := fun p n key p' n' key' D has has' held held' => ?_
    entered := fun p n key p' n' key' c D has held has' holder filler only => ?_ }
  · obtain ⟨value, held, -⟩ := Option.bind_eq_some_iff.1 has
    exact (populates.of_value properS held).1
  · obtain ⟨⟨-, c, -, -, -, own⟩, -⟩ := handed has held
    exact (populates.of_object own).1
  · obtain ⟨u, makes, -⟩ := populates.exists_makes begun proper has
    exact makes.entries
  · obtain ⟨⟨-, c, -, -, -, own⟩, -⟩ := handed has (Heap.dictionary?_eq_some.1 held).1
    exact ⟨c, own⟩
  · obtain ⟨⟨holder, c, listed, -, below, own⟩, once⟩ :=
      handed has (Heap.dictionary?_eq_some.1 held).1
    obtain ⟨⟨holder', c', listed', -, below', own'⟩, -⟩ :=
      handed has' (Heap.dictionary?_eq_some.1 held').1
    -- The argument stands in one place, and so in one element.
    obtain rfl := populates.distinct own own'
    obtain rfl := properB.once _ _ _ below below'
    obtain rfl := properB.once _ _ _ listed listed'
    obtain rfl := Option.some.inj (has.symm.trans has')
    exact ⟨rfl, once key' (Heap.dictionary?_eq_some.1 held').1⟩
  · obtain ⟨⟨holder', argument, listed, arguments, below, own⟩, -⟩ :=
      handed has (Heap.dictionary?_eq_some.1 held).1
    obtain ⟨single, child, own', -⟩ := LoadState.of_onlyDictionary? only
    obtain rfl := populates.distinct own own'
    rw [LoadState.node, tree] at child
    obtain rfl := properB.once _ _ _ below (NodeTree.mem_children_without.1 child).1
    -- The property element would be the arguments of the object that holds the dictionary.
    obtain ⟨above, name, kind, named⟩ := LoadState.isFiller_eq_true.1 filler
    obtain ⟨value, valued, -⟩ := Option.bind_eq_some_iff.1 has
    have reached := (populates.of_value properS valued).2.all
    rw [LoadState.node, tree, NodeTree.node_without] at above
    obtain rfl := Option.some.inj ((linkedB.child p _ reached listed).symm.trans above)
    obtain rfl := Option.some.inj (has.symm.trans has')
    have none := populates.spared begun proper spares has listed arguments kind
    rw [TypeDescriptor.filledKey?_eq_some.2 ⟨named, holder⟩] at none
    cases none

end Populated

end Load

/-! ## Dictionaries when they have been filled -/

namespace Request

theorem initial_create {tolerant : Bool} {h : Heap} {markup : String} {doc : NodeTree}
    (read : NodeTree.read markup = .ok doc) :
    (create markup).initial tolerant h = .ok (Loader.unrooted h doc tolerant) := by
  simp only [initial, read]
  rfl

/-- **Filling dictionaries is a fold in the order of the document**, in both modes: for every object
with a property of dictionary type and property elements for it, and for every dictionary that
stands alone. Property elements inside a template are not among them, as they are its content. -/
theorem dictionaries_folded {env : Environment} {tolerant : Bool} {h : Heap} {markup : String}
    {doc : NodeTree} {d : TypeDescriptor} {t : LoadState} (read : NodeTree.read markup = .ok doc)
    (known : env.registry.get? resourceDictionaryName = some d) (dictionaries : d.kind = .dictionary)
    (handsOn : env.registry.HandsOn) (spares : doc.SparesArguments env.registry)
    (furnished : (create markup).Furnished env tolerant h t) :
    ∃ s, (create markup).Populated env tolerant h s ∧
      (∀ p n key, s.context.object? p = some n → (s.heap.descriptor n).HoldsDictionary key →
        (s.loaded env).filter (s.isFiller p key) ≠ [] → ∃ D, s.Folded env d p n key t D) ∧
      ∀ e ∈ s.loaded env, ∀ D, s.context.object? e = some D → s.heap.kind D = .dictionary →
        (∀ p n key, s.context.object? p = some n → s.heap.dictionary? n key ≠ some D) →
          (∀ c, s.onlyDictionary? c ≠ some D) → (t.heap.object D).entries.FoldOf (s.contents [e]) := by
  obtain ⟨s, populated, fills⟩ := furnished
  have begins : (create markup).initial tolerant h = .ok (Loader.unrooted h doc tolerant) :=
    initial_create read
  obtain ⟨first, is, ran⟩ := populated
  obtain rfl := Except.ok.inj (begins.symm.trans is)
  have proper := (NodeTree.proper_of_read read).1
  obtain ⟨start, before, created, begun, populates⟩ := Load.populates_of_create proper ran
  have unshared := populates.unshared begun proper handsOn spares
  -- Names are registered in between, which changes neither the values nor the heap.
  obtain ⟨_, u, names, rest⟩ := Load.ok_of_start_bind fills
  obtain ⟨named, registered, rfl⟩ := Load.ok_of_completePass names
  obtain ⟨_, v, dictionary, ended⟩ := Load.ok_of_start_bind rest
  cases ended
  obtain ⟨last, furnished, rfl⟩ := Load.ok_of_completePass dictionary
  have same := Load.settled_of_registerNames registered
  have filled := unshared.toPlaced.fillResources known dictionaries
    (u := { named with context := named.context.completed .nameRegistration })
    ⟨same.tree, same.tolerant, same.values, same.heap⟩ furnished
  refine ⟨s, ⟨_, begins, ran⟩, fun p n key has holder some => ?_,
    fun e mem D own kind alone notOnly => ?_⟩
  · obtain ⟨D, folded⟩ := unshared.folded filled has holder some
    exact ⟨D, folded.held, folded.kind, folded.source, folded.entries⟩
  · have folded := unshared.folded_alone filled mem own kind alone notOnly
    exact folded

/-- Property elements that put entries in and that give a dictionary, by turns: what has come in
before the dictionary is given is gone, and of two entries with one key the later one is kept. -/
theorem dictionaries_folded_grid :
    let env : Environment := ⟨.controls, .builtIn⟩
    let markup := "<Grid xmlns=\"http://xamarin.com/schemas/2014/forms\"" ++
      " xmlns:x=\"http://schemas.microsoft.com/winfx/2009/xaml\">" ++
      "<Grid.Resources><Label x:Key=\"a\"/></Grid.Resources>" ++
      "<Grid.Resources><ResourceDictionary><Label x:Key=\"b\"/></ResourceDictionary>" ++
      "</Grid.Resources>" ++
      "<Grid.Resources><Label x:Key=\"c\"/><Entry x:Key=\"b\"/></Grid.Resources>" ++
      "</Grid>"
    env.registry.get? resourceDictionaryName = some Controls.resourceDictionary ∧
      Controls.resourceDictionary.kind = .dictionary ∧ env.registry.HandsOn ∧
      ∃ tree s t, NodeTree.read markup = .ok tree ∧ tree.SparesArguments env.registry ∧
        (create markup).Furnished env false .empty t ∧
        (create markup).Populated env false .empty s ∧ s.context.object? 0 = some 0 ∧
        ∃ D, s.Folded env Controls.resourceDictionary 0 0 "Resources" t D ∧
          (t.heap.object D).entries.keys = ["b", "c"] := by
  intro env markup
  let forms (localName : String) : QName := ⟨formsNamespace, localName⟩
  let key (value : String) (column : Nat) : Attribute :=
    ⟨⟨language2009, "Key"⟩, .raw value, ⟨1, column⟩⟩
  let resources : QName := forms "Grid.Resources"
  let tree : NodeTree := ⟨#[
    ⟨⟨.root, forms "Grid", [], [], [("", formsNamespace), ("x", language2009)], ⟨1, 1⟩⟩,
      [1, 3, 6], none⟩,
    ⟨⟨.property resources, resources, [], [], [], ⟨1, 108⟩⟩, [2], none⟩,
    ⟨⟨.element, forms "Label", [], [key "a" 131], [], ⟨1, 124⟩⟩, [], none⟩,
    ⟨⟨.property resources, resources, [], [], [], ⟨1, 159⟩⟩, [4], none⟩,
    ⟨⟨.element, forms "ResourceDictionary", [], [], [], ⟨1, 175⟩⟩, [5], none⟩,
    ⟨⟨.element, forms "Label", [], [key "b" 202], [], ⟨1, 195⟩⟩, [], none⟩,
    ⟨⟨.property resources, resources, [], [], [], ⟨1, 251⟩⟩, [7, 8], none⟩,
    ⟨⟨.element, forms "Label", [], [key "c" 274], [], ⟨1, 267⟩⟩, [], none⟩,
    ⟨⟨.element, forms "Entry", [], [key "b" 292], [], ⟨1, 285⟩⟩, [], none⟩], []⟩
  let first := Loader.unrooted .empty tree false
  let s := (((create markup).opening env >>= fun _ => Load.populate env).start first).2
  let t := (([Pass.nameRegistration, .resourceDictionaryFill].forM
    (Load.completePass env)).start s).2
  have read : NodeTree.read markup = .ok tree := NodeTree.read_of_toOption (by decide +kernel)
  have known : env.registry.get? resourceDictionaryName = some Controls.resourceDictionary := rfl
  have handsOn : env.registry.HandsOn := controls_regular.noCustomFactories.handsOn
  have begins : (create markup).initial false .empty = .ok first := initial_create read
  -- What the passes leave is worked out once.
  obtain ⟨spares, comes, fills, has, holder, some, holds, keys⟩ :
      tree.SparesArguments env.registry ∧
      (((create markup).opening env >>= fun _ => Load.populate env).start first).1 = .ok () ∧
      (([Pass.nameRegistration, .resourceDictionaryFill].forM (Load.completePass env)).start s).1 =
        .ok () ∧
      s.context.object? 0 = some 0 ∧
      (s.heap.descriptor 0).property? "Resources" = some ⟨"Resources", .dictionary⟩ ∧
      (s.loaded env).filter (s.isFiller 0 "Resources") ≠ [] ∧
      (t.heap.get? 0 "Resources").bind Value.object? = some 3 ∧
      (t.heap.object 3).entries.keys = ["b", "c"] := by
    decide +kernel
  have populated : (create markup).Populated env false .empty s :=
    ⟨first, begins, Load.start_of_ok comes⟩
  have furnished : (create markup).Furnished env false .empty t :=
    ⟨s, populated, Load.start_of_ok fills⟩
  have only : ∀ s', (create markup).Populated env false .empty s' → s' = s := by
    rintro s' ⟨first', begins', ran⟩
    obtain rfl := Except.ok.inj (begins.symm.trans begins')
    exact (Prod.mk.inj ((Load.start_of_ok comes).symm.trans ran)).2.symm
  clear_value t s tree
  obtain ⟨s', comesToo, folded, -⟩ :=
    dictionaries_folded read known rfl handsOn spares furnished
  obtain rfl := only s' comesToo
  obtain ⟨D, is⟩ := folded 0 0 "Resources" has ⟨_, holder, rfl⟩ some
  rw [is.held] at holds
  obtain rfl := Option.some.inj holds
  exact ⟨known, rfl, handsOn, tree, _, t, read, spares, furnished, populated, has, _, is, keys⟩

/-- **Arguments that are taken for a property element**: they give the dictionary that is one of
them to a second property, and so what is filled into that one comes into the first, too. -/
theorem arguments_share_dictionary :
    let holder := (TypeDescriptor.named formsNamespace "Holder").property "Other" .dictionary
      |>.property "Arguments" .dictionary |>.constructor ["Other"]
    let env : Environment := ⟨Registry.controls.register holder, .builtIn⟩
    let markup := "<Holder xmlns=\"http://xamarin.com/schemas/2014/forms\"" ++
      " xmlns:x=\"http://schemas.microsoft.com/winfx/2009/xaml\">" ++
      "<x:Arguments><ResourceDictionary/></x:Arguments>" ++
      "<Holder.Other><Label x:Key=\"a\"/></Holder.Other>" ++
      "<Holder.Arguments><Label x:Key=\"b\"/></Holder.Arguments></Holder>"
    env.registry.get? resourceDictionaryName = some Controls.resourceDictionary ∧
      env.registry.HandsOn ∧
      ∃ s t, (create markup).Furnished env false .empty t ∧
        (create markup).Populated env false .empty s ∧ s.context.object? 0 = some 3 ∧
        (s.heap.descriptor 3).HoldsDictionary "Other" ∧
        (s.loaded env).filter (s.isFiller 0 "Other") = [3] ∧ s.onlyDictionary? 3 = none ∧
        t.heap.get? 3 "Other" = t.heap.get? 3 "Arguments" ∧
        ¬ ∃ D, s.Folded env Controls.resourceDictionary 0 3 "Other" t D := by
  intro holder env markup
  let forms (localName : String) : QName := ⟨formsNamespace, localName⟩
  let language (localName : String) : QName := ⟨language2009, localName⟩
  let tree : NodeTree := ⟨#[
    ⟨⟨.root, forms "Holder", [], [], [("", formsNamespace), ("x", language2009)], ⟨1, 1⟩⟩,
      [1, 3, 5], none⟩,
    ⟨⟨.property (language "Arguments"), language "Arguments", [], [], [], ⟨1, 110⟩⟩, [2], none⟩,
    ⟨⟨.element, forms "ResourceDictionary", [], [], [], ⟨1, 123⟩⟩, [], none⟩,
    ⟨⟨.property (forms "Holder.Other"), forms "Holder.Other", [], [], [], ⟨1, 158⟩⟩, [4], none⟩,
    ⟨⟨.element, forms "Label", [], [⟨language "Key", .raw "a", ⟨1, 179⟩⟩], [], ⟨1, 172⟩⟩, [],
      none⟩,
    ⟨⟨.property (forms "Holder.Arguments"), forms "Holder.Arguments", [], [], [], ⟨1, 205⟩⟩, [6],
      none⟩,
    ⟨⟨.element, forms "Label", [], [⟨language "Key", .raw "b", ⟨1, 230⟩⟩], [], ⟨1, 223⟩⟩, [],
      none⟩], []⟩
  let first := Loader.unrooted .empty tree false
  let s := (((create markup).opening env >>= fun _ => Load.populate env).start first).2
  let t := (([Pass.nameRegistration, .resourceDictionaryFill].forM
    (Load.completePass env)).start s).2
  have read : NodeTree.read markup = .ok tree := NodeTree.read_of_toOption (by decide +kernel)
  have handsOn : env.registry.HandsOn := by
    refine Registry.NoCustomFactories.handsOn fun name d found key make given => ?_
    rcases Table.get?_insert found with ⟨-, rfl⟩ | found
    · cases given
    · exact controls_regular.noCustomFactories name d found key make given
  have begins : (create markup).initial false .empty = .ok first := initial_create read
  obtain ⟨comes, fills, has, holds, fillers, entries, other, arguments, contents, keys⟩ :
      (((create markup).opening env >>= fun _ => Load.populate env).start first).1 = .ok () ∧
      (([Pass.nameRegistration, .resourceDictionaryFill].forM (Load.completePass env)).start s).1 =
        .ok () ∧
      s.context.object? 0 = some 3 ∧
      (s.heap.descriptor 3).property? "Other" = some ⟨"Other", .dictionary⟩ ∧
      (s.loaded env).filter (s.isFiller 0 "Other") = [3] ∧ s.onlyDictionary? 3 = none ∧
      (t.heap.get? 3 "Other").bind Value.object? = some 0 ∧
      (t.heap.get? 3 "Arguments").bind Value.object? = some 0 ∧
      (s.contents ((s.loaded env).filter fun c => s.context.object? c = some 0 ||
        (s.laterFillers (s.loaded env) 0 "Other").contains c)).map Prod.fst = ["a"] ∧
      (t.heap.object 0).entries.keys = ["a", "b"] := by
    decide +kernel
  have populated : (create markup).Populated env false .empty s :=
    ⟨first, begins, Load.start_of_ok comes⟩
  have furnished : (create markup).Furnished env false .empty t :=
    ⟨s, populated, Load.start_of_ok fills⟩
  clear_value t s tree
  have object : ∀ {o : Option Value} {n}, o.bind Value.object? = some n → o = some (.object n) := by
    intro o n is
    obtain ⟨value, rfl, is⟩ := Option.bind_eq_some_iff.1 is
    cases value <;> cases is
    rfl
  refine ⟨rfl, handsOn, s, t, furnished, populated, has, ⟨_, holds, rfl⟩, fillers, entries,
    (object other).trans (object arguments).symm, ?_⟩
  rintro ⟨D, folded⟩
  rw [folded.held] at other
  obtain rfl := Option.some.inj other
  have listed := folded.entries.keys
  rw [keys, contents] at listed
  exact absurd listed (by decide)

end Request

end MarkupLoader
