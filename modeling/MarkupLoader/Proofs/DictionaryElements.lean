import MarkupLoader.Proofs.Later
import MarkupLoader.Proofs.Rooting
import MarkupLoader.Schema.Controls

/-!
# Property elements for dictionaries

Two passes look at a property element whose name has an owner in it. The filling of dictionaries
fills the property of that name, and the application of properties leaves a target of dictionary
type alone, since it has its value by then. **They do not resolve the name alike**: filling takes
the last part of the name and asks the type of the object around the element
(`TypeDescriptor.filledKey?`), application also looks at the owner (`Site.dictionaryKey?`).

They part in two ways (`Site.ResolvedApart`), and in no other:

* the type of the object declares the property, but **is not of the type that the name gives** as
  the owner, so a property is filled that application has no target for;
* the owner **declares the property for objects of other types**, so application finds a target
  that nothing has filled.

Wherever they do not part, no dictionary is dropped, and none is filled that application fails at.

Main results: `dictionaryKey?_eq_filledKey?_iff`, `start_fillProperty`,
`filled_where_resolved_alike`.
-/

namespace MarkupLoader

/-! ## The two ways to resolve a name -/

/-- What stands after the last dot of a name that has one. -/
theorem afterLast_of_splitOwner? {name owner property : String}
    (split : splitOwner? name = some (owner, property)) :
    Text.afterLast '.' name = property := by
  have cut : ∀ (s before after : List Char), Text.cut? '.' s = some (before, after) →
      s.takeWhile (· != '.') = before := by
    intro s
    induction s with
    | nil => nofun
    | cons c rest ih =>
      intro before after cut
      rw [Text.cut?] at cut
      by_cases dot : c = '.'
      · rw [if_pos dot] at cut
        cases cut
        simp [dot]
      · rw [if_neg dot] at cut
        obtain ⟨⟨first, others⟩, is, same⟩ := Option.map_eq_some_iff.1 cut
        cases same
        rw [List.takeWhile_cons_of_pos (by simpa using dot), ih _ _ is]
  obtain ⟨⟨after, before⟩, is, same⟩ := Option.map_eq_some_iff.1 split
  cases same
  rw [Text.afterLast, cut _ _ _ is]

namespace TypeDescriptor

/-- The property that filling takes a name for: the one that its last part names, if objects of the
type around have it and it holds a dictionary. -/
def filledKey? (d : TypeDescriptor) (name : QName) : Option String :=
  let property := Text.afterLast '.' name.localName
  match d.property? property with
  | some p => if p.type = .dictionary then some property else none
  | none => none

variable {d : TypeDescriptor} {name : QName} {key : String}

/-- A property is found under its own name. -/
theorem name_of_property? {p : Property} (declared : d.property? key = some p) : p.name = key := by
  have found := List.find?_some declared
  simpa using found

/-- Filling takes a name for the property that its last part names. -/
theorem filledKey?_eq_some_iff {owner property : String}
    (split : splitOwner? name.localName = some (owner, property)) :
    d.filledKey? name = some key ↔
      ∃ p, d.property? property = some p ∧ p.type = .dictionary ∧ property = key := by
  unfold filledKey?
  rw [afterLast_of_splitOwner? split]
  dsimp only
  cases d.property? property with
  | none => simp
  | some p => by_cases type : p.type = .dictionary <;> simp [type]

end TypeDescriptor

namespace Site

/-- The key of the target that a name stands for when properties are applied, if the target holds a
dictionary. -/
def dictionaryKey? (s : Site) (d : TypeDescriptor) (name : QName) : Option String :=
  match s.target d name with
  | .ok target => if target.type = .dictionary then some target.key else none
  | .error _ => none

/-- How the two ways to resolve a name may part. -/
inductive ResolvedApart (s : Site) (d : TypeDescriptor) (name : QName) (owner property : String) :
    Prop
  /-- The type has the property and is not of the type that is named as its owner. -/
  | foreign {p : Property} (other : d.isAssignableTo owner = false)
      (declared : d.property? property = some p) (type : p.type = .dictionary)
  /-- The owner declares the property for objects of other types. -/
  | attached {target : Target}
      (notOwn : d.isAssignableTo owner = true → d.property? property = none)
      (is : s.attachedTarget name.namespaceUri owner property = .ok target)
      (type : target.type = .dictionary)

variable {s : Site} {d : TypeDescriptor} {name : QName} {owner property : String}

/-- A property that another type declares is known by the name of that type, too. -/
theorem key_of_attachedTarget {namespaceUri : String} {target : Target}
    (is : s.attachedTarget namespaceUri owner property = .ok target) :
    target.key = owner ++ "." ++ property := by
  unfold attachedTarget at is
  dsimp only at is
  split at is
  · cases is
  · split at is <;> cases is
    rfl

theorem append_dot_ne (owner property : String) : owner ++ "." ++ property ≠ property := by
  intro same
  have lengths := congrArg String.length same
  simp only [String.length_append] at lengths
  have dot : ".".length = 1 := rfl
  omega

/-- A name is resolved by the type of the object, if that is of the type that owns the property. -/
theorem target_of_own (split : splitOwner? name.localName = some (owner, property)) {p : Property}
    (assignable : d.isAssignableTo owner = true) (declared : d.property? property = some p) :
    s.target d name = .ok p.target := by
  simp [target, split, assignable, declared]

/-- Any other name is that of a property that its owner declares for other types. -/
theorem target_of_not_own (split : splitOwner? name.localName = some (owner, property))
    (notOwn : d.isAssignableTo owner = true → d.property? property = none) :
    s.target d name = s.attachedTarget name.namespaceUri owner property := by
  unfold target
  rw [split]
  dsimp only
  cases assignable : d.isAssignableTo owner with
  | false => rfl
  | true =>
    rw [notOwn assignable]
    rfl

theorem dictionaryKey?_eq_some_iff {key : String} : s.dictionaryKey? d name = some key ↔
    ∃ target, s.target d name = .ok target ∧ target.type = .dictionary ∧ target.key = key := by
  unfold dictionaryKey?
  cases s.target d name with
  | error fault => simp
  | ok target => by_cases type : target.type = .dictionary <;> simp [type]

/-- **The two ways to resolve a name agree** where they do not part in one of the two ways, and
nowhere else. -/
theorem dictionaryKey?_eq_filledKey?_iff
    (split : splitOwner? name.localName = some (owner, property)) :
    s.dictionaryKey? d name = d.filledKey? name ↔ ¬ s.ResolvedApart d name owner property := by
  constructor
  · -- Where they part, one of them finds nothing, or the key of one has the owner in it.
    rintro same (⟨other, declared, type⟩ | ⟨notOwn, is, type⟩)
    · have filled : d.filledKey? name = some property :=
        (TypeDescriptor.filledKey?_eq_some_iff split).2 ⟨_, declared, type, rfl⟩
      obtain ⟨target, is, -, key⟩ := dictionaryKey?_eq_some_iff.1 (same.trans filled)
      rw [target_of_not_own split fun own => absurd (other.symm.trans own) nofun] at is
      exact append_dot_ne owner property ((key_of_attachedTarget is).symm.trans key)
    · have resolved := dictionaryKey?_eq_some_iff.2
        ⟨_, (target_of_not_own split notOwn).trans is, type, rfl⟩
      obtain ⟨-, -, -, key⟩ :=
        (TypeDescriptor.filledKey?_eq_some_iff split).1 (same.symm.trans resolved)
      exact append_dot_ne owner property ((key_of_attachedTarget is).symm.trans key.symm)
  · intro alike
    ext key
    rw [dictionaryKey?_eq_some_iff, TypeDescriptor.filledKey?_eq_some_iff split]
    constructor
    · rintro ⟨target, is, type, rfl⟩
      by_cases notOwn : d.isAssignableTo owner = true → d.property? property = none
      · rw [target_of_not_own split notOwn] at is
        exact absurd (.attached notOwn is type) alike
      · obtain ⟨own, has⟩ := Classical.not_imp.1 notOwn
        obtain ⟨p, declared⟩ := Option.ne_none_iff_exists'.1 has
        cases (target_of_own split own declared).symm.trans is
        exact ⟨p, declared, type, (TypeDescriptor.name_of_property? declared).symm⟩
    · rintro ⟨p, declared, type, rfl⟩
      cases own : d.isAssignableTo owner with
      | false => exact absurd (.foreign own declared type) alike
      | true =>
        exact ⟨p.target, target_of_own split own declared, type,
          TypeDescriptor.name_of_property? declared⟩

end Site

/-! ## What is filled -/

namespace LoadState

/-- The entry that an element in a dictionary makes, if it has a value and a key. -/
def entry? (s : LoadState) (child : NodeId) : Option (String × Value) :=
  if (s.node child).isElement then do
    let value ← s.context.value? child
    let key ← (s.node child).directiveText? "Key"
    return (key, value)
  else none

end LoadState

/-- The heap with values put into a dictionary under their keys, one after the other. -/
def Heap.putAll (h : Heap) (dictionary : ObjectId) (entries : List (String × Value)) : Heap :=
  entries.foldl (fun h entry => h.putEntry dictionary entry.1 entry.2) h

/-- What filling a property of an object from a property element comes to. -/
inductive LoadState.FillsProperty (env : Environment) (s : LoadState) (id : NodeId)
    (object : ObjectId) (key : String) (t : LoadState) : Prop
  /-- The only element is a dictionary, which is the value of the property. -/
  | whole {dictionary : ObjectId} (only : s.onlyDictionary? id = some dictionary)
      (heap : t.heap = s.heap.set object key (.object dictionary))
  /-- The values of the elements are in the dictionary that the property has held. -/
  | held {dictionary : ObjectId} (held : s.heap.get? object key = some (.object dictionary))
      (kind : s.heap.kind dictionary = .dictionary)
      (heap : t.heap = s.heap.putAll dictionary ((s.tree.elements id).filterMap s.entry?))
  /-- The values of the elements are in a new dictionary, which the property holds. -/
  | made {d : TypeDescriptor} (known : env.registry.get? resourceDictionaryName = some d)
      (heap : t.heap = ((s.heap.alloc (.ofType d)).2.set object key (.object s.heap.size)).putAll
        s.heap.size ((s.tree.elements id).filterMap s.entry?))
  /-- There is no type to make a dictionary of, of which there is a record. -/
  | refused (unknown : env.registry.get? resourceDictionaryName = none) (heap : t.heap = s.heap)
      (recorded : t.context.diagnostics = s.context.diagnostics ++
        [.coercion key "no ResourceDictionary type is registered" (s.node id).position])

namespace Load

variable {env : Environment} {s t : LoadState} {id : NodeId} {object : ObjectId} {key : String}

/-- An element puts in its entry, if it has one. -/
theorem ok_of_fillEntry {dictionary : ObjectId} {child : NodeId}
    (ran : (fillEntry dictionary child).start s = (.ok (), t)) :
    t.tree = s.tree ∧ t.context.values = s.context.values ∧
      t.heap = s.heap.putAll dictionary (s.entry? child).toList := by
  unfold LoadState.entry?
  rw [fillEntry, start_get_bind] at ran
  dsimp only at ran
  cases element : (s.node child).isElement with
  | false =>
    rw [element] at ran
    cases ran
    exact ⟨rfl, rfl, rfl⟩
  | true =>
    rw [element] at ran
    cases value : s.context.value? child with
    | none =>
      rw [value] at ran
      cases ran
      exact ⟨rfl, rfl, rfl⟩
    | some v =>
      rw [value] at ran
      cases key : (s.node child).directiveText? "Key" with
      | none =>
        rw [key] at ran
        rw [ok_of_recover ran]
        exact ⟨rfl, rfl, rfl⟩
      | some k =>
        rw [key] at ran
        cases ran
        exact ⟨rfl, rfl, rfl⟩

/-- Filling a dictionary puts in the entries of the elements, one after the other. -/
theorem ok_of_fillDictionary {dictionary : ObjectId} {nodes : List NodeId}
    (ran : (fillDictionary dictionary nodes).start s = (.ok (), t)) :
    t.heap = s.heap.putAll dictionary (nodes.filterMap s.entry?) := by
  induction nodes generalizing s with
  | nil =>
    cases ran
    rfl
  | cons child rest ih =>
    obtain ⟨_, u, first, later⟩ := ok_of_start_bind ran
    obtain ⟨tree, values, heap⟩ := ok_of_fillEntry first
    have same : u.entry? = s.entry? := by
      unfold LoadState.entry? LoadState.node Context.value?
      rw [tree, values]
    rw [ih later, same, heap, List.filterMap_cons]
    cases s.entry? child <;> rfl

/-- What filling a property comes to. -/
theorem ok_of_fillProperty (ran : (fillProperty env id object key).start s = (.ok (), t)) :
    s.FillsProperty env id object key t := by
  rw [fillProperty, start_get_bind] at ran
  cases only : s.onlyDictionary? id with
  | some dictionary =>
    rw [only] at ran
    cases ran
    exact .whole only rfl
  | none =>
    rw [only] at ran
    obtain ⟨found, u, first, later⟩ := ok_of_start_bind ran
    rw [dictionaryFor, start_get_bind] at first
    dsimp only at first
    split at first
    case h_1 dictionary has =>
      cases first
      obtain ⟨value, held, is⟩ := Option.bind_eq_some_iff.1 has
      obtain ⟨held, kind⟩ := Option.filter_eq_some_iff.1 held
      cases value <;> cases is
      exact .held held (of_decide_eq_true kind) (ok_of_fillDictionary later)
    case h_2 =>
      split at first
      case h_1 d known =>
        cases first
        exact .made known (ok_of_fillDictionary later)
      case h_2 unknown =>
        obtain ⟨_, v, recovers, none⟩ := ok_of_start_bind first
        cases none
        cases later
        rw [ok_of_recover recovers]
        exact .refused unknown rfl rfl

/-- A property element is filled if filling takes its name for a property. -/
theorem start_fillNode_property {name : QName} {parent : NodeId}
    (kind : (s.node id).kind = .property name) (above : (s.node id).parent = some parent)
    (has : s.context.object? parent = some object) :
    (fillNode env id).start s =
      match (s.heap.descriptor object).filledKey? name with
      | some key => (fillProperty env id object key).start s
      | none => (.ok (), s) := by
  rw [fillNode, start_get_bind, kind]
  dsimp only
  rw [fillPropertyElement, start_get_bind, above, Option.bind_some, has]
  unfold TypeDescriptor.filledKey?
  dsimp only
  cases (s.heap.descriptor object).property? (Text.afterLast '.' name.localName) with
  | none => rfl
  | some p =>
    by_cases type : p.type = .dictionary
    · simp only [type, if_true]
    · simp only [type, if_false]
      rfl

end Load

/-! ## Filling and applying -/

namespace Site

variable {s : Site} {object : ObjectId} {child : NodeId} {name : QName} {owner property : String}

/-- A name with an owner in it is no directive for arguments. -/
theorem isDirective_of_splitOwner? (split : splitOwner? name.localName = some (owner, property)) :
    name.isDirective "Arguments" = false := by
  refine Bool.eq_false_iff.2 fun directive => ?_
  have named : name.localName = "Arguments" := by
    simpa using (Bool.and_eq_true_iff.1 directive).2
  rw [named] at split
  cases split

/-- A property element with a target of dictionary type changes nothing. -/
theorem applyChild_of_dictionaryKey? {key : String}
    (kind : (s.tree.node child).kind = .property name)
    (split : splitOwner? name.localName = some (owner, property))
    (resolved : s.dictionaryKey? (s.heap.descriptor object) name = some key) :
    s.applyChild object child = .ok s.heap := by
  obtain ⟨target, is, type, -⟩ := dictionaryKey?_eq_some_iff.1 resolved
  have applied : s.applyElement object child name = .ok s.heap := by
    unfold applyElement Heap.assignAll
    rw [is]
    exact if_pos type
  unfold applyChild
  dsimp only
  rw [kind]
  dsimp only
  rw [isDirective_of_splitOwner? split, applied]
  rfl

end Site

namespace Load

variable {env : Environment} {s u : LoadState} {id parent : NodeId} {object : ObjectId}
  {name : QName} {owner property : String}

/-- **Where filling and applying resolve a name alike**, and only there do they take the same
property elements for dictionaries, under the same keys: a property element is then filled if
application resolves it to a target of dictionary type, which is left as it is, and one that
application fails at has filled nothing.

Properties are applied in `u`, some time after the dictionaries have been filled in `s`. -/
theorem filled_where_resolved_alike (later : s.Settled Heap.Retains u)
    (kind : (s.node id).kind = .property name)
    (split : splitOwner? name.localName = some (owner, property))
    (above : (s.node id).parent = some parent) (has : s.context.object? parent = some object)
    (inside : object < s.heap.size) :
    let place := u.site env parent
    let d := u.heap.descriptor object
    (place.dictionaryKey? d name = (s.heap.descriptor object).filledKey? name ↔
      ¬ place.ResolvedApart d name owner property) ∧
    (¬ place.ResolvedApart d name owner property →
      (∀ key, place.dictionaryKey? d name = some key →
        place.applyChild object id = .ok u.heap ∧
        ∀ t, (fillNode env id).start s = (.ok (), t) → s.FillsProperty env id object key t) ∧
      (∀ error, place.applyChild object id = .error error →
        (fillNode env id).start s = (.ok (), s))) := by
  intro place d
  have type : d = s.heap.descriptor object := later.heap.descriptor object inside
  have kind' : (place.tree.node id).kind = .property name := by
    show (u.tree.node id).kind = _
    rw [later.tree]
    exact kind
  have agree := Site.dictionaryKey?_eq_filledKey?_iff (s := place) (d := d) split
  have fills : (fillNode env id).start s = _ := start_fillNode_property kind above has
  rw [← type] at fills ⊢
  refine ⟨agree, fun alike => ⟨fun key resolved => ⟨?_, fun t ran => ?_⟩, fun error failed => ?_⟩⟩
  · exact Site.applyChild_of_dictionaryKey? kind' split resolved
  · rw [← agree.2 alike, resolved] at fills
    exact ok_of_fillProperty (fills.symm.trans ran)
  · cases resolved : place.dictionaryKey? d name with
    | some key =>
      rw [Site.applyChild_of_dictionaryKey? kind' split resolved] at failed
      cases failed
    | none =>
      rw [← agree.2 alike, resolved] at fills
      exact fills

/-- The resources of a layout are filled where they are resolved, and applied without a change. -/
theorem filled_where_resolved_alike_layout :
    let env : Environment := ⟨.controls, .builtIn⟩
    let name : QName := ⟨formsNamespace, "StackLayout.Resources"⟩
    let tree : NodeTree := ⟨#[
      ⟨⟨.root, ⟨formsNamespace, "StackLayout"⟩, [], [], [("", formsNamespace)], ⟨1, 1⟩⟩, [1], none⟩,
      ⟨⟨.property name, name, [], [], [], ⟨2, 1⟩⟩, [2], some 0⟩,
      ⟨⟨.element, ⟨formsNamespace, "Label"⟩, [],
        [⟨⟨language2009, "Key"⟩, .raw "a", ⟨3, 8⟩⟩], [], ⟨3, 1⟩⟩, [], some 1⟩], []⟩
    let heap := ((Heap.empty.alloc (.ofType Controls.stackLayout)).2.alloc
      (.ofType Controls.label)).2
    let context : Context := { Context.start (some 0) false [] with
      values := .ofList [(0, .object 0), (2, .object 1)] }
    let s : LoadState := ⟨tree, some 0, context, heap⟩
    let place := s.site env 0
    splitOwner? "StackLayout.Resources" = some ("StackLayout", "Resources") ∧
      s.context.object? 0 = some 0 ∧ 0 < s.heap.size ∧
      place.dictionaryKey? Controls.stackLayout name = some "Resources" ∧
      place.applyChild 0 1 = .ok heap ∧
      ∀ t, (fillNode env 1).start s = (.ok (), t) → s.FillsProperty env 1 0 "Resources" t := by
  intro env name tree heap context s place
  have split : splitOwner? "StackLayout.Resources" = some ("StackLayout", "Resources") := by
    decide +kernel
  have has : s.context.object? 0 = some 0 := by decide +kernel
  have inside : 0 < s.heap.size := by decide +kernel
  have resolved : place.dictionaryKey? Controls.stackLayout name = some "Resources" := by
    decide +kernel
  have filled : Controls.stackLayout.filledKey? name = some "Resources" := by decide +kernel
  have later : s.Settled Heap.Retains s := .refl Heap.filling_retains.toChains s
  have kind : (s.node 1).kind = .property name := rfl
  have above : (s.node 1).parent = some 0 := rfl
  obtain ⟨agree, alike⟩ : (place.dictionaryKey? _ name = _ ↔ _) ∧ _ :=
    filled_where_resolved_alike later kind split above has inside
  obtain ⟨fills, -⟩ := alike (agree.1 (resolved.trans filled.symm))
  exact ⟨split, has, inside, resolved, fills "Resources" resolved⟩

/-- **A property that another type declares to hold a dictionary** is left out without a word: the
name is resolved to it, filling takes the name for no property, and the object has none in the
end. -/
theorem attached_dictionary_left_out :
    let holder := (TypeDescriptor.named formsNamespace "Holder").attachedProperty "Extras" .dictionary
    let env : Environment := ⟨Registry.controls.register holder, .builtIn⟩
    let name : QName := ⟨formsNamespace, "Holder.Extras"⟩
    let markup := "<StackLayout xmlns=\"http://xamarin.com/schemas/2014/forms\"" ++
      " xmlns:x=\"http://schemas.microsoft.com/winfx/2009/xaml\">" ++
      "<Holder.Extras><Label x:Key=\"a\"/></Holder.Extras></StackLayout>"
    let tree : NodeTree := ⟨#[
      ⟨⟨.root, ⟨formsNamespace, "StackLayout"⟩, [], [],
        [("", formsNamespace), ("x", language2009)], ⟨1, 1⟩⟩, [1], none⟩,
      ⟨⟨.property name, name, [], [], [], ⟨1, 115⟩⟩, [2], none⟩,
      ⟨⟨.element, ⟨formsNamespace, "Label"⟩, [],
        [⟨⟨language2009, "Key"⟩, .raw "a", ⟨1, 137⟩⟩], [], ⟨1, 130⟩⟩, [], none⟩], []⟩
    let run := (Loader.mk env false).runCreate .empty tree false
    let d := run.state.heap.descriptor 0
    NodeTree.read markup = .ok tree ∧ run.ended.isOk = true ∧
      (run.state.site env 0).dictionaryKey? d name = some "Holder.Extras" ∧
      d.filledKey? name = none ∧ (run.state.heap.object 0).properties.keys = [] := by
  intro holder env name markup tree run d
  refine ⟨NodeTree.read_of_toOption (by decide +kernel), ?_⟩
  decide +kernel

end Load

end MarkupLoader
