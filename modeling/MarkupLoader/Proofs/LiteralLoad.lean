import MarkupLoader.Proofs.Applying
import MarkupLoader.Proofs.LiteralMarkup
import MarkupLoader.Proofs.Stages

/-!
# Loading properties given as texts

An element without content that gives properties as texts is loaded into a new object of its type.

* **The passes before** properties are applied do not fail and do nothing but expand the texts and
  let the element stand for the object (`leads_literals`). They are gone through one by one, each by
  what it leads to from what is known of the state (`LoadState.Alone`).
* **An attribute** is applied exactly if its text is coerced to the type of its property, and sets
  the property to what the text is coerced to (`applyAttribute_iff`).

So the load succeeds exactly if all texts are coerced, and the object has what they are coerced to.

Main results: `leads_literals`, `applyAttributes_iff`, `runPasses_iff`, `loadInto_literals`.
-/

namespace MarkupLoader

open Text Markup

/-! ## Documents of one element -/

namespace NodeTree

variable (body : NodeBody)

theorem linkParents_alone : (alone body).linkParents = alone body := rfl

theorem postorder_alone (skip : NodeId → Bool) : (alone body).postorder skip = [root] := by
  show (if skip root then [] else []) ++ [root] = [root]
  rw [ite_self]
  rfl

theorem preorder_alone (skip : NodeId → Bool) : (alone body).preorder skip = [root] := rfl

theorem setAttributes_alone (attributes : List Attribute) :
    (alone body).setAttributes root attributes = alone { body with attributes := attributes } := rfl

end NodeTree

namespace Load

/-- From every state that satisfies `P`, a step comes to one that satisfies `Q`, and does not
fail. -/
def Leads (P : LoadState → Prop) (step : Load Unit) (Q : LoadState → Prop) : Prop :=
  ∀ s, P s → ∃ t, step.start s = (.ok (), t) ∧ Q t

theorem Leads.bind {P Q R : LoadState → Prop} {step next : Load Unit} (first : Leads P step Q)
    (second : Leads Q next R) : Leads P (step >>= fun _ => next) R := by
  intro s holds
  obtain ⟨t, ran, between⟩ := first s holds
  obtain ⟨u, ran', after⟩ := second t between
  exact ⟨u, (start_bind_of_ok ran).trans ran', after⟩

theorem Leads.nil {α : Type} {P : LoadState → Prop} (step : α → Load Unit) :
    Leads P (List.forM [] step) P := fun s holds => ⟨s, rfl, holds⟩

theorem Leads.cons {α : Type} {P Q R : LoadState → Prop} {step : α → Load Unit} {a : α}
    {rest : List α} (first : Leads P (step a) Q) (later : Leads Q (rest.forM step) R) :
    Leads P ((a :: rest).forM step) R := first.bind later

end Load

/-- A strict load into an object, in a document that is one element, which has some values by now.
Objects have not been changed yet. -/
structure LoadState.Alone (target : ObjectId) (h : Heap) (body : NodeBody)
    (values : Table NodeId Value) (s : LoadState) : Prop where
  tree : s.tree = .alone body
  known : s.rootInstance = some target
  element : s.context.rootElement = some target
  heap : s.heap = h
  strict : s.context.tolerant = false
  values : s.context.values = values

/-- The values when the element stands for an object. -/
def Table.ofRoot (object : ObjectId) : Table NodeId Value := ⟨[(NodeTree.root, .object object)]⟩

namespace LoadState.Alone

variable {s : LoadState} {target : ObjectId} {h : Heap} {body : NodeBody}
  {values : Table NodeId Value}

theorem loaded (alone : s.Alone target h body values) (env : Environment) :
    s.loaded env = [NodeTree.root] := by
  rw [LoadState.loaded, alone.tree, NodeTree.preorder_alone]

theorem loadedUpwards (alone : s.Alone target h body values) (env : Environment) :
    s.loadedUpwards env = [NodeTree.root] := by
  rw [LoadState.loadedUpwards, alone.tree, NodeTree.postorder_alone]

theorem body_eq (alone : s.Alone target h body values) :
    (s.node NodeTree.root).toNodeBody = body := by
  rw [LoadState.node, alone.tree]
  rfl

theorem object?_root (alone : s.Alone target h body (.ofRoot target)) :
    s.context.object? NodeTree.root = some target := by
  rw [Context.object?, Context.value?, alone.values]
  rfl

end LoadState.Alone

namespace Load

section Passes

variable {env : Environment} {target : ObjectId} {h : Heap} {body body' : NodeBody}
  {values values' : Table NodeId Value}

/-- A pass is noted when it is completed. -/
theorem leads_completePass {pass : Pass}
    (leads : Leads (·.Alone target h body values) (runPass env pass)
      (·.Alone target h body' values')) :
    Leads (·.Alone target h body values) (completePass env pass)
      (·.Alone target h body' values') := by
  refine leads.bind fun t alone => ⟨_, rfl, ?_⟩
  exact ⟨alone.tree, alone.known, alone.element, alone.heap, alone.strict, alone.values⟩

theorem leads_parentLinking : Leads (·.Alone target h body values) (runPass env .parentLinking)
    (·.Alone target h body values) := by
  intro s alone
  refine ⟨_, rfl, ?_, alone.known, alone.element, alone.heap, alone.strict, alone.values⟩
  show s.tree.linkParents = _
  rw [alone.tree, NodeTree.linkParents_alone]

/-- Attributes that give texts are expanded to these texts. -/
theorem start_expandAttributes_literals {s : LoadState} (nothing : s.tree.ignorable = [])
    (id : NodeId) (placed : List (Literal × Position)) : ∀ done,
    (expandAttributes env id done (placed.map fun l => l.1.unread l.2)).start s =
      (.ok (), s.withTree (s.tree.setAttributes id
        (done ++ placed.map fun l => l.1.expanded l.2))) := by
  induction placed with
  | nil =>
    intro done
    rw [List.map_nil, List.map_nil, List.append_nil]
    rfl
  | cons l rest ih =>
    intro done
    have expands : s.tree.expandAttribute env.extensions id (l.1.unread l.2) =
        .ok (l.1.expanded l.2) := by
      -- No namespace may be ignored in the document.
      have counts : s.tree.isIgnorable "" = false := by rw [NodeTree.isIgnorable, nothing]; rfl
      simp only [NodeTree.expandAttribute, Literal.unread, Literal.assign, counts,
        NodeTree.expandText_literal]
      rfl
    rw [List.map_cons, start_expandAttributes_ok env done _ expands, ih, List.append_assoc]
    rfl

theorem leads_markupExpansion (name : QName) (placed : List (Literal × Position)) (p : Position) :
    Leads (·.Alone target h (.ofType name (placed.map fun l => l.1.unread l.2) p) values)
      (runPass env .markupExpansion)
      (·.Alone target h (.ofType name (placed.map fun l => l.1.expanded l.2) p) values) := by
  intro s alone
  have nodes : s.tree.preorder s.tree.isIgnorableNode = [NodeTree.root] := by
    rw [alone.tree, NodeTree.preorder_alone]
  have ran : (expandNode env NodeTree.root).start s =
      (.ok (), s.withTree (s.tree.setAttributes NodeTree.root
        (placed.map fun l => l.1.expanded l.2))) := by
    have counts : s.tree.isIgnorableNode NodeTree.root = false := by
      rw [alone.tree]
      rfl
    rw [expandNode, start_get_bind, counts, alone.body_eq]
    exact start_expandAttributes_literals (by rw [alone.tree]; rfl) NodeTree.root placed []
  refine ⟨s.withTree (s.tree.setAttributes NodeTree.root (placed.map fun l => l.1.expanded l.2)),
    ?_, ?_, alone.known, alone.element, alone.heap, alone.strict, alone.values⟩
  · show (expandMarkup env).start s = _
    rw [expandMarkup, start_get_bind, nodes, start_forM_cons, start_bind_of_ok ran]
    rfl
  · show s.tree.setAttributes NodeTree.root _ = _
    rw [alone.tree, NodeTree.setAttributes_alone]
    rfl

theorem leads_pruneIgnored : Leads (·.Alone target h body values) (runPass env .pruneIgnored)
    (·.Alone target h body values) := by
  intro s alone
  refine ⟨_, rfl, ?_, alone.known, alone.element, alone.heap, alone.strict, alone.values⟩
  show s.tree.prune = _
  rw [alone.tree, NodeTree.prune_eq_self rfl]

theorem leads_namescoping : Leads (·.Alone target h body values) (runPass env .namescoping)
    (·.Alone target h body values) := by
  rintro ⟨_, _, context, _⟩ ⟨rfl, rfl, element, rfl, strict, values⟩
  exact ⟨_, rfl, rfl, rfl, element, rfl, strict, values⟩

/-- The element takes over the object that is loaded into. -/
theorem leads_valueCreation (object : body.isObject = true) :
    Leads (·.Alone target h body .empty) (runPass env .valueCreation)
      (·.Alone target h body (.ofRoot target)) := by
  intro s alone
  have isObject : (s.node NodeTree.root).isObject = true := by rwa [alone.body_eq]
  have fresh : s.context.value? NodeTree.root = none := by
    rw [Context.value?, alone.values]
    rfl
  refine ⟨s.withRoot target, ?_, alone.tree, alone.known, ?_, alone.heap, alone.strict, ?_⟩
  · show (createValues env).start s = _
    rw [createValues, start_get_bind, alone.loadedUpwards env, start_forM_cons,
      start_bind_of_ok (start_createValue_root env isObject alone.known fresh)]
    rfl
  · show s.context.rootElement.or (some target) = _
    rw [alone.element]
    rfl
  · show s.context.values.insert NodeTree.root (.object target) = _
    rw [alone.values]
    rfl

/-- The element has no name. -/
theorem leads_nameRegistration
    (noDirectives : ∀ a ∈ body.attributes, isLanguage a.name.namespaceUri = false) :
    Leads (·.Alone target h body values) (runPass env .nameRegistration)
      (·.Alone target h body values) := by
  intro s alone
  have unnamed : s.naming? NodeTree.root = none := by
    have none : body.directive? "Name" = none := by
      refine List.find?_eq_none.2 fun a mem => ?_
      rw [QName.isDirective, noDirectives a mem]
      exact Bool.false_ne_true
    rw [LoadState.naming?, alone.body_eq, none]
    rfl
  refine ⟨s, ?_, alone⟩
  show (registerNames env).start s = _
  rw [registerNames, start_get_bind, alone.loaded env, start_forM_cons, start_bind, registerName,
    start_get_bind, unnamed]
  rfl

/-- The element makes no dictionary. -/
theorem leads_resourceDictionaryFill (kind : body.kind = .root) (plain : h.kind target = .plain) :
    Leads (·.Alone target h body (.ofRoot target))
      (runPass env .resourceDictionaryFill)
      (·.Alone target h body (.ofRoot target)) := by
  intro s alone
  have idle : (fillNode env NodeTree.root).start s = (.ok (), s) := by
    rw [fillNode, start_get_bind, alone.body_eq, kind]
    dsimp only
    rw [alone.object?_root]
    dsimp only
    rw [alone.heap, plain]
    rfl
  refine ⟨s, ?_, alone⟩
  show (fillResources env).start s = _
  rw [fillResources, start_get_bind, alone.loaded env, start_forM_cons, start_bind_of_ok idle]
  rfl

/-- The passes before properties are applied. -/
def preliminaries : List Pass :=
  [.parentLinking, .markupExpansion, .pruneIgnored, .namescoping, .valueCreation,
    .nameRegistration, .resourceDictionaryFill]

/-- **Before properties are applied** the texts are where they were written, and the element stands
for the object that is loaded into. -/
theorem leads_literals (env : Environment) (plain : h.kind target = .plain) (name : QName)
    (placed : List (Literal × Position)) (p : Position) :
    Leads (·.Alone target h (.ofType name (placed.map fun l => l.1.unread l.2) p) .empty)
      (preliminaries.forM (completePass env))
      (·.Alone target h (.ofType name (placed.map fun l => l.1.expanded l.2) p)
        (.ofRoot target)) := by
  have noDirectives : ∀ a ∈ placed.map (fun l => l.1.expanded l.2),
      isLanguage a.name.namespaceUri = false := by
    intro a mem
    obtain ⟨l, -, rfl⟩ := List.mem_map.1 mem
    rfl
  exact .cons (leads_completePass leads_parentLinking) <|
    .cons (leads_completePass (leads_markupExpansion name placed p)) <|
    .cons (leads_completePass leads_pruneIgnored) <|
    .cons (leads_completePass leads_namescoping) <|
    .cons (leads_completePass (leads_valueCreation rfl)) <|
    .cons (leads_completePass (leads_nameRegistration noDirectives)) <|
    .cons (leads_completePass (leads_resourceDictionaryFill rfl plain)) <| .nil _

end Passes

end Load

/-! ## Applying texts -/

namespace Heap

/-- Sets properties of an object one after the other. -/
def setAll (h : Heap) (id : ObjectId) (entries : List (String × Value)) : Heap :=
  entries.foldl (fun h entry => h.set id entry.1 entry.2) h

theorem object_setAll {id : ObjectId} (entries : List (String × Value)) :
    ∀ {h : Heap}, id < h.size → (h.setAll id entries).object id =
      { h.object id with properties := (h.object id).properties.insertAll entries } := by
  induction entries with
  | nil => exact fun _ => rfl
  | cons entry rest ih =>
    intro h inside
    have inside' : id < (h.set id entry.1 entry.2).size := by rwa [set, size_modify]
    have object : (h.set id entry.1 entry.2).object id = _ := object_modify _ inside
    show ((h.set id entry.1 entry.2).setAll id rest).object id = _
    rw [ih inside', object]
    rfl

/-- Texts are coerced in the same way in all heaps. -/
theorem coerce_string (h after : Heap) (text : String) (type : PropertyType) :
    after.coerce (.string text) type = h.coerce (.string text) type := by
  cases type <;> rfl

end Heap

namespace Literal

theorem coerces_eq (h after : Heap) : Literal.Coerces after = Literal.Coerces h := by
  funext l entry
  rw [Coerces, Coerces, Heap.coerce_string h after]

/-- Texts are coerced to the values of their properties, in order. -/
theorem keys_of_coerces {h : Heap} {given : List Literal} {entries : List (String × Value)}
    (all : List.Forall₂ (Coerces h) given entries) :
    entries.map Prod.fst = given.map (·.property.name) := by
  induction all with
  | nil => rfl
  | cons here _ ih => rw [List.map_cons, List.map_cons, here.1, ih]

theorem coerces_unique {h : Heap} {given : List Literal} {entries others : List (String × Value)}
    (all : List.Forall₂ (Coerces h) given entries) (all' : List.Forall₂ (Coerces h) given others) :
    entries = others := by
  refine List.right_unique_forall₂' ?_ all all'
  rintro l ⟨_, v⟩ ⟨_, v'⟩ ⟨rfl, coerced⟩ ⟨rfl, coerced'⟩
  exact congrArg (l.property.name, ·) (Except.ok.inj (coerced.symm.trans coerced'))

/-- There are values for all properties if each text is coerced. -/
theorem exists_coerces_iff {h : Heap} {given : List Literal} :
    (∃ entries, List.Forall₂ (Coerces h) given entries) ↔
      ∀ l ∈ given, ∃ v, h.coerce (.string l.text) l.property.type = .ok v := by
  induction given with
  | nil => exact ⟨fun _ => List.forall_mem_nil _, fun _ => ⟨[], .nil⟩⟩
  | cons l rest ih =>
    rw [List.forall_mem_cons, ← ih]
    constructor
    · rintro ⟨_, all⟩
      cases all with
      | cons here later => exact ⟨⟨_, here.2⟩, _, later⟩
    · rintro ⟨⟨v, here⟩, entries, later⟩
      exact ⟨(l.property.name, v) :: entries, .cons ⟨rfl, here⟩ later⟩

end Literal

/-- A text is assigned to its property as a value of the type of the property. -/
theorem Site.applyAttribute_literal {s : Site} {object : ObjectId} {l : Literal}
    (fits : l.Fits (s.heap.descriptor object)) (extensions : Extensions) (p : Position) :
    s.applyAttribute extensions object (l.expanded p) =
      ((s.heap.coerce (.string l.text) l.property.type).map
        (s.heap.set object l.property.name)).mapError
          fun fault => .coercion l.property.name fault.message p := by
  have target : s.target (s.heap.descriptor object) ⟨"", l.property.name⟩ =
      .ok l.property.target :=
    Site.target_of_undotted (fits.lettered.not_mem (by decide)) fits.declared
  have assigned : s.heap.assign object l.property.target (.string l.text) =
      ((s.heap.coerce (.string l.text) l.property.type).map
        (s.heap.set object l.property.name)).mapError .coercion := by
    unfold Heap.assign
    rw [if_neg (show l.property.target.type ≠ .collection from fits.single),
      show l.property.target.type = l.property.type from rfl]
    cases s.heap.coerce (.string l.text) l.property.type <;> rfl
  have noLanguage : isLanguage (l.expanded p).name.namespaceUri = false := rfl
  rw [Site.applyAttribute, noLanguage]
  show Except.mapError _ (s.target (s.heap.descriptor object) ⟨"", l.property.name⟩ >>=
    fun target => s.heap.assign object target (.string l.text)) = _
  rw [target]
  show Except.mapError _ (s.heap.assign object l.property.target (.string l.text)) = _
  rw [assigned]
  cases s.heap.coerce (.string l.text) l.property.type <;> rfl

namespace Load

section Applying

variable (env : Environment) {s last : LoadState} {target : ObjectId} {d : TypeDescriptor}

/-- A strict load applies an attribute that gives a text exactly if the text is coerced. -/
theorem applyAttribute_iff (strict : s.context.tolerant = false) {l : Literal}
    (fits : l.Fits (s.heap.descriptor target)) (id : NodeId) (p : Position) :
    (applyAttribute env id target (l.expanded p)).start s = (.ok (), last) ↔
      ∃ entry, l.Coerces s.heap entry ∧
        last = { s with heap := s.heap.set target entry.1 entry.2 } := by
  have applied : (s.site env id).applyAttribute env.extensions target (l.expanded p) = _ :=
    Site.applyAttribute_literal fits env.extensions p
  rw [applyAttribute, start_get_bind, applied]
  constructor
  · intro ran
    obtain ⟨heap, changed, rfl⟩ := ok_of_changeHeap strict ran
    obtain ⟨v, coerced, rfl⟩ := ok_of_map (ok_of_mapError changed)
    exact ⟨(l.property.name, v), ⟨rfl, coerced⟩, rfl⟩
  · rintro ⟨⟨_, v⟩, ⟨rfl, coerced⟩, rfl⟩
    have coerced : (s.site env id).heap.coerce (.string l.text) l.property.type = .ok v := coerced
    rw [coerced]
    rfl

/-- Attributes that give texts are applied exactly if all texts are coerced. -/
theorem applyAttributes_iff (strict : s.context.tolerant = false)
    (type : s.heap.descriptor target = d) {placed : List (Literal × Position)}
    (fits : ∀ l ∈ placed, l.1.Fits d) (id : NodeId) :
    ((placed.map fun l => l.1.expanded l.2).forM (applyAttribute env id target)).start s =
        (.ok (), last) ↔
      ∃ entries, List.Forall₂ (Literal.Coerces s.heap) (placed.map Prod.fst) entries ∧
        last = { s with heap := s.heap.setAll target entries } := by
  induction placed generalizing s with
  | nil =>
    constructor
    · intro ran
      cases ran
      exact ⟨[], .nil, rfl⟩
    · rintro ⟨entries, none, rfl⟩
      cases none
      rfl
  | cons l rest ih =>
    obtain ⟨here, later⟩ := List.forall_mem_cons.1 fits
    -- The object stays one of its type, and texts are coerced in the same way later.
    have next : ∀ entry : String × Value,
        ((rest.map fun l => l.1.expanded l.2).forM (applyAttribute env id target)).start
            { s with heap := s.heap.set target entry.1 entry.2 } = (.ok (), last) ↔
          ∃ entries, List.Forall₂ (Literal.Coerces s.heap) (rest.map Prod.fst) entries ∧
            last = { s with heap := s.heap.setAll target (entry :: entries) } := by
      intro entry
      have kept := Heap.assigning_sameTypes.set s.heap target entry.1 entry.2
      have type' : (s.heap.set target entry.1 entry.2).descriptor target = d := by
        rw [kept.descriptor, type]
      rw [ih (s := { s with heap := s.heap.set target entry.1 entry.2 }) strict type' later,
        Literal.coerces_eq s.heap]
      rfl
    rw [List.map_cons, List.map_cons, start_forM_cons]
    constructor
    · intro ran
      obtain ⟨_, t, first, ran⟩ := ok_of_start_bind ran
      obtain ⟨entry, coerces, rfl⟩ := (applyAttribute_iff env strict (type ▸ here) id l.2).1 first
      obtain ⟨entries, others, is⟩ := (next entry).1 ran
      exact ⟨entry :: entries, .cons coerces others, is⟩
    · rintro ⟨_, all, is⟩
      cases all with
      | @cons _ entry _ entries coerces others =>
        have first := (applyAttribute_iff env strict (type ▸ here) id l.2).2
          ⟨entry, coerces, rfl⟩
        rw [start_bind_of_ok first]
        exact (next entry).2 ⟨entries, others, is⟩

/-- Of an element without content that makes a plain object only the attributes are applied. -/
theorem applyProperties_iff {h : Heap} {name : QName} {placed : List (Literal × Position)}
    {p : Position}
    (alone : s.Alone target h (.ofType name (placed.map fun l => l.1.expanded l.2) p)
      (.ofRoot target))
    (plain : d.kind = .plain) (type : h.descriptor target = d) (fits : ∀ l ∈ placed, l.1.Fits d) :
    (applyProperties env).start s = (.ok (), last) ↔
      ∃ entries, List.Forall₂ (Literal.Coerces h) (placed.map Prod.fst) entries ∧
        last = { s with heap := h.setAll target entries } := by
  obtain rfl := alone.heap
  have enters : (enterNode env NodeTree.root target).start s = (.ok (), s) := by
    have kind : s.heap.kind target = .plain := (congrArg TypeDescriptor.kind type).trans plain
    rw [enterNode, start_get_bind, kind]
    rfl
  have attributes : (s.node NodeTree.root).attributes =
      placed.map fun l => l.1.expanded l.2 := by
    rw [alone.body_eq]
    rfl
  have childless : ∀ heap, (applyChildren env NodeTree.root target).start { s with heap := heap } =
      (.ok (), { s with heap := heap }) := by
    intro heap
    have children : (LoadState.node { s with heap := heap } NodeTree.root).children = [] := by
      rw [LoadState.node, alone.tree]
      rfl
    rw [applyChildren, start_get_bind, children]
    split <;> rfl
  -- The loop has one round: the element is entered, its attributes are applied, no child is.
  rw [applyProperties, start_get_bind, alone.loadedUpwards env, start_forM_cons]
  constructor
  · intro ran
    obtain ⟨_, _, node, done⟩ := ok_of_start_bind ran
    cases done
    rw [start_applyNode alone.object?_root, start_bind_of_ok enters, attributes] at node
    obtain ⟨_, t, applied, rest⟩ := ok_of_start_bind node
    obtain ⟨entries, all, rfl⟩ := (applyAttributes_iff env alone.strict type fits _).1 applied
    rw [childless] at rest
    cases rest
    exact ⟨entries, all, rfl⟩
  · rintro ⟨entries, all, rfl⟩
    have applied := (applyAttributes_iff env alone.strict type fits NodeTree.root).2
      ⟨entries, all, rfl⟩
    have node : (applyNode env NodeTree.root).start s =
        (.ok (), { s with heap := s.heap.setAll target entries }) := by
      rw [start_applyNode alone.object?_root, start_bind_of_ok enters, attributes,
        start_bind_of_ok applied]
      exact childless _
    rw [start_bind_of_ok node]
    rfl

/-- **The whole load** does not fail exactly if all texts are coerced, and then nothing has been
done to the objects but to set the properties to what the texts are coerced to. -/
theorem runPasses_iff {h : Heap} (plain : d.kind = .plain)
    (type : h.descriptor target = d) (name : QName) {placed : List (Literal × Position)}
    (p : Position) (fits : ∀ l ∈ placed, l.1.Fits d) :
    let first : LoadState := .initial (.alone (.ofType name (placed.map fun l => l.1.unread l.2) p))
      (some target) (.start (some target) false []) h
    ∃ t : LoadState, t.context.rootElement = some target ∧ ∀ last,
      (runPasses env).start first = (.ok (), last) ↔
        ∃ entries, List.Forall₂ (Literal.Coerces h) (placed.map Prod.fst) entries ∧
          last = { t with heap := h.setAll target entries } := by
  intro first
  have begins : first.Alone target h (.ofType name (placed.map fun l => l.1.unread l.2) p) .empty :=
    ⟨rfl, rfl, rfl, rfl, rfl, rfl⟩
  have kind : h.kind target = .plain := (congrArg TypeDescriptor.kind type).trans plain
  obtain ⟨s, ran, alone⟩ := leads_literals env kind name placed p first begins
  -- Whether the load succeeds is left to the last pass.
  have passes : (runPasses env).start first =
      ([Pass.propertyApplication].forM (completePass env)).start s := by
    have all : runPasses env =
        (preliminaries ++ [Pass.propertyApplication]).forM (completePass env) := rfl
    rw [all, start_forM_append, start_bind_of_ok ran]
  have applies : ∀ u, (applyProperties env).start s = (.ok (), u) ↔ _ :=
    fun u => applyProperties_iff env alone plain type fits
  let t : LoadState := { s with context := s.context.completed .propertyApplication }
  refine ⟨t, alone.element, fun last => ?_⟩
  rw [passes, start_forM_cons]
  constructor
  · intro ran
    obtain ⟨_, _, completed, done⟩ := ok_of_start_bind ran
    cases done
    obtain ⟨u, applied, rfl⟩ := ok_of_completePass completed
    obtain ⟨entries, all, rfl⟩ := (applies u).1 applied
    exact ⟨entries, all, rfl⟩
  · rintro ⟨entries, all, rfl⟩
    have applied : (runPass env .propertyApplication).start s = _ :=
      (applies _).2 ⟨entries, all, rfl⟩
    have completed : (completePass env .propertyApplication).start s =
        (.ok (), { t with heap := h.setAll target entries }) := by
      rw [completePass, start_bind_of_ok applied]
      rfl
    rw [start_bind_of_ok completed]
    rfl

end Applying

end Load

/-! ## Loading texts -/

namespace Loader

/-- Loading the document that has been read. -/
theorem outcome_runInto (env : Environment) {h : Heap} {target : ObjectId} {d : TypeDescriptor}
    (plain : d.kind = .plain) (type : h.descriptor target = d) (name : QName)
    {placed : List (Literal × Position)} (p : Position) (fits : ∀ l ∈ placed, l.1.Fits d) :
    let tree : NodeTree := .alone (.ofType name (placed.map fun l => l.1.unread l.2) p)
    let outcome := ((Loader.mk env false).runInto h target tree).outcome
    ((∃ report, outcome.result = .ok report) ↔
        ∃ entries, List.Forall₂ (Literal.Coerces h) (placed.map Prod.fst) entries) ∧
      ∀ report, outcome.result = .ok report → report.root = target ∧
        ∃ entries, List.Forall₂ (Literal.Coerces h) (placed.map Prod.fst) entries ∧
          outcome.heap = h.setAll target entries := by
  intro tree outcome
  obtain ⟨t, root, ended⟩ := Load.runPasses_iff env plain type name p fits
  let first : LoadState := .initial tree (some target) (.start (some target) false []) h
  rcases ran : (Load.runPasses env).start first with ⟨error | _, last⟩
  · have failed : outcome = ⟨.error error, last.heap⟩ := by
      show (Run.ofStep (Load.runPasses env) first).outcome = _
      rw [Run.ofStep, ran]
      rfl
    -- There is no report, and there would be one if all texts were coerced.
    have fails : ∀ report, outcome.result ≠ .ok report := by
      intro report reports
      rw [failed] at reports
      cases reports
    refine ⟨iff_of_false (not_exists.2 fails) ?_, fun report is => absurd is (fails report)⟩
    rintro ⟨entries, all⟩
    have ran' : (Load.runPasses env).start first = _ := (ended _).2 ⟨entries, all, rfl⟩
    rw [ran] at ran'
    cases ran'
  · obtain ⟨entries, all, rfl⟩ := (ended last).1 ran
    have done : outcome = ⟨.ok ⟨target, t.names, t.context.diagnostics, t.context.passes⟩,
        h.setAll target entries⟩ := by
      show (Run.ofStep (Load.runPasses env) first).outcome = _
      rw [Run.ofStep, ran, Run.outcome, LoadState.report]
      simp only [root]
      rfl
    rw [done]
    refine ⟨⟨fun _ => ⟨entries, all⟩, fun _ => ⟨_, rfl⟩⟩, ?_⟩
    rintro _ ⟨⟩
    exact ⟨rfl, entries, all, rfl⟩

/-- **Properties given as texts are what the texts are coerced to.** Take an element without content
of a plain type and texts for distinct properties of the type, none of which collects values. The
document can be written. However it is written, loading it into a new object of the type succeeds in
a strict load exactly if every text is coerced to the type of its property; and then the object has
these properties, in the order of the attributes, with what the texts are coerced to, and nothing
else. -/
theorem loadInto_literals {env : Environment} {h ready : Heap} {target : ObjectId} {name : QName}
    {d : TypeDescriptor} {given : List Literal} (known : env.registry.get? name = some d)
    (plain : d.kind = .plain) (lettered : Lettered name.localName)
    (fresh : env.registry.create h name = .ok (target, ready)) (fits : ∀ l ∈ given, l.Fits d)
    (distinct : (given.map (·.property.name)).Nodup) :
    let document := Document.ofLiterals name given
    document.Writing (fun _ => False) document.tag.escaped ∧
      ∀ w, document.Writing (fun _ => False) w →
        let outcome := (Loader.mk env false).loadInto ready target (String.ofList w)
        ((∃ report, outcome.result = .ok report) ↔
            ∀ l ∈ given, ∃ v, ready.coerce (.string l.text) l.property.type = .ok v) ∧
          ∀ report, outcome.result = .ok report → report.root = target ∧
            ∃ entries, List.Forall₂ (Literal.Coerces ready) given entries ∧
              outcome.heap.object target = { Object.ofType d with properties := ⟨entries⟩ } := by
  intro document
  refine ⟨Document.writing_escaped _ document.tag, fun w writing => ?_⟩
  intro outcome
  obtain ⟨placed, p, rfl, read⟩ := Document.read_ofLiterals
    (Document.valid_ofLiterals lettered fits distinct) writing
  -- The object has been made of the type and has no properties yet.
  obtain ⟨_, known', rfl, rfl⟩ := exists_type_of_create fresh
  obtain rfl : d = _ := Option.some.inj (known.symm.trans known')
  have object : (h.alloc (.ofType d)).2.object h.size = .ofType d := Heap.object_alloc h _
  have type : (h.alloc (.ofType d)).2.descriptor h.size = d := by rw [Heap.descriptor, object]; rfl
  have fits' : ∀ l ∈ placed, l.1.Fits d := fun l mem => fits l.1 (List.mem_map_of_mem mem)
  have loads : outcome = ((Loader.mk env false).runInto (h.alloc (.ofType d)).2 h.size
      (.alone (.ofType name (placed.map fun l => l.1.unread l.2) p))).outcome := by
    show Loader.loadInto _ _ _ _ = _
    rw [loadInto, read]
  obtain ⟨succeeds, leaves⟩ := outcome_runInto env plain type name p fits'
  rw [loads]
  refine ⟨succeeds.trans Literal.exists_coerces_iff, fun report reports => ?_⟩
  obtain ⟨root, entries, all, heap⟩ := leaves report reports
  refine ⟨root, entries, all, ?_⟩
  -- The properties are distinct: each is set once, and they keep the order of the attributes.
  have keys : (entries.map Prod.fst).Nodup := by rwa [Literal.keys_of_coerces all]
  have inside : h.size < (h.alloc (.ofType d)).2.size := by
    rw [Heap.size_alloc]
    exact Nat.lt_succ_self h.size
  rw [heap, Heap.object_setAll entries inside, object, ← Table.ofList_eq keys]
  rfl

/-- A text with braces and marks, and a truth value between blanks. -/
theorem loadInto_literals_label :
    let env : Environment := ⟨.controls, .builtIn⟩
    let name : QName := ⟨formsNamespace, "Label"⟩
    let given : List Literal :=
      [⟨⟨"Text", .string⟩, " \x7ba & \"b\"\x7d"⟩, ⟨⟨"IsVisible", .bool⟩, "TRUE "⟩]
    let heap := (Heap.empty.alloc (.ofType Controls.label)).2
    let written := "<Label xmlns=\"http://xamarin.com/schemas/2014/forms\"" ++
      " Text=\"\x7b\x7d \x7ba &amp; &quot;b&quot;\x7d\" IsVisible=\"TRUE \"/>"
    let outcome := (Loader.mk env false).loadInto heap 0 written
    env.registry.get? name = some Controls.label ∧ Controls.label.kind = .plain ∧
      Lettered name.localName ∧ env.registry.create .empty name = .ok (0, heap) ∧
      (∀ l ∈ given, l.Fits Controls.label) ∧ (given.map (·.property.name)).Nodup ∧
      (Document.ofLiterals name given).Writing (fun _ => False) written.toList ∧
      ∃ report, outcome.result = .ok report ∧ (outcome.heap.object 0).properties.entries =
        [("Text", .string " \x7ba & \"b\"\x7d"), ("IsVisible", .bool true)] := by
  intro env name given heap written outcome
  have known : env.registry.get? name = some Controls.label := rfl
  have fresh : env.registry.create .empty name = .ok (0, heap) := rfl
  have fits : ∀ l ∈ given, l.Fits Controls.label := by
    refine List.forall_mem_cons.2 ⟨⟨rfl, by decide, by decide, by decide⟩,
      List.forall_mem_singleton.2 ⟨rfl, by decide, by decide, by decide⟩⟩
  have distinct : (given.map (·.property.name)).Nodup := by decide
  have label : Lettered name.localName := by decide
  obtain ⟨writing, loads⟩ := loadInto_literals known rfl label fresh fits distinct
  have text : (Document.ofLiterals name given).tag.escaped = written.toList := by decide +kernel
  rw [text] at writing
  have same : String.ofList written.toList = written := String.ofList_toList
  obtain ⟨succeeds, leaves⟩ := loads written.toList writing
  rw [same] at succeeds leaves
  have coerced : ∀ l ∈ given, ∃ v, heap.coerce (.string l.text) l.property.type = .ok v :=
    List.forall_mem_cons.2 ⟨⟨_, rfl⟩, List.forall_mem_singleton.2 ⟨.bool true, rfl⟩⟩
  obtain ⟨report, reports⟩ := succeeds.2 coerced
  obtain ⟨-, entries, all, object⟩ := leaves report reports
  refine ⟨known, rfl, label, fresh, fits, distinct, writing, report, reports, ?_⟩
  rw [object]
  have expected : List.Forall₂ (Literal.Coerces heap) given
      [("Text", .string " \x7ba & \"b\"\x7d"), ("IsVisible", .bool true)] :=
    .cons ⟨rfl, rfl⟩ (.cons ⟨rfl, rfl⟩ .nil)
  exact Literal.coerces_unique all expected

end Loader

end MarkupLoader
