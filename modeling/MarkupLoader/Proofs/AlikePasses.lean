import MarkupLoader.Proofs.Simulation

/-!
# The later passes of two loads

Registering names, filling dictionaries and assigning properties do the same on both sides of two
loads that simulate each other, node by node.

* **Filling** changes an object at a time, and makes new ones.
* **Assigning** depends on what can be asked at the site of a node (`Matching.Services`), and on the
  nodes at the site, below it, and below these.

Main results: `ends_registerNames`, `ends_fillResources`, `ends_applyProperties`.
-/

namespace MarkupLoader

section Filling

variable {env : Environment} {shared loaded : NodeId → Prop}
  {R : Matching → LoadState → LoadState → Prop} {M : Matching} {a b : LoadState} {id : NodeId}
  (simulates : Simulates env shared loaded R) (both : R M a b)

include simulates both

namespace Load

/-! ## Registering names -/

theorem ends_registerNames :
    EndsDone R M ((registerNames env).start a) ((registerNames env).start b) := by
  obtain ⟨same, all⟩ := simulates.downwards both
  unfold registerNames
  rw [start_get_bind, start_get_bind, same]
  exact ends_forM _ (fun id mem _ _ _ _ both => simulates.register both (all id mem)) both

/-! ## Filling dictionaries -/

theorem ends_fillEntry {dictionary dictionary' : ObjectId} (related : M.rel dictionary dictionary')
    (mem : shared id) :
    EndsDone R M ((fillEntry dictionary id).start a) ((fillEntry dictionary' id).start b) := by
  unfold fillEntry
  rw [start_get_bind, start_get_bind, simulates.node both mem]
  dsimp only
  cases (a.node id).isElement with
  | false => exact ends_done both
  | true =>
    have value := (simulates.agree both mem).value
    generalize a.context.value? id = found at value
    generalize b.context.value? id = found' at value
    rw [if_neg (by decide), if_neg (by decide)]
    cases value with
    | none => exact ends_done both
    | some value =>
      dsimp only
      cases (a.node id).directiveText? "Key" with
      | some key => exact simulates.putEntry both related key value
      | none => exact simulates.recover both _

theorem ends_fillDictionary {dictionary dictionary' : ObjectId}
    (related : M.rel dictionary dictionary') {nodes : List NodeId}
    (mem : ∀ id ∈ nodes, shared id) :
    EndsDone R M ((fillDictionary dictionary nodes).start a)
      ((fillDictionary dictionary' nodes).start b) := by
  unfold fillDictionary
  refine ends_forM _ (fun id listed N a' b' within both => ?_) both
  exact ends_fillEntry simulates both (within _ _ related) (mem id listed)

/-- Both sides find the dictionary of a property, make one, or have no type for it. -/
theorem ends_dictionaryFor {owner owner' : ObjectId} (related : M.rel owner owner')
    (property : String) (position : Position) :
    Ends R (fun N d d' => Option.Rel N.rel d d') M
      ((dictionaryFor env owner property position).start a)
      ((dictionaryFor env owner' property position).start b) := by
  have heaps := simulates.heaps both
  unfold dictionaryFor
  rw [start_get_bind, start_get_bind]
  dsimp only
  have held : Option.Rel M.rel
      (((a.heap.get? owner property).filter (a.heap.isOfKind .dictionary)).bind Value.object?)
      (((b.heap.get? owner' property).filter (b.heap.isOfKind .dictionary)).bind Value.object?) := by
    have value := heaps.get? related property
    generalize a.heap.get? owner property = found at value
    generalize b.heap.get? owner' property = found' at value
    cases value with
    | none => exact .none
    | some value =>
      rw [Option.filter_some, Option.filter_some, heaps.isOfKind value]
      split
      · exact value.object?
      · exact .none
  generalize ((a.heap.get? owner property).filter _).bind Value.object? = found at held
  generalize ((b.heap.get? owner' property).filter _).bind Value.object? = found' at held
  cases held with
  | some held => exact ends_ok both (.some held)
  | none =>
    cases env.registry.get? resourceDictionaryName with
    | none =>
      exact Ends.bind (simulates.recover both _) fun N _ _ _ _ _ both _ => ends_ok both .none
    | some d =>
      refine Ends.bind (simulates.make both (Matching.objects_ofType d)) ?_
      intro N created created' a' b' within both made
      refine Ends.bind (simulates.set both (within _ _ related) property (.object made)) ?_
      intro O _ _ _ _ within' both _
      exact ends_ok both (.some (within' _ _ made))

theorem onlyDictionary? (mem : shared id) :
    Option.Rel M.rel (a.onlyDictionary? id) (b.onlyDictionary? id) := by
  have inside := simulates.shared_of_elements both mem
  unfold LoadState.onlyDictionary?
  rw [simulates.elements both mem]
  split
  case h_1 single only =>
    have object := simulates.object? both (inside single (only ▸ List.mem_singleton_self single))
    generalize a.context.object? single = found at object
    generalize b.context.object? single = found' at object
    cases object with
    | none => exact .none
    | some object =>
      rw [Option.filter_some, Option.filter_some, (simulates.heaps both).kind object]
      split
      · exact .some object
      · exact .none
  case h_2 => exact .none

theorem ends_fillProperty (mem : shared id) {owner owner' : ObjectId}
    (related : M.rel owner owner') (property : String) :
    EndsDone R M ((fillProperty env id owner property).start a)
      ((fillProperty env id owner' property).start b) := by
  unfold fillProperty
  rw [start_get_bind, start_get_bind, simulates.elements both mem, simulates.node both mem]
  have only := onlyDictionary? simulates both mem
  generalize a.onlyDictionary? id = found at only
  generalize b.onlyDictionary? id = found' at only
  cases only with
  | some object => exact simulates.set both related property (.object object)
  | none =>
    have inside := simulates.shared_of_elements both mem
    refine Ends.bind (ends_dictionaryFor simulates both related property _) ?_
    intro N dictionary dictionary' a' b' within both found
    cases found with
    | none => exact ends_done both
    | some found => exact ends_fillDictionary simulates both found inside

theorem ends_fillPropertyElement (mem : shared id) (name : QName) :
    EndsDone R M ((fillPropertyElement env id name).start a)
      ((fillPropertyElement env id name).start b) := by
  unfold fillPropertyElement
  rw [start_get_bind, start_get_bind, simulates.node both mem]
  dsimp only
  cases above : (a.node id).parent with
  | none => exact ends_done both
  | some parent =>
    have object := simulates.object? both (simulates.above both mem above)
    rw [Option.bind_some, Option.bind_some]
    generalize a.context.object? parent = found at object
    generalize b.context.object? parent = found' at object
    cases object with
    | none => exact ends_done both
    | some related =>
      dsimp only
      rw [(simulates.heaps both).descriptor related]
      split
      · split
        · exact ends_fillProperty simulates both mem related _
        · exact ends_done both
      · exact ends_done both

theorem ends_fillNode (mem : shared id) :
    EndsDone R M ((fillNode env id).start a) ((fillNode env id).start b) := by
  unfold fillNode
  rw [start_get_bind, start_get_bind, simulates.node both mem]
  have object := simulates.object? both mem
  generalize a.context.object? id = found at object ⊢
  generalize b.context.object? id = found' at object ⊢
  cases (a.node id).kind with
  | text content => exact ends_done both
  | property name => exact ends_fillPropertyElement simulates both mem name
  | root | element =>
    cases object with
    | none => exact ends_done both
    | some related =>
      dsimp only
      rw [(simulates.heaps both).kind related]
      split
      · exact ends_fillDictionary simulates both related (simulates.below both mem)
      · exact ends_done both

theorem ends_fillResources :
    EndsDone R M ((fillResources env).start a) ((fillResources env).start b) := by
  obtain ⟨same, all⟩ := simulates.downwards both
  unfold fillResources
  rw [start_get_bind, start_get_bind, same]
  refine ends_forM _ (fun id mem N a' b' _ both => ?_) both
  exact ends_fillNode simulates both (simulates.ofLoaded (all id mem))

end Load

end Filling

/-! ## Assigning properties -/

/-- What is found first in lists that match. -/
theorem rel_findSome? {α β γ δ : Type} {r : α → β → Prop} {r' : γ → δ → Prop}
    {f : α → Option γ} {g : β → Option δ} {list : List α} {list' : List β}
    (lists : List.Forall₂ r list list') (found : ∀ x y, r x y → Option.Rel r' (f x) (g y)) :
    Option.Rel r' (list.findSome? f) (list'.findSome? g) := by
  induction lists with
  | nil => exact .none
  | @cons x y _ _ here _ ih =>
    rw [List.findSome?_cons, List.findSome?_cons]
    have first := found x y here
    generalize f x = fx at first
    generalize g y = gy at first
    cases first with
    | some related => exact .some related
    | none => exact ih

section Applying

variable {env : Environment} {shared loaded : NodeId → Prop}
  {R : Matching → LoadState → LoadState → Prop} {M : Matching} {a b : LoadState} {id : NodeId}
  {object object' : ObjectId} (simulates : SimulatesAll env shared loaded R) (both : R M a b)

include simulates both

namespace SimulatesAll

/-- The nodes at and above a place are the same on both sides, and shared. -/
theorem selfAndAncestors (mem : shared id) :
    b.tree.selfAndAncestors id = a.tree.selfAndAncestors id ∧
      ∀ n ∈ a.tree.selfAndAncestors id, shared n := by
  obtain ⟨same, all⟩ := simulates.ancestors both mem
  exact ⟨congrArg (id :: ·) same, List.forall_mem_cons.2 ⟨mem, all⟩⟩

theorem services (mem : loaded id) :
    M.Services (a.site env id).services (b.site env id).services where
  heap := simulates.heaps both
  registry := rfl
  node := rfl
  resource key := by
    obtain ⟨above, all⟩ := simulates.selfAndAncestors both (simulates.ofLoaded mem)
    show Option.Rel M.Values
      ((((a.tree.selfAndAncestors id).filterMap a.context.object?) ++
        a.context.outerScope).findSome? fun object => a.heap.resource? object key)
      ((((b.tree.selfAndAncestors id).filterMap b.context.object?) ++
        b.context.outerScope).findSome? fun object => b.heap.resource? object key)
    rw [above]
    have around := List.rel_append (simulates.objects both all) (simulates.outerScope both)
    exact rel_findSome? around fun _ _ related => (simulates.heaps both).resource? related key
  named := simulates.named both mem
  typeName := by
    show (a.site env id).typeName? = (b.site env id).typeName?
    funext written
    show ((a.tree.lookUpNamespace id _).map _) = ((b.tree.lookUpNamespace id _).map _)
    rw [simulates.namespaces both (simulates.ofLoaded mem)]

/-- A name stands for the same target on both sides. -/
theorem target (mem : shared id) (d : TypeDescriptor) (name : QName) :
    (b.site env id).target d name = (a.site env id).target d name := by
  have node : b.tree.node id = a.tree.node id := simulates.node both mem
  have same : (b.site env id).target = (a.site env id).target :=
    Site.target_congr rfl (simulates.namespaces both mem) (congrArg (fun n : Node => n.typeName) node)
  rw [same]

theorem applyAttribute (natural : env.extensions.Natural) (mem : loaded id)
    (related : M.rel object object') (attr : Attribute) :
    Alike M.Heaps ((a.site env id).applyAttribute env.extensions object attr)
      ((b.site env id).applyAttribute env.extensions object' attr) := by
  have heaps := simulates.heaps both
  have value : Alike M.Values ((a.site env id).attributeValue env.extensions attr)
      ((b.site env id).attributeValue env.extensions attr) := by
    unfold Site.attributeValue
    cases attr.value with
    | raw text => exact .ok (.string text)
    | literal text => exact .ok (.string text)
    | expression x =>
      exact (Extensions.alike_evaluate natural (simulates.services both mem) x).mapError _
  have target : (b.site env id).target (b.heap.descriptor object') attr.name =
      (a.site env id).target (a.heap.descriptor object) attr.name := by
    rw [simulates.target both (simulates.ofLoaded mem), heaps.descriptor related]
  unfold Site.applyAttribute
  split
  · exact .ok heaps
  · refine value.bind fun v w value => ?_
    refine Alike.mapError ?_ _
    show Alike M.Heaps
      ((a.site env id).target (a.heap.descriptor object) attr.name >>= fun target =>
        a.heap.assign object target v)
      ((b.site env id).target (b.heap.descriptor object') attr.name >>= fun target =>
        b.heap.assign object' target w)
    rw [target]
    refine (Alike.same _).bind ?_
    rintro target _ rfl
    exact heaps.assign related target value

theorem assignContent (related : M.rel object object') {v w : Value} (value : M.Values v w) :
    Alike M.Heaps ((a.site env id).assignContent object v)
      ((b.site env id).assignContent object' w) := by
  have heaps := simulates.heaps both
  show Alike M.Heaps ((a.heap.descriptor object).contentTarget >>= fun target =>
      a.heap.assign object target v)
    ((b.heap.descriptor object').contentTarget >>= fun target => b.heap.assign object' target w)
  rw [heaps.descriptor related]
  refine (Alike.same _).bind ?_
  rintro target _ rfl
  exact heaps.assign related target value

/-- The values inside a property element are those of its children. -/
theorem elementValues {element : NodeId} (mem : shared element) :
    List.Forall₂ M.Values ((a.site env id).elementValues element)
      ((b.site env id).elementValues element) := by
  have children : (b.tree.node element).children = (a.tree.node element).children :=
    congrArg Node.children (simulates.node both mem)
  unfold Site.elementValues
  show List.Forall₂ M.Values ((a.tree.node element).children.filterMap _)
    ((b.tree.node element).children.filterMap _)
  rw [children]
  refine Matching.forall₂_filterMap fun child listed => ?_
  have inside := simulates.below both mem child listed
  have same : (b.site env id).tree.node child = (a.site env id).tree.node child :=
    simulates.node both inside
  rw [same]
  cases ((a.site env id).tree.node child).kind with
  | text content => exact .some (.string content)
  | _ => exact (simulates.agree both inside).value

theorem applyElement (mem : shared id) (related : M.rel object object') {element : NodeId}
    (inside : shared element) (name : QName) :
    Alike M.Heaps ((a.site env id).applyElement object element name)
      ((b.site env id).applyElement object' element name) := by
  have heaps := simulates.heaps both
  show Alike M.Heaps ((a.site env id).target (a.heap.descriptor object) name >>= fun target =>
      a.heap.assignAll object target _)
    ((b.site env id).target (b.heap.descriptor object') name >>= fun target =>
      b.heap.assignAll object' target _)
  rw [simulates.target both mem, heaps.descriptor related]
  refine (Alike.same _).bind ?_
  rintro target _ rfl
  exact heaps.assignAll related target (simulates.elementValues both inside)

theorem applyObject (related : M.rel object object') {child : NodeId} (mem : shared child) :
    Alike M.Heaps ((a.site env id).applyObject object child)
      ((b.site env id).applyObject object' child) := by
  have heaps := simulates.heaps both
  have value : Option.Rel M.Values ((a.site env id).context.value? child)
      ((b.site env id).context.value? child) := (simulates.agree both mem).value
  have kind : (a.site env id).heap.kind object = (b.site env id).heap.kind object' :=
    heaps.kind related
  unfold Site.applyObject
  generalize (a.site env id).context.value? child = found at value
  generalize (b.site env id).context.value? child = found' at value
  cases value with
  | none => exact .ok heaps
  | some value =>
    dsimp only
    rw [kind]
    split
    · exact .ok (heaps.addItem related value)
    · exact simulates.assignContent both related value

theorem applyChild (mem : shared id) (related : M.rel object object') {child : NodeId}
    (inside : shared child) :
    Alike M.Heaps ((a.site env id).applyChild object child)
      ((b.site env id).applyChild object' child) := by
  have heaps := simulates.heaps both
  have node : (b.site env id).tree.node child = (a.site env id).tree.node child :=
    simulates.node both inside
  have name : ((b.site env id).heap.object object').typeName =
      ((a.site env id).heap.object object).typeName := (heaps.typeName related).symm
  unfold Site.applyChild
  rw [node, name]
  dsimp only
  cases ((a.site env id).tree.node child).kind with
  | text content => exact (simulates.assignContent both related (.string content)).mapError _
  | property name =>
    dsimp only
    split
    · exact .ok heaps
    · exact (simulates.applyElement both mem related inside name).mapError _
  | root => exact (simulates.applyObject both related inside).mapError _
  | element => exact (simulates.applyObject both related inside).mapError _

/-- The objects around a node. -/
theorem objectsAround (mem : shared id) :
    List.Forall₂ M.rel (a.site env id).outerScope (b.site env id).outerScope := by
  obtain ⟨above, all⟩ := simulates.ancestors both mem
  show List.Forall₂ M.rel
    ((a.tree.ancestors id).filterMap a.context.object? ++ a.context.outerScope)
    ((b.tree.ancestors id).filterMap b.context.object? ++ b.context.outerScope)
  rw [above]
  exact List.rel_append (simulates.objects both all) (simulates.outerScope both)

end SimulatesAll

namespace Load

theorem ends_captureScope (related : M.rel object object') {scope scope' : List ObjectId}
    (around : List.Forall₂ M.rel scope scope') :
    EndsDone R M ((captureScope object scope).start a)
      ((captureScope object' scope').start b) := by
  have before := (simulates.heaps both).objects object object' related
  refine simulates.modifyHeap both related { before with template := ?_ }
  have template := before.template
  show Option.Rel M.Templates ((a.heap.object object).template.map _)
    ((b.heap.object object').template.map _)
  generalize (a.heap.object object).template = content at template
  generalize (b.heap.object object').template = content' at template
  cases template with
  | none => exact .none
  | some matched => exact .some ⟨matched.tree, around⟩

theorem ends_applyAttributes (natural : env.extensions.Natural) (mem : loaded id)
    (related : M.rel object object') :
    EndsDone R M ((applyAttributes env id object).start a)
      ((applyAttributes env id object').start b) := by
  unfold applyAttributes
  rw [start_get_bind, start_get_bind, simulates.node both (simulates.ofLoaded mem)]
  refine ends_forM _ (fun attr _ N a' b' within both => ?_) both
  exact simulates.changeHeap both
    (simulates.applyAttribute both natural mem (within _ _ related) attr)

theorem ends_applyChildren (mem : shared id) (related : M.rel object object') :
    EndsDone R M ((applyChildren env id object).start a)
      ((applyChildren env id object').start b) := by
  have inside := simulates.below both mem
  have content : EndsDone R M
      (((a.node id).children.forM fun child => do
        let s ← get
        changeHeap ((s.site env id).applyChild object child) : Load Unit).start a)
      (((a.node id).children.forM fun child => do
        let s ← get
        changeHeap ((s.site env id).applyChild object' child) : Load Unit).start b) := by
    refine ends_forM _ (fun child listed N a' b' within both => ?_) both
    exact simulates.changeHeap both
      (simulates.applyChild both mem (within _ _ related) (inside child listed))
  unfold applyChildren
  rw [start_get_bind, start_get_bind, simulates.node both mem, (simulates.heaps both).kind related]
  cases b.heap.kind object' with
  | dictionary => exact ends_done both
  | template => exact ends_done both
  | plain => exact content
  | collection => exact content

theorem ends_applyNode (natural : env.extensions.Natural) (mem : loaded id) :
    EndsDone R M ((applyNode env id).start a) ((applyNode env id).start b) := by
  have here := simulates.ofLoaded mem
  unfold applyNode
  rw [start_get_bind, start_get_bind]
  have object := simulates.object? both here
  generalize a.context.object? id = found at object
  generalize b.context.object? id = found' at object
  cases object with
  | none => exact ends_done both
  | @some object object' related =>
    dsimp only
    have around := simulates.objectsAround both here
    have applied : ∀ {N : Matching} {a' b' : LoadState}, M.Within N → R N a' b' →
        EndsDone R N
          ((applyAttributes env id object >>= fun _ => applyChildren env id object).start a')
          ((applyAttributes env id object' >>= fun _ =>
            applyChildren env id object').start b') := by
      intro N a' b' within both
      refine Ends.bind
        (ends_applyAttributes simulates both natural mem (within _ _ related)) ?_
      intro O _ _ _ _ within' both _
      exact ends_applyChildren simulates both here (within' _ _ (within _ _ related))
    rw [(simulates.heaps both).kind related]
    split
    · refine Ends.bind (ends_captureScope simulates both related around) ?_
      intro N _ _ _ _ within both _
      exact applied within both
    · exact applied (.refl M) both

theorem ends_applyProperties (natural : env.extensions.Natural) :
    EndsDone R M ((applyProperties env).start a) ((applyProperties env).start b) := by
  obtain ⟨same, all⟩ := simulates.upwards both
  unfold applyProperties
  rw [start_get_bind, start_get_bind, same]
  refine ends_forM _ (fun id mem N a' b' _ both => ?_) both
  exact ends_applyNode simulates both natural (all id mem)

end Load

end Applying

end MarkupLoader
