import MarkupLoader.Proofs.Holding
import MarkupLoader.Proofs.Stages

/-!
# Items that take effect or fail as a whole

Applying properties handles one item after the other: the attributes of a node and its children. An
item is said here to be written in place (`Item.perform`): each value of a property element is
assigned to the heap as it comes, and what has been assigned before a failure stays there.

* **Only the first value can fail** of several that a collection takes (`Heap.Extendable`): when one has
  been assigned, the property holds a list or an object of collection kind, and takes all others.
* So writing in place leaves the heap as it is or does all there is to do
  (`Heap.assignInPlace_eq`), and it makes no difference whether a failure undoes what has been
  written.
* **A tolerant load goes on** with the next item after each failure, and records it once.

Main results: `Heap.assignInPlace_eq`, `Load.start_applyProperties_items`, `Load.items_atomic`.
-/

namespace MarkupLoader

/-! ## Writing in place -/

/-- How writing into a heap has ended, and the heap as it has been left. -/
abbrev Written (ε : Type) := Except ε Unit × Heap

namespace Heap

variable {h after : Heap} {id : ObjectId} {target : Target} {key : String} {value : Value}

/-- Writing that does what there is to do or leaves the heap as it is. -/
def whole {ε : Type} (h : Heap) : Except ε Heap → Written ε
  | .ok after => (.ok (), after)
  | .error error => (.error error, h)

/-- Assigns values in place, one after the other, up to the first that fails. -/
def assignEach (id : ObjectId) (target : Target) : List Value → Heap → Written AssignmentFault
  | [], h => (.ok (), h)
  | value :: rest, h =>
    match h.assign id target value with
    | .ok after => assignEach id target rest after
    | .error fault => (.error fault, h)

/-- Assigns the values of a property element in place. -/
def assignInPlace (h : Heap) (id : ObjectId) (target : Target) (values : List Value) :
    Written AssignmentFault :=
  if target.type = .dictionary then (.ok (), h)
  else if target.type = .collection then assignEach id target values h
  else
    match values with
    | [] => (.ok (), h)
    | [value] => h.whole (h.assign id target value)
    | _ => (.error (.tooManyValues target.key values.length), h)

/-- A property that takes whatever is added to it. -/
def Extendable (h : Heap) (id : ObjectId) (key : String) : Prop :=
  ∀ value, ∃ after, h.append id key value = .ok after

/-- A property takes additions if it holds a list or an object of collection kind, or nothing. -/
theorem extendable_of_get? (held : ∀ value, h.get? id key = some value → h.isWhole value = true) :
    h.Extendable id key := by
  intro value
  unfold append
  split
  · exact ⟨_, rfl⟩
  · exact ⟨_, rfl⟩
  · exact ⟨_, rfl⟩
  case h_4 found _ noList is =>
    have whole := held _ is
    cases found with
    | list items => exact absurd rfl (noList items)
    | object collection =>
      have kind : h.kind collection = .collection := of_decide_eq_true whole
      exact ⟨_, if_pos kind⟩
    | _ => cases whole

/-- What a property has been set to is what it holds, if the object is there. -/
theorem eq_of_get?_set {found : Value} (is : (h.set id key value).get? id key = some found) :
    found = value := by
  by_cases inside : id < h.size
  · rw [get?_set h id key value inside, if_pos ⟨rfl, rfl⟩] at is
    exact (Option.some.inj is).symm
  · have outside : (h.set id key value).size ≤ id :=
      Nat.le_trans (Nat.le_of_eq (size_modify h id _)) (Nat.le_of_not_lt inside)
    rw [get?, object_of_size_le outside] at is
    cases is

/-- After a value has been assigned to a collection, the collection takes any other. -/
theorem extendable_of_assign (type : target.type = .collection)
    (assigned : h.assign id target value = .ok after) : after.Extendable id target.key := by
  have listed : ∀ items, (h.set id target.key (.list items)).Extendable id target.key := fun items =>
    extendable_of_get? fun found is => by rw [eq_of_get?_set is]; rfl
  cases assigned_of_assign assigned with
  | whole _ whole =>
    refine extendable_of_get? fun found is => ?_
    rw [eq_of_get?_set is]
    cases value with
    | list items => rfl
    | object n =>
      have kind : h.kind n = .collection := of_decide_eq_true whole
      exact decide_eq_true ((congrFun (kind_set h id target.key _) n).trans kind)
    | _ => cases whole
  | first => exact listed _
  | next => exact listed _
  | @added n _ _ held kind =>
    refine extendable_of_get? fun found is => ?_
    rw [get?_addItem, held] at is
    cases is
    exact decide_eq_true ((congrFun (kind_addItem h n value) n).trans kind)
  | coerced other => exact absurd type other

/-- A collection that takes any value is assigned any value. -/
theorem assign_of_extendable (type : target.type = .collection) (extendable : h.Extendable id target.key)
    (value : Value) : ∃ after, h.assign id target value = .ok after := by
  obtain ⟨appended, appends⟩ := extendable value
  unfold assign
  rw [if_pos type]
  split
  · exact ⟨_, rfl⟩
  · split
    · exact ⟨_, rfl⟩
    · exact ⟨appended, by rw [appends]; rfl⟩

theorem assignEach_of_extendable (type : target.type = .collection) (values : List Value) :
    ∀ {h : Heap}, h.Extendable id target.key → ∃ after, assignEach id target values h = (.ok (), after) ∧
      values.foldlM (fun h v => h.assign id target v) h = .ok after := by
  induction values with
  | nil => exact fun _ => ⟨_, rfl, rfl⟩
  | cons value rest ih =>
    intro h extendable
    obtain ⟨next, assigned⟩ := assign_of_extendable type extendable value
    obtain ⟨after, each, all⟩ := ih (extendable_of_assign type assigned)
    refine ⟨after, ?_, ?_⟩
    · rw [assignEach, assigned]
      exact each
    · rw [List.foldlM_cons, assigned]
      exact all

/-- **Values assigned in place to a collection are all assigned, or none is.** -/
theorem assignEach_eq (type : target.type = .collection) (h : Heap) (values : List Value) :
    assignEach id target values h =
      h.whole (values.foldlM (fun h v => h.assign id target v) h) := by
  cases values with
  | nil => rfl
  | cons value rest =>
    rw [assignEach, List.foldlM_cons]
    cases assigned : h.assign id target value with
    | error fault => rfl
    | ok next =>
      -- The first value has been assigned, so all others are.
      obtain ⟨after, each, all⟩ := assignEach_of_extendable type rest (extendable_of_assign type assigned)
      show assignEach id target rest next = h.whole (rest.foldlM _ next)
      rw [each, all]
      rfl

/-- **The values of a property element are all assigned, or none is**, also if they are assigned in
place. -/
theorem assignInPlace_eq (h : Heap) (id : ObjectId) (target : Target) (values : List Value) :
    h.assignInPlace id target values = h.whole (h.assignAll id target values) := by
  unfold assignInPlace assignAll
  split
  · rfl
  · split
    case isTrue type => exact assignEach_eq type h values
    case isFalse =>
      match values with
      | [] => rfl
      | [value] => rfl
      | _ :: _ :: _ => rfl

end Heap

/-- Applies a child of the site's node to its object in place. Only property elements may have
several values to assign. -/
def Site.applyChildInPlace (s : Site) (object : ObjectId) (child : NodeId) : Written LoadError :=
  let node := s.tree.node child
  match node.kind with
  | .property name =>
    let failed (fault : AssignmentFault) : LoadError :=
      .coercion name.localName fault.message node.position
    if name.isDirective "Arguments" then (.ok (), s.heap)
    else
      match s.target (s.heap.descriptor object) name with
      | .error fault => (.error (failed fault), s.heap)
      | .ok target =>
        let written := s.heap.assignInPlace object target (s.elementValues child)
        (written.1.mapError failed, written.2)
  | _ => s.heap.whole (s.applyChild object child)

/-- A child takes effect or fails as a whole, also if it is applied in place. -/
theorem Site.applyChildInPlace_eq (s : Site) (object : ObjectId) (child : NodeId) :
    s.applyChildInPlace object child = s.heap.whole (s.applyChild object child) := by
  unfold applyChildInPlace
  dsimp only
  split
  case h_1 name kind =>
    unfold applyChild
    dsimp only
    rw [kind]
    dsimp only
    split
    · rfl
    · unfold applyElement
      cases s.target (s.heap.descriptor object) name with
      | error fault => rfl
      | ok target =>
        show (_, _) = s.heap.whole ((s.heap.assignAll object target (s.elementValues child)).mapError
          _)
        rw [Heap.assignInPlace_eq]
        cases s.heap.assignAll object target (s.elementValues child) <;> rfl
  · rfl

/-! ## Items -/

/-- What the application of properties handles: a node is entered, then its attributes come, then its
children. -/
inductive Item where
  | entering (id : NodeId) (object : ObjectId)
  | ofAttribute (id : NodeId) (object : ObjectId) (a : Attribute)
  | ofChild (id : NodeId) (object : ObjectId) (child : NodeId)
deriving DecidableEq, Repr

namespace Load

/-- Puts into effect what has been written, and passes over a failure. -/
def changeInPlace (written : Written LoadError) : Load Unit := do
  modifyHeap fun _ => written.2
  match written.1 with
  | .ok () => return ()
  | .error error => recover error

/-- Applies one child of a node in place. -/
def applyChildInPlace (env : Environment) (id : NodeId) (object : ObjectId) (child : NodeId) :
    Load Unit := do
  let s ← get
  changeInPlace ((s.site env id).applyChildInPlace object child)

/-- Handles an item. -/
def performItem (env : Environment) : Item → Load Unit
  | .entering id object => enterNode env id object
  | .ofAttribute id object a => applyAttribute env id object a
  | .ofChild id object child => applyChildInPlace env id object child

end Load

namespace LoadState

/-- What entering a node makes of the heap. -/
def entered (s : LoadState) (env : Environment) (id : NodeId) (object : ObjectId) : Heap :=
  if s.heap.kind object = .template then
    s.heap.modify object fun o =>
      { o with template := o.template.map fun t =>
        { t with outerScope := (s.site env id).outerScope } }
  else s.heap

/-- What an item comes to as a whole. -/
def itemOutcome (s : LoadState) (env : Environment) : Item → Except LoadError Heap
  | .entering id object => .ok (s.entered env id object)
  | .ofAttribute id object a => (s.site env id).applyAttribute env.extensions object a
  | .ofChild id object child => (s.site env id).applyChild object child

/-- The children of a node as items. Dictionaries and templates take none. -/
def childItems (s : LoadState) (id : NodeId) (object : ObjectId) : List Item :=
  match s.heap.kind object with
  | .dictionary => []
  | .template => []
  | _ => (s.node id).children.map (.ofChild id object)

/-- The items of a node, in order. -/
def itemsAt (s : LoadState) (id : NodeId) : List Item :=
  match s.context.object? id with
  | none => []
  | some object =>
    .entering id object ::
      ((s.node id).attributes.map (.ofAttribute id object) ++ s.childItems id object)

/-- All items of a document, in order. -/
def items (s : LoadState) (env : Environment) : List Item :=
  (s.loadedUpwards env).flatMap s.itemsAt

end LoadState

namespace Load

variable {env : Environment} {s t : LoadState} {id : NodeId}

/-! ## One item -/

/-- Writing in place that comes to something as a whole is a change of the heap. -/
theorem start_changeInPlace_whole (outcome : Except LoadError Heap) (s : LoadState) :
    (changeInPlace (s.heap.whole outcome)).start s = (changeHeap outcome).start s := by
  cases outcome <;> rfl

/-- **An item that is written in place comes to what it comes to as a whole.** -/
theorem start_performItem (item : Item) (s : LoadState) :
    (performItem env item).start s = (changeHeap (s.itemOutcome env item)).start s := by
  cases item with
  | entering id object =>
    rw [performItem, enterNode, start_get_bind, LoadState.itemOutcome, LoadState.entered]
    split <;> rfl
  | ofAttribute id object a => rfl
  | ofChild id object child =>
    rw [performItem, applyChildInPlace, start_get_bind, Site.applyChildInPlace_eq]
    exact start_changeInPlace_whole _ s

/-- No item fails in a way that a tolerant load does not pass over. -/
theorem isFatal_itemOutcome {item : Item} {error : LoadError}
    (failed : s.itemOutcome env item = .error error) : error.isFatal = false := by
  cases item with
  | entering => cases failed
  | ofAttribute => exact (ordinary_applyAttribute failed).fatal
  | ofChild => exact (ordinary_applyChild failed).fatal

/-- What handling an item does in a tolerant load: it takes effect and nothing is recorded, or its
failure is recorded and nothing else changes. -/
inductive Handled (env : Environment) (item : Item) (s : LoadState) : LoadState → Prop
  | effect {heap : Heap} (outcome : s.itemOutcome env item = .ok heap) :
      Handled env item s { s with heap := heap }
  | failure {error : LoadError} (outcome : s.itemOutcome env item = .error error) :
      Handled env item s (s.withRecord (s.context.diagnostics ++ [error]))

/-- A tolerant load handles every item. -/
theorem handled_performItem (env : Environment) (tolerant : s.context.tolerant = true)
    (item : Item) :
    ∃ t, (performItem env item).start s = (.ok (), t) ∧ Handled env item s t ∧
      t.context.tolerant = true := by
  rw [start_performItem]
  cases outcome : s.itemOutcome env item with
  | ok heap => exact ⟨_, rfl, .effect outcome, tolerant⟩
  | error error =>
    exact ⟨_, start_recover_tolerant tolerant (isFatal_itemOutcome outcome), .failure outcome,
      tolerant⟩

/-! ## All items -/

/-- Nothing that is asked about a node in order to know its items changes. -/
theorem childItems_of_settled (settled : s.Settled Heap.SameTypes t) {object : ObjectId} :
    t.childItems id object = s.childItems id object := by
  unfold LoadState.childItems LoadState.node
  rw [settled.heap.kind, settled.tree]

theorem itemsAt_of_settled (settled : s.Settled Heap.SameTypes t) : t.itemsAt id = s.itemsAt id := by
  have object : t.context.object? id = s.context.object? id := by
    rw [Context.object?, Context.value?, settled.values, Context.object?, Context.value?]
  unfold LoadState.itemsAt LoadState.node
  rw [object, settled.tree]
  simp only [childItems_of_settled settled]

/-- Steps may be replaced by steps that do the same. -/
theorem start_forM_congr {α : Type} {step step' : α → Load Unit}
    (same : ∀ a s, (step a).start s = (step' a).start s) (list : List α) (s : LoadState) :
    (list.forM step).start s = (list.forM step').start s := by
  induction list generalizing s with
  | nil => rfl
  | cons a rest ih =>
    rw [start_forM_cons, start_forM_cons, start_bind, start_bind, same]
    rcases (step' a).start s with ⟨_ | _, t⟩
    · rfl
    · exact ih t

/-- Applying the children of a node handles them in place. -/
theorem start_applyChildren_items (object : ObjectId) (s : LoadState) :
    (applyChildren env id object).start s =
      ((s.childItems id object).forM (performItem env)).start s := by
  have each : ∀ children : List NodeId,
      (children.forM fun child => do
        let s ← get
        changeHeap ((s.site env id).applyChild object child)).start s =
      ((children.map (.ofChild id object)).forM (performItem env)).start s := by
    intro children
    have map : (children.map (.ofChild id object)).forM (performItem env) =
        children.forM fun child => performItem env (.ofChild id object child) := List.forM_map
    rw [map]
    exact start_forM_congr (fun child t => (start_performItem (.ofChild id object child) t).symm)
      children s
  rw [applyChildren, start_get_bind, LoadState.childItems]
  cases s.heap.kind object with
  | dictionary => rfl
  | template => rfl
  | plain => exact each _
  | collection => exact each _

/-- Applying a node handles its items. -/
theorem start_applyNode_items (id : NodeId) (s : LoadState) :
    (applyNode env id).start s = ((s.itemsAt id).forM (performItem env)).start s := by
  cases has : s.context.object? id with
  | none =>
    rw [applyNode, start_get_bind, LoadState.itemsAt, has]
    rfl
  | some object =>
    rw [start_applyNode has, LoadState.itemsAt, has, start_forM_cons, start_bind, start_bind]
    have chains := Heap.assigning_sameTypes.toChains
    have entering : performItem env (.entering id object) = enterNode env id object := rfl
    rw [entering]
    rcases entered : (enterNode env id object).start s with ⟨_ | _, t⟩
    · rfl
    · have settled := (settles_enterNode Heap.assigning_sameTypes object).ran entered
      have map : ((s.node id).attributes.map (.ofAttribute id object)).forM (performItem env) =
          (s.node id).attributes.forM (applyAttribute env id object) := List.forM_map
      dsimp only
      rw [start_forM_append, start_bind, start_bind, map]
      rcases applied : ((s.node id).attributes.forM (applyAttribute env id object)).start t
        with ⟨_ | _, u⟩
      · rfl
      · have settled' := settled.trans chains
          ((settles_forM chains (fun _ => settles_applyAttribute Heap.assigning_sameTypes object)
            _).ran applied)
        dsimp only
        rw [start_applyChildren_items, childItems_of_settled settled']

/-- **Applying properties handles the items of the document in place**, one after the other. -/
theorem start_applyProperties_items (env : Environment) (s : LoadState) :
    (applyProperties env).start s = ((s.items env).forM (performItem env)).start s := by
  -- Nodes are applied from later states, in which they have the items that they had in `s`.
  have from_there : ∀ (ids : List NodeId) (t : LoadState), s.Settled Heap.SameTypes t →
      (ids.forM (applyNode env)).start t =
        ((ids.flatMap s.itemsAt).forM (performItem env)).start t := by
    intro ids
    induction ids with
    | nil => exact fun _ _ => rfl
    | cons id rest ih =>
      intro t settled
      rw [List.flatMap_cons, start_forM_append, start_forM_cons, start_bind, start_bind,
        ← itemsAt_of_settled settled, ← start_applyNode_items]
      rcases ran : (applyNode env id).start t with ⟨_ | _, u⟩
      · rfl
      · have applied := (settles_applyNode env Heap.assigning_sameTypes id).ran ran
        exact ih u (settled.trans Heap.assigning_sameTypes.toChains applied)
  exact from_there _ s (.refl Heap.assigning_sameTypes.toChains s)

/-- A tolerant load handles items up to the last. -/
theorem exists_of_forM_performItem (env : Environment) :
    ∀ (items : List Item) {s : LoadState}, s.context.tolerant = true →
      ∃ t, (items.forM (performItem env)).start s = (.ok (), t) ∧ t.context.tolerant = true := by
  intro items
  induction items with
  | nil => exact fun tolerant => ⟨_, rfl, tolerant⟩
  | cons item rest ih =>
    intro s tolerant
    obtain ⟨t, ran, -, tolerant'⟩ := handled_performItem env tolerant item
    obtain ⟨u, ran', tolerant''⟩ := ih tolerant'
    exact ⟨u, (start_bind_of_ok ran).trans ran', tolerant''⟩

/--
**Failed assignments are atomic.** A tolerant load that applies properties handles the attributes and
the children of nodes in their order to the end, and writes each value to the heap as it comes. Every
one of them takes effect and nothing is recorded, or exactly one failure is recorded, and the heap is
as it was before. The ones after it are handled from there on.
-/
theorem items_atomic (env : Environment) (tolerant : s.context.tolerant = true) :
    ∃ last, (applyProperties env).start s = (.ok (), last) ∧
      ∀ before item after, s.items env = before ++ item :: after →
        ∃ t u, (before.forM (performItem env)).start s = (.ok (), t) ∧
          (performItem env item).start t = (.ok (), u) ∧ Handled env item t u ∧
          (after.forM (performItem env)).start u = (.ok (), last) := by
  obtain ⟨last, ran, -⟩ := exists_of_forM_performItem env (s.items env) tolerant
  refine ⟨last, (start_applyProperties_items env s).trans ran, fun before item after order => ?_⟩
  obtain ⟨t, first, tolerant'⟩ := exists_of_forM_performItem env before tolerant
  obtain ⟨u, here, handled, -⟩ := handled_performItem env tolerant' item
  refine ⟨t, u, first, here, handled, ?_⟩
  rw [order, start_forM_append, start_bind_of_ok first, start_forM_cons, start_bind_of_ok here] at ran
  exact ran

/-- A property that holds a text gets two labels as its children, and none of them. -/
theorem items_atomic_children :
    let env : Environment := ⟨.controls, .builtIn⟩
    let forms (localName : String) : QName := ⟨formsNamespace, localName⟩
    let label (column : Nat) : Node :=
      ⟨⟨.element, forms "Label", [], [], [], ⟨1, column⟩⟩, [], some 1⟩
    let element : QName := forms "StackLayout.Children"
    let tree : NodeTree := ⟨#[
      ⟨⟨.root, forms "StackLayout", [], [], [("", formsNamespace)], ⟨1, 1⟩⟩, [1], none⟩,
      ⟨⟨.property element, element, [], [], [], ⟨1, 60⟩⟩, [2, 3], some 0⟩, label 82, label 90], []⟩
    let held : Object := { Object.ofType Controls.stackLayout with
      properties := .ofList [("Children", .string "x")] }
    let heap : Heap := ⟨#[held, .ofType Controls.label, .ofType Controls.label], []⟩
    let context : Context := { Context.start (some 0) true [] with
      values := .ofList [(0, .object 0), (2, .object 1), (3, .object 2)] }
    let s : LoadState := ⟨tree, some 0, context, heap⟩
    let item : Item := .ofChild 0 0 1
    s.context.tolerant = true ∧
      s.items env = [.entering 2 1, .entering 3 2, .entering 0 0] ++ item :: [] ∧
      ((s.site env 0).elementValues 1).length = 2 ∧
      ∃ last t error, (applyProperties env).start s = (.ok (), last) ∧
        (performItem env item).start t = (.ok (), last) ∧
        last = t.withRecord (t.context.diagnostics ++ [error]) := by
  intro env forms label element tree held heap context s item
  have tolerant : s.context.tolerant = true := rfl
  obtain ⟨order, values, fails⟩ : s.items env =
      [.entering 2 1, .entering 3 2, .entering 0 0] ++ item :: [] ∧
      ((s.site env 0).elementValues 1).length = 2 ∧
      ((([.entering 2 1, .entering 3 2, .entering 0 0].forM (performItem env)).start s).2.itemOutcome
        env item).toOption.isNone = true := by
    decide +kernel
  obtain ⟨last, ran, each⟩ := items_atomic env tolerant
  obtain ⟨t, u, first, here, handled, rest⟩ := each _ item [] order
  obtain rfl : u = last := congrArg Prod.snd rest
  rw [first] at fails
  refine ⟨tolerant, order, values, u, t, ?_⟩
  cases handled with
  | effect outcome =>
    rw [outcome] at fails
    cases fails
  | failure => exact ⟨_, ran, here, rfl⟩

end Load

end MarkupLoader
