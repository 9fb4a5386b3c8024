import MarkupLoader.Load.State
import MarkupLoader.Proofs.Writing

/-!
# What a load gets hold of

The values that a load writes come from its document, from nodes that have values already, and
from extensions. All of them hold only objects that are there:

* **the state** of a load is sound (`LoadState.Sound`) if its heap is, and if the context names
  only objects that are there;
* **an extension** gives values of such objects if it is given such (`Extension.Closed`).

So what is applied at a site of a sound state leaves a sound heap.

Main results: `has_of_evaluate`, `closed_builtIn`, `Sound.applyAttribute`, `Sound.applyChild`.
-/

namespace MarkupLoader

/-! ## Closed extensions -/

/-- The objects in the arguments of an extension are there. -/
structure Arguments.Closed (a : Arguments) (h : Heap) : Prop where
  positional : ∀ v ∈ a.positional, h.Has v
  named : ∀ entry ∈ a.named, h.Has entry.2

/-- The objects that an extension may ask for are there. -/
structure Services.Closed (s : Services) : Prop where
  heap : s.heap.Sound
  resource : ∀ key v, s.resource? key = some v → s.heap.Has v
  named : ∀ name v, s.named? name = some v → s.heap.Has v

/-- An extension gives values of objects that are there, if it is given such. -/
def Extension.Closed (e : Extension) : Prop :=
  ∀ (arguments : Arguments) (services : Services) (value : Value), services.Closed →
    arguments.Closed services.heap → e arguments services = .ok value → services.heap.Has value

/-- All extensions give values of objects that are there. -/
def Extensions.Closed (e : Extensions) : Prop :=
  ∀ name extension, e.known.get? name = some extension → extension.Closed

/-! ## Extensions -/

namespace Extensions

theorem closed_cons {h : Heap} {key : Option String} {value : Value} {others : Arguments}
    (has : h.Has value) (closed : others.Closed h) : (Arguments.cons key value others).Closed h := by
  cases key with
  | none => exact ⟨List.forall_mem_cons.2 ⟨has, closed.positional⟩, closed.named⟩
  | some key => exact ⟨closed.positional, List.forall_mem_cons.2 ⟨has, closed.named⟩⟩

theorem has_of_ask {extension : Extension} {arguments : Arguments} {services : Services}
    {value : Value} (closed : extension.Closed) (there : services.Closed)
    (given : arguments.Closed services.heap) (asked : ask extension arguments services = .ok value) :
    services.heap.Has value :=
  closed arguments services value there given (ok_of_mapError asked)

theorem closed_of_lookUp {e : Extensions} (closed : e.Closed) {head : ExpressionHead}
    {extension : Extension} (found : e.lookUp head = .ok extension) : extension.Closed := by
  unfold lookUp at found
  split at found
  · cases found
    obtain ⟨_, known⟩ := exists_known_of_get? ‹_›
    exact closed _ _ known
  · cases found

theorem closed_of_evaluateArgs {e : Extensions} (closed : e.Closed) {services : Services}
    (there : services.Closed) {args : Args} {arguments : Arguments}
    (evaluated : e.evaluateArgs services args = .ok arguments) :
    arguments.Closed services.heap := by
  induction args generalizing arguments with
  | nil =>
    cases evaluated
    exact ⟨nofun, nofun⟩
  | text key value others ih =>
    obtain ⟨rest, evaluatedRest, evaluated⟩ := ok_of_bind evaluated
    cases evaluated
    exact closed_cons (Heap.has_of_references rfl) (ih evaluatedRest)
  | nested key head inner others ihInner ihOthers =>
    obtain ⟨extension, found, evaluated⟩ := ok_of_bind evaluated
    obtain ⟨given, evaluatedInner, evaluated⟩ := ok_of_bind evaluated
    obtain ⟨value, asked, evaluated⟩ := ok_of_bind evaluated
    obtain ⟨rest, evaluatedRest, evaluated⟩ := ok_of_bind evaluated
    cases evaluated
    have has := has_of_ask (closed_of_lookUp closed found) there (ihInner evaluatedInner) asked
    exact closed_cons has (ihOthers evaluatedRest)

/-- What an expression stands for is made of objects that are there. -/
theorem has_of_evaluate {e : Extensions} (closed : e.Closed) {site : Site}
    (there : site.services.Closed) {x : Expression} {value : Value}
    (evaluated : e.evaluate site x = .ok value) : site.heap.Has value := by
  obtain ⟨extension, found, evaluated⟩ := ok_of_bind evaluated
  obtain ⟨arguments, given, asked⟩ := ok_of_bind evaluated
  exact has_of_ask (closed_of_lookUp closed found) there (closed_of_evaluateArgs closed there given)
    asked

/-- The built-in extensions give what they have been asked for and make nothing up. -/
theorem closed_builtIn : builtIn.Closed := by
  intro name extension known
  rcases eq_of_known_builtIn known with rfl | rfl | rfl | rfl
  · intro arguments services value there _ given
    obtain ⟨key, -, given⟩ := ok_of_bind given
    split at given
    · cases given
      exact there.resource key _ ‹_›
    · cases given
  · intro arguments services value there _ given
    obtain ⟨name, -, given⟩ := ok_of_bind given
    split at given
    · cases given
      exact there.named name _ ‹_›
    · cases given
  · intro arguments services value _ _ given
    cases given
    exact Heap.has_of_references rfl
  · intro arguments services value _ _ given
    obtain ⟨written, -, given⟩ := ok_of_bind given
    split at given
    · cases given
    · split at given
      · cases given
        exact Heap.has_of_references rfl
      · cases given

end Extensions

/-! ## Sound states -/

/-- A state of a load whose heap is sound and whose context names only objects that are there. -/
structure LoadState.Sound (s : LoadState) : Prop where
  heap : s.heap.Sound
  values : ∀ id value, s.context.value? id = some value → s.heap.Has value
  names : ∀ scope name value, (s.context.scope scope).names.get? name = some value →
    s.heap.Has value
  outerScope : ∀ id ∈ s.context.outerScope, id < s.heap.size
  root : ∀ id, s.rootInstance = some id → id < s.heap.size

namespace LoadState

variable {s : LoadState}

theorem Sound.object (sound : s.Sound) {node : NodeId} {id : ObjectId}
    (found : s.context.object? node = some id) : id < s.heap.size := by
  obtain ⟨value, held, is⟩ := Option.bind_eq_some_iff.1 found
  cases value <;> cases is
  exact Heap.has_object.1 (sound.values node _ held)

theorem Sound.withHeap (sound : s.Sound) {h : Heap} (heap : h.Sound) (grows : s.heap.Grows h) :
    ({ s with heap := h } : LoadState).Sound where
  heap := heap
  values id value held := (sound.values id value held).grows grows
  names scope name value held := (sound.names scope name value held).grows grows
  outerScope id mem := Nat.lt_of_lt_of_le (sound.outerScope id mem) grows.size
  root id is := Nat.lt_of_lt_of_le (sound.root id is) grows.size

/-- A resource of an object is an entry of it or of the object that it has as its resources. -/
theorem has_of_resource {h : Heap} (sound : h.Sound) {id : ObjectId} {key : String} {value : Value}
    (found : h.resource? id key = some value) : h.Has value := by
  unfold Heap.resource? at found
  dsimp only at found
  rcases Option.or_eq_some_iff.1 found with own | ⟨-, other⟩
  · split at own
    · exact (sound id).entries key value own
    · cases own
  · split at other
    · split at other
      · cases other
      · exact (sound _).entries key value other
    · cases other

/-- Every site of a sound state offers only objects that are there. -/
theorem Sound.services (sound : s.Sound) (env : Environment) (node : NodeId) :
    (s.site env node).services.Closed where
  heap := sound.heap
  resource key value found := by
    obtain ⟨object, -, here⟩ := List.exists_of_findSome?_eq_some found
    exact has_of_resource sound.heap here
  named name value found := by
    obtain ⟨scope, -, found⟩ := Option.bind_eq_some_iff.1 found
    have outwards : ∀ fuel scope, s.context.findNameFrom name fuel scope = some value →
        s.heap.Has value := by
      intro fuel
      induction fuel with
      | zero => exact nofun
      | succ fuel ih =>
        intro scope found
        unfold Context.findNameFrom at found
        split at found
        · cases found
          exact sound.names scope name value ‹_›
        · obtain ⟨parent, -, found⟩ := Option.bind_eq_some_iff.1 found
          exact ih parent found
    exact outwards _ scope found

/-! ### What is applied at a site -/

theorem Sound.applyAttribute (sound : s.Sound) {env : Environment} (closed : env.extensions.Closed)
    {node : NodeId} {object : ObjectId} {a : Attribute} {after : Heap}
    (applied : (s.site env node).applyAttribute env.extensions object a = .ok after) :
    after.Sound ∧ s.heap.Grows after := by
  unfold Site.applyAttribute at applied
  split at applied
  · cases applied
    exact ⟨sound.heap, .refl _⟩
  · obtain ⟨value, given, applied⟩ := ok_of_bind applied
    obtain ⟨target, found, assigned⟩ := ok_of_bind (ok_of_mapError applied)
    have has : s.heap.Has value := by
      unfold Site.attributeValue at given
      split at given
      · cases given
        exact Heap.has_of_references rfl
      · cases given
        exact Heap.has_of_references rfl
      · exact Extensions.has_of_evaluate closed (sound.services env node) (ok_of_mapError given)
    exact sound.heap.assign has (agrees_of_target (sound.heap object).undotted found) assigned

theorem Sound.assignContent (sound : s.Sound) {env : Environment} {node : NodeId}
    {object : ObjectId} {value : Value} {after : Heap} (has : s.heap.Has value)
    (applied : (s.site env node).assignContent object value = .ok after) :
    after.Sound ∧ s.heap.Grows after := by
  obtain ⟨target, found, assigned⟩ := ok_of_bind applied
  exact sound.heap.assign has (agrees_of_contentTarget found) assigned

theorem Sound.applyElement (sound : s.Sound) {env : Environment} {node element : NodeId}
    {object : ObjectId} {name : QName} {after : Heap} (inside : object < s.heap.size)
    (applied : (s.site env node).applyElement object element name = .ok after) :
    after.Sound ∧ s.heap.Grows after := by
  obtain ⟨target, found, assigned⟩ := ok_of_bind applied
  have has : ∀ value ∈ (s.site env node).elementValues element, s.heap.Has value := by
    intro value mem
    obtain ⟨child, -, given⟩ := List.mem_filterMap.1 mem
    split at given
    · cases given
      exact Heap.has_of_references rfl
    · exact sound.values child value given
  exact sound.heap.assignAll has (agrees_of_target (sound.heap object).undotted found) inside
    assigned

theorem Sound.applyObject (sound : s.Sound) {env : Environment} {node child : NodeId}
    {object : ObjectId} {after : Heap}
    (applied : (s.site env node).applyObject object child = .ok after) :
    after.Sound ∧ s.heap.Grows after := by
  unfold Site.applyObject at applied
  split at applied
  · cases applied
    exact ⟨sound.heap, .refl _⟩
  case h_2 value held =>
    have has : s.heap.Has value := sound.values child value held
    split at applied
    · cases applied
      exact ⟨sound.heap.addItem has, Heap.grows_addItem _ _ _⟩
    · exact sound.assignContent has applied

theorem Sound.applyChild (sound : s.Sound) {env : Environment} {node child : NodeId}
    {object : ObjectId} {after : Heap} (inside : object < s.heap.size)
    (applied : (s.site env node).applyChild object child = .ok after) :
    after.Sound ∧ s.heap.Grows after := by
  unfold Site.applyChild at applied
  dsimp only at applied
  split at applied
  · exact sound.assignContent (Heap.has_of_references rfl) (ok_of_mapError applied)
  · split at applied
    · cases applied
      exact ⟨sound.heap, .refl _⟩
    · exact sound.applyElement inside (ok_of_mapError applied)
  · exact sound.applyObject (ok_of_mapError applied)

end LoadState

end MarkupLoader
