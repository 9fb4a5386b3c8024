import MarkupLoader.Heap.Making
import MarkupLoader.Load.Assignment
import MarkupLoader.Proofs.Failing
import MarkupLoader.Proofs.RoundTrip

/-!
# Objects at no place

Of all that an object is, only the document that a template keeps has positions in it, and nothing
is done with them before the template is instantiated. **Reading and writing objects commutes with
taking the positions away** (`Heap.unplaced`), so that heaps that differ in positions only
(`Heap.Akin`) stay so.

Whoever gives values to attributes must not look at positions either, nor at the places that nodes
have in their tree: **an extension is blind** (`Extension.Blind`) if it gives one value where it gets
the same answers. The built-in extensions are.

Main results: `Heap.unplaced_assign`, `Heap.Akin.assign`, `Heap.Akin.assignAll`,
`Extensions.evaluate_of_blind`, `Extensions.blind_builtIn`.
-/

namespace MarkupLoader

/-- An object whose template keeps a document without positions. -/
def Object.unplaced (o : Object) : Object :=
  { o with template := o.template.map fun t => { t with tree := t.tree.unplaced } }

@[simp]
theorem Object.typeName_unplaced (o : Object) : o.unplaced.typeName = o.typeName := rfl

namespace Heap

/-- The heap without the positions in the documents that templates keep. -/
def unplaced (h : Heap) : Heap := { h with objects := h.objects.map Object.unplaced }

/-! ## Reading -/

section Reading

variable (h : Heap)

@[simp]
theorem size_unplaced : h.unplaced.size = h.size := by simp [unplaced, size]

@[simp]
theorem object_unplaced (id : ObjectId) : h.unplaced.object id = (h.object id).unplaced := by
  unfold unplaced object
  rw [Array.getElem?_map]
  cases h.objects[id]? <;> rfl

@[simp]
theorem descriptor_unplaced (id : ObjectId) : h.unplaced.descriptor id = h.descriptor id := by
  rw [descriptor, object_unplaced]
  rfl

@[simp]
theorem kind_unplaced (id : ObjectId) : h.unplaced.kind id = h.kind id := by
  rw [kind, object_unplaced]
  rfl

@[simp]
theorem get?_unplaced (id : ObjectId) (property : String) :
    h.unplaced.get? id property = h.get? id property := by
  rw [get?, object_unplaced]
  rfl

@[simp]
theorem entry?_unplaced (id : ObjectId) (key : String) :
    h.unplaced.entry? id key = h.entry? id key := by
  unfold entry?
  rw [object_unplaced]
  rfl

@[simp]
theorem resource?_unplaced : h.unplaced.resource? = h.resource? := by
  funext id key
  simp only [resource?, kind_unplaced, entry?_unplaced, get?_unplaced]

@[simp]
theorem isOfKind_unplaced (kind : TypeKind) : h.unplaced.isOfKind kind = h.isOfKind kind := by
  funext value
  cases value <;> simp [isOfKind]

@[simp]
theorem kindName_unplaced : h.unplaced.kindName = h.kindName := by
  funext value
  cases value <;> simp [kindName]

@[simp]
theorem coerce_unplaced (value : Value) (type : PropertyType) :
    h.unplaced.coerce value type = h.coerce value type := by
  have object : ∀ id, h.unplaced.coerceObject id type = h.coerceObject id type := fun id => by
    unfold coerceObject
    rw [descriptor_unplaced, kind_unplaced, object_unplaced, Object.typeName_unplaced]
  unfold coerce
  rw [kindName_unplaced]
  split <;> first | rfl | exact object _

end Reading

/-! ## Writing -/

section Writing

variable (h : Heap) (id : ObjectId)

/-- A change that does not look at what a template keeps. -/
theorem unplaced_modify {change change' : Object → Object}
    (commutes : ∀ o, (change o).unplaced = change' o.unplaced) :
    (h.modify id change).unplaced = h.unplaced.modify id change' := by
  unfold modify unplaced
  congr 1
  refine Array.ext (by simp) fun n inside inside' => ?_
  simp only [Array.getElem_map, Array.getElem_modify]
  split
  · exact commutes _
  · rfl

@[simp]
theorem unplaced_set (property : String) (value : Value) :
    (h.set id property value).unplaced = h.unplaced.set id property value :=
  h.unplaced_modify id fun _ => rfl

@[simp]
theorem unplaced_addItem (value : Value) :
    (h.addItem id value).unplaced = h.unplaced.addItem id value :=
  h.unplaced_modify id fun _ => rfl

@[simp]
theorem unplaced_putEntry (key : String) (value : Value) :
    (h.putEntry id key value).unplaced = h.unplaced.putEntry id key value :=
  h.unplaced_modify id fun _ => rfl

theorem unplaced_alloc (o : Object) : (h.alloc o).2.unplaced = (h.unplaced.alloc o.unplaced).2 := by
  simp [alloc, unplaced]

theorem unplaced_append (property : String) (value : Value) :
    (h.append id property value).map unplaced = h.unplaced.append id property value := by
  unfold append
  rw [get?_unplaced, kindName_unplaced]
  split
  · exact congrArg Except.ok (unplaced_set ..)
  · exact congrArg Except.ok (unplaced_set ..)
  · exact congrArg Except.ok (unplaced_set ..)
  · split
    · rw [kind_unplaced]
      split
      · exact congrArg Except.ok (unplaced_addItem ..)
      · rfl
    · rfl

theorem unplaced_assign (target : Target) (value : Value) :
    (h.assign id target value).map unplaced = h.unplaced.assign id target value := by
  have added : ((h.append id target.key value).mapError AssignmentFault.notACollection).map
      unplaced = (h.unplaced.append id target.key value).mapError .notACollection := by
    rw [← unplaced_append]
    cases h.append id target.key value <;> rfl
  unfold assign
  rw [isOfKind_unplaced, coerce_unplaced]
  split
  · split
    · exact congrArg Except.ok (unplaced_set ..)
    · split
      · exact congrArg Except.ok (unplaced_set ..)
      · exact added
  · split
    · exact congrArg Except.ok (unplaced_set ..)
    · rfl

end Writing

/-! ## Heaps that differ in positions -/

/-- Heaps that differ in the positions in what templates keep, and in nothing else. -/
def Akin (h k : Heap) : Prop := k.unplaced = h.unplaced

namespace Akin

variable {h k : Heap}

theorem refl (h : Heap) : h.Akin h := rfl

theorem size (akin : h.Akin k) : k.size = h.size := by
  rw [← k.size_unplaced, akin, h.size_unplaced]

theorem object (akin : h.Akin k) (id : ObjectId) :
    (k.object id).unplaced = (h.object id).unplaced := by
  rw [← k.object_unplaced, akin, h.object_unplaced]

theorem descriptor (akin : h.Akin k) (id : ObjectId) : k.descriptor id = h.descriptor id := by
  rw [← k.descriptor_unplaced, akin, h.descriptor_unplaced]

theorem kind (akin : h.Akin k) (id : ObjectId) : k.kind id = h.kind id := by
  rw [← k.kind_unplaced, akin, h.kind_unplaced]

theorem typeName (akin : h.Akin k) (id : ObjectId) :
    (k.object id).typeName = (h.object id).typeName := by
  rw [← Object.typeName_unplaced, akin.object, Object.typeName_unplaced]

theorem get? (akin : h.Akin k) (id : ObjectId) (property : String) :
    k.get? id property = h.get? id property := by
  rw [← k.get?_unplaced, akin, h.get?_unplaced]

theorem resource? (akin : h.Akin k) : k.resource? = h.resource? := by
  rw [← k.resource?_unplaced, akin, h.resource?_unplaced]

theorem isOfKind (akin : h.Akin k) (kind : TypeKind) : k.isOfKind kind = h.isOfKind kind := by
  rw [← k.isOfKind_unplaced, akin, h.isOfKind_unplaced]

theorem kindName (akin : h.Akin k) : k.kindName = h.kindName := by
  rw [← k.kindName_unplaced, akin, h.kindName_unplaced]

theorem coerce (akin : h.Akin k) (value : Value) (type : PropertyType) :
    k.coerce value type = h.coerce value type := by
  rw [← k.coerce_unplaced, akin, h.coerce_unplaced]

theorem modify (akin : h.Akin k) (id : ObjectId) {change change' : Object → Object}
    (commutes : ∀ o, (change o).unplaced = change' o.unplaced) :
    (h.modify id change).Akin (k.modify id change) := by
  unfold Akin
  rw [unplaced_modify _ _ commutes, unplaced_modify _ _ commutes, akin]

theorem set (akin : h.Akin k) (id : ObjectId) (property : String) (value : Value) :
    (h.set id property value).Akin (k.set id property value) := by
  rw [Akin, unplaced_set, unplaced_set, akin]

theorem addItem (akin : h.Akin k) (id : ObjectId) (value : Value) :
    (h.addItem id value).Akin (k.addItem id value) := by
  rw [Akin, unplaced_addItem, unplaced_addItem, akin]

theorem putEntry (akin : h.Akin k) (id : ObjectId) (key : String) (value : Value) :
    (h.putEntry id key value).Akin (k.putEntry id key value) := by
  rw [Akin, unplaced_putEntry, unplaced_putEntry, akin]

theorem alloc (akin : h.Akin k) {o p : Object} (objects : p.unplaced = o.unplaced) :
    (h.alloc o).2.Akin (k.alloc p).2 := by
  unfold Akin
  rw [unplaced_alloc, unplaced_alloc, akin, objects]

theorem assign (akin : h.Akin k) (id : ObjectId) (target : Target) (value : Value) :
    Alike Akin (h.assign id target value) (k.assign id target value) := by
  have same : (k.assign id target value).map unplaced = (h.assign id target value).map unplaced := by
    rw [unplaced_assign, unplaced_assign, akin]
  generalize h.assign id target value = first at same
  generalize k.assign id target value = second at same
  cases first with
  | error fault =>
    cases second with
    | error fault' =>
      cases same
      exact .error fault
    | ok k' => cases same
  | ok h' =>
    cases second with
    | error fault => cases same
    | ok k' => exact .ok (Except.ok.inj same)

theorem assignAll (akin : h.Akin k) (id : ObjectId) (target : Target) (values : List Value) :
    Alike Akin (h.assignAll id target values) (k.assignAll id target values) := by
  unfold Heap.assignAll
  split
  · exact .ok akin
  split
  · have same : List.Forall₂ Eq values values := List.forall₂_same.2 fun _ _ => rfl
    refine Alike.foldlM same ?_ akin
    rintro _ _ value _ akin rfl
    exact akin.assign id target value
  · split
    · exact .ok akin
    · exact akin.assign id target _
    · exact .error _

/-- What an object is made from does not depend on positions. -/
theorem make (akin : h.Akin k) (d : TypeDescriptor) (arguments : List Value)
    (factory : Option String) : d.make k arguments factory = d.make h arguments factory := by
  have coerced : d.coerceArgument k = d.coerceArgument h := by
    funext parameter argument
    simp only [TypeDescriptor.coerceArgument, akin.coerce]
  unfold TypeDescriptor.make
  rw [akin.kindName, coerced]

end Akin

end Heap

/-! ## Blind extensions -/

/-- Services that give the same answers: whoever asks them does not get to know where a node stands,
neither in its tree nor in a text. -/
structure Services.Akin (s t : Services) : Prop where
  heap : s.heap.Akin t.heap
  registry : t.registry = s.registry
  resource? : t.resource? = s.resource?
  named? : t.named? = s.named?
  typeName? : t.typeName? = s.typeName?

/-- An extension that does not look at where a node stands. -/
def Extension.Blind (extension : Extension) : Prop :=
  ∀ arguments (s t : Services), s.Akin t → extension arguments t = extension arguments s

/-- All extensions are blind. -/
def Extensions.Blind (e : Extensions) : Prop :=
  ∀ name extension, e.known.get? name = some extension → Extension.Blind extension

namespace Extensions

variable {e : Extensions} {s t : Services}

theorem blind_of_lookUp (blind : e.Blind) {head : ExpressionHead} {extension : Extension}
    (found : e.lookUp head = .ok extension) : Extension.Blind extension := by
  unfold lookUp at found
  split at found
  · cases found
    obtain ⟨key, known⟩ := exists_known_of_get? ‹_›
    exact blind key extension known
  · cases found

theorem evaluateArgs_of_blind (blind : e.Blind) (akin : s.Akin t) (args : Args) :
    e.evaluateArgs t args = e.evaluateArgs s args := by
  induction args with
  | nil => rfl
  | text key value others ih => rw [evaluateArgs, evaluateArgs, ih]
  | nested key head inner others inside later =>
    rw [evaluateArgs, evaluateArgs, inside, later]
    cases found : e.lookUp head with
    | error fault => rfl
    | ok extension =>
      have same : ∀ arguments, ask extension arguments t = ask extension arguments s :=
        fun arguments => by rw [ask, ask, blind_of_lookUp blind found arguments s t akin]
      show (e.evaluateArgs s inner >>= fun arguments => ask extension arguments t >>= _) = _
      simp only [same]
      rfl

/-- Blind extensions give an expression the same value wherever the answers are the same. -/
theorem evaluate_of_blind (blind : e.Blind) {site site' : Site}
    (akin : site.services.Akin site'.services) (x : Expression) :
    e.evaluate site' x = e.evaluate site x := by
  rw [evaluate, evaluate, evaluateArgs_of_blind blind akin]
  cases found : e.lookUp x.head with
  | error fault => rfl
  | ok extension =>
    have same : ∀ arguments, ask extension arguments site'.services =
        ask extension arguments site.services :=
      fun arguments => by rw [ask, ask, blind_of_lookUp blind found arguments _ _ akin]
    show (e.evaluateArgs site.services x.args >>= fun arguments =>
      ask extension arguments site'.services) = _
    simp only [same]
    rfl

theorem blind_builtIn : builtIn.Blind := by
  have text : ∀ (arguments : Arguments) {s t : Services}, s.Akin t →
      arguments.text t.heap = arguments.text s.heap := fun arguments s t akin => by
    funext name position
    unfold Arguments.text
    rw [akin.heap.kindName]
  intro name extension found
  rcases eq_of_known_builtIn found with rfl | rfl | rfl | rfl
  · intro arguments s t akin
    rw [staticResource, staticResource, text arguments akin, akin.resource?]
  · intro arguments s t akin
    rw [reference, reference, text arguments akin, akin.named?]
  · exact fun _ _ _ _ => rfl
  · intro arguments s t akin
    rw [typeReference, typeReference, text arguments akin, akin.typeName?, akin.registry]

end Extensions

end MarkupLoader
