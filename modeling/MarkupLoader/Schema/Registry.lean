import MarkupLoader.Schema.Descriptor

/-!
# Type registries

A registry knows the types that a document may use by their names, the two editions of the
language namespace being one. Registering a type again replaces it.

Main statements: `get?_register_self`, `get?_register_of_ne`.
-/

namespace MarkupLoader

/-- The types that are known, under their canonical names. -/
structure Registry where
  types : Table QName TypeDescriptor
deriving Inhabited

namespace Registry

/-- The registry that knows no type. -/
def empty : Registry := ⟨.empty⟩

/-- The registry with a type, which replaces one of the same name. -/
def register (r : Registry) (d : TypeDescriptor) : Registry :=
  ⟨r.types.insert d.name.canonical d⟩

/-- The type of a name. -/
def get? (r : Registry) (name : QName) : Option TypeDescriptor := r.types.get? name.canonical

/-- The number of types. -/
def size (r : Registry) : Nat := r.types.size

/-- Whether a name is that of a type of template kind. -/
def isTemplate (r : Registry) (name : QName) : Bool :=
  (r.get? name).any (·.kind = .template)

/-! ## Laws -/

/-- A registered type is found under its name. -/
theorem get?_register_self (r : Registry) (d : TypeDescriptor) :
    (r.register d).get? d.name = some d := by
  simp [register, get?]

/-- Registering a type is seen at no other name. -/
theorem get?_register_of_ne (r : Registry) (d : TypeDescriptor) {name : QName}
    (h : name.canonical ≠ d.name.canonical) : (r.register d).get? name = r.get? name := by
  simp [register, get?, Table.get?_insert_of_ne _ _ h]

end Registry

end MarkupLoader
