import MarkupLoader.Decimal.Layout
import MarkupLoader.Load.Extension
import MarkupLoader.Text.Quoted

/-!
# Inspecting values

The texts by which values, types and extensions are shown to somebody who looks into a program. A
value is shown with the name of its kind; an object only by the name of its type, so that the
text stays short.

Main definition: `Heap.inspect`.
-/

namespace MarkupLoader

/-- How floating-point numbers are shown. A half goes up. -/
def Decimal.inspected : Layout := ⟨some (-4), some 15, true, false, .up⟩

namespace Inspection

/-- A record: its name, and its fields with their texts. -/
def record (name : String) (fields : List (String × String)) : String :=
  name ++ " \x7b " ++ ", ".intercalate (fields.map fun (key, text) => key ++ ": " ++ text) ++
    " \x7d"

/-- Texts in brackets. -/
def bracketed (texts : List String) : String := "[" ++ ", ".intercalate texts ++ "]"

/-- The name of a type. -/
def typeName (name : QName) : String :=
  record "MarkupTypeName"
    [("namespace_uri", Text.quoted name.namespaceUri),
      ("local_name", Text.quoted name.localName), ("type_arguments", "None")]

/-- The name of a kind of types. -/
def kind : TypeKind → String
  | .plain => "Plain"
  | .collection => "Collection"
  | .dictionary => "ResourceDictionary"
  | .template => "Template"

/-- A type. -/
def descriptor (d : TypeDescriptor) : String :=
  record "TypeDescriptor"
    [("name", typeName d.name), ("kind", kind d.kind),
      ("properties", toString d.properties.length)]

/-- The extensions of a load, by their names in order. -/
def extensions (e : Extensions) : String :=
  let names := (e.known.keys.map (·.localName)).mergeSort fun a b => !decide (b < a)
  record "ExtensionRegistry" [("extensions", bracketed (names.map Text.quoted))]

/-- A resolver, by the number of documents it remembers and whether it asks a provider. -/
def resolver (cached : Nat) (hasProvider : Bool) : String :=
  record "ResourceResolver"
    [("cached", toString cached), ("provider", if hasProvider then "true" else "false")]

end Inspection

namespace Heap

/-- An object, by the name of its type. -/
def inspectObject (h : Heap) (id : ObjectId) : String :=
  "ObjectRef(" ++ (h.object id).typeName ++ ")"

/-- An object that is not held. -/
def inspectUnheld (h : Heap) (id : ObjectId) : String :=
  if h.dead.contains id then "Weak(<dropped>)" else "Weak(" ++ h.inspectObject id ++ ")"

mutual

/-- A value. -/
def inspect (h : Heap) : Value → String
  | .null => "Null"
  | .bool b => "Bool(" ++ (if b then "true" else "false") ++ ")"
  | .int n => "Int(" ++ toString n.toInt ++ ")"
  | .float x => "Float(" ++ Decimal.inspected.text x ++ ")"
  | .string s => "String(" ++ Text.quoted s ++ ")"
  | .type name => "Type(" ++ Inspection.typeName name ++ ")"
  | .list items => "List(" ++ Inspection.bracketed (inspectAll h items) ++ ")"
  | .object id => "Object(" ++ h.inspectObject id ++ ")"

/-- Values. -/
def inspectAll (h : Heap) : List Value → List String
  | [] => []
  | v :: vs => inspect h v :: inspectAll h vs

end

end Heap

end MarkupLoader
