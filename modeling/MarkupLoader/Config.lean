import MarkupLoader.Error
import MarkupLoader.Json.Reader
import MarkupLoader.Schema.Registry

/-!
# Configurations

A configuration is a JSON text that declares types and may ask for tolerant loads.

* **Reading** (`Config.read`): a record is an object, whose unknown members do not count and whose
  known ones do not repeat, or an array of its fields in order, of which optional ones at the end
  may be missing.
* **Applying** (`Config.apply`): the types are registered one after the other, so that a later one
  may be derived from an earlier one. A base is looked for in the namespace of the type and then
  in that of the controls.

Main statement: `apply_nil`.
-/

namespace MarkupLoader

/-- A declared type. -/
structure TypeConfig where
  namespaceUri : String
  name : String
  base : Option String
  properties : Table String String
  attachedProperties : Table String String
  contentProperty : Option String
  kind : String
deriving Repr, Inhabited

/-- A configuration. -/
structure Config where
  /-- Whether loads tolerate failures. -/
  tolerant : Bool
  types : List TypeConfig
deriving Repr, Inhabited

/-! ## Reading -/

namespace Config

/-- A truth value. -/
def readBool? : JsonValue → Option Bool
  | .bool b => some b
  | _ => none

/-- A text. -/
def readText? : JsonValue → Option String
  | .string text => text
  | _ => none

/-- A text or null. -/
def readOptional? : JsonValue → Option (Option String)
  | .null => some none
  | v => (readText? v).map some

/-- An object whose members are texts. -/
def readTexts? : JsonValue → Option (Table String String)
  | .object entries => do
    let texts ← entries.mapM fun (key, value) => do
      return (← key, ← readText? value)
    return .ofList texts
  | _ => none

/-- The fields of a record, in the order of their names, each with its value if it is given. -/
def fields? (names : List String) : JsonValue → Option (List (Option JsonValue))
  | .array items =>
    if items.length ≤ names.length then
      some (items.map some ++ List.replicate (names.length - items.length) none)
    else none
  | .object entries => do
    let keyed ← entries.mapM fun (key, value) => key.map fun key => (key, value)
    names.mapM fun name =>
      match keyed.filter (·.1 == name) with
      | [] => some none
      | [(_, value)] => some (some value)
      | _ => none
  | _ => none

/-- A field that may be missing. -/
def field? (read : JsonValue → Option α) (fallback : α) : Option JsonValue → Option α
  | none => some fallback
  | some value => read value

/-- A declared type. -/
def readType? (v : JsonValue) : Option TypeConfig := do
  let fields ← fields? ["namespace", "name", "base", "properties", "attachedProperties",
    "contentProperty", "kind"] v
  match fields with
  | [namespaceUri, name, base, properties, attached, content, kind] =>
    return {
      namespaceUri := ← namespaceUri.bind readText?
      name := ← name.bind readText?
      base := ← field? readOptional? none base
      properties := ← field? readTexts? .empty properties
      attachedProperties := ← field? readTexts? .empty attached
      contentProperty := ← field? readOptional? none content
      kind := ← field? readText? "plain" kind }
  | _ => none

/-- Declared types. -/
def readTypes? : JsonValue → Option (List TypeConfig)
  | .array items => items.mapM readType?
  | _ => none

/-- A configuration. -/
def readConfig? (v : JsonValue) : Option Config := do
  match ← fields? ["doNotThrowOnExceptions", "types"] v with
  | [tolerant, types] =>
    return ⟨← field? readBool? false tolerant, ← field? readTypes? [] types⟩
  | _ => none

/-- The configuration that a text is. -/
def read (text : String) : Except LoadError Config :=
  match (JsonValue.read? text).bind readConfig? with
  | some config => .ok config
  | none => .error (.config "invalid loader config")

end Config

/-! ## Applying -/

namespace TypeConfig

/-- Why a declared type cannot be registered. -/
inductive Fault where
  | unknownKind (kind : String)
  | badProperty (fault : PropertyType.ReadFault)
  | unknownBase (base name : String)
  | undeclaredContent (content name : String)
deriving DecidableEq, Repr

/-- The wording of a fault. -/
def Fault.message : Fault → String
  | unknownKind kind => s!"unknown type kind '{kind}'"
  | badProperty fault => fault.message
  | unknownBase base name => s!"base type {base} of {name} is not registered"
  | undeclaredContent content name => s!"content property {content} of {name} is not declared"

/-- The kind that a word stands for. -/
def readKind : String → Except Fault TypeKind
  | "plain" => .ok .plain
  | "collection" => .ok .collection
  | "dictionary" => .ok .dictionary
  | "template" => .ok .template
  | other => .error (.unknownKind other)

/-- Adds declarations to a type, one after the other. -/
def declareAll (add : TypeDescriptor → String → PropertyType → TypeDescriptor)
    (d : TypeDescriptor) (declarations : Table String String) : Except Fault TypeDescriptor :=
  declarations.entries.foldlM
    (fun d (name, text) => do
      return add d name (← (PropertyType.read text).mapError .badProperty))
    d

/-- The type that a declared type is derived from. -/
def findBase (t : TypeConfig) (r : Registry) (base : String) : Option TypeDescriptor :=
  (r.get? ⟨t.namespaceUri, base⟩).or (r.get? ⟨formsNamespace, base⟩)

/-- Derives a type from the base that it is declared with. -/
def derive (t : TypeConfig) (r : Registry) (d : TypeDescriptor) : Except Fault TypeDescriptor :=
  match t.base with
  | none => .ok d
  | some base =>
    match t.findBase r base with
    | some found => .ok (d.derivedFrom found)
    | none => .error (.unknownBase base t.name)

/-- Checks that the content property of a type is one of its properties. -/
def checkContent (t : TypeConfig) (d : TypeDescriptor) : Except Fault TypeDescriptor :=
  match d.contentProperty with
  | none => .ok d
  | some content =>
    if (d.property? content).isSome then .ok d else .error (.undeclaredContent content t.name)

/-- What a declared type says itself, whatever it is derived from. -/
def own (t : TypeConfig) : Except Fault TypeDescriptor := do
  let d := (TypeDescriptor.named t.namespaceUri t.name).withKind (← readKind t.kind)
  let d ← declareAll .property d t.properties
  let d ← declareAll .attachedProperty d t.attachedProperties
  return t.contentProperty.elim d d.content

/-- The descriptor of a declared type. -/
def descriptor (t : TypeConfig) (r : Registry) : Except Fault TypeDescriptor := do
  t.checkContent (← t.derive r (← t.own))

end TypeConfig

namespace Config

/-- Registers declared types until one of them cannot be; those before it stay registered. -/
def registerAll (r : Registry) : List TypeConfig → Option LoadError × Registry
  | [] => (none, r)
  | t :: others =>
    match t.descriptor r with
    | .ok d => registerAll (r.register d) others
    | .error fault => (some (.config fault.message), r)

/-- Registers the types of a configuration, and says what stopped it, if anything did. -/
def apply (c : Config) (r : Registry) : Option LoadError × Registry := registerAll r c.types

/-! ## Laws -/

/-- A configuration without types changes nothing. -/
theorem apply_nil (tolerant : Bool) (r : Registry) : (Config.mk tolerant []).apply r = (none, r) :=
  rfl

end Config

end MarkupLoader
