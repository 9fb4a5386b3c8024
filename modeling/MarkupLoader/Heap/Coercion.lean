import MarkupLoader.Decimal.Layout
import MarkupLoader.Decimal.Reader
import MarkupLoader.Heap.Basic
import MarkupLoader.Text.Blank
import MarkupLoader.Text.Numeral

/-!
# Coercion

A value that is assigned to a property is made a value of the property's type, if it can be: texts
are read, integers become floating-point numbers, scalars become texts, and objects have to be of
the right type. **Null fits everywhere**, and a property of any type takes every value as it is.

Main definition: `Heap.coerce`.
-/

namespace MarkupLoader

/-- Why a value does not fit a property type. -/
inductive CoercionFault where
  | notABool (text : String)
  | notAnInt (text : String)
  | notANumber (text : String)
  | notAMember (text : String) (members : List String)
  /-- The property type takes no text. -/
  | noText (text : String) (type : PropertyType)
  | notAssignable (typeName constraint : String)
  | wrongKind (kindName : String) (type : PropertyType)
deriving DecidableEq, Repr

namespace CoercionFault

/-- The wording of a fault. -/
def message : CoercionFault → String
  | notABool text => s!"'{text}' is not a bool"
  | notAnInt text => s!"'{text}' is not an int"
  | notANumber text => s!"'{text}' is not a number"
  | notAMember text members => s!"'{text}' is not one of " ++ "|".intercalate members
  | noText text type => s!"cannot convert text '{text}' to {type.text}"
  | notAssignable typeName constraint => s!"{typeName} is not assignable to {constraint}"
  | wrongKind kindName type => s!"cannot convert {kindName} to {type.text}"

end CoercionFault

/-! ## Scalars -/

/-- The word for a truth value. -/
def boolText (b : Bool) : String := if b then "true" else "false"

/-- The truth value that a word stands for, in either case. -/
def bool? (text : List Char) : Option Bool :=
  let word := String.ofList (text.map Char.toLower)
  if word = "true" then some true else if word = "false" then some false else none

/-- Reads a text as a value of a property type. Blanks around a scalar or a member do not
count. -/
def coerceText (text : String) : PropertyType → Except CoercionFault Value
  | .string => .ok (.string text)
  | .object _ => .ok (.string text)
  | .any => .ok (.string text)
  | .bool =>
    match bool? (Text.trim text.toList) with
    | some b => .ok (.bool b)
    | none => .error (.notABool text)
  | .int =>
    match Text.int64? (Text.trim text.toList) with
    | some n => .ok (.int n)
    | none => .error (.notAnInt text)
  | .float =>
    match Decimal.float? (Text.trim text.toList) with
    | some x => .ok (.float x)
    | none => .error (.notANumber text)
  | .oneOf members =>
    if members.contains (Text.trimmed text) then .ok (.string (Text.trimmed text))
    else .error (.notAMember text members)
  | .collection => .error (.noText text .collection)
  | .dictionary => .error (.noText text .dictionary)

namespace Heap

/-- Makes an object a value of a property type. -/
def coerceObject (h : Heap) (id : ObjectId) : PropertyType → Except CoercionFault Value
  | .any => .ok (.object id)
  | .object none => .ok (.object id)
  | .object (some constraint) =>
    if (h.descriptor id).isAssignableTo constraint then .ok (.object id)
    else .error (.notAssignable (h.object id).typeName constraint)
  | .collection =>
    if h.kind id = .collection then .ok (.object id)
    else .error (.wrongKind (h.object id).typeName .collection)
  | .dictionary =>
    if h.kind id = .dictionary then .ok (.object id)
    else .error (.wrongKind (h.object id).typeName .dictionary)
  | type => .error (.wrongKind (h.object id).typeName type)

/-- Makes a value one of a property type. -/
def coerce (h : Heap) (value : Value) (type : PropertyType) : Except CoercionFault Value :=
  match value, type with
  | .null, _ => .ok .null
  | v, .any => .ok v
  | .string text, type => coerceText text type
  | .int n, .int => .ok (.int n)
  | .int n, .float => .ok (.float n.toFloat)
  | .int n, .string => .ok (.string (toString n.toInt))
  | .float x, .float => .ok (.float x)
  | .float x, .string => .ok (.string (Decimal.plain.text x))
  | .bool b, .bool => .ok (.bool b)
  | .bool b, .string => .ok (.string (boolText b))
  | .type name, .object none => .ok (.type name)
  | .list items, .collection => .ok (.list items)
  | .object id, type => h.coerceObject id type
  | v, type => .error (.wrongKind (h.kindName v) type)

end Heap

end MarkupLoader
