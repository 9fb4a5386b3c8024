import MarkupLoader.Text.Blank

/-!
# Property types

What a property may hold. A property type has two written forms: the one that a configuration
gives (`PropertyType.read`) and the one that messages use (`PropertyType.text`).
-/

namespace MarkupLoader

/-- What a property may hold. -/
inductive PropertyType where
  | string
  | bool
  | int
  | float
  /-- One of the given texts. -/
  | oneOf (members : List String)
  /-- An object; if a type is named, one of that type or of a type derived from it. -/
  | object (constraint : Option String)
  /-- A list or an object of collection kind. -/
  | collection
  /-- An object of dictionary kind. -/
  | dictionary
  | any
deriving DecidableEq, Repr, Inhabited

namespace PropertyType

/-- Why a text gives no property type. -/
inductive ReadFault where
  | noMembers (text : String)
  | unknown (text : String)
deriving DecidableEq, Repr

/-- The wording of a fault. -/
def ReadFault.message : ReadFault → String
  | noMembers text => s!"enum type '{text}' has no members"
  | unknown text => s!"unknown property type '{text}'"

/-- The members that a text lists between bars; empty ones do not count. -/
def readMembers (text : String) : List String :=
  ((Text.splitAt '|' text).map Text.trimmed).filter (· ≠ "")

/-- The property type that a configuration gives by a text. -/
def read (text : String) : Except ReadFault PropertyType :=
  match Text.after? "object:" text with
  | some constraint => .ok (.object (some (Text.trimmed constraint)))
  | none =>
    match Text.after? "enum:" text with
    | some members =>
      let members := readMembers members
      if members.isEmpty then .error (.noMembers text) else .ok (.oneOf members)
    | none =>
      match text with
      | "string" => .ok .string
      | "bool" => .ok .bool
      | "int" => .ok .int
      | "float" => .ok .float
      | "object" => .ok (.object none)
      | "collection" => .ok .collection
      | "dictionary" => .ok .dictionary
      | "any" => .ok .any
      | _ => .error (.unknown text)

/-- The wording of a property type in a message. -/
def text : PropertyType → String
  | string => "string"
  | bool => "bool"
  | int => "int"
  | float => "float"
  | oneOf members => "enum " ++ "|".intercalate members
  | object (some constraint) => constraint
  | object none => "object"
  | collection => "collection"
  | dictionary => "dictionary"
  | any => "any"

end PropertyType

end MarkupLoader
