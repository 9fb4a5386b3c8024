/-!
# JSON values

The values of the JSON data format. **Numbers are kept as they are written**, and the members of
an object in the order they are written, so that nothing is lost between reading and printing. A
string is `none` if its escapes give half of a surrogate pair: such a string is well formed and
stands for no text.
-/

namespace MarkupLoader

/-- A JSON value. -/
inductive JsonValue where
  | null
  | bool (b : Bool)
  /-- A number as written. -/
  | number (text : String)
  | string (text : Option String)
  | array (items : List JsonValue)
  /-- The members in order; keys may repeat. -/
  | object (members : List (Option String × JsonValue))
deriving Repr, Inhabited

namespace JsonValue

/-- A string that stands for a text. -/
def text (s : String) : JsonValue := string (some s)

/-- An object with members that have texts as keys. -/
def members (entries : List (String × JsonValue)) : JsonValue :=
  object (entries.map fun (key, value) => (some key, value))

end JsonValue

end MarkupLoader
