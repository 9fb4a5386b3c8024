import MarkupLoader.Json.Basic

/-!
# Printing JSON

JSON is printed over several lines, each level two blanks further in, with the members of every
object sorted by their keys. A string escapes quotes, backslashes and control characters and
nothing else.

Main definition: `JsonValue.print`.
-/

namespace MarkupLoader.JsonValue

/-- The hexadecimal digit of a number below 16, in lower case. -/
def hexDigit (n : Nat) : Char := (Nat.digitChar n).toLower

/-- How a character is written in a string. -/
def escape (c : Char) : String :=
  if c = '"' then "\\\""
  else if c = '\\' then "\\\\"
  else if c = '\n' then "\\n"
  else if c = '\r' then "\\r"
  else if c = '\t' then "\\t"
  else if c = '\x08' then "\\b"
  else if c = '\x0c' then "\\f"
  else if c.toNat < 0x20 then
    "\\u00" ++ String.ofList [hexDigit (c.toNat / 16), hexDigit (c.toNat % 16)]
  else String.singleton c

/-- A text as a string of the format. -/
def quote (s : String) : String := "\"" ++ String.join (s.toList.map escape) ++ "\""

/-- The beginning of a line at a level. -/
def indent (level : Nat) : String := "\n" ++ String.ofList (List.replicate (2 * level) ' ')

/-- Printed items between brackets, each on a line of its own. -/
def enclose (level : Nat) (opening closing : String) (items : List String) : String :=
  if items.isEmpty then opening ++ closing
  else
    opening ++ indent (level + 1) ++ ("," ++ indent (level + 1)).intercalate items ++
      indent level ++ closing

/-- Printed members in the order of their keys. -/
def sortMembers (entries : List (String × String)) : List String :=
  (entries.mergeSort fun a b => !decide (b.1 < a.1)).map fun (key, value) =>
    quote key ++ ": " ++ value

mutual

/-- Prints a value that begins at a level. -/
def printAt (level : Nat) : JsonValue → String
  | null => "null"
  | bool b => if b then "true" else "false"
  | number text => text
  | string text => quote (text.getD "")
  | array items => enclose level "[" "]" (printItems (level + 1) items)
  | object entries =>
    enclose level "\x7b" "\x7d" (sortMembers (printMembers (level + 1) entries))

/-- Prints values that begin at a level. -/
def printItems (level : Nat) : List JsonValue → List String
  | [] => []
  | v :: vs => printAt level v :: printItems level vs

/-- Prints the values of members that begin at a level. -/
def printMembers (level : Nat) : List (Option String × JsonValue) → List (String × String)
  | [] => []
  | (key, v) :: others => (key.getD "", printAt level v) :: printMembers level others

end

/-- Prints a value. -/
def print (v : JsonValue) : String := printAt 0 v

end MarkupLoader.JsonValue
