import MarkupLoader.Text.HiddenRanges
import MarkupLoader.Text.Letter

/-!
# Quoted texts

A text is quoted so that every character of it can be seen: quotes, backslashes and the common
control characters have short escapes, and every other character without a glyph of its own is
written by its number.

Main definition: `quoted`.
-/

namespace MarkupLoader.Text

/-- Whether a character has no glyph of its own. -/
def isHidden (c : Char) : Bool :=
  if c.toNat < 127 then c.toNat < 32 else inRanges hiddenRanges c.toNat

/-- A number in hexadecimal digits. -/
def hexadecimal (n : Nat) : String :=
  String.ofList ((Nat.toDigits 16 n).map Char.toLower)

/-- How a character is written in a quoted text. -/
def quotedChar (c : Char) : String :=
  if c = '"' then "\\\""
  else if c = '\\' then "\\\\"
  else if c = '\n' then "\\n"
  else if c = '\r' then "\\r"
  else if c = '\t' then "\\t"
  else if c = '\x00' then "\\0"
  else if isHidden c then "\\u\x7b" ++ hexadecimal c.toNat ++ "\x7d"
  else String.singleton c

/-- A text in quotes. -/
def quoted (s : String) : String := "\"" ++ String.join (s.toList.map quotedChar) ++ "\""

end MarkupLoader.Text
