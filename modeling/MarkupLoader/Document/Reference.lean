import MarkupLoader.Document.Fault
import MarkupLoader.Text.Numeral

/-!
# Character references

In a text or the value of an attribute, an ampersand and a semicolon enclose the name or the
number of a character.

* **Names** are the five of `named?`.
* **Numbers** are decimal after `#` and hexadecimal after `#x`, and have to be Unicode scalar
  values.

A character that a reference stands for is never read as the beginning of another reference.
Main statement: `decode_eq_self`.
-/

namespace MarkupLoader.Reference

open Text

/-- The characters that have names. -/
def named? : List Char → Option Char
  | ['l', 't'] => some '<'
  | ['g', 't'] => some '>'
  | ['a', 'm', 'p'] => some '&'
  | ['q', 'u', 'o', 't'] => some '"'
  | ['a', 'p', 'o', 's'] => some '\''
  | _ => none

/-- The character with a number, if the number is a Unicode scalar value. -/
def scalar? (n : Nat) : Option Char := if n.isValidChar then some (Char.ofNat n) else none

/-- The character given by its number. -/
def numbered? : List Char → Option Char
  | '#' :: 'x' :: rest => (unsigned? 16 rest).bind scalar?
  | '#' :: rest => (unsigned? 10 rest).bind scalar?
  | _ => none

/-- The character that a reference stands for. -/
def character? (reference : List Char) : Option Char :=
  (named? reference).or (numbered? reference)

/-- Decodes a text. While a reference is being read, `reading` holds its characters so far, last
first. -/
def decodeFrom : Option (List Char) → List Char → Except DocumentFault (List Char)
  | none, [] => .ok []
  | some _, [] => .error .unterminatedReference
  | none, c :: rest =>
    if c = '&' then decodeFrom (some []) rest
    else (decodeFrom none rest).map (c :: ·)
  | some reading, c :: rest =>
    if c = ';' then
      match character? reading.reverse with
      | none => .error (.unknownReference (String.ofList reading.reverse))
      | some decoded => (decodeFrom none rest).map (decoded :: ·)
    else decodeFrom (some (c :: reading)) rest

/-- Replaces every reference in a text by the character it stands for. -/
def decode (text : List Char) : Except DocumentFault (List Char) := decodeFrom none text

/-! ## Laws -/

/-- A text without an ampersand stands for itself. -/
theorem decode_eq_self {text : List Char} (h : '&' ∉ text) : decode text = .ok text := by
  unfold decode
  induction text with
  | nil => rfl
  | cons c rest ih =>
    simp only [List.mem_cons, not_or] at h
    simp [decodeFrom, Ne.symm h.1, ih h.2, Except.map]

end MarkupLoader.Reference
