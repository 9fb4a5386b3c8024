import MarkupLoader.Position
import MarkupLoader.Text.Blank

/-!
# Cursors

A cursor is what is left of a text together with the position it begins at. Every move goes over
characters that it can name, and **the position is that of the text gone over**
(`Position.past`).

Main statements: `span_fst_append`, `position_span`.
-/

namespace MarkupLoader

/-- A place in a text that is being read. -/
structure Cursor where
  rest : List Char
  position : Position
deriving DecidableEq, Repr

namespace Cursor

/-- The beginning of a text. -/
def ofText (text : String) : Cursor := ⟨text.toList, .start⟩

/-- The character at the cursor, NUL at the end of the text. -/
def current (c : Cursor) : Char := c.rest.headD '\x00'

/-- Goes over `count` characters. -/
def drop (c : Cursor) (count : Nat) : Cursor :=
  ⟨c.rest.drop count, c.position.past (c.rest.take count)⟩

/-- Goes over the characters that satisfy `p`, and gives them. -/
def span (c : Cursor) (p : Char → Bool) : List Char × Cursor :=
  let text := c.rest.takeWhile p
  (text, ⟨c.rest.dropWhile p, c.position.past text⟩)

/-- Goes over blanks. -/
def skipBlanks (c : Cursor) : Cursor := (c.span Text.isBlank).2

/-- Whether the text at the cursor begins with `mark`. -/
def startsWith (c : Cursor) (mark : String) : Bool := mark.toList.isPrefixOf c.rest

/-- Goes past the next occurrence of `mark`, and gives the text before it. -/
def through? (c : Cursor) (mark : String) : Option (List Char × Cursor) :=
  (Text.cutAt? mark.toList c.rest).map fun (before, after) =>
    (before, ⟨after, c.position.past (before ++ mark.toList)⟩)

/-! ## Laws -/

/-- Nothing is lost between the characters gone over and the rest. -/
theorem span_fst_append (c : Cursor) (p : Char → Bool) :
    (c.span p).1 ++ (c.span p).2.rest = c.rest := by
  simp [span]

/-- The new position is that of the text gone over. -/
theorem position_span (c : Cursor) (p : Char → Bool) :
    (c.span p).2.position = c.position.past (c.span p).1 := rfl

end Cursor

end MarkupLoader
