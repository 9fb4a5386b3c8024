/-!
# Positions in a text

A position counts lines and columns from 1; columns count characters. **`Position.past`** is
the position reached by reading a text, so a position is a function of the text before it.

Main statement: `past_append`.
-/

namespace MarkupLoader

/-- A place in a document. -/
structure Position where
  line : Nat
  column : Nat
deriving DecidableEq, Repr, Inhabited

namespace Position

/-- The position of the first character of a text. -/
def start : Position := ⟨1, 1⟩

/-- The position of what stands in no document. -/
def nowhere : Position := ⟨0, 0⟩

/-- The position after one character: a line feed starts a new line. -/
def step (p : Position) (c : Char) : Position :=
  if c = '\n' then ⟨p.line + 1, 1⟩ else ⟨p.line, p.column + 1⟩

/-- The position after a text. -/
def past (p : Position) (text : List Char) : Position := text.foldl step p

/-- The wording of a position in a message. -/
def text (p : Position) : String := s!"line {p.line}, column {p.column}"

/-- Reading two texts one after the other is reading their concatenation. -/
theorem past_append (p : Position) (s t : List Char) : p.past (s ++ t) = (p.past s).past t := by
  simp [past, List.foldl_append]

end Position

end MarkupLoader
