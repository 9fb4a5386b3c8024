import MarkupLoader.Position

/-!
# Faults of a document

Why a text is no document, and where. The end of the text is written as the character NUL
wherever a message names the character that was found.
-/

namespace MarkupLoader

/-- Why a text is no document. -/
inductive DocumentFault where
  | noRoot
  | emptyTagName
  | unterminatedTag (tag : String)
  | unterminatedElement (tag : String)
  | mismatchedTags (opened closed : String)
  | duplicateAttribute (name : String)
  | unexpectedInTag (found : Char)
  | unquotedValue (name : String)
  | unterminatedValue (name : String)
  | undeclaredPrefix (key : String)
  | unterminatedReference
  /-- What stands between an ampersand and a semicolon names no character. -/
  | unknownReference (reference : String)
  /-- A text that has to come did not come any more. -/
  | missingMark (mark : String)
  /-- A character that has to come next does not come next. -/
  | missingCharacter (wanted found : Char)
deriving DecidableEq, Repr

namespace DocumentFault

/-- The wording of a fault. -/
def message : DocumentFault → String
  | noRoot => "No root element found"
  | emptyTagName => "Empty tag name"
  | unterminatedTag tag => s!"Unterminated start tag <{tag}>"
  | unterminatedElement tag => s!"Unterminated element <{tag}>"
  | mismatchedTags opened closed => s!"Mismatched tags: {opened} vs {closed}"
  | duplicateAttribute name => s!"Duplicate attribute '{name}'"
  | unexpectedInTag found => s!"Unexpected character '{found}' in tag"
  | unquotedValue name => s!"Attribute '{name}' value must be quoted"
  | unterminatedValue name => s!"Unterminated value for attribute '{name}'"
  | undeclaredPrefix key => s!"Undeclared xmlns prefix '{key}'"
  | unterminatedReference => "Unterminated entity reference"
  | unknownReference reference => s!"Unknown entity '&{reference};'"
  | missingMark mark => s!"Expected '{mark}'"
  | missingCharacter wanted found => s!"Expected '{wanted}', got '{found}'"

end DocumentFault

/-- A fault at its position. -/
structure FaultAt where
  fault : DocumentFault
  position : Position
deriving DecidableEq, Repr

end MarkupLoader
