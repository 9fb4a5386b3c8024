import MarkupLoader.Document.Tag
import MarkupLoader.Document.Tree

/-!
# Reading documents

A document is one element; what comes before it may be declarations, comments, instructions and
stray text, and **what comes after it is not looked at**.

* **Content** (`readContent`) is read piece by piece until the closing tag of the element. A
  `Piece` is what comes next; an element is read with all that is in it before its siblings.
* **Text** between tags loses the blanks around it before its references are decoded, and is
  dropped if nothing is left. The text of a character-data section is taken as it is.

Every piece consumes a character, so the length of what is left bounds the recursion, and running
out of it means that the text has ended.

Main definition: `NodeTree.read`.
-/

namespace MarkupLoader

open Text

/-! ## Pieces of content -/

/-- What comes next in the content of an element. -/
inductive Piece where
  | ending
  | comment
  | characterData
  | instruction
  | element
  | text
deriving DecidableEq, Repr

/-- What comes next at a cursor that is not at the end of the text. -/
def pieceAt (c : Cursor) : Piece :=
  if c.startsWith "</" then .ending
  else if c.startsWith "<!--" then .comment
  else if c.startsWith "<![CDATA[" then .characterData
  else if c.startsWith "<?" then .instruction
  else if c.startsWith "<" then .element
  else .text

/-- Reads the closing tag of an element with a given name. -/
def readEndTag (opened : String) (c : Cursor) : Except FaultAt Cursor := do
  let (closed, after) := (c.drop 2).readName
  if closed ≠ opened then throw ⟨.mismatchedTags opened closed, c.position⟩
  after.skipBlanks.expect '>'

/-- Reads a character-data section as a text node. -/
def readCharacterData (c : Cursor) : Except FaultAt (NodeBody × Cursor) :=
  let inside := c.drop "<![CDATA[".length
  match inside.through? "]]>" with
  | some (text, after) => .ok (.ofText (String.ofList text) c.position, after)
  | none => .error ⟨.missingMark "]]>", (inside.drop inside.rest.length).position⟩

/-- Reads the text up to the next tag; blank text makes no node. -/
def readText (c : Cursor) : Except FaultAt (Option NodeBody × Cursor) := do
  let (text, after) := c.span (· != '<')
  let kept := trim text
  if kept.isEmpty then return (none, after)
  return (some (.ofText (← decodeAt c.position kept) c.position), after)

/-! ## Elements -/

/-- A start tag with its body and the declarations in force inside it. -/
structure OpenTag where
  tag : StartTag
  body : NodeBody
  ignorable : List String
  scopes : Scopes

/-- Reads a start tag and looks up its names. -/
def readOpenTag (scopes : Scopes) (outermost : Bool) (c : Cursor) :
    Except FaultAt (OpenTag × Cursor) := do
  let (tag, after) ← StartTag.read c
  let inner := tag.declarations :: scopes
  let (body, ignorable) ← tag.body inner outermost
  return (⟨tag, body, ignorable, inner⟩, after)

/-- Reads the content of an element up to and including its closing tag. -/
def readContent (tag : StartTag) (scopes : Scopes) :
    Nat → Cursor → Except FaultAt (Forest × Cursor)
  | 0, _ => .error ⟨.unterminatedElement tag.written, tag.position⟩
  | fuel + 1, c =>
    if c.rest.isEmpty then .error ⟨.unterminatedElement tag.written, tag.position⟩
    else match pieceAt c with
      | .ending => do
        return (.nil, ← readEndTag tag.written c)
      | .comment => do
        let (_, after) ← c.through "-->"
        readContent tag scopes fuel after
      | .instruction => do
        let (_, after) ← c.through "?>"
        readContent tag scopes fuel after
      | .characterData => do
        -- A section is a node of its own, also next to other text, and also if it is empty.
        let (text, after) ← readCharacterData c
        let (siblings, rest) ← readContent tag scopes fuel after
        return (.cons text .nil siblings, rest)
      | .text => do
        match ← readText c with
        -- Blanks between tags make no node.
        | (none, after) => readContent tag scopes fuel after
        | (some text, after) =>
          let (siblings, rest) ← readContent tag scopes fuel after
          return (.cons text .nil siblings, rest)
      | .element => do
        -- The element is read to its end before what follows it.
        let (inner, inside) ← readOpenTag scopes false c
        let (children, after) ←
          if inner.tag.closed then pure (.nil, inside)
          else readContent inner.tag inner.scopes fuel inside
        let (siblings, rest) ← readContent tag scopes fuel after
        return (.cons inner.body children siblings, rest)

/-! ## Documents -/

/-- Goes to the first element of a document. -/
def readPrologue : Nat → Cursor → Except FaultAt Cursor
  | 0, c => .error ⟨.noRoot, c.position⟩
  | fuel + 1, c =>
    let c := c.skipBlanks
    if c.rest.isEmpty then .error ⟨.noRoot, c.position⟩
    else if c.startsWith "<?" then do
      readPrologue fuel (← c.through "?>").2
    else if c.startsWith "<!--" then do
      readPrologue fuel (← c.through "-->").2
    -- Only now: a comment begins like a declaration and may contain its end.
    else if c.startsWith "<!" then do
      readPrologue fuel (← c.through ">").2
    else if c.startsWith "<" then .ok c
    -- Stray text is passed over up to the next tag.
    else readPrologue fuel (c.span (· != '<')).2

namespace NodeTree

/-- Reads a document. -/
def read (text : String) : Except FaultAt NodeTree := do
  let c := Cursor.ofText text
  let start ← readPrologue c.rest.length c
  let (outer, inside) ← readOpenTag [] true start
  let (below, _) ←
    if outer.tag.closed then pure (.nil, inside)
    else readContent outer.tag outer.scopes inside.rest.length inside
  return ofForest outer.body below outer.ignorable

end NodeTree

end MarkupLoader
