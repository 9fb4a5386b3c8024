import MarkupLoader.Bundle.Basic
import MarkupLoader.Error
import MarkupLoader.Text.Blank

/-!
# Finding the markup of a component

The markup of a component is the text of a resource that declares its class with `x:Class`. A
provider may replace it by another text.

* **Tiers.** The resource named like the class is looked at first, then those with the ending of
  markup files, and then all others, which have to begin with an angle bracket.
* **The cache** remembers which resource the markup of a component came from. A remembered
  resource is read again, and is used only if it still declares the class.

Main definition: `Resolver.resolve`.
-/

namespace MarkupLoader

open Text

/-- The ending of the names of markup files. -/
def markupSuffix : String := ".xaml"

/-! ## Texts that declare a class -/

/-- Whether a text continues, after blanks, with an equals sign, blanks, and a class name in
quotes. -/
def continuesDeclaration (fullName : List Char) (s : List Char) : Bool :=
  match trimStart s with
  | '=' :: rest => ('"' :: fullName ++ ['"']).isPrefixOf (trimStart rest)
  | _ => false

/-- Whether a text declares a class somewhere. -/
def declaresClass (fullName : List Char) : List Char → Bool
  | [] => false
  | c :: rest =>
    ("x:Class".toList.isPrefixOf (c :: rest) &&
      continuesDeclaration fullName ((c :: rest).drop "x:Class".length)) ||
      declaresClass fullName rest

/-! ## Resources as markup -/

/-- A text in lower case, as far as it is ASCII. -/
def lower (s : String) : String := s.map Char.toLower

/-- Whether a text has an ending, in either case. -/
def hasEnding (s ending : String) : Bool := (lower ending).toList.isSuffixOf (lower s).toList

/-- The text of a resource, without a byte-order mark in front. -/
def decodeText? (content : ByteArray) : Option String :=
  (String.fromUTF8? content).map fun text =>
    match text.toList with
    | '\ufeff' :: rest => String.ofList rest
    | _ => text

namespace Component

/-- The text of a resource, if it declares the class of the component. If `sniffed`, it has to
begin with an angle bracket too. -/
def readMarkup? (c : Component) (sniffed : Bool) (id : String) : Option String := do
  let content ← c.bundle.read? id
  let text ← decodeText? content
  if sniffed && (trimStart text.toList).head? != some '<' then none
  else if declaresClass c.fullName.toList text.toList then some text
  else none

/-- The name of the file that the markup of the component would be in. -/
def likelyFileName (c : Component) : String := c.name ++ markupSuffix

/-- Whether a resource is named like the component: by its file, by its id, or by what its id
ends with after a dot. -/
def isLikely (c : Component) (id : String) : Bool :=
  let wanted := c.likelyFileName
  let declared :=
    match c.bundle.fileName id with
    | .ok (some name) => lower name == lower wanted
    | _ => false
  declared || hasEnding id ("." ++ wanted) || lower id == lower wanted

/-- The first of some resources whose text declares the class of the component. -/
def firstMarkup? (c : Component) (sniffed : Bool) (ids : List String) :
    Option (String × String) :=
  ids.findSome? fun id => (c.readMarkup? sniffed id).map fun text => (id, text)

/-- The resource with the markup of the component, and its text. -/
def search? (c : Component) : Option (String × String) :=
  let ids := c.bundle.ids
  (c.firstMarkup? false (ids.filter c.isLikely)).or <|
    (c.firstMarkup? false (ids.filter (hasEnding · markupSuffix))).or <|
      c.firstMarkup? true (ids.filter (!hasEnding · markupSuffix))

end Component

/-! ## Resolving -/

/-- The resources that the markup of components came from, under the names of their bundle and
class. -/
abbrev ResourceCache := Table (String × String) String

namespace ResourceCache

/-- The key of a component. -/
def key (c : Component) : String × String := (c.bundle.name, c.fullName)

/-- The resource remembered for a component. -/
def entryFor? (cache : ResourceCache) (c : Component) : Option String := Table.get? cache (key c)

/-- Remembers the resource of a component. -/
def remember (cache : ResourceCache) (c : Component) (id : String) : ResourceCache :=
  Table.insert cache (key c) id

end ResourceCache

/-- What may replace the markup of components. -/
structure Resolver where
  provider : Option (Component → Option String)

namespace Resolver

/-- The text that the provider gives for a component. -/
def provided? (r : Resolver) (c : Component) : Option String := r.provider.bind (· c)

/-- The text of the resource remembered for a component, if it still declares the class. -/
def remembered? (cache : ResourceCache) (c : Component) : Option String :=
  (cache.entryFor? c).bind (c.readMarkup? false)

/-- The markup of a component, and the cache afterwards. -/
def resolve (r : Resolver) (cache : ResourceCache) (c : Component) :
    Option String × ResourceCache :=
  match (r.provided? c).or (remembered? cache c) with
  | some text => (some text, cache)
  | none =>
    match c.search? with
    | some (id, text) => (some text, cache.remember c id)
    | none => (none, cache)

/-- The markup of a component, which has to exist, and the cache afterwards. -/
def resolveMarkup (r : Resolver) (cache : ResourceCache) (c : Component) :
    Except LoadError String × ResourceCache :=
  match r.resolve cache c with
  | (some text, cache) => (.ok text, cache)
  | (none, cache) => (.error (.documentNotFound c.fullName), cache)

end Resolver

end MarkupLoader
