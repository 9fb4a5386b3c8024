import MarkupLoader.Text.Blank

/-!
# Qualified names

A name is a local name in a namespace, and a namespace is a URI. Types, attributes, property
elements and markup extensions are all named this way.

* **The language namespace** exists in two editions that mean the same (`isLanguage`).
  `QName.canonical` picks one spelling for both.
* A name is **written** `{uri}Local`.

Main statement: `canonical_idem`.
-/

namespace MarkupLoader

/-! ## Known namespaces -/

/-- The first edition of the language namespace. -/
def language2006 : String := "http://schemas.microsoft.com/winfx/2006/xaml"

/-- The second edition of the language namespace. -/
def language2009 : String := "http://schemas.microsoft.com/winfx/2009/xaml"

/-- The namespace of the standard controls. -/
def formsNamespace : String := "http://xamarin.com/schemas/2014/forms"

/-- The namespace of the attributes that say which other namespaces may be ignored. -/
def compatibilityNamespace : String :=
  "http://schemas.openxmlformats.org/markup-compatibility/2006"

/-- Whether a URI is the language namespace in either edition. -/
def isLanguage (uri : String) : Bool := uri == language2006 || uri == language2009

/-! ## Names -/

/-- A local name in a namespace. -/
structure QName where
  namespaceUri : String
  localName : String
deriving DecidableEq, Repr, Inhabited

namespace QName

/-- Whether the name is the directive `directive` of the language. -/
def isDirective (n : QName) (directive : String) : Bool :=
  isLanguage n.namespaceUri && n.localName == directive

/-- The name with the two editions of the language namespace made one. -/
def canonical (n : QName) : QName :=
  if isLanguage n.namespaceUri then ⟨language2009, n.localName⟩ else n

/-- The name of a type with type arguments: the local names of the arguments follow in angle
brackets. -/
def textWith (n : QName) (arguments : List QName) : String :=
  let plain := "\x7b" ++ n.namespaceUri ++ "\x7d" ++ n.localName
  if arguments.isEmpty then plain
  else plain ++ "<" ++ ",".intercalate (arguments.map localName) ++ ">"

/-- Making the editions one a second time changes nothing. -/
theorem canonical_idem (n : QName) : n.canonical.canonical = n.canonical := by
  unfold canonical
  split
  · simp [isLanguage]
  · rfl

end QName

/-- Splits a written name at its first colon into what stands before it, if there is one, and
the local name. -/
def splitQualified (written : String) : Option String × String :=
  match Text.cut? ':' written.toList with
  | some (before, after) => (some (String.ofList before), String.ofList after)
  | none => (none, written)

end MarkupLoader
