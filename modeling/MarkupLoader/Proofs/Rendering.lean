import MarkupLoader.Document.Tree
import MarkupLoader.Text.Letter

/-!
# Markup and the ways to write it

Markup apart from its text: names with prefixes, the attributes of tags, texts and elements with
content. What it **means** is a document, given what the prefixes are bound to; it may be
**written** in many ways, and all of them are meant.

* **Meaning.** A declaration binds a prefix in the element it stands at and in all that is in it,
  unless an element further in declares the prefix again (`Bindings.within`). The meaning of
  markup stands at no place: all its positions are `Position.nowhere`.
* **Writing.** A character is written as itself, by a name or by a number (`Spelling`). Texts do not
  touch one another and neither begin nor end with a blank as written; comments may stand between
  the parts of a content, and between two texts there has to be one (`Content.Writing`).

Main definitions: `Document.tree`, `Document.Valid`, `Document.Writing`.
-/

namespace MarkupLoader.Markup

open Text

/-! ## Markup -/

/-- A name as it is written: a local name, and a prefix in front of it if it has one. -/
structure Name where
  qualifier : Option String
  localName : String
deriving DecidableEq, Repr

namespace Name

/-- The characters that a name is written with. -/
def written (n : Name) : List Char :=
  match n.qualifier with
  | none => n.localName.toList
  | some qualifier => qualifier.toList ++ ':' :: n.localName.toList

/-- Whether a name can be written: its first colon is the one after the prefix. -/
structure Valid (n : Name) : Prop where
  nonempty : n.written ≠ []
  chars : ∀ c ∈ n.written, isNameChar c = true
  colon : ':' ∉ (n.qualifier.getD n.localName).toList

end Name

/-- What is written in a tag beside its name. -/
inductive Mark where
  /-- The declaration of a prefix, or of the default namespace. -/
  | declaration (declared : Option String) (uri : String)
  | assignment (name : Name) (value : String)
deriving DecidableEq, Repr

namespace Mark

/-- The name that the mark is written with. -/
def name : Mark → Name
  | declaration none _ => ⟨none, "xmlns"⟩
  | declaration (some declared) _ => ⟨some "xmlns", declared⟩
  | assignment name _ => name

/-- The value that the mark is written with. -/
def value : Mark → String
  | declaration _ uri => uri
  | assignment _ value => value

/-- The prefix that the mark declares, with its namespace. -/
def declaration? : Mark → Option (String × String)
  | declaration declared uri => some (declared.getD "", uri)
  | assignment _ _ => none

end Mark

/-- A tag: its name, and its declarations and attributes in order. -/
structure Tag where
  name : Name
  marks : List Mark
deriving DecidableEq, Repr

/-- The prefixes that a tag declares, each with its namespace. -/
def Tag.declarations (t : Tag) : List (String × String) := t.marks.filterMap (·.declaration?)

/-- What is in an element: texts, and elements with what is in them. -/
inductive Content where
  | nil
  | text (chars : String) (siblings : Content)
  | element (tag : Tag) (children siblings : Content)
deriving DecidableEq, Repr

/-- Markup as a whole: the outermost element. -/
structure Document where
  tag : Tag
  content : Content
deriving DecidableEq, Repr

/-! ## What markup means -/

/-- What the prefixes are bound to; the empty prefix stands for the default namespace. -/
abbrev Bindings := String → Option String

/-- The bindings inside an element that has declarations, of which the first counts. -/
def Bindings.within (b : Bindings) (declarations : List (String × String)) : Bindings :=
  fun key => (declarations.lookup key).or (b key)

namespace Name

/-- The namespace of the name of an element. -/
def elementUri (n : Name) (b : Bindings) : String := (b (n.qualifier.getD "")).getD ""

/-- The namespace of the name of an attribute, which the default namespace does not concern. -/
def attributeUri (n : Name) (b : Bindings) : String :=
  match n.qualifier with
  | none => ""
  | some qualifier => (b qualifier).getD ""

/-- Whether the prefix of the name, if it has one, is bound. -/
def Bound (n : Name) (b : Bindings) : Prop := ∀ qualifier ∈ n.qualifier, (b qualifier).isSome = true

end Name

namespace Mark

/-- The attribute of the node that the mark stands for, if it stands for one. -/
def attribute? (b : Bindings) : Mark → Option Attribute
  | declaration _ _ => none
  | assignment name value =>
    let uri := name.attributeUri b
    if uri = compatibilityNamespace then none
    else some ⟨⟨uri, name.localName⟩, .raw value, .nowhere⟩

/-- The namespaces that the mark says may be ignored. -/
def ignorable (b : Bindings) : Mark → List String
  | declaration _ _ => []
  | assignment name value =>
    if name.attributeUri b = compatibilityNamespace then
      (words value).map fun key => (b key).getD ""
    else []

end Mark

namespace Tag

/-- What an element is. -/
def kind (t : Tag) (b : Bindings) (outermost : Bool) : NodeKind :=
  let name : QName := ⟨t.name.elementUri b, t.name.localName⟩
  if outermost then .root
  else if '.' ∈ name.localName.toList ∨ isLanguage name.namespaceUri ∧ name.localName = "Arguments"
    then .property name
  else .element

/-- The node that a tag stands for. -/
def body (t : Tag) (b : Bindings) (outermost : Bool) : NodeBody where
  kind := t.kind b outermost
  typeName := ⟨t.name.elementUri b, t.name.localName⟩
  typeArguments := []
  attributes := t.marks.filterMap (·.attribute? b)
  namespaces := t.declarations
  position := .nowhere

end Tag

/-- The nodes that a content stands for. -/
def Content.forest (b : Bindings) : Content → Forest
  | nil => .nil
  | text chars siblings => .cons (.ofText chars .nowhere) .nil (siblings.forest b)
  | element tag children siblings =>
    let inner := b.within tag.declarations
    .cons (tag.body inner false) (children.forest inner) (siblings.forest b)

/-- The bindings in the outermost element. -/
def Document.bindings (d : Document) : Bindings :=
  Bindings.within (fun _ => none) d.tag.declarations

/-- The tree that markup stands for. -/
def Document.tree (d : Document) : NodeTree :=
  .ofForest (d.tag.body d.bindings true) (d.content.forest d.bindings)
    (d.tag.marks.flatMap (·.ignorable d.bindings))

/-! ## Markup that means something -/

/-- Whether an attribute means something: it declares nothing and its prefix is bound. One of the
compatibility namespace stands at the outermost element only and lists prefixes that are bound. -/
structure Name.Assigns (n : Name) (value : String) (b : Bindings) (outermost : Bool) : Prop where
  valid : n.Valid
  bound : n.Bound b
  undeclaring : n ≠ ⟨none, "xmlns"⟩ ∧ n.qualifier ≠ some "xmlns"
  noTypeArguments : ¬ (isLanguage (n.attributeUri b) = true ∧ n.localName = "TypeArguments")
  compatible : n.attributeUri b = compatibilityNamespace →
    outermost = true ∧ n.localName = "Ignorable" ∧ ∀ key ∈ words value, (b key).isSome = true

/-- Whether a mark means something. -/
def Mark.Valid (b : Bindings) (outermost : Bool) : Mark → Prop
  | declaration declared uri => (declaration declared uri).name.Valid
  | assignment name value => name.Assigns value b outermost

/-- A tag that means something; no two of its marks are written with the same name. -/
structure Tag.Valid (t : Tag) (b : Bindings) (outermost : Bool) : Prop where
  name : t.name.Valid
  bound : t.name.Bound b
  marks : ∀ mark ∈ t.marks, mark.Valid b outermost
  apart : (t.marks.map (·.name.written)).Nodup

/-- Content that means something. -/
def Content.Valid (b : Bindings) : Content → Prop
  | nil => True
  | text chars siblings => chars ≠ "" ∧ siblings.Valid b
  | element tag children siblings =>
    let inner := b.within tag.declarations
    tag.Valid inner false ∧ children.Valid inner ∧ siblings.Valid b

/-- Markup that means something. -/
def Document.Valid (d : Document) : Prop :=
  d.tag.Valid d.bindings true ∧ d.content.Valid d.bindings

/-! ## Ways to write characters -/

/-- The characters that have names. -/
def named : List (String × Char) :=
  [("lt", '<'), ("gt", '>'), ("amp", '&'), ("quot", '"'), ("apos", '\'')]

/-- The digits of a value below 16; letters may be of either case. -/
def IsDigit (value : Nat) (c : Char) : Prop :=
  "0123456789abcdef".toList[value]? = some c ∨ "0123456789ABCDEF".toList[value]? = some c

/-- The ways to write a number in a base, zeros in front included. -/
inductive Numeral (base : Nat) : Nat → List Char → Prop
  | digit {value : Nat} {c : Char} (small : value < base) (is : IsDigit value c) :
    Numeral base value [c]
  | next {n value : Nat} {digits : List Char} {c : Char} (numeral : Numeral base n digits)
    (small : value < base) (is : IsDigit value c) :
    Numeral base (n * base + value) (digits ++ [c])

/-- The references to a character. -/
inductive CharacterReference (c : Char) : List Char → Prop
  | name {name : String} (known : (name, c) ∈ named) :
    CharacterReference c ('&' :: (name.toList ++ [';']))
  | decimal {digits : List Char} (numeral : Numeral 10 c.toNat digits) :
    CharacterReference c ('&' :: ('#' :: digits ++ [';']))
  | hexadecimal {digits : List Char} (numeral : Numeral 16 c.toNat digits) :
    CharacterReference c ('&' :: ('#' :: 'x' :: digits ++ [';']))

/-- The ways to write characters: each as itself, if it is `bare`, or by a reference. -/
inductive Spelling (bare : Char → Prop) : List Char → List Char → Prop
  | nil : Spelling bare [] []
  | bare {c : Char} {meant written : List Char} (allowed : bare c)
    (rest : Spelling bare meant written) : Spelling bare (c :: meant) (c :: written)
  | reference {c : Char} {reference meant written : List Char}
    (refers : CharacterReference c reference) (rest : Spelling bare meant written) :
    Spelling bare (c :: meant) (reference ++ written)

/-! ## Ways to write markup -/

/-- Texts that are blank. -/
def Blank (w : List Char) : Prop := ∀ c ∈ w, isBlank c = true

/-- The ways to write a text between tags. Blanks at its ends are not written as themselves. -/
structure TextWriting (text : String) (w : List Char) : Prop where
  spelling : Spelling (fun c => c ≠ '&' ∧ c ≠ '<') text.toList w
  first : ∀ c ∈ w.head?, isBlank c = false
  last : ∀ c ∈ w.getLast?, isBlank c = false

/-- The ways to write a mark, with the blanks before it. -/
inductive Mark.Writing (m : Mark) : List Char → Prop
  | intro {before atSign atQuote value : List Char} {quote : Char} (apart : before ≠ [])
    (blank : Blank before ∧ Blank atSign ∧ Blank atQuote) (quotes : quote = '"' ∨ quote = '\'')
    (spelling : Spelling (fun c => c ≠ '&' ∧ c ≠ '<' ∧ c ≠ quote) m.value.toList value) :
    Mark.Writing m
      (before ++ (m.name.written ++ (atSign ++ '=' :: (atQuote ++ quote :: (value ++ [quote])))))

/-- The ways to write marks one after the other. -/
inductive Mark.Writings : List Mark → List Char → Prop
  | nil : Writings [] []
  | cons {m : Mark} {marks : List Mark} {w v : List Char} (first : m.Writing w)
    (rest : Writings marks v) : Writings (m :: marks) (w ++ v)

/-- The ways to write an element, given how what is in it is written. If nothing is in it, it may be
written with one tag. -/
inductive Tag.Writing (t : Tag) : Content → List Char → List Char → Prop
  | single {marks before : List Char} (writings : Mark.Writings t.marks marks)
    (blank : Blank before) :
    Tag.Writing t .nil [] ('<' :: (t.name.written ++ (marks ++ (before ++ "/>".toList))))
  | pair {content : Content} {inner marks before after : List Char}
    (writings : Mark.Writings t.marks marks) (blank : Blank before ∧ Blank after) :
    Tag.Writing t content inner
      ('<' :: (t.name.written ++ (marks ++ (before ++ '>' ::
        (inner ++ ("</".toList ++ (t.name.written ++ (after ++ ['>']))))))))

/-- What a comment may hold: the mark that ends comments is found in it nowhere but at its end. -/
def CommentBody (body : List Char) : Prop := ¬ "-->".toList <:+: body ++ "--".toList

/-- Whether the opening mark of a comment is not taken for the beginning of its end. -/
def CommentBody.Clear (body : List Char) : Prop := ¬ ">".toList <+: body ∧ ¬ "->".toList <+: body

instance (body : List Char) : Decidable (CommentBody body) := inferInstanceAs (Decidable (¬ _))

instance (body : List Char) : Decidable (CommentBody.Clear body) :=
  inferInstanceAs (Decidable (_ ∧ _))

/-- The ways to write content, with comments that hold what `comment` says. Comments may stand
anywhere, and a text is followed by the end of the content or by other markup. -/
inductive Content.Writing (comment : List Char → Prop) : Content → List Char → Prop
  | nil : Writing comment .nil []
  | comment {body w : List Char} {content : Content} (holds : comment body)
    (rest : Writing comment content w) :
    Writing comment content ("<!--".toList ++ (body ++ ("-->".toList ++ w)))
  | text {text : String} {v w : List Char} {siblings : Content} (writing : TextWriting text v)
    (apart : ∀ c ∈ w.head?, c = '<') (rest : Writing comment siblings w) :
    Writing comment (.text text siblings) (v ++ w)
  | element {tag : Tag} {children siblings : Content} {inner v w : List Char}
    (inside : Writing comment children inner) (writing : tag.Writing children inner v)
    (rest : Writing comment siblings w) : Writing comment (.element tag children siblings) (v ++ w)

/-- The ways to write markup. -/
inductive Document.Writing (comment : List Char → Prop) (d : Document) : List Char → Prop
  | intro {inner w : List Char} (inside : d.content.Writing comment inner)
    (writing : d.tag.Writing d.content inner w) : Writing comment d w

end MarkupLoader.Markup
