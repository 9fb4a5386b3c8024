import Mathlib.Data.List.Nodup
import Mathlib.Data.List.TakeWhile
import MarkupLoader.Heap.Coercion
import MarkupLoader.Load.Expansion
import MarkupLoader.Proofs.RoundTrip

/-!
# Markup that gives texts

A document that is **one element without content** and gives properties of its type as texts
(`Document.ofLiterals`). Each text is written so that it stands for itself
(`AttributeText.literal`): if it could be taken for an expression, a pair of braces comes first. Its
characters are then written in any spelling, for instance by their names if they may not stand in a
value (`Tag.escaped`).

However the document is written, reading it gives one element with these attributes, and expanding
the attributes gives back the texts.

Main results: `expandText_literal`, `writing_escaped`, `read_ofLiterals`.
-/

namespace MarkupLoader

open Text Markup

/-! ## Texts that stand for themselves -/

/-- A text as the value of an attribute that stands for the text: if its first character that is no
blank is a brace, a pair of braces says that it is no expression. -/
def AttributeText.literal (text : String) : String :=
  if text.toList.find? (!isBlank ·) = some '{' then "\x7b\x7d" ++ text else text

/-- A text that stands for itself is expanded to itself. -/
theorem NodeTree.expandText_literal (t : NodeTree) (extensions : Extensions) (id : NodeId)
    (text : String) :
    t.expandText extensions id (AttributeText.literal text) = .ok (.literal text) := by
  unfold AttributeText.literal
  split
  case isTrue brace =>
    have read : AttributeText.read ("\x7b\x7d" ++ text) = .ok (.escaped text) := by
      have start : trimStart ("\x7b\x7d" ++ text).toList = '{' :: '}' :: text.toList := by
        rw [String.toList_append]
        rfl
      rw [AttributeText.read, start]
      simp
    rw [expandText, read]
  case isFalse other =>
    have read : AttributeText.read text = .ok (.plain text) := by
      have first : (trimStart text.toList).head? ≠ some '{' := by
        rwa [trimStart, ← List.find?_not_eq_head?_dropWhile]
      rw [AttributeText.read]
      split
      -- What begins with a brace is no such text.
      case h_1 is => rw [is] at first; exact absurd rfl first
      case h_2 is => rw [is] at first; exact absurd rfl first
      case h_3 => rfl
    rw [expandText, read]

/-- Whether a name is made of letters and digits. -/
structure Markup.Lettered (name : String) : Prop where
  nonempty : name ≠ ""
  letters : ∀ c ∈ name.toList, isLetterOrDigit c = true

instance (name : String) : Decidable (Lettered name) :=
  decidable_of_iff (name ≠ "" ∧ name.toList.all isLetterOrDigit = true)
    ⟨fun ⟨nonempty, letters⟩ => ⟨nonempty, List.all_eq_true.1 letters⟩,
      fun h => ⟨h.nonempty, List.all_eq_true.2 h.letters⟩⟩

/-- A property with the text that it is given. -/
structure Literal where
  property : Property
  text : String
deriving DecidableEq, Repr

namespace Literal

/-- The attribute that gives the property a value. -/
def assign (l : Literal) (value : AttributeValue) (p : Position) : Attribute :=
  ⟨⟨"", l.property.name⟩, value, p⟩

/-- The attribute before it is expanded. -/
def unread (l : Literal) (p : Position) : Attribute :=
  l.assign (.raw (AttributeText.literal l.text)) p

/-- The attribute when it has been expanded. -/
def expanded (l : Literal) (p : Position) : Attribute := l.assign (.literal l.text) p

/-- The attribute in markup. -/
def mark (l : Literal) : Mark :=
  .assignment ⟨none, l.property.name⟩ (AttributeText.literal l.text)

/-- Whether the text may be given to the property of an object of a type: the type declares the
property, it takes one value, and its name is one of an attribute. -/
structure Fits (d : TypeDescriptor) (l : Literal) : Prop where
  declared : d.property? l.property.name = some l.property
  single : l.property.type ≠ .collection
  lettered : Lettered l.property.name
  undeclaring : l.property.name ≠ "xmlns"

/-- Whether an entry is what an object has when the text has been read as a value of the type of the
property. -/
def Coerces (h : Heap) (l : Literal) (entry : String × Value) : Prop :=
  entry.1 = l.property.name ∧ h.coerce (.string l.text) l.property.type = .ok entry.2

end Literal

/-! ## The document -/

namespace Markup

/-- What is no letter and no digit is not in a name made of them. -/
theorem Lettered.not_mem {name : String} (lettered : Lettered name) {c : Char}
    (other : isLetterOrDigit c = false) : c ∉ name.toList := by
  intro mem
  rw [lettered.letters c mem] at other
  cases other

theorem Lettered.valid {name : String} (lettered : Lettered name) : (Name.mk none name).Valid where
  nonempty := fun empty => lettered.nonempty (String.toList_eq_nil_iff.1 empty)
  chars c mem := by
    have letter : isLetterOrDigit c = true := lettered.letters c mem
    simp [isNameChar, letter]
  colon := lettered.not_mem (by decide)

/-- A character in a value between double quotes: it is written by its name, if it may not stand for
itself there. -/
def escape (c : Char) : List Char :=
  if c = '&' then "&amp;".toList
  else if c = '<' then "&lt;".toList
  else if c = '"' then "&quot;".toList
  else [c]

theorem spelling_escape (text : List Char) :
    Spelling (fun c => c ≠ '&' ∧ c ≠ '<' ∧ c ≠ '"') text (text.flatMap escape) := by
  induction text with
  | nil => exact .nil
  | cons c rest ih =>
    rw [List.flatMap_cons, escape]
    split_ifs with amp lt quot
    · subst amp
      exact .reference (.name (show ("amp", '&') ∈ named by decide)) ih
    · subst lt
      exact .reference (.name (show ("lt", '<') ∈ named by decide)) ih
    · subst quot
      exact .reference (.name (show ("quot", '"') ∈ named by decide)) ih
    · exact .bare ⟨amp, lt, quot⟩ ih

/-- A mark after a blank, with its value between double quotes. -/
def Mark.escaped (m : Mark) : List Char :=
  ' ' :: (m.name.written ++ '=' :: '"' :: (m.value.toList.flatMap escape ++ ['"']))

/-- An element without content in one tag. -/
def Tag.escaped (t : Tag) : List Char :=
  '<' :: (t.name.written ++ (t.marks.flatMap (·.escaped) ++ "/>".toList))

theorem Mark.writings_escaped (marks : List Mark) :
    Mark.Writings marks (marks.flatMap (·.escaped)) := by
  have blank : Blank [] := List.forall_mem_nil _
  induction marks with
  | nil => exact .nil
  | cons m rest ih =>
    refine .cons ?_ ih
    exact .intro (List.cons_ne_nil ' ' []) ⟨List.forall_mem_singleton.2 rfl, blank, blank⟩
      (.inl rfl) (spelling_escape m.value.toList)

namespace Document

/-- This is a way to write an element without content. -/
theorem writing_escaped (comment : List Char → Prop) (t : Tag) :
    (Document.mk t .nil).Writing comment t.escaped :=
  .intro .nil (.single (Mark.writings_escaped t.marks) (List.forall_mem_nil _))

/-- An element of a type without content that gives properties as texts. -/
def ofLiterals (name : QName) (given : List Literal) : Document :=
  ⟨⟨⟨none, name.localName⟩, .declaration none name.namespaceUri :: given.map (·.mark)⟩, .nil⟩

end Document

end Markup

/-- The document that is one element without content. -/
def NodeTree.alone (body : NodeBody) : NodeTree := .ofForest body .nil []

/-- An element that names a type of a namespace and has attributes. -/
def NodeBody.ofType (name : QName) (attributes : List Attribute) (p : Position) : NodeBody :=
  ⟨.root, name, [], attributes, [("", name.namespaceUri)], p⟩

namespace Markup.Document

section Reading

variable {name : QName} {given : List Literal}

theorem valid_ofLiterals {d : TypeDescriptor} (lettered : Lettered name.localName)
    (fits : ∀ l ∈ given, l.Fits d)
    (distinct : (given.map (·.property.name)).Nodup) : (ofLiterals name given).Valid := by
  refine ⟨⟨lettered.valid, nofun, ?_, ?_⟩, trivial⟩
  · have declares : Lettered "xmlns" := by decide
    refine List.forall_mem_cons.2 ⟨declares.valid, ?_⟩
    intro mark mem
    obtain ⟨l, is, rfl⟩ := List.mem_map.1 mem
    -- A mark without a prefix is in no namespace, so that the rules for prefixes do not concern it.
    have noLanguage : isLanguage "" = false := by decide
    have notCompatible : "" ≠ compatibilityNamespace := by decide
    have other := (fits l is).undeclaring
    exact {
      valid := (fits l is).lettered.valid
      bound := nofun
      undeclaring := ⟨fun same => other (congrArg Name.localName same), nofun⟩
      noTypeArguments := fun language => absurd language.1 (ne_true_of_eq_false noLanguage)
      compatible := fun compatible => absurd compatible notCompatible }
  · -- A property that is not named `xmlns` is not taken for the declaration.
    have written : (given.map (·.mark)).map (·.name.written) =
        (given.map (·.property.name)).map String.toList := by
      rw [List.map_map, List.map_map]
      rfl
    refine List.nodup_cons.2 ⟨?_, ?_⟩
    · rw [written]
      intro mem
      obtain ⟨_, among, same⟩ := List.mem_map.1 mem
      obtain ⟨l, is, rfl⟩ := List.mem_map.1 among
      exact (fits l is).undeclaring (String.toList_injective same)
    · rw [written]
      exact distinct.map fun _ _ => String.toList_injective

theorem tree_ofLiterals : (ofLiterals name given).tree =
    .alone (.ofType name (given.map (·.unread .nowhere)) .nowhere) := by
  let b : Bindings := (ofLiterals name given).bindings
  -- The first mark declares the namespace, and all others give attributes.
  have declarations : (ofLiterals name given).tag.declarations = [("", name.namespaceUri)] := by
    have rest : (given.map (·.mark)).filterMap (·.declaration?) = [] := by
      rw [List.filterMap_map]
      exact List.filterMap_eq_nil_iff.2 fun _ _ => rfl
    exact congrArg (("", name.namespaceUri) :: ·) rest
  have uri : b "" = some name.namespaceUri := by
    show ((ofLiterals name given).tag.declarations.lookup "").or none = _
    rw [declarations]
    rfl
  have attributes : (given.map (·.mark)).filterMap (·.attribute? b) =
      given.map (·.unread .nowhere) := by
    rw [List.filterMap_map, ← List.filterMap_eq_map]
    rfl
  have ignorable : (given.map (·.mark)).flatMap (·.ignorable b) = [] := by
    rw [List.flatMap_map]
    exact List.flatMap_eq_nil_iff.2 fun _ _ => rfl
  have body : (ofLiterals name given).tag.body b true =
      .ofType name (given.map (·.unread .nowhere)) .nowhere := by
    have typeName : (⟨(b "").getD "", name.localName⟩ : QName) = name := by rw [uri]; rfl
    show (⟨.root, ⟨(b "").getD "", name.localName⟩, [],
      (given.map (·.mark)).filterMap (·.attribute? b), (ofLiterals name given).tag.declarations,
      .nowhere⟩ : NodeBody) = _
    rw [typeName, attributes, declarations]
    rfl
  show NodeTree.ofForest ((ofLiterals name given).tag.body b true) .nil
    ((given.map (·.mark)).flatMap (·.ignorable b)) = _
  rw [body, ignorable]
  rfl

/-- A document is one element if it is one apart from positions. -/
theorem alone_of_unplaced {tree : NodeTree} {body : NodeBody} (is : tree.unplaced = .alone body) :
    ∃ placed : NodeBody, placed.unplaced = body ∧ tree = .alone placed := by
  obtain ⟨⟨nodes⟩, ignorable⟩ := tree
  have nodes' : nodes.map (fun n => { n with toNodeBody := n.toNodeBody.unplaced }) =
      [⟨body, [], none⟩] := by
    rw [← Array.toList_map]
    exact congrArg (·.nodes.toList) is
  obtain ⟨⟨placed, children, parent⟩, rfl, node⟩ := List.map_eq_singleton_iff.1 nodes'
  cases node
  have ignorable' : ignorable = [] := congrArg NodeTree.ignorable is
  exact ⟨placed, rfl, by rw [ignorable']; rfl⟩

/-- Attributes that give texts, apart from positions, stand at some positions. -/
theorem exists_placed {attributes : List Attribute}
    (same : attributes.map (·.unplaced) = given.map (·.unread .nowhere)) :
    ∃ placed : List (Literal × Position), placed.map Prod.fst = given ∧
      attributes = placed.map fun l => l.1.unread l.2 := by
  induction given generalizing attributes with
  | nil => exact ⟨[], rfl, List.map_eq_nil_iff.1 same⟩
  | cons l rest ih =>
    obtain ⟨a, others, rfl, here, later⟩ := List.map_eq_cons_iff.1 same
    obtain ⟨placed, literals, rfl⟩ := ih later
    refine ⟨(l, a.position) :: placed, by rw [List.map_cons, literals], ?_⟩
    rw [List.map_cons]
    congr 1
    obtain ⟨attributeName, value, p⟩ := a
    cases here
    rfl

/-- However the document is written, it is read as one element with the attributes that give the
texts. -/
theorem read_ofLiterals (valid : (ofLiterals name given).Valid) {w : List Char}
    (writing : (ofLiterals name given).Writing (fun _ => False) w) :
    ∃ (placed : List (Literal × Position)) (p : Position), placed.map Prod.fst = given ∧
      NodeTree.read (String.ofList w) =
        .ok (.alone (.ofType name (placed.map fun l => l.1.unread l.2) p)) := by
  obtain ⟨tree, read, same⟩ := read_of_clear valid (fun _ no => no.elim) writing
  rw [tree_ofLiterals] at same
  obtain ⟨⟨kind, typeName, typeArguments, attributes, namespaces, p⟩, body, rfl⟩ :=
    alone_of_unplaced same
  obtain ⟨rfl, typeName', rfl, attributes', namespaces', -⟩ := NodeBody.mk.inj body
  obtain rfl : typeName = name := typeName'
  obtain rfl : namespaces = [("", typeName.namespaceUri)] := namespaces'
  obtain ⟨placed, literals, rfl⟩ := exists_placed attributes'
  exact ⟨placed, p, literals, read⟩

end Reading

end Markup.Document

end MarkupLoader
