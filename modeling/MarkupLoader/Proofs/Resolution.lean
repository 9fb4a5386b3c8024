import MarkupLoader.Proofs.Failing
import MarkupLoader.Proofs.Recognition

/-!
# What is made of tags

A tag that has been read is looked up in the declarations in force.

* **Names** are split where they have been put together, and their prefixes are found bound to what
  the markup means (`Bindings.Agrees`).
* **Marks** contribute the declarations, the attributes and the ignorable namespaces that they
  stand for.
* Bodies are compared apart from positions (`NodeBody.unplaced`).

Main results: `declarations_of_reads`, `body_of_reads`.
-/

namespace MarkupLoader

open Text Markup

/-! ## Without positions -/

/-- An attribute at no place. -/
def Attribute.unplaced (a : Attribute) : Attribute := { a with position := .nowhere }

/-- What a node says, at no place. -/
def NodeBody.unplaced (n : NodeBody) : NodeBody :=
  { n with attributes := n.attributes.map (·.unplaced), position := .nowhere }

/-! ## Names -/

namespace Markup

variable {b : Bindings} {scopes : Scopes}

/-- The declarations in force bind the prefixes. -/
def Bindings.Agrees (b : Bindings) (scopes : Scopes) : Prop :=
  ∀ key, scopes.findSome? (·.lookup key) = b key

theorem Bindings.agrees_nil : Bindings.Agrees (fun _ => none) [] := fun _ => rfl

theorem Bindings.Agrees.within (agrees : b.Agrees scopes) (declarations : List (String × String)) :
    (b.within declarations).Agrees (declarations :: scopes) := by
  intro key
  rw [List.findSome?_cons, Bindings.within, ← agrees key]
  cases declarations.lookup key <;> rfl

namespace Name

variable {n : Name}

/-- A name is cut behind its prefix. -/
theorem cut?_written (valid : n.Valid) :
    cut? ':' n.written = n.qualifier.map fun qualifier => (qualifier.toList, n.localName.toList) := by
  obtain ⟨qualifier, localName⟩ := n
  have colon := valid.colon
  cases qualifier with
  | none => exact cut?_eq_none colon
  | some qualifier => exact cut?_append colon localName.toList

theorem splitQualified_written (valid : n.Valid) :
    splitQualified (String.ofList n.written) = (n.qualifier, n.localName) := by
  unfold splitQualified
  rw [String.toList_ofList, cut?_written valid]
  obtain ⟨qualifier, localName⟩ := n
  cases qualifier with
  | none =>
    show (none, String.ofList localName.toList) = _
    rw [String.ofList_toList]
  | some qualifier =>
    show (some (String.ofList qualifier.toList), String.ofList localName.toList) = _
    rw [String.ofList_toList, String.ofList_toList]

theorem namespaceAt_elementUri (agrees : b.Agrees scopes) (bound : n.Bound b) (p : Position) :
    namespaceAt scopes p n.qualifier = .ok (n.elementUri b) := by
  obtain ⟨qualifier, localName⟩ := n
  unfold namespaceAt namespaceOf elementUri
  dsimp only
  rw [agrees]
  cases qualifier with
  | none =>
    rw [Option.getD_none]
    cases b "" <;> rfl
  | some qualifier =>
    obtain ⟨uri, known⟩ := Option.isSome_iff_exists.1 (bound qualifier rfl)
    rw [Option.getD_some, known]
    rfl

theorem namespaceAt_key {key : String} (agrees : b.Agrees scopes) (bound : (b key).isSome = true)
    (p : Position) : namespaceAt scopes p (some key) = .ok ((b key).getD "") := by
  obtain ⟨uri, known⟩ := Option.isSome_iff_exists.1 bound
  unfold namespaceAt namespaceOf
  rw [Option.getD_some, agrees, known]
  rfl

end Name

end Markup

/-! ## Marks -/

theorem Markup.Mark.Valid.name {b : Bindings} {outermost : Bool} {m : Mark}
    (valid : m.Valid b outermost) : m.name.Valid := by
  cases m with
  | declaration declared uri => exact valid
  | assignment n value => exact Name.Assigns.valid valid

namespace RawAttribute

variable {m : Mark} {a : RawAttribute}

/-- An attribute that is meant declares no prefix. -/
theorem declaredPrefix?_of_assigns {n : Name} {value : String} {b : Bindings} {outermost : Bool}
    (assigns : n.Assigns value b outermost) (written : a.written = String.ofList n.written) :
    a.declaredPrefix? = none := by
  obtain ⟨notDefault, notPrefix⟩ := assigns.undeclaring
  have cut := Name.cut?_written assigns.valid
  have whole : a.written ≠ "xmlns" := by
    intro same
    have chars : n.written = "xmlns".toList := by rw [← same, written, String.toList_ofList]
    rw [chars, show cut? ':' "xmlns".toList = none by decide] at cut
    obtain ⟨qualifier, localName⟩ := n
    cases qualifier with
    | none => exact notDefault (congrArg (Name.mk none) (String.toList_inj.1 chars))
    | some qualifier => cases cut
  have toList : a.written.toList = n.written := by rw [written, String.toList_ofList]
  have start : ¬ "xmlns:".toList.isPrefixOf a.written.toList = true := by
    rw [toList]
    intro isPrefix
    obtain ⟨rest, chars⟩ := List.isPrefixOf_iff_prefix.1 isPrefix
    have known : cut? ':' ("xmlns".toList ++ ':' :: rest) = some ("xmlns".toList, rest) :=
      cut?_append (by decide) rest
    rw [← chars, show "xmlns:".toList ++ rest = "xmlns".toList ++ ':' :: rest from rfl, known] at cut
    obtain ⟨qualifier, localName⟩ := n
    cases qualifier with
    | none => cases cut
    | some qualifier =>
      have same : "xmlns".toList = qualifier.toList := congrArg Prod.fst (Option.some.inj cut)
      exact notPrefix (congrArg some (String.toList_inj.1 same.symm))
  rw [declaredPrefix?, if_neg whole, after?, if_neg start]

/-- A declaration declares the prefix that is meant. -/
theorem declaredPrefix?_of_declaration {declared : Option String} {uri : String}
    (reads : Reads (.declaration declared uri) a) :
    a.declaredPrefix? = some (declared.getD "") := by
  cases declared with
  | none =>
    have written : a.written = "xmlns" := reads.written.trans String.ofList_toList
    rw [declaredPrefix?, if_pos written]
    rfl
  | some declared =>
    have written : a.written.toList = "xmlns:".toList ++ declared.toList := by
      rw [reads.written, String.toList_ofList]
      rfl
    have whole : a.written ≠ "xmlns" := by
      intro same
      rw [same] at written
      have lengths := congrArg List.length written
      simp at lengths
    have start : "xmlns:".toList.isPrefixOf a.written.toList = true := by
      rw [written]
      exact List.isPrefixOf_iff_prefix.2 (List.prefix_append _ _)
    rw [declaredPrefix?, if_neg whole, after?, if_pos start, written, List.drop_left,
      String.ofList_toList]
    rfl

/-- What an attribute contributes is what the mark stands for. -/
structure Gives (b : Bindings) (m : Mark) (c : Contribution) : Prop where
  own : c.attribute?.map (·.unplaced) = m.attribute? b
  ignorable : c.ignorable = m.ignorable b
  plain : c.typeArguments? = none

/-- What an attribute contributes, once its prefix has been looked up. -/
theorem contribution_of_assigns {b : Bindings} {scopes : Scopes} {outermost : Bool} {n : Name}
    {value : String} (agrees : b.Agrees scopes) (assigns : n.Assigns value b outermost)
    (written : a.written = String.ofList n.written) :
    a.contribution scopes outermost =
      if n.attributeUri b = compatibilityNamespace then
        if outermost ∧ n.localName = "Ignorable" then
          ((words a.value).mapM fun key => namespaceAt scopes a.position (some key)).map
            Contribution.directions
        else .ok (.directions [])
      else .ok (.own ⟨⟨n.attributeUri b, n.localName⟩, .raw a.value, a.position⟩ []) := by
  have declares := declaredPrefix?_of_assigns assigns written
  have split := Name.splitQualified_written assigns.valid
  have plain := assigns.noTypeArguments
  have bound := assigns.bound
  rw [← written] at split
  unfold contribution
  rw [declares, split]
  obtain ⟨qualifier, localName⟩ := n
  cases qualifier with
  | none => rfl
  | some qualifier =>
    have plain : ¬ (isLanguage ((b qualifier).getD "") = true ∧ localName = "TypeArguments") := plain
    have found := Name.namespaceAt_key agrees (bound qualifier rfl) a.position
    simp only [Name.attributeUri, found, bind, Except.bind, if_neg plain]
    rfl

/-- Every mark contributes what it stands for. -/
theorem contribution_of_reads {b : Bindings} {scopes : Scopes} {outermost : Bool}
    (agrees : b.Agrees scopes) (reads : Reads m a) (valid : m.Valid b outermost) :
    ∃ c, a.contribution scopes outermost = .ok c ∧ Gives b m c := by
  cases m with
  | declaration declared uri =>
    have declares := declaredPrefix?_of_declaration reads
    refine ⟨.directions [], ?_, rfl, rfl, rfl⟩
    unfold contribution
    rw [declares]
    rfl
  | assignment n value =>
    have assigns : n.Assigns value b outermost := valid
    have written : a.written = String.ofList n.written := reads.written
    have isValue : a.value = value := reads.value
    rw [contribution_of_assigns agrees assigns written, isValue]
    by_cases compatible : n.attributeUri b = compatibilityNamespace
    · obtain ⟨top, ignorable, bound⟩ := assigns.compatible compatible
      have listed : ((words value).mapM fun key => namespaceAt scopes a.position (some key)) =
          .ok ((words value).map fun key => (b key).getD "") :=
        mapM_eq_ok fun key mem => Name.namespaceAt_key agrees (bound key mem) a.position
      rw [if_pos compatible, if_pos ⟨top, ignorable⟩, listed]
      refine ⟨_, rfl, ?_, ?_, rfl⟩
      · exact (if_pos compatible).symm
      · exact (if_pos compatible).symm
    · rw [if_neg compatible]
      refine ⟨_, rfl, ?_, ?_, rfl⟩
      · exact (if_neg compatible).symm
      · exact (if_neg compatible).symm

/-- The prefix that an attribute declares, with its namespace. -/
theorem declaration_of_reads {b : Bindings} {outermost : Bool} (reads : Reads m a)
    (valid : m.Valid b outermost) :
    (a.declaredPrefix?.map fun key => (key, a.value)) = m.declaration? := by
  cases m with
  | declaration declared uri =>
    rw [declaredPrefix?_of_declaration reads, reads.value]
    rfl
  | assignment n value =>
    have assigns : n.Assigns value b outermost := valid
    rw [declaredPrefix?_of_assigns assigns reads.written]
    rfl

end RawAttribute

/-! ## Bodies -/

namespace StartTag

variable {t : Tag} {tag : StartTag} {b : Bindings} {scopes : Scopes} {outermost : Bool}

/-- A tag declares what is meant. -/
theorem declarations_of_reads (reads : Reads t tag)
    (valid : ∀ m ∈ t.marks, m.Valid b outermost) : tag.declarations = t.declarations := by
  unfold declarations Tag.declarations
  have attributes := reads.attributes
  generalize tag.attributes = read at attributes ⊢
  generalize t.marks = marks at attributes valid ⊢
  induction attributes with
  | nil => rfl
  | cons here _ ih =>
    obtain ⟨validHere, validLater⟩ := List.forall_mem_cons.1 valid
    rw [List.filterMap_cons, List.filterMap_cons, ih validLater,
      RawAttribute.declaration_of_reads here validHere]

/-- The attributes of a tag contribute what its marks stand for. -/
theorem contributions_of_reads (agrees : b.Agrees scopes) {marks : List Mark}
    {attributes : List RawAttribute} (reads : List.Forall₂ RawAttribute.Reads marks attributes)
    (valid : ∀ m ∈ marks, m.Valid b outermost) :
    ∃ contributions, attributes.mapM (·.contribution scopes outermost) = .ok contributions ∧
      List.Forall₂ (RawAttribute.Gives b) marks contributions := by
  induction reads with
  | nil => exact ⟨[], rfl, .nil⟩
  | cons here _ ih =>
    obtain ⟨validHere, validLater⟩ := List.forall_mem_cons.1 valid
    obtain ⟨c, contributes, gives⟩ := RawAttribute.contribution_of_reads agrees here validHere
    obtain ⟨contributions, rest, givesLater⟩ := ih validLater
    refine ⟨c :: contributions, ?_, .cons gives givesLater⟩
    rw [List.mapM_cons, contributes, rest]
    rfl

/-- What is gathered from the contributions. -/
theorem gather_of_gives {marks : List Mark} {contributions : List Contribution}
    (gives : List.Forall₂ (RawAttribute.Gives b) marks contributions) :
    (contributions.filterMap (·.attribute?)).map (·.unplaced) =
        marks.filterMap (·.attribute? b) ∧
      contributions.flatMap (·.ignorable) = marks.flatMap (·.ignorable b) ∧
      contributions.filterMap (·.typeArguments?) = [] := by
  induction gives with
  | nil => exact ⟨rfl, rfl, rfl⟩
  | @cons m c marks contributions here _ ih =>
    obtain ⟨own, ignorable, plain⟩ := ih
    refine ⟨?_, ?_, ?_⟩
    · rw [List.filterMap_cons, List.filterMap_cons, ← here.own, ← own]
      cases c.attribute? <;> rfl
    · rw [List.flatMap_cons, List.flatMap_cons, here.ignorable, ignorable]
    · rw [List.filterMap_cons, here.plain, plain]

theorem kindOf_eq (t : Tag) (b : Bindings) (outermost : Bool) :
    kindOf outermost ⟨t.name.elementUri b, t.name.localName⟩ = t.kind b outermost := by
  have same : (t.name.localName.toList.contains '.' ||
      (QName.mk (t.name.elementUri b) t.name.localName).isDirective "Arguments") = true ↔
        '.' ∈ t.name.localName.toList ∨
          isLanguage (t.name.elementUri b) = true ∧ t.name.localName = "Arguments" := by
    rw [Bool.or_eq_true, List.contains_iff_mem, QName.isDirective, Bool.and_eq_true, beq_iff_eq]
  unfold kindOf Tag.kind
  cases outermost with
  | true => rfl
  | false =>
    dsimp only
    rw [if_neg Bool.false_ne_true, if_neg Bool.false_ne_true]
    exact if_congr same rfl rfl

/-- The body of the node that a tag begins is the one that is meant. -/
theorem body_of_reads (agrees : b.Agrees scopes) (valid : t.Valid b outermost)
    (reads : Reads t tag) :
    ∃ body, tag.body scopes outermost = .ok (body, t.marks.flatMap (·.ignorable b)) ∧
      body.unplaced = t.body b outermost := by
  obtain ⟨contributions, contribute, gives⟩ :=
    contributions_of_reads agrees reads.attributes valid.marks
  obtain ⟨own, ignorable, plain⟩ := gather_of_gives gives
  have split : splitQualified tag.written = (t.name.qualifier, t.name.localName) := by
    rw [reads.written, Name.splitQualified_written valid.name]
  have uri := Name.namespaceAt_elementUri agrees valid.bound tag.position
  have declared := declarations_of_reads reads valid.marks
  unfold body
  rw [split]
  simp only [uri, contribute, bind, Except.bind, ignorable, plain, declared, kindOf_eq]
  refine ⟨_, rfl, ?_⟩
  unfold NodeBody.unplaced Tag.body
  rw [own]
  rfl

end StartTag

end MarkupLoader
