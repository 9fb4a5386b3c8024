import MarkupLoader.Document.Reader
import MarkupLoader.Proofs.Failing

/-!
# What has been read

A part of the reader that succeeds has gone through its steps one by one. There is **one statement for
each part that says what it has read if it succeeds**, and what is proved of documents that have been
read is proved from these.

* **Names and attributes** are told by the namespaces that their prefixes stand for
  (`RawAttribute.Contributes`), so where they stand in a document does not count.
* **Content** is told by what comes next in it (`ReadsOn`), with one case for each kind of piece, and
  so is what comes before the first element (`ReadsPrologue`).

Main results: `RawAttribute.contribution_eq_ok_iff`, `StartTag.body_eq_ok_iff`,
`readContent_eq_ok_iff`, `readPrologue_eq_ok_iff`, `NodeTree.read_eq_ok_iff`.
-/

namespace MarkupLoader

open Text

/-! ## As written -/

namespace Cursor

theorem expect_eq_ok_iff {c e : Cursor} {wanted : Char} :
    c.expect wanted = .ok e ↔ c.rest.head? = some wanted ∧ e = c.drop 1 := by
  unfold expect
  split
  case isTrue here => exact ⟨fun ok => ⟨here, (Except.ok.inj ok).symm⟩, fun ⟨_, is⟩ => is ▸ rfl⟩
  case isFalse other => exact ⟨fun ok => (by cases ok), fun ⟨here, _⟩ => absurd here other⟩

theorem startsWith_of_prefix {c : Cursor} {mark other : String} (begins : c.startsWith mark = true)
    (shorter : other.toList <+: mark.toList) : c.startsWith other = true :=
  List.isPrefixOf_iff_prefix.2 (shorter.trans (List.isPrefixOf_iff_prefix.1 begins))

/-- A text does not begin with two marks of which none begins the other. -/
theorem not_startsWith_of_startsWith {c : Cursor} {mark other : String}
    (begins : c.startsWith mark = true)
    (apart : ¬ (mark.toList <+: other.toList ∨ other.toList <+: mark.toList)) :
    ¬ c.startsWith other = true := fun begins' =>
  apart (List.prefix_or_prefix_of_prefix (List.isPrefixOf_iff_prefix.1 begins)
    (List.isPrefixOf_iff_prefix.1 begins'))

theorem through_eq_ok_iff {c e : Cursor} {mark : String} {before : List Char} :
    c.through mark = .ok (before, e) ↔ cutAt? mark.toList c.rest = some (before, e.rest) ∧
      e.position = c.position.past (before ++ mark.toList) := by
  unfold through through?
  cases cutAt? mark.toList c.rest with
  | none => exact ⟨fun ok => (by cases ok), fun ⟨found, _⟩ => by cases found⟩
  | some parts =>
    obtain ⟨first, rest⟩ := parts
    constructor
    · intro ok
      cases ok
      exact ⟨rfl, rfl⟩
    · rintro ⟨found, place⟩
      cases found
      cases e
      cases place
      rfl

end Cursor

theorem decodeAt_eq_ok_iff {p : Position} {text : List Char} {s : String} :
    decodeAt p text = .ok s ↔
      ∃ decoded, Reference.decode text = .ok decoded ∧ s = String.ofList decoded := by
  unfold decodeAt
  cases Reference.decode text with
  | error fault => exact ⟨fun ok => (by cases ok), fun ⟨_, decodes, _⟩ => by cases decodes⟩
  | ok decoded =>
    constructor
    · intro ok
      cases ok
      exact ⟨decoded, rfl, rfl⟩
    · rintro ⟨_, ⟨⟩, rfl⟩
      rfl

/-- An attribute is read as a name, an equals sign and a value in quotes. -/
theorem RawAttribute.read_eq_ok_iff {c e : Cursor} {a : RawAttribute} :
    read c = .ok (a, e) ↔ ∃ sign decoded, c.readName.1.isEmpty = false ∧
      c.readName.2.skipBlanks.expect '=' = .ok sign ∧
      let quote := sign.skipBlanks.current
      let value := (sign.skipBlanks.drop 1).span (· != quote)
      (quote = '"' ∨ quote = '\'') ∧ value.2.rest.isEmpty = false ∧
        Reference.decode value.1 = .ok decoded ∧
        a = ⟨c.readName.1, String.ofList decoded, c.position⟩ ∧ e = value.2.drop 1 := by
  unfold read
  simp only [bind, Except.bind, pure, Except.pure]
  constructor
  · intro ok
    split at ok
    · cases ok
    case isFalse named =>
      split at ok
      · cases ok
      case h_2 sign expected =>
        split at ok
        · cases ok
        case isFalse quoted =>
          split at ok
          · cases ok
          case isFalse ended =>
            split at ok
            · cases ok
            case h_2 decodes =>
              obtain ⟨decoded, is, rfl⟩ := decodeAt_eq_ok_iff.1 decodes
              cases ok
              refine ⟨sign, decoded, by simpa using named, expected, ?_, by simpa using ended, is,
                rfl, rfl⟩
              exact Decidable.byContradiction fun other => quoted (not_or.1 other)
  · rintro ⟨sign, decoded, named, expected, quoted, ended, decodes, rfl, rfl⟩
    rw [if_neg (by simpa using named), expected]
    dsimp only
    rw [if_neg fun other => other.elim fun first second => quoted.elim first second,
      if_neg (by simpa using ended), decodeAt_eq_ok_iff.2 ⟨decoded, decodes, rfl⟩]

/-- The end of a tag, which is as long as it says. -/
abbrev RawAttribute.endingLength (e : Cursor) : Nat := if e.startsWith "/>" then 2 else 1

/-- A start tag is read as its name and its attributes. -/
theorem StartTag.read_eq_ok_iff {c e : Cursor} {t : StartTag} :
    read c = .ok (t, e) ↔ ∃ attributes last, (c.drop 1).readName.1.isEmpty = false ∧
      RawAttribute.readAll (c.drop 1).readName.1 c.position (c.drop 1).readName.2.rest.length []
        (c.drop 1).readName.2 = .ok (attributes, last) ∧
      t = ⟨(c.drop 1).readName.1, attributes, c.position, last.startsWith "/>"⟩ ∧
      e = last.drop (RawAttribute.endingLength last) := by
  unfold read
  simp only [bind, Except.bind, pure, Except.pure]
  constructor
  · intro ok
    split at ok
    · cases ok
    case isFalse named =>
      split at ok
      · cases ok
      case h_2 found reads =>
        cases ok
        exact ⟨found.1, found.2, by simpa using named, reads, rfl, rfl⟩
  · rintro ⟨attributes, last, named, reads, rfl, rfl⟩
    rw [if_neg (by simpa using named), reads]

/-! ## As meant -/

section Meaning

variable {scopes : Scopes} {outermost : Bool} {p : Position}

theorem namespaceAt_eq_ok_iff {qualifier : Option String} {uri : String} :
    namespaceAt scopes p qualifier = .ok uri ↔ namespaceOf scopes qualifier = some uri := by
  unfold namespaceAt
  cases namespaceOf scopes qualifier with
  | none => exact ⟨fun ok => (by cases ok), fun found => by cases found⟩
  | some found =>
    exact ⟨fun ok => congrArg some (Except.ok.inj ok), fun is => congrArg _ (Option.some.inj is)⟩

/-- The type that a name as written stands for by the declarations in force. -/
def StandsFor (scopes : Scopes) (written : String) (name : QName) : Prop :=
  namespaceOf scopes (splitQualified written).1 = some name.namespaceUri ∧
    (splitQualified written).2 = name.localName

theorem readTypeArguments_eq_ok_iff {value : String} {names : List QName} :
    readTypeArguments scopes p value = .ok names ↔
      List.Forall₂ (fun written => StandsFor scopes (trimmed written)) (splitAt ',' value) names := by
  unfold readTypeArguments StandsFor
  rw [mapM_eq_ok_iff]
  constructor
  · refine fun each => each.imp fun written name ok => ?_
    generalize splitQualified (trimmed written) = parts at ok ⊢
    obtain ⟨uri, found, ok⟩ := ok_of_bind ok
    cases ok
    exact ⟨namespaceAt_eq_ok_iff.1 found, rfl⟩
  · refine fun each => each.imp fun written name stands => ?_
    generalize splitQualified (trimmed written) = parts at stands ⊢
    obtain ⟨found, is⟩ := stands
    show (namespaceAt scopes p _ >>= _) = _
    rw [namespaceAt_eq_ok_iff.2 found, is]
    rfl

namespace RawAttribute

variable {a : RawAttribute} {x : Contribution}

/-- The name of an attribute by the declarations in force. The default namespace does not concern
attributes. -/
inductive Named (scopes : Scopes) (a : RawAttribute) : QName → Prop
  | plain {localName : String} (parts : splitQualified a.written = (none, localName)) :
    Named scopes a ⟨"", localName⟩
  | prefixed {key localName uri : String} (parts : splitQualified a.written = (some key, localName))
    (found : namespaceOf scopes (some key) = some uri) : Named scopes a ⟨uri, localName⟩

/-- What an attribute contributes that has a name and is no declaration. -/
inductive Adds (scopes : Scopes) (outermost : Bool) (a : RawAttribute) (name : QName) :
    Contribution → Prop
  | ignorable {uris : List String} (compatible : name.namespaceUri = compatibilityNamespace)
    (directs : outermost = true ∧ name.localName = "Ignorable")
    (listed : List.Forall₂ (fun key uri => namespaceOf scopes (some key) = some uri) (words a.value)
      uris) : Adds scopes outermost a name (.directions uris)
  | compatibility (compatible : name.namespaceUri = compatibilityNamespace)
    (other : ¬ (outermost = true ∧ name.localName = "Ignorable")) :
    Adds scopes outermost a name (.directions [])
  | arguments {names : List QName} (own : name.namespaceUri ≠ compatibilityNamespace)
    (lists : isLanguage name.namespaceUri = true ∧ name.localName = "TypeArguments")
    (read : List.Forall₂ (fun written => StandsFor scopes (trimmed written)) (splitAt ',' a.value)
      names) : Adds scopes outermost a name (.own ⟨name, .raw a.value, a.position⟩ names)
  | plain (own : name.namespaceUri ≠ compatibilityNamespace)
    (other : ¬ (isLanguage name.namespaceUri = true ∧ name.localName = "TypeArguments")) :
    Adds scopes outermost a name (.own ⟨name, .raw a.value, a.position⟩ [])

/-- What an attribute contributes by the declarations in force. -/
inductive Contributes (scopes : Scopes) (outermost : Bool) (a : RawAttribute) : Contribution → Prop
  | declaration (declares : a.declaredPrefix?.isSome = true) :
    Contributes scopes outermost a (.directions [])
  | named {name : QName} {x : Contribution} (other : ¬ a.declaredPrefix?.isSome = true)
    (named : a.Named scopes name) (adds : a.Adds scopes outermost name x) :
    Contributes scopes outermost a x

/-- What an attribute contributes that is no declaration, given the namespace of its name. -/
def meant (scopes : Scopes) (outermost : Bool) (a : RawAttribute)
    (localName uri : String) : Except FaultAt Contribution := do
  if uri = compatibilityNamespace then
    if outermost ∧ localName = "Ignorable" then
      return .directions (← (words a.value).mapM fun key => namespaceAt scopes a.position (some key))
    else
      return .directions []
  let typeArguments ←
    if isLanguage uri ∧ localName = "TypeArguments" then
      readTypeArguments scopes a.position a.value
    else pure []
  return .own ⟨⟨uri, localName⟩, .raw a.value, a.position⟩ typeArguments

theorem contribution_eq (scopes : Scopes) (outermost : Bool) (a : RawAttribute) :
    a.contribution scopes outermost =
      if a.declaredPrefix?.isSome then .ok (.directions [])
      else match splitQualified a.written with
        | (none, localName) => a.meant scopes outermost localName ""
        | (some key, localName) =>
          namespaceAt scopes a.position (some key) >>= a.meant scopes outermost localName := by
  unfold contribution
  split
  · rfl
  · rcases splitQualified a.written with ⟨_ | key, localName⟩ <;> rfl

theorem meant_eq_ok_iff {localName uri : String} :
    a.meant scopes outermost localName uri = .ok x ↔ a.Adds scopes outermost ⟨uri, localName⟩ x := by
  unfold meant
  constructor
  · intro ok
    split at ok
    case isTrue compatible =>
      split at ok
      case isTrue directs =>
        obtain ⟨uris, listed, ok⟩ := ok_of_bind ok
        cases ok
        exact .ignorable compatible directs
          ((mapM_eq_ok_iff.1 listed).imp fun _ _ => namespaceAt_eq_ok_iff.1)
      case isFalse other =>
        cases ok
        exact .compatibility compatible other
    case isFalse own =>
      split at ok
      case isTrue lists =>
        obtain ⟨names, read, ok⟩ := ok_of_bind ok
        cases ok
        exact .arguments own lists (readTypeArguments_eq_ok_iff.1 read)
      case isFalse other =>
        cases ok
        exact .plain own other
  · intro adds
    cases adds with
    | ignorable compatible directs listed =>
      rw [if_pos compatible, if_pos directs,
        mapM_eq_ok_iff.2 (listed.imp fun _ _ => namespaceAt_eq_ok_iff.2)]
      rfl
    | compatibility compatible other =>
      rw [if_pos compatible, if_neg other]
      rfl
    | arguments own lists read =>
      rw [if_neg own, if_pos lists, readTypeArguments_eq_ok_iff.2 read]
      rfl
    | plain own other =>
      rw [if_neg own, if_neg other]
      rfl

theorem contribution_eq_ok_iff :
    a.contribution scopes outermost = .ok x ↔ a.Contributes scopes outermost x := by
  rw [contribution_eq]
  constructor
  · intro ok
    split at ok
    case isTrue declares =>
      cases ok
      exact .declaration declares
    case isFalse other =>
      split at ok
      case h_1 localName parts => exact .named other (.plain parts) (meant_eq_ok_iff.1 ok)
      case h_2 key localName parts =>
        obtain ⟨uri, found, ok⟩ := ok_of_bind ok
        exact .named other (.prefixed parts (namespaceAt_eq_ok_iff.1 found)) (meant_eq_ok_iff.1 ok)
  · intro contributes
    cases contributes with
    | declaration declares => rw [if_pos declares]
    | named other named adds =>
      rw [if_neg other]
      cases named with
      | plain parts =>
        rw [parts]
        exact meant_eq_ok_iff.2 adds
      | prefixed parts found =>
        rw [parts]
        dsimp only
        rw [namespaceAt_eq_ok_iff.2 found]
        exact meant_eq_ok_iff.2 adds

end RawAttribute

/-- The body of the node that a tag begins, given its name and what its attributes contribute. -/
def StartTag.bodyOf (t : StartTag) (outermost : Bool) (name : QName) (given : List Contribution) :
    NodeBody where
  kind := kindOf outermost name
  typeName := name
  typeArguments := (given.filterMap (·.typeArguments?)).getLast?.getD []
  attributes := given.filterMap (·.attribute?)
  namespaces := t.declarations
  position := t.position

theorem StartTag.body_eq_ok_iff {t : StartTag} {n : NodeBody} {ignorable : List String} :
    t.body scopes outermost = .ok (n, ignorable) ↔ ∃ name given, StandsFor scopes t.written name ∧
      List.Forall₂ (RawAttribute.Contributes scopes outermost) t.attributes given ∧
      n = t.bodyOf outermost name given ∧ ignorable = given.flatMap (·.ignorable) := by
  unfold body StandsFor
  generalize splitQualified t.written = parts
  constructor
  · intro ok
    obtain ⟨uri, found, ok⟩ := ok_of_bind ok
    obtain ⟨given, contribute, ok⟩ := ok_of_bind ok
    cases ok
    exact ⟨_, given, ⟨namespaceAt_eq_ok_iff.1 found, rfl⟩, (mapM_eq_ok_iff.1 contribute).imp
      fun _ _ => RawAttribute.contribution_eq_ok_iff.1, rfl, rfl⟩
  · rintro ⟨name, given, ⟨found, is⟩, contribute, rfl, rfl⟩
    have contribute := mapM_eq_ok_iff.2
      (contribute.imp fun _ _ => RawAttribute.contribution_eq_ok_iff.2)
    simp only [namespaceAt_eq_ok_iff.2 found, contribute, bind, Except.bind, is]
    rfl

theorem readOpenTag_eq_ok_iff {c e : Cursor} {o : OpenTag} :
    readOpenTag scopes outermost c = .ok (o, e) ↔ StartTag.read c = .ok (o.tag, e) ∧
      o.tag.body (o.tag.declarations :: scopes) outermost = .ok (o.body, o.ignorable) ∧
      o.scopes = o.tag.declarations :: scopes := by
  constructor
  · intro ok
    obtain ⟨⟨tag, after⟩, read, ok⟩ := ok_of_bind ok
    obtain ⟨⟨body, ignorable⟩, meant, ok⟩ := ok_of_bind ok
    cases ok
    exact ⟨read, meant, rfl⟩
  · rintro ⟨read, meant, inner⟩
    rw [← inner] at meant
    unfold readOpenTag
    simp only [read, meant, bind, Except.bind, ← inner]
    rfl

end Meaning

/-! ## Pieces of content -/

theorem readEndTag_eq_ok_iff {opened : String} {c e : Cursor} :
    readEndTag opened c = .ok e ↔ (c.drop 2).readName.1 = opened ∧
      (c.drop 2).readName.2.skipBlanks.expect '>' = .ok e := by
  unfold readEndTag
  simp only [bind, Except.bind]
  constructor
  · intro ok
    split at ok
    · cases ok
    case isFalse same => exact ⟨Decidable.not_not.1 same, ok⟩
  · rintro ⟨rfl, expected⟩
    rw [if_neg fun other => other rfl]
    exact expected

theorem readCharacterData_eq_ok_iff {c e : Cursor} {n : NodeBody} :
    readCharacterData c = .ok (n, e) ↔ ∃ text,
      (c.drop "<![CDATA[".length).through "]]>" = .ok (text, e) ∧
        n = .ofText (String.ofList text) c.position := by
  unfold readCharacterData Cursor.through
  dsimp only
  constructor
  · intro ok
    split at ok
    case h_1 text after found =>
      cases ok
      exact ⟨text, by rw [found], rfl⟩
    case h_2 => cases ok
  · rintro ⟨text, found, rfl⟩
    split at found
    case h_1 is =>
      cases found
      rw [is]
    case h_2 => cases found

/-- A text is read up to the next tag; what is left of it without the blanks around it is decoded. -/
theorem readText_eq_ok_iff {c e : Cursor} {n : Option NodeBody} :
    readText c = .ok (n, e) ↔ e = (c.span (· != '<')).2 ∧
      (trim (c.span (· != '<')).1 = [] ∧ n = none ∨
        trim (c.span (· != '<')).1 ≠ [] ∧ ∃ decoded,
          Reference.decode (trim (c.span (· != '<')).1) = .ok decoded ∧
          n = some (.ofText (String.ofList decoded) c.position)) := by
  unfold readText decodeAt
  dsimp only
  constructor
  · intro ok
    split at ok
    case isTrue blank =>
      cases ok
      exact ⟨rfl, .inl ⟨List.isEmpty_iff.1 blank, rfl⟩⟩
    case isFalse kept =>
      obtain ⟨text, decodes, ok⟩ := ok_of_bind ok
      cases ok
      split at decodes
      case h_1 decoded is =>
        cases decodes
        exact ⟨rfl, .inr ⟨fun none => kept (List.isEmpty_iff.2 none), decoded, is, rfl⟩⟩
      case h_2 => cases decodes
  · rintro ⟨rfl, ⟨blank, rfl⟩ | ⟨kept, decoded, is, rfl⟩⟩
    · rw [if_pos (List.isEmpty_iff.2 blank)]
      rfl
    · rw [if_neg fun empty => kept (List.isEmpty_iff.1 empty), is]
      rfl

/-- What comes next in a content that is read, and what it is read as with all that follows. -/
inductive ReadsOn (tag : StartTag) (scopes : Scopes) (fuel : Nat) (c : Cursor) :
    Forest → Cursor → Prop
  | ending {e : Cursor} (piece : pieceAt c = .ending) (ended : readEndTag tag.written c = .ok e) :
    ReadsOn tag scopes fuel c .nil e
  /-- A comment or an instruction is passed over. -/
  | passed {mark : String} {skipped : List Char} {after e : Cursor} {f : Forest}
    (piece : pieceAt c = .comment ∧ mark = "-->" ∨ pieceAt c = .instruction ∧ mark = "?>")
    (through : c.through mark = .ok (skipped, after))
    (rest : readContent tag scopes fuel after = .ok (f, e)) : ReadsOn tag scopes fuel c f e
  | characterData {n : NodeBody} {after e : Cursor} {siblings : Forest}
    (piece : pieceAt c = .characterData) (taken : readCharacterData c = .ok (n, after))
    (rest : readContent tag scopes fuel after = .ok (siblings, e)) :
    ReadsOn tag scopes fuel c (.cons n .nil siblings) e
  | blank {after e : Cursor} {f : Forest} (piece : pieceAt c = .text)
    (taken : readText c = .ok (none, after))
    (rest : readContent tag scopes fuel after = .ok (f, e)) : ReadsOn tag scopes fuel c f e
  | text {n : NodeBody} {after e : Cursor} {siblings : Forest} (piece : pieceAt c = .text)
    (taken : readText c = .ok (some n, after))
    (rest : readContent tag scopes fuel after = .ok (siblings, e)) :
    ReadsOn tag scopes fuel c (.cons n .nil siblings) e
  | element {inner : OpenTag} {inside after e : Cursor} {children siblings : Forest}
    (piece : pieceAt c = .element) (opened : readOpenTag scopes false c = .ok (inner, inside))
    (below : (if inner.tag.closed then pure (.nil, inside)
      else readContent inner.tag inner.scopes fuel inside) = .ok (children, after))
    (rest : readContent tag scopes fuel after = .ok (siblings, e)) :
    ReadsOn tag scopes fuel c (.cons inner.body children siblings) e

theorem readContent_eq_ok_iff {tag : StartTag} {scopes : Scopes} {fuel : Nat} {c e : Cursor}
    {f : Forest} : readContent tag scopes (fuel + 1) c = .ok (f, e) ↔
      c.rest.isEmpty = false ∧ ReadsOn tag scopes fuel c f e := by
  rw [readContent]
  constructor
  · intro ok
    split at ok
    · cases ok
    case isFalse more =>
      refine ⟨by simpa using more, ?_⟩
      split at ok
      case h_1 piece =>
        obtain ⟨rest, ended, ok⟩ := ok_of_bind ok
        cases ok
        exact .ending piece ended
      case h_2 piece =>
        obtain ⟨⟨skipped, after⟩, through, ok⟩ := ok_of_bind ok
        exact .passed (.inl ⟨piece, rfl⟩) through ok
      case h_3 piece =>
        obtain ⟨⟨skipped, after⟩, through, ok⟩ := ok_of_bind ok
        exact .passed (.inr ⟨piece, rfl⟩) through ok
      case h_4 piece =>
        obtain ⟨⟨n, after⟩, taken, ok⟩ := ok_of_bind ok
        obtain ⟨⟨siblings, last⟩, rest, ok⟩ := ok_of_bind ok
        cases ok
        exact .characterData piece taken rest
      case h_5 piece =>
        obtain ⟨⟨kept, after⟩, taken, ok⟩ := ok_of_bind ok
        cases kept with
        | none => exact .blank piece taken ok
        | some n =>
          obtain ⟨⟨siblings, last⟩, rest, ok⟩ := ok_of_bind ok
          cases ok
          exact .text piece taken rest
      case h_6 piece =>
        obtain ⟨⟨inner, inside⟩, opened, ok⟩ := ok_of_bind ok
        dsimp only at ok
        split at ok
        case isTrue closed =>
          obtain ⟨⟨children, after⟩, below, ok⟩ := ok_of_bind ok
          obtain ⟨⟨siblings, last⟩, rest, ok⟩ := ok_of_bind ok
          cases ok
          exact .element piece opened (by rw [if_pos closed]; exact below) rest
        case isFalse closed =>
          obtain ⟨⟨children, after⟩, below, ok⟩ := ok_of_bind ok
          obtain ⟨⟨siblings, last⟩, rest, ok⟩ := ok_of_bind ok
          cases ok
          exact .element piece opened (by rw [if_neg closed]; exact below) rest
  · rintro ⟨more, reads⟩
    rw [if_neg (by simp [more])]
    cases reads with
    | ending piece ended => simp only [piece, ended, bind, Except.bind]; rfl
    | passed piece through rest =>
      obtain ⟨piece, rfl⟩ | ⟨piece, rfl⟩ := piece
      · simp only [piece, through, bind, Except.bind, rest]
      · simp only [piece, through, bind, Except.bind, rest]
    | characterData piece taken rest => simp only [piece, taken, bind, Except.bind, rest]; rfl
    | blank piece taken rest => simp only [piece, taken, bind, Except.bind, rest]
    | text piece taken rest => simp only [piece, taken, bind, Except.bind, rest]; rfl
    | @element inner inside after e children siblings piece opened below rest =>
      simp only [piece, opened, bind, Except.bind]
      cases closed : inner.tag.closed with
      | true =>
        rw [closed, if_pos rfl] at below
        cases below
        rw [if_pos rfl]
        simp only [pure, Except.pure, rest]
      | false =>
        rw [closed, if_neg Bool.false_ne_true] at below
        rw [if_neg Bool.false_ne_true, below]
        simp only [rest]
        rfl

/-! ## What comes before the first element -/

/-- What is passed over before the first element, with the mark that it begins with and the one that
it goes up to. -/
inductive Cursor.Preamble (c : Cursor) : String → String → Prop
  | instruction (begins : c.startsWith "<?" = true) : c.Preamble "<?" "?>"
  | comment (begins : c.startsWith "<!--" = true) : c.Preamble "<!--" "-->"
  | declaration (begins : c.startsWith "<!" = true) (noComment : ¬ c.startsWith "<!--" = true) :
    c.Preamble "<!" ">"

theorem Cursor.Preamble.closing_ne_nil {c : Cursor} {opening closing : String}
    (piece : c.Preamble opening closing) : closing.toList ≠ [] := by
  cases piece <;> decide

/-- What comes next on the way to the first element. -/
inductive ReadsPrologue (fuel : Nat) (c start : Cursor) : Prop
  | passed {opening closing : String} {skipped : List Char} {after : Cursor}
    (piece : c.Preamble opening closing) (through : c.through closing = .ok (skipped, after))
    (rest : readPrologue fuel after = .ok start)
  | tag (bracket : c.startsWith "<" = true) (noInstruction : ¬ c.startsWith "<?" = true)
    (noDeclaration : ¬ c.startsWith "<!" = true) (here : start = c)
  | stray (noBracket : ¬ c.startsWith "<" = true)
    (rest : readPrologue fuel (c.span (· != '<')).2 = .ok start)

theorem readPrologue_eq_ok_iff {fuel : Nat} {c start : Cursor} :
    readPrologue (fuel + 1) c = .ok start ↔
      c.skipBlanks.rest.isEmpty = false ∧ ReadsPrologue fuel c.skipBlanks start := by
  rw [readPrologue]
  generalize c.skipBlanks = c
  constructor
  · intro ok
    have passed {opening closing : String} (piece : c.Preamble opening closing)
        (ok : (do readPrologue fuel (← c.through closing).2) = .ok start) :
        ReadsPrologue fuel c start := by
      obtain ⟨⟨skipped, after⟩, through, rest⟩ := ok_of_bind ok
      exact .passed piece through rest
    split at ok
    · cases ok
    case isFalse more =>
    refine ⟨by simpa using more, ?_⟩
    split at ok
    case isTrue begins => exact passed (.instruction begins) ok
    case isFalse noInstruction =>
    split at ok
    case isTrue begins => exact passed (.comment begins) ok
    case isFalse noComment =>
    split at ok
    case isTrue begins => exact passed (.declaration begins noComment) ok
    case isFalse noDeclaration =>
    split at ok
    case isTrue bracket =>
      cases ok
      exact .tag bracket noInstruction noDeclaration rfl
    case isFalse noBracket => exact .stray noBracket ok
  · rintro ⟨more, reads⟩
    rw [if_neg (by simp [more])]
    cases reads with
    | passed piece through rest =>
      cases piece with
      | instruction begins =>
        rw [if_pos begins, through]
        exact rest
      | comment begins =>
        rw [if_neg (Cursor.not_startsWith_of_startsWith begins (by decide)), if_pos begins, through]
        exact rest
      | declaration begins noComment =>
        rw [if_neg (Cursor.not_startsWith_of_startsWith begins (by decide)), if_neg noComment,
          if_pos begins, through]
        exact rest
    | tag bracket noInstruction noDeclaration here =>
      have noComment : ¬ c.startsWith "<!--" = true := fun comment =>
        noDeclaration (Cursor.startsWith_of_prefix comment (by decide))
      rw [if_neg noInstruction, if_neg noComment, if_neg noDeclaration, if_pos bracket, here]
    | stray noBracket rest =>
      have other {mark : String} (bracket : "<".toList <+: mark.toList) :
          ¬ c.startsWith mark = true := fun begins =>
        noBracket (Cursor.startsWith_of_prefix begins bracket)
      rw [if_neg (other (by decide)), if_neg (other (by decide)), if_neg (other (by decide)),
        if_neg noBracket]
      exact rest

/-! ## Documents -/

/-- A document is read as its outermost element with what is below it. -/
theorem NodeTree.read_eq_ok_iff {text : String} {t : NodeTree} :
    NodeTree.read text = .ok t ↔ ∃ start outer inside below after,
      readPrologue (Cursor.ofText text).rest.length (Cursor.ofText text) = .ok start ∧
      readOpenTag [] true start = .ok (outer, inside) ∧
      (if outer.tag.closed then pure (.nil, inside)
        else readContent outer.tag outer.scopes inside.rest.length inside) = .ok (below, after) ∧
      t = ofForest outer.body below outer.ignorable := by
  unfold read
  constructor
  · intro ok
    obtain ⟨start, prologue, ok⟩ := ok_of_bind ok
    obtain ⟨⟨outer, inside⟩, opened, ok⟩ := ok_of_bind ok
    dsimp only at ok
    refine ⟨start, outer, inside, ?_⟩
    split at ok
    case isTrue closed =>
      cases ok
      exact ⟨_, _, prologue, opened, if_pos closed, rfl⟩
    case isFalse closed =>
      obtain ⟨⟨below, after⟩, content, ok⟩ := ok_of_bind ok
      cases ok
      exact ⟨below, after, prologue, opened, (if_neg closed).trans content, rfl⟩
  · rintro ⟨start, outer, inside, below, after, prologue, opened, content, rfl⟩
    simp only [prologue, opened, bind, Except.bind]
    cases closed : outer.tag.closed with
    | true =>
      rw [closed] at content
      cases content
      rfl
    | false =>
      rw [closed, if_neg Bool.false_ne_true] at content
      rw [if_neg Bool.false_ne_true, content]
      rfl

end MarkupLoader
