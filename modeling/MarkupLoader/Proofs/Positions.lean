import MarkupLoader.Proofs.Asides
import MarkupLoader.Proofs.DocumentOrder
import MarkupLoader.Proofs.Following
import MarkupLoader.Proofs.Onward
import Mathlib.Data.List.Induction

/-!
# Reported positions

A reader counts lines and columns while it goes over a text, in many places and one character at a
time. **What it reports is where it is**: the position of an offset of the text, with the lines
counted by the line feeds before the offset and the columns by the characters since the last one
(`Position.ofOffset`).

* **A node** is reported at the offset where it begins. There stands the bracket of its tag and the
  name that the node has been given, or its character-data section, or the text that is left
  between a piece of markup and the next bracket (`NodeTree.StandsAt`).
* **An attribute** is reported at the offset of its name, and a **fault** at an offset of the text or
  at its end.

For each node there is a place that the reader came to, with the start tags around it (`Spot`). Going
over the content of an element comes to the places of its nodes in document order (`Spotted`), as each
node begins behind what was gone over before it.

Main results: `Position.past_start`, `spotted_of_readContent`, `NodeTree.positions_of_read`.
-/

namespace MarkupLoader

open Text

/-! ## Offsets -/

namespace Position

/-- Lines are counted by the line feeds before a place, columns by the characters since the last
one. -/
theorem past_start (w : List Char) : start.past w =
    ⟨1 + w.count '\n', 1 + (w.reverse.takeWhile (· != '\n')).length⟩ := by
  -- The last character decides: a line feed begins a line, and others are counted in theirs.
  induction w using List.reverseRecOn with
  | nil => rfl
  | append_singleton w c ih =>
    rw [past_append, ih]
    show step _ c = _
    unfold step
    split
    case isTrue feed => simp [feed, Nat.add_assoc]
    case isFalse other => simp [other, Nat.add_comm]

/-- The position of an offset of a text. -/
def ofOffset (text : String) (o : Nat) : Position :=
  ⟨1 + (text.toList.take o).count '\n',
    1 + ((text.toList.take o).reverse.takeWhile (· != '\n')).length⟩

end Position

namespace Cursor

variable {text : String} {c e : Cursor}

theorem position_drop_ofText (text : String) (o : Nat) :
    ((ofText text).drop o).position = .ofOffset text o := Position.past_start _

/-- A place that is come to is known by how much is left there. -/
theorem Onward.eq_drop (onward : c.Onward e) : e = c.drop (c.rest.length - e.rest.length) := by
  obtain ⟨n, within, rfl⟩ := onward
  have : (c.drop n).rest.length = c.rest.length - n := List.length_drop
  rw [this, Nat.sub_sub_self within]

/-- A position that is passed in a text is that of an offset. -/
theorem Passes.exists_offset {p : Position} (passes : (ofText text).Passes p) :
    ∃ o, o ≤ text.length ∧ p = .ofOffset text o := by
  obtain ⟨_, ⟨o, within, rfl⟩, is⟩ := passes
  exact ⟨o, within, is.trans (position_drop_ofText text o)⟩

end Cursor

/-! ## What stands at an offset -/

/-- **A piece of markup**: a tag, a comment, an instruction or a character-data section. -/
inductive Cursor.Markup (c e : Cursor) : Prop
  | startTag {tag : StartTag} (bracket : c.startsWith "<" = true)
    (read : StartTag.read c = .ok (tag, e)) : Markup c e
  | endTag {opened : String} (piece : pieceAt c = .ending) (read : readEndTag opened c = .ok e) :
    Markup c e
  | aside {mark : String} {skipped : List Char}
    (piece : pieceAt c = .comment ∧ mark = "-->" ∨ pieceAt c = .instruction ∧ mark = "?>")
    (through : c.through mark = .ok (skipped, e)) : Markup c e
  | characterData {n : NodeBody} (piece : pieceAt c = .characterData)
    (read : readCharacterData c = .ok (n, e)) : Markup c e

/-- The name that stands at an offset, as far as there are characters of names. -/
def nameAt (text : String) (o : Nat) : String :=
  String.ofList ((text.toList.drop o).takeWhile isNameChar)

/-- An attribute whose name stands at an offset. -/
structure Attribute.StandsAt (text : String) (lookUp : String → Option String) (a : Attribute)
    (o : Nat) : Prop where
  position : a.position = .ofOffset text o
  written : nameAt text o ≠ ""
  meant : ∃ value, RawAttribute.own? lookUp ⟨nameAt text o, value, .ofOffset text o⟩ = some a

/-- **A node that begins at an offset.** The bracket of a tag stands there, and behind it the name that
the node has been given. Or it is a text: a character-data section begins there, or there is what is
left of the text from the last piece of markup to the next bracket. -/
inductive NodeTree.StandsAt (text : String) (t : NodeTree) (id : NodeId) (o : Nat) : Prop
  | tag (kind : ∀ content, (t.node id).kind ≠ .text content)
    (bracket : text.toList[o]? = some '<') (written : nameAt text (o + 1) ≠ "")
    (meant : meantType? (t.linkParents.lookUpNamespace id) (nameAt text (o + 1)) =
      some (t.node id).typeName)
    (attributes : ∀ a ∈ (t.node id).attributes, ∃ place, o < place ∧ place < text.length ∧
      a.StandsAt text (t.linkParents.lookUpNamespace id) place)
  | characterData {content : String} {after : List Char} (kind : (t.node id).kind = .text content)
    (begins : "<![CDATA[".toList <+: text.toList.drop o)
    (inside : cutAt? "]]>".toList (text.toList.drop (o + "<![CDATA[".length)) =
      some (content.toList, after))
  | text {content : String} {before : Nat} (kind : (t.node id).kind = .text content)
    (behind : before < o)
    (markup : ((Cursor.ofText text).drop before).Markup ((Cursor.ofText text).drop o))
    (plain : text.toList[o]? ≠ some '<')
    (run : Reference.decode (trim ((text.toList.drop o).takeWhile (· != '<'))) =
      .ok content.toList)

/-! ## Going over content -/

section Shorter

variable {c e : Cursor}

/-- Less is left behind something that has been gone over. -/
theorem Cursor.shorter_of_drop {n : Nat} (further : e.rest <:+ (c.drop n).rest)
    (some_ : 0 < n) (filled : c.rest ≠ []) : e.rest.length < c.rest.length := by
  have length := further.length_le
  have := List.length_pos_iff.2 filled
  rw [Cursor.drop, List.length_drop] at length
  omega

theorem characterData_shorter {n : NodeBody} (piece : pieceAt c = .characterData)
    (taken : readCharacterData c = .ok (n, e)) : e.rest.length < c.rest.length :=
  Cursor.shorter_of_drop (characterData_suffix taken) (by decide)
    (Cursor.ne_nil_of_startsWith (startsWith_of_pieceAt.2.2.1 piece) (by decide))

theorem text_shorter {n : Option NodeBody} (filled : c.rest ≠ []) (piece : pieceAt c = .text)
    (taken : readText c = .ok (n, e)) : e.rest.length < c.rest.length :=
  Cursor.shorter_of_drop (text_suffix_drop filled piece taken) (by decide) filled

/-- Markup is gone over, and it has a character. -/
theorem Cursor.Markup.onward (markup : c.Markup e) :
    c.Onward e ∧ e.rest.length < c.rest.length := by
  have filled {mark : String} (begins : c.startsWith mark = true) (marked : mark.toList ≠ []) :
      c.rest ≠ [] := Cursor.ne_nil_of_startsWith begins marked
  cases markup with
  | startTag bracket read =>
    exact ⟨StartTag.read_onward read, Cursor.shorter_of_drop (StartTag.read_suffix_drop read)
      (by decide) (filled bracket (by decide))⟩
  | endTag piece read =>
    exact ⟨readEndTag_onward read, Cursor.shorter_of_drop (endTag_suffix read) (by decide)
      (filled (startsWith_of_pieceAt.1 piece) (by decide))⟩
  | aside piece through =>
    refine ⟨.through through, Cursor.shorter_of_drop (n := 1)
      (Cursor.through_suffix_drop through ?_) (by decide) ?_⟩
    · obtain ⟨-, rfl⟩ | ⟨-, rfl⟩ := piece <;> rw [List.length_append] <;> exact Nat.le_add_left _ _
    · obtain ⟨piece, -⟩ | ⟨piece, -⟩ := piece
      · exact filled (startsWith_of_pieceAt.2.1 piece) (by decide)
      · exact filled (startsWith_of_pieceAt.2.2.2.1 piece) (by decide)
  | characterData piece read =>
    exact ⟨readCharacterData_onward read, characterData_shorter piece read⟩

end Shorter

/-- **Places in order**: each of them is come to from the one before it, and they stand between two
others. -/
structure Cursor.Ordered (c e : Cursor) (places : List Cursor) : Prop where
  between : ∀ x ∈ places, c.Onward x ∧ e.rest.length < x.rest.length
  descending : places.Pairwise fun x y => y.rest.length < x.rest.length

namespace Cursor.Ordered

variable {c d m e : Cursor} {first second : List Cursor}

theorem nil (c e : Cursor) : Ordered c e [] := ⟨nofun, .nil⟩

/-- Places may begin later. -/
theorem after (further : c.Onward d) (ordered : Ordered d e first) : Ordered c e first :=
  ⟨fun x mem => ⟨further.trans (ordered.between x mem).1, (ordered.between x mem).2⟩,
    ordered.descending⟩

/-- A place comes before those inside an element, and these before the ones behind it. -/
theorem cons (shorter : d.rest.length < c.rest.length) (further : c.Onward d)
    (inside : Ordered d m first) (across : d.Onward m) (behind : Ordered m e second)
    (last : m.Onward e) : Ordered c e (c :: (first ++ second)) := by
  have length {x y : Cursor} (onward : x.Onward y) : y.rest.length ≤ x.rest.length :=
    onward.suffix.length_le
  have overall := length across
  have ending := length last
  constructor
  · intro x mem
    rcases List.mem_cons.1 mem with rfl | mem
    · exact ⟨.refl _, by omega⟩
    rcases List.mem_append.1 mem with mem | mem
    · obtain ⟨onward, before⟩ := inside.between x mem
      exact ⟨further.trans onward, by omega⟩
    · obtain ⟨onward, before⟩ := behind.between x mem
      exact ⟨(further.trans across).trans onward, before⟩
  · -- Each of the others is behind the first, and those of the element end where the later ones begin.
    refine List.pairwise_cons.2 ⟨?_, List.pairwise_append.2
      ⟨inside.descending, behind.descending, ?_⟩⟩
    · intro x mem
      rcases List.mem_append.1 mem with mem | mem
      · have := length (inside.between x mem).1
        omega
      · have := length (behind.between x mem).1
        omega
    · intro x memX y memY
      have := (inside.between x memX).2
      have := length (behind.between y memY).1
      omega

end Cursor.Ordered

/-- **Where a node was read**: the place that its first character stands at, and the start tags around
it, its own first. -/
structure Spot where
  cursor : Cursor
  enclosing : List StartTag

/-- A node that was read at a spot, by a reader that came there from `origin`. -/
inductive Spot.Gives (origin : Cursor) (s : Spot) (n : NodeBody) : Prop
  | element {tag : StartTag} {around : List StartTag} {after : Cursor} {outermost : Bool}
    {ignorable : List String} (own : s.enclosing = tag :: around)
    (bracket : s.cursor.startsWith "<" = true) (read : StartTag.read s.cursor = .ok (tag, after))
    (meant : tag.body (s.enclosing.map StartTag.declarations) outermost = .ok (n, ignorable))
  | characterData {after : Cursor} (piece : pieceAt s.cursor = .characterData)
    (read : readCharacterData s.cursor = .ok (n, after))
  | text {before after : Cursor} (come : origin.Onward before) (markup : before.Markup s.cursor)
    (filled : s.cursor.rest ≠ []) (piece : pieceAt s.cursor = .text)
    (read : readText s.cursor = .ok (some n, after))

/-- **The spots of the nodes of a forest**, in the order of the nodes: they are those of a content that
is read from one place to another. -/
structure Spotted (origin : Cursor) (around : List StartTag) (c : Cursor) (f : Forest) (e : Cursor)
    (spots : List Spot) : Prop where
  outlined : Outlined around f (spots.map (·.enclosing))
  gives (base : NodeId) :
    List.Forall₂ (fun s (n : Node) => s.Gives origin n.toNodeBody) spots (f.nodes base)
  ordered : c.Ordered e (spots.map (·.cursor))

section Spots

variable {origin : Cursor} {tag : StartTag} {around : List StartTag} {fuel : Nat} {c e : Cursor}
  {f : Forest}

/-- Wherever a text begins, a piece of markup has ended. -/
def Cursor.Behind (origin c : Cursor) : Prop :=
  c.rest ≠ [] → pieceAt c = .text → ∃ before, origin.Onward before ∧ before.Markup c

theorem Cursor.Markup.behind (come : origin.Onward c) (markup : c.Markup e) : origin.Behind e :=
  fun _ _ => ⟨c, come, markup⟩

/-- Behind a text a bracket comes, unless the text has ended. -/
theorem behind_text {n : Option NodeBody} (taken : readText c = .ok (n, e)) : origin.Behind e := by
  intro filled piece
  obtain ⟨rfl, -⟩ := readText_eq_ok_iff.1 taken
  have stops := List.head?_dropWhile_not (· != '<') c.rest
  obtain ⟨first, others, is⟩ := List.exists_cons_of_ne_nil filled
  have left : c.rest.dropWhile (· != '<') = first :: others := is
  rw [left] at stops
  have bracket : first = '<' := by simpa using stops
  exact absurd (by rw [is, bracket]; rfl) ((pieceAt_eq_text_iff filled).1 piece)

/-- Behind a content its end tag has ended. -/
theorem behind_of_readContent {scopes : Scopes}
    (read : readContent tag scopes fuel c = .ok (f, e)) (come : origin.Onward c) :
    origin.Behind e := by
  obtain ⟨last, onward, piece, ended⟩ := exists_ending_of_readContent read
  exact Cursor.Markup.behind (come.trans onward) (.endTag piece ended)

/-- **The nodes of a content are read at places in order**, each of them with the tags around it. -/
theorem spotted_of_readContent
    (read : readContent tag ((tag :: around).map StartTag.declarations) fuel c = .ok (f, e))
    (come : origin.Onward c) (behind : origin.Behind c) :
    ∃ spots, Spotted origin (tag :: around) c f e spots := by
  induction fuel generalizing tag around c e f with
  | zero => cases read
  | succ fuel ih =>
    obtain ⟨more, reads⟩ := readContent_eq_ok_iff.1 read
    have filled : c.rest ≠ [] := by simpa using more
    -- What makes no node is gone over.
    have skips {after : Cursor} (further : c.Onward after) (behind : origin.Behind after)
        (rest : readContent tag ((tag :: around).map StartTag.declarations) fuel after =
          .ok (f, e)) : ∃ spots, Spotted origin (tag :: around) c f e spots := by
      obtain ⟨spots, outlined, gives, ordered⟩ := ih rest (come.trans further) behind
      exact ⟨spots, outlined, gives, ordered.after further⟩
    -- A text is read with the tags around it.
    have texts {n : NodeBody} {after : Cursor} {siblings : Forest}
        (text : ∃ content, n = .ofText content c.position)
        (gives : Spot.Gives origin ⟨c, tag :: around⟩ n)
        (shorter : after.rest.length < c.rest.length) (further : c.Onward after)
        (behind : origin.Behind after)
        (rest : readContent tag ((tag :: around).map StartTag.declarations) fuel after =
          .ok (siblings, e)) :
        ∃ spots, Spotted origin (tag :: around) c (.cons n .nil siblings) e spots := by
      obtain ⟨content, rfl⟩ := text
      obtain ⟨spots, outlined, later, ordered⟩ := ih rest (come.trans further) behind
      exact ⟨⟨c, tag :: around⟩ :: spots, .text content c.position outlined,
        fun base => .cons gives (later _),
        .cons shorter further (.nil _ _) (.refl _) ordered (readContent_onward rest)⟩
    cases reads with
    | ending => exact ⟨[], .nil _, fun _ => .nil, .nil _ _⟩
    | passed piece through rest =>
      exact skips (.through through) (Cursor.Markup.behind come (.aside piece through)) rest
    | blank _ taken rest => exact skips (readText_onward taken) (behind_text taken) rest
    | characterData piece taken rest =>
      exact texts (text_of_readCharacterData taken) (.characterData piece taken)
        (characterData_shorter piece taken) (readCharacterData_onward taken)
        (Cursor.Markup.behind come (.characterData piece taken)) rest
    | text piece taken rest =>
      obtain ⟨before, came, markup⟩ := behind filled piece
      exact texts (text_of_readText taken) (.text came markup filled piece taken)
        (text_shorter filled piece taken) (readText_onward taken) (behind_text taken) rest
    | @element inner start after _ children siblings piece opened below rest =>
      obtain ⟨reads, meant, scopes⟩ := readOpenTag_eq_ok_iff.1 opened
      have bracket := startsWith_of_pieceAt.2.2.2.2.1 piece
      have markup : c.Markup start := .startTag bracket reads
      obtain ⟨further, shorter⟩ := markup.onward
      -- A tag that is closed is all there is of its element.
      obtain ⟨first, spotted, across, behind'⟩ : ∃ first,
          Spotted origin (inner.tag :: tag :: around) start children after first ∧
            start.Onward after ∧ origin.Behind after := by
        split at below
        case isTrue closed =>
          cases below
          exact ⟨[], ⟨.nil _, fun _ => .nil, .nil _ _⟩, .refl _, markup.behind come⟩
        case isFalse =>
          rw [scopes] at below
          have inside := come.trans further
          obtain ⟨first, spotted⟩ := ih below inside (markup.behind come)
          exact ⟨first, spotted, readContent_onward below, behind_of_readContent below inside⟩
      obtain ⟨second, later⟩ := ih rest ((come.trans further).trans across) behind'
      refine ⟨⟨c, inner.tag :: tag :: around⟩ :: (first ++ second), ?_, fun base => ?_, ?_⟩
      · rw [List.map_cons, List.map_append]
        exact .element meant spotted.outlined later.outlined
      · refine .cons (.element rfl bracket reads meant) ?_
        exact List.rel_append (spotted.gives _) (later.gives _)
      · rw [List.map_cons, List.map_append]
        exact .cons shorter further spotted.ordered across later.ordered (readContent_onward rest)

end Spots

/-! ## What has been read at a spot -/

/-- The kind of an element is not that of a text. -/
theorem kind_of_body {tag : StartTag} {scopes : Scopes} {outermost : Bool} {n : NodeBody}
    {ignorable : List String} (meant : tag.body scopes outermost = .ok (n, ignorable))
    (content : String) : n.kind ≠ .text content := by
  obtain ⟨name, given, -, -, rfl, -⟩ := StartTag.body_eq_ok_iff.1 meant
  show StartTag.kindOf outermost name ≠ _
  unfold StartTag.kindOf
  split
  · exact nofun
  · split <;> exact nofun

theorem RawAttribute.position_of_own? {lookUp : String → Option String} {w : RawAttribute}
    {a : Attribute} (own : w.own? lookUp = some a) : a.position = w.position := by
  unfold own? at own
  split at own
  · cases own
  obtain ⟨name, -, own⟩ := Option.bind_eq_some_iff.1 own
  split at own <;> cases own
  rfl

namespace Spot.Gives

variable {origin : Cursor} {s : Spot} {n : NodeBody}

/-- A node is reported where it was read. -/
theorem position_eq (gives : s.Gives origin n) : n.position = s.cursor.position := by
  cases gives with
  | element _ _ read meant =>
    obtain ⟨name, given, -, -, rfl, -⟩ := StartTag.body_eq_ok_iff.1 meant
    exact (StartTag.places_of_read read).1
  | characterData _ read =>
    obtain ⟨_, -, rfl⟩ := readCharacterData_eq_ok_iff.1 read
    rfl
  | text _ _ _ _ read =>
    obtain ⟨-, ⟨-, none⟩ | ⟨-, decoded, -, is⟩⟩ := readText_eq_ok_iff.1 read
    · cases none
    · rw [Option.some.inj is]
      rfl

variable {text : String} {t : NodeTree} {id : NodeId} {o : Nat}

/-- The attributes of a tag stand where they were read. -/
theorem exists_place {lookUp : String → Option String} {c e : Cursor}
    (place : c = (Cursor.ofText text).drop o) {tag : StartTag}
    (read : StartTag.read c = .ok (tag, e)) {w : RawAttribute} (mem : w ∈ tag.attributes)
    {a : Attribute} (own : w.own? lookUp = some a) :
    ∃ place, o < place ∧ place < text.length ∧ a.StandsAt text lookUp place := by
  obtain ⟨x, after, ⟨k, -, rfl⟩, reads⟩ := (StartTag.places_of_read read).2 w mem
  rw [place, Cursor.drop_drop, Cursor.drop_drop, ← Nat.add_assoc] at reads
  obtain ⟨position, written, named⟩ := RawAttribute.position_of_read reads
  rw [Cursor.position_drop_ofText] at position
  have written : w.written = nameAt text (o + 1 + k) := written
  -- The name has a character, so the place is inside the text.
  have inside : o + 1 + k < text.length := by
    obtain ⟨first, here, -⟩ := RawAttribute.begins_of_read reads
    have here : (text.toList.drop (o + 1 + k)).head? = some first := here
    rw [List.head?_drop] at here
    exact (List.getElem?_eq_some_iff.1 here).1
  refine ⟨o + 1 + k, by omega, inside, (RawAttribute.position_of_own? own).trans position, ?_,
    w.value, ?_⟩
  · intro none
    rw [written, none] at named
    cases named
  · rw [← written, ← position]
    exact own

/-- **What was read at a spot stands at its offset.** -/
theorem standsAt (gives : s.Gives (.ofText text) (t.node id).toNodeBody)
    (place : s.cursor = (Cursor.ofText text).drop o)
    (lookUp : t.linkParents.lookUpNamespace id = declared? s.enclosing) :
    t.StandsAt text id o := by
  have rest : s.cursor.rest = text.toList.drop o := by
    rw [place]
    rfl
  have here : s.cursor.rest.head? = text.toList[o]? := by rw [rest, List.head?_drop]
  cases gives with
  | element own bracket read meant =>
    -- The declarations that the tag was read with are those that are looked up from the node.
    have known : ∀ key, t.linkParents.lookUpNamespace id key =
        (s.enclosing.map StartTag.declarations).findSome? (·.lookup key) := fun key => by
      rw [lookUp, List.findSome?_map]
      rfl
    have means := meantAs_of_body known meant
    obtain ⟨written, named⟩ := StartTag.written_of_read read
    rw [place, Cursor.drop_drop] at written
    have written : _ = nameAt text (o + 1) := written
    rw [Cursor.startsWith_bracket, beq_iff_eq, here] at bracket
    refine .tag (kind_of_body meant) bracket ?_ (written ▸ means.typeName) fun a mem => ?_
    · intro none
      rw [written, none] at named
      cases named
    · rw [means.attributes] at mem
      obtain ⟨w, mem, own⟩ := List.mem_filterMap.1 mem
      exact exists_place place read mem own
  | @characterData after piece read =>
    obtain ⟨content, through, is⟩ := readCharacterData_eq_ok_iff.1 read
    obtain ⟨cut, -⟩ := Cursor.through_eq_ok_iff.1 through
    have begins := List.isPrefixOf_iff_prefix.1 (startsWith_of_pieceAt.2.2.1 piece)
    have behind : (s.cursor.drop "<![CDATA[".length).rest =
        text.toList.drop (o + "<![CDATA[".length) := by
      rw [place, Cursor.drop_drop]
      rfl
    have inside : cutAt? "]]>".toList (text.toList.drop (o + "<![CDATA[".length)) =
        some ((String.ofList content).toList, after.rest) := by
      rw [← behind, cut, String.toList_ofList]
    exact .characterData (congrArg NodeBody.kind is) (rest ▸ begins) inside
  | @text before _ come markup filled piece read =>
    obtain ⟨-, ⟨-, none⟩ | ⟨-, decoded, decodes, is⟩⟩ := readText_eq_ok_iff.1 read
    · cases none
    obtain ⟨m, within, rfl⟩ := come
    -- The markup has a character, so it begins before the text does.
    have shorter := markup.onward.2
    rw [rest] at shorter
    have plain := (pieceAt_eq_text_iff filled).1 piece
    refine .text (congrArg NodeBody.kind (Option.some.inj is)) ?_ (place ▸ markup) (here ▸ plain) ?_
    · simp only [Cursor.drop, Cursor.ofText, List.length_drop] at shorter
      omega
    · rw [String.toList_ofList, ← rest]
      exact decodes

end Spot.Gives

/-! ## Documents -/

namespace NodeTree

variable {text : String} {t : NodeTree}

/-- What is looked up from the nodes of a document is what the tags around them declare. -/
theorem lookUp_ofForest {outer : StartTag} {body : NodeBody} {below : Forest}
    {ignorable : List String} {outline : List (List StartTag)}
    (meant : outer.body [outer.declarations] true = .ok (body, ignorable))
    (outlined : Outlined [outer] below outline) :
    List.Forall₂ (fun tags id =>
        (ofForest body below ignorable).linkParents.lookUpNamespace id = declared? tags)
      ([outer] :: outline) (List.range (ofForest body below ignorable).size) := by
  have proper := proper_ofForest body below ignorable
  have linked := linked_linkParents proper
  let t := ofForest body below ignorable
  -- Above the outermost node there is nothing to look up in.
  have top : t.linkParents.lookUpNamespace root = declared? [outer] := by
    funext key
    have own : (t.linkParents.node root).namespaces = outer.declarations :=
      (congrArg NodeBody.namespaces (body_linkParents proper root)).trans (namespaces_of_body meant)
    rw [lookUpNamespace, selfAndAncestors, linked.ancestors_root, declared?, List.findSome?_cons, own]
    rfl
  rw [size_ofForest, List.range_eq_range', List.range'_succ]
  exact .cons top (outlined.lookUp proper (map_node_ofForest body below ignorable) .top
    (fun _ mem => mem) top)

/-- **The nodes of a document are read at places in order**, and what is looked up from a node is what
the tags around its place declare. -/
theorem exists_spots_of_read (read : NodeTree.read text = .ok t) : ∃ spots : List Spot,
    List.Forall₂ (fun s id => s.Gives (.ofText text) (t.node id).toNodeBody) spots
      (List.range t.size) ∧
    List.Forall₂ (fun s id => t.linkParents.lookUpNamespace id = declared? s.enclosing) spots
      (List.range t.size) ∧
    ∃ start last, (Cursor.ofText text).Onward start ∧ start.Ordered last (spots.map (·.cursor)) := by
  obtain ⟨start, outer, inside, below, last, prologue, opened, content, rfl⟩ :=
    read_eq_ok_iff.1 read
  obtain ⟨reads, meant, scopes⟩ := readOpenTag_eq_ok_iff.1 opened
  obtain ⟨come, bracket⟩ := readPrologue_onward prologue
  have markup : start.Markup inside := .startTag bracket reads
  obtain ⟨further, shorter⟩ := markup.onward
  obtain ⟨spots, spotted, across⟩ : ∃ spots,
      Spotted (.ofText text) [outer.tag] inside below last spots ∧ inside.Onward last := by
    split at content
    case isTrue closed =>
      cases content
      exact ⟨[], ⟨.nil _, fun _ => .nil, .nil _ _⟩, .refl _⟩
    case isFalse =>
      rw [scopes] at content
      have content : readContent outer.tag ([outer.tag].map StartTag.declarations)
        inside.rest.length inside = .ok (below, last) := content
      obtain ⟨spots, spotted⟩ :=
        spotted_of_readContent content (come.trans further) (markup.behind come)
      exact ⟨spots, spotted, readContent_onward content⟩
  refine ⟨⟨start, [outer.tag]⟩ :: spots, ?_, ?_, start, last, come, ?_⟩
  · rw [size_ofForest, List.range_eq_range', List.range'_succ]
    refine .cons (.element rfl bracket reads meant) ?_
    have gives := spotted.gives 1
    rwa [← map_node_ofForest outer.body below outer.ignorable, List.forall₂_map_right_iff] at gives
  · have found : List.Forall₂ _ ((⟨start, [outer.tag]⟩ :: spots : List Spot).map (·.enclosing)) _ :=
      lookUp_ofForest meant spotted.outlined
    exact List.forall₂_map_left_iff.1 found
  · have ordered := Cursor.Ordered.cons shorter further spotted.ordered across (.nil last last) (.refl _)
    rwa [List.append_nil] at ordered

/--
**Positions that are reported are exact.** Every node of a document has an offset: it stands there as
it was written, its position is that of the offset, and the offsets increase from each node to the
next one in document order. A text that is no document is reported at an offset of it or at its end.
-/
theorem positions_of_read (text : String) :
    (∀ t, NodeTree.read text = .ok t → ∃ offset : NodeId → Nat,
      (∀ id, id < t.size → offset id < text.length ∧
        (t.node id).position = .ofOffset text (offset id) ∧ t.StandsAt text id (offset id)) ∧
      (t.preorder fun _ => false).Pairwise fun a b => offset a < offset b) ∧
    ∀ fault, NodeTree.read text = .error fault →
      ∃ o, o ≤ text.length ∧ fault.position = .ofOffset text o := by
  refine ⟨fun t read => ?_, fun fault failed => (passes_of_read_fault failed).exists_offset⟩
  obtain ⟨spots, gives, lookUps, start, last, come, ordered⟩ := exists_spots_of_read read
  obtain ⟨outer, below, ignorable, -, -, -, rfl⟩ := forest_of_read read
  have count := gives.length_eq
  rw [List.length_range] at count
  -- The offset of a node is told by what is left of the text where the node begins.
  let left (id : NodeId) : Nat := (spots[id]?).elim 0 (·.cursor.rest.length)
  have spot (id : NodeId) (inside : id < spots.length) :
      left id = spots[id].cursor.rest.length ∧ 0 < left id ∧ left id ≤ text.length ∧
        spots[id].cursor = (Cursor.ofText text).drop (text.length - left id) := by
    have is : left id = spots[id].cursor.rest.length := by
      simp only [left, List.getElem?_eq_getElem inside, Option.elim_some]
    obtain ⟨onward, further⟩ := ordered.between _ (List.mem_map.2 ⟨_, List.getElem_mem inside, rfl⟩)
    have onward := come.trans onward
    rw [is]
    exact ⟨rfl, by omega, onward.suffix.length_le, onward.eq_drop⟩
  refine ⟨fun id => text.length - left id, fun id inside => ?_, ?_⟩
  · rw [← count] at inside
    obtain ⟨-, some_, within, place⟩ := spot id inside
    rw [List.range_eq_range'] at gives lookUps
    have here := of_forall₂_range' gives (List.getElem?_eq_getElem inside)
    have lookUp := of_forall₂_range' lookUps (List.getElem?_eq_getElem inside)
    rw [Nat.zero_add] at here lookUp
    refine ⟨Nat.sub_lt (by omega) some_, ?_, here.standsAt place lookUp⟩
    rw [here.position_eq, place, Cursor.position_drop_ofText]
  · rw [preorder_ofForest, ← count]
    refine List.pairwise_lt_range.imp_of_mem fun {a b} memA memB less => ?_
    obtain ⟨isA, someA, withinA, -⟩ := spot a (List.mem_range.1 memA)
    obtain ⟨isB, someB, withinB, -⟩ := spot b (List.mem_range.1 memB)
    have descending := List.pairwise_iff_getElem.1 (List.pairwise_map.1 ordered.descending) a b
      (List.mem_range.1 memA) (List.mem_range.1 memB) less
    show text.length - left a < text.length - left b
    omega

/-- A text on two lines, a tag on two lines, and an end tag that is the wrong one. -/
theorem positions_of_read_lines :
    let text := "<a xmlns=\"u\">\n x<!-- -->\n<b\n c=\"1\"/></a>"
    let t : NodeTree := ⟨#[
      ⟨⟨.root, ⟨"u", "a"⟩, [], [], [("", "u")], ⟨1, 1⟩⟩, [1, 2], none⟩,
      ⟨.ofText "x" ⟨1, 14⟩, [], none⟩,
      ⟨⟨.element, ⟨"u", "b"⟩, [], [⟨⟨"", "c"⟩, .raw "1", ⟨4, 2⟩⟩], [], ⟨3, 1⟩⟩, [], none⟩], []⟩
    let broken := "<a>\n<b></a>"
    NodeTree.read text = .ok t ∧
      NodeTree.read broken = .error ⟨.mismatchedTags "b" "a", ⟨2, 4⟩⟩ ∧
      (∃ offset : NodeId → Nat, ∀ id, id < t.size →
        (t.node id).position = .ofOffset text (offset id) ∧ t.StandsAt text id (offset id)) ∧
      ∃ o, o ≤ broken.length ∧ (⟨2, 4⟩ : Position) = .ofOffset broken o := by
  intro text t broken
  have read : NodeTree.read text = .ok t := read_of_toOption (by decide +kernel)
  have failed : NodeTree.read broken = .error ⟨.mismatchedTags "b" "a", ⟨2, 4⟩⟩ := by
    decide +kernel
  obtain ⟨offset, each, -⟩ := (positions_of_read text).1 t read
  exact ⟨read, failed, ⟨offset, fun id inside => (each id inside).2⟩,
    (positions_of_read broken).2 _ failed⟩

end NodeTree

end MarkupLoader
