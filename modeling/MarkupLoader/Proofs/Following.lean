import MarkupLoader.Proofs.Locality

/-!
# What follows a document

A document ends with its outermost element. **Whatever follows a text that is a document**, the text
that it makes is the same document, at the same positions (`NodeTree.read_append`).

A cursor before a text that goes on (`Cursor.followedBy`) is moved as before by every part of the
reader that comes to an end inside the text, and ends before what is left with the same continuation.
Marks of several characters are looked for near the end of the text, where more characters might
complete one. There are two reasons why none is completed that counts:

* a part that reads up to a mark or a character **has come to it**, so that what was taken for
  no mark before had all its characters;
* a name, blanks or a text might go on where the text ends, but **something has to come after
  them**, so they have ended before.

Main results: `Cursor.span_followedBy`, `RawAttribute.readAll_followedBy`,
`readContent_followedBy`, `NodeTree.read_append`.
-/

namespace MarkupLoader

open Text

/-- A cut stays where it is if the text goes on. -/
theorem Text.cutAt?_append_right {mark s before after : List Char}
    (cut : cutAt? mark s = some (before, after)) (more : List Char) (marked : mark ≠ []) :
    cutAt? mark (s ++ more) = some (before, after ++ more) := by
  induction s generalizing before with
  | nil =>
    rw [cutAt?, if_neg (by simpa using marked)] at cut
    cases cut
  | cons c s ih =>
    rw [cutAt?] at cut
    rw [List.cons_append, cutAt?]
    split at cut
    case isTrue here =>
      obtain ⟨rfl, rfl⟩ := Prod.mk.inj (Option.some.inj cut)
      have begins := List.isPrefixOf_iff_prefix.1 here
      rw [← List.cons_append, if_pos (List.isPrefixOf_iff_prefix.2 (begins.trans ⟨more, rfl⟩)),
        List.drop_append_of_le_length begins.length_le]
    case isFalse later =>
      obtain ⟨⟨first, rest⟩, found, parts⟩ := Option.map_eq_some_iff.1 cut
      obtain ⟨rfl, rfl⟩ := Prod.mk.inj parts
      -- The mark comes later, and so there are as many characters here as it has.
      have long : mark.length ≤ (c :: s).length := by
        rw [eq_of_cutAt? found]
        simp only [List.length_cons, List.length_append]
        omega
      have same : mark.isPrefixOf (c :: (s ++ more)) = mark.isPrefixOf (c :: s) :=
        isPrefixOf_append long more
      rw [same, if_neg later, ih found]
      rfl

/-! ## Cursors -/

namespace Cursor

/-- A cursor before a text that goes on. -/
def followedBy (c : Cursor) (more : List Char) : Cursor := ⟨c.rest ++ more, c.position⟩

theorem ofText_append (text more : String) :
    ofText (text ++ more) = (ofText text).followedBy more.toList := by
  rw [ofText, String.toList_append]
  rfl

section Following

variable {c e : Cursor} (more : List Char)

theorem length_followedBy : c.rest.length ≤ (c.followedBy more).rest.length := by
  rw [followedBy, List.length_append]
  omega

theorem isEmpty_followedBy (filled : c.rest ≠ []) :
    (c.followedBy more).rest.isEmpty = false := by
  simp [followedBy, filled]

theorem current_followedBy (filled : c.rest ≠ []) : (c.followedBy more).current = c.current := by
  obtain ⟨first, others, is⟩ := List.exists_cons_of_ne_nil filled
  simp [current, followedBy, is]

theorem drop_followedBy {n : Nat} (within : n ≤ c.rest.length) :
    (c.followedBy more).drop n = (c.drop n).followedBy more := by
  simp [followedBy, drop, List.drop_append_of_le_length within,
    List.take_append_of_le_length within]

/-- A run of characters that ends inside the text ends there. -/
theorem span_followedBy {p : Char → Bool} (ended : (c.span p).2.rest ≠ []) :
    (c.followedBy more).span p = ((c.span p).1, (c.span p).2.followedBy more) := by
  have ended : c.rest.dropWhile p ≠ [] := ended
  have taken : (c.rest ++ more).takeWhile p = c.rest.takeWhile p := by
    rw [List.takeWhile_append, if_neg]
    intro whole
    have parts := congrArg List.length (List.takeWhile_append_dropWhile (p := p) (l := c.rest))
    rw [List.length_append, whole] at parts
    exact ended (List.eq_nil_of_length_eq_zero (by omega))
  have left : (c.rest ++ more).dropWhile p = c.rest.dropWhile p ++ more := by
    rw [List.dropWhile_append, if_neg (by simpa using ended)]
  simp only [span, followedBy, taken, left]

theorem skipBlanks_followedBy (ended : c.skipBlanks.rest ≠ []) :
    (c.followedBy more).skipBlanks = c.skipBlanks.followedBy more := by
  rw [skipBlanks, span_followedBy more ended]
  rfl

theorem readName_followedBy (ended : c.readName.2.rest ≠ []) :
    (c.followedBy more).readName = (c.readName.1, c.readName.2.followedBy more) := by
  rw [readName, span_followedBy more ended]
  rfl

theorem startsWith_followedBy {mark : String} (begins : c.startsWith mark = true) :
    (c.followedBy more).startsWith mark = true :=
  List.isPrefixOf_iff_prefix.2 ((List.isPrefixOf_iff_prefix.1 begins).trans ⟨more, rfl⟩)

theorem startsWith_followedBy_eq {mark : String} (long : mark.toList.length ≤ c.rest.length) :
    (c.followedBy more).startsWith mark = c.startsWith mark := isPrefixOf_append long more

/-- A mark that is not there is not there if another mark follows that has a character of its own. -/
theorem not_startsWith_followedBy {mark other : String} {skipped : List Char}
    (found : c.through mark = .ok (skipped, e)) (absent : ¬ c.startsWith other = true)
    (own : ¬ mark.toList ⊆ other.toList) : ¬ (c.followedBy more).startsWith other = true := by
  have whole := eq_of_cutAt? (through_eq_ok_iff.1 found).1
  unfold startsWith at absent ⊢
  rw [List.isPrefixOf_iff_prefix] at absent ⊢
  intro begins
  rcases List.prefix_or_prefix_of_prefix begins (List.prefix_append c.rest more) with inside | around
  · exact absent inside
  · exact own fun x mem => around.subset (by simp [whole, mem])

/-- What is left of something is left of more. -/
theorem ne_nil_of_suffix (further : e.rest <:+ c.rest) (filled : e.rest ≠ []) : c.rest ≠ [] :=
  fun none => filled (List.suffix_nil.1 (none ▸ further))

theorem ne_nil_of_startsWith {mark : String} (begins : c.startsWith mark = true)
    (marked : mark.toList ≠ []) : c.rest ≠ [] := fun none =>
  marked (List.prefix_nil.1 (none ▸ List.isPrefixOf_iff_prefix.1 begins))

theorem ne_nil_of_expect {wanted : Char} (ok : c.expect wanted = .ok e) : c.rest ≠ [] := by
  obtain ⟨here, -⟩ := expect_eq_ok_iff.1 ok
  intro none
  rw [none] at here
  cases here

theorem ne_nil_of_through {mark : String} {before : List Char} (marked : mark.toList ≠ [])
    (ok : c.through mark = .ok (before, e)) : c.rest ≠ [] := by
  rw [eq_of_cutAt? (through_eq_ok_iff.1 ok).1]
  simp [marked]

/-- If anything is left behind some characters, there are as many. -/
theorem le_length_of_drop {n : Nat} (left : (c.drop n).rest ≠ []) : n ≤ c.rest.length :=
  Nat.le_of_not_le fun beyond => left (List.drop_eq_nil_iff.2 beyond)

theorem expect_followedBy {wanted : Char} (ok : c.expect wanted = .ok e) :
    (c.followedBy more).expect wanted = .ok (e.followedBy more) := by
  have filled := ne_nil_of_expect ok
  obtain ⟨here, rfl⟩ := expect_eq_ok_iff.1 ok
  refine expect_eq_ok_iff.2 ⟨?_, (drop_followedBy more (List.length_pos_iff.2 filled)).symm⟩
  rwa [followedBy, List.head?_append_of_ne_nil _ filled]

theorem through_followedBy {mark : String} {before : List Char} (marked : mark.toList ≠ [])
    (ok : c.through mark = .ok (before, e)) :
    (c.followedBy more).through mark = .ok (before, e.followedBy more) := by
  obtain ⟨cut, place⟩ := through_eq_ok_iff.1 ok
  exact through_eq_ok_iff.2 ⟨cutAt?_append_right cut more marked, place⟩

end Following

end Cursor

/-! ## Tags -/

namespace RawAttribute

variable {c e : Cursor} (more : List Char)

theorem read_followedBy {a : RawAttribute} (ok : read c = .ok (a, e)) :
    read (c.followedBy more) = .ok (a, e.followedBy more) := by
  obtain ⟨sign, decoded, named, expected, quoted, ended, decodes, rfl, rfl⟩ := read_eq_ok_iff.1 ok
  -- Each part comes before another one, down to the quote behind the value.
  have atSign := Cursor.ne_nil_of_expect expected
  have atName := Cursor.ne_nil_of_suffix (Cursor.span_suffix _ _) atSign
  have inValue : ((sign.skipBlanks.drop 1).span (· != sign.skipBlanks.current)).2.rest ≠ [] := by
    simpa using ended
  have atValue := Cursor.ne_nil_of_suffix (Cursor.span_suffix _ _) inValue
  have one := Cursor.le_length_of_drop atValue
  have atQuote : sign.skipBlanks.rest ≠ [] := List.length_pos_iff.1 one
  have name := Cursor.readName_followedBy more atName
  have value := Cursor.span_followedBy more inValue
  rw [← Cursor.drop_followedBy more one, ← Cursor.skipBlanks_followedBy more atQuote] at value
  have quote : (sign.followedBy more).skipBlanks.current = sign.skipBlanks.current := by
    rw [Cursor.skipBlanks_followedBy more atQuote, Cursor.current_followedBy more atQuote]
  refine read_eq_ok_iff.2 ⟨sign.followedBy more, decoded, ?_, ?_, ?_⟩
  · rwa [name]
  · rw [name, Cursor.skipBlanks_followedBy more atSign]
    exact Cursor.expect_followedBy more expected
  · dsimp only
    rw [quote, value, name]
    refine ⟨quoted, Cursor.isEmpty_followedBy more inValue, decodes, rfl, ?_⟩
    exact (Cursor.drop_followedBy more (List.length_pos_iff.2 inValue)).symm

/-- Attributes are read up to the end of their tag. -/
theorem ending_of_readAll {tag : String} {opened : Position} {fuel : Nat}
    {seen attributes : List RawAttribute}
    (ok : readAll tag opened fuel seen c = .ok (attributes, e)) :
    (e.startsWith ">" || e.startsWith "/>") = true := by
  induction fuel generalizing seen c with
  | zero => cases ok
  | succ fuel ih =>
    rw [readAll] at ok
    dsimp only at ok
    split at ok
    · cases ok
    split at ok
    case isTrue ending =>
      cases ok
      exact ending
    case isFalse =>
      obtain ⟨⟨next, after⟩, -, ok⟩ := ok_of_bind ok
      dsimp only at ok
      split at ok
      · cases ok
      · exact ih ok

theorem ne_nil_of_ending (ending : (e.startsWith ">" || e.startsWith "/>") = true) :
    e.rest ≠ [] := by
  rcases (Bool.or_eq_true _ _).mp ending with begins | begins
  · exact Cursor.ne_nil_of_startsWith begins (by decide)
  · exact Cursor.ne_nil_of_startsWith begins (by decide)

/-- The end of a tag is the same if the text goes on. -/
theorem ending_followedBy (ending : (e.startsWith ">" || e.startsWith "/>") = true) :
    ((e.followedBy more).startsWith ">" || (e.followedBy more).startsWith "/>") = true ∧
      (e.followedBy more).startsWith "/>" = e.startsWith "/>" := by
  cases closed : e.startsWith "/>" with
  | true =>
    rw [Cursor.startsWith_followedBy more closed, Bool.or_true]
    exact ⟨rfl, rfl⟩
  | false =>
    rw [closed, Bool.or_false] at ending
    have ending' := Cursor.startsWith_followedBy more ending
    have other : ¬ (e.followedBy more).startsWith "/>" = true :=
      Cursor.not_startsWith_of_startsWith ending' (by decide)
    rw [ending', Bool.true_or]
    exact ⟨rfl, Bool.eq_false_iff.2 other⟩

theorem readAll_followedBy {tag : String} {opened : Position} {fuel fuel' : Nat}
    (enough : fuel ≤ fuel') {seen attributes : List RawAttribute}
    (ok : readAll tag opened fuel seen c = .ok (attributes, e)) :
    readAll tag opened fuel' seen (c.followedBy more) = .ok (attributes, e.followedBy more) := by
  induction fuel generalizing fuel' seen c with
  | zero => cases ok
  | succ fuel ih =>
    obtain ⟨fuel', rfl⟩ := Nat.exists_eq_succ_of_ne_zero (Nat.ne_zero_of_lt enough)
    rw [readAll] at ok ⊢
    dsimp only at ok ⊢
    split at ok
    · cases ok
    case isFalse filled =>
      have filled : c.skipBlanks.rest ≠ [] := by simpa using filled
      rw [Cursor.skipBlanks_followedBy more filled,
        if_neg (by simp [Cursor.isEmpty_followedBy more filled])]
      split at ok
      case isTrue ending =>
        cases ok
        rw [if_pos (ending_followedBy more ending).1]
      case isFalse =>
        obtain ⟨⟨next, after⟩, reads, ok⟩ := ok_of_bind ok
        have reads' := read_followedBy more reads
        -- An attribute begins with a name, which is no end of a tag.
        obtain ⟨first, here, name⟩ := begins_of_read reads'
        obtain ⟨opens, closes⟩ := not_ending_of_begins here name
        rw [opens, closes, reads']
        simp only [Bool.or_self, Bool.false_eq_true, if_false, bind, Except.bind]
        dsimp only at ok
        split at ok
        · cases ok
        case isFalse new =>
          rw [if_neg new]
          exact ih (Nat.le_of_succ_le_succ enough) ok

end RawAttribute

section Reading

variable {c e : Cursor} (more : List Char)

theorem StartTag.read_followedBy {t : StartTag} (ok : read c = .ok (t, e)) :
    read (c.followedBy more) = .ok (t, e.followedBy more) := by
  obtain ⟨_, _, _, begins, -, -⟩ := begins_of_read ok
  obtain ⟨attributes, last, named, reads, rfl, rfl⟩ := read_eq_ok_iff.1 ok
  -- Behind the name there is the end of the tag, and it has all its characters.
  have one : 1 ≤ c.rest.length := by
    rw [begins]
    exact Nat.le_add_left _ _
  have ending := RawAttribute.ending_of_readAll reads
  obtain ⟨-, closed⟩ := RawAttribute.ending_followedBy more ending
  have atEnd := RawAttribute.ne_nil_of_ending ending
  have name := Cursor.readName_followedBy more
    (Cursor.ne_nil_of_suffix (RawAttribute.readAll_suffix reads) atEnd)
  rw [← Cursor.drop_followedBy more one] at name
  refine read_eq_ok_iff.2 ⟨attributes, last.followedBy more, ?_, ?_, ?_, ?_⟩
  · rwa [name]
  · rw [name]
    exact RawAttribute.readAll_followedBy more (Cursor.length_followedBy more) reads
  · rw [name, closed]
    rfl
  · have within : RawAttribute.endingLength last ≤ last.rest.length := by
      unfold RawAttribute.endingLength
      split
      case isTrue closes => exact (List.isPrefixOf_iff_prefix.1 closes).length_le
      case isFalse => exact List.length_pos_iff.2 atEnd
    have long : RawAttribute.endingLength (last.followedBy more) =
        RawAttribute.endingLength last := by
      rw [RawAttribute.endingLength, RawAttribute.endingLength, closed]
    rw [long]
    exact (Cursor.drop_followedBy more within).symm

theorem readOpenTag_followedBy {scopes : Scopes} {outermost : Bool} {o : OpenTag}
    (ok : readOpenTag scopes outermost c = .ok (o, e)) :
    readOpenTag scopes outermost (c.followedBy more) = .ok (o, e.followedBy more) := by
  obtain ⟨read, meant, inner⟩ := readOpenTag_eq_ok_iff.1 ok
  exact readOpenTag_eq_ok_iff.2 ⟨StartTag.read_followedBy more read, meant, inner⟩

/-! ## Pieces of content -/

theorem readEndTag_followedBy {opened : String} (ok : readEndTag opened c = .ok e) :
    readEndTag opened (c.followedBy more) = .ok (e.followedBy more) := by
  obtain ⟨closed, expected⟩ := readEndTag_eq_ok_iff.1 ok
  -- The name and the blanks have ended, as the bracket comes behind them.
  have atEnd := Cursor.ne_nil_of_expect expected
  have atName := Cursor.ne_nil_of_suffix (Cursor.span_suffix _ _) atEnd
  have two := Cursor.le_length_of_drop (Cursor.ne_nil_of_suffix (Cursor.span_suffix _ _) atName)
  have name := Cursor.readName_followedBy more atName
  rw [← Cursor.drop_followedBy more two] at name
  refine readEndTag_eq_ok_iff.2 ⟨by rwa [name], ?_⟩
  rw [name, Cursor.skipBlanks_followedBy more atEnd]
  exact Cursor.expect_followedBy more expected

theorem readCharacterData_followedBy {n : NodeBody} (ok : readCharacterData c = .ok (n, e)) :
    readCharacterData (c.followedBy more) = .ok (n, e.followedBy more) := by
  obtain ⟨text, through, rfl⟩ := readCharacterData_eq_ok_iff.1 ok
  have inside := Cursor.le_length_of_drop (Cursor.ne_nil_of_through (by decide) through)
  refine readCharacterData_eq_ok_iff.2 ⟨text, ?_, rfl⟩
  rw [Cursor.drop_followedBy more inside]
  exact Cursor.through_followedBy more (by decide) through

theorem readText_followedBy {n : Option NodeBody} (ok : readText c = .ok (n, e))
    (ended : e.rest ≠ []) : readText (c.followedBy more) = .ok (n, e.followedBy more) := by
  obtain ⟨rfl, kept⟩ := readText_eq_ok_iff.1 ok
  have text := Cursor.span_followedBy more ended
  refine readText_eq_ok_iff.2 ?_
  rw [text]
  exact ⟨rfl, kept⟩

/-- A mark that is there still begins the piece that it began. -/
theorem pieceAt_followedBy_mark {mark : String} {piece : Piece}
    (marked : ∀ {c : Cursor}, c.startsWith mark = true → pieceAt c = piece)
    (begins : c.startsWith mark = true) : pieceAt (c.followedBy more) = piece :=
  marked (Cursor.startsWith_followedBy more begins)

theorem pieceAt_followedBy_text (filled : c.rest ≠ []) (piece : pieceAt c = .text) :
    pieceAt (c.followedBy more) = .text := by
  refine (pieceAt_eq_text_iff fun none => filled (List.append_eq_nil_iff.1 none).1).2 ?_
  rw [Cursor.followedBy, List.head?_append_of_ne_nil _ filled]
  exact (pieceAt_eq_text_iff filled).1 piece

/-- A bracket begins a tag if a character of a name comes behind it, and what follows comes later. -/
theorem pieceAt_followedBy_element {scopes : Scopes} {outermost : Bool} {o : OpenTag}
    (piece : pieceAt c = .element) (ok : readOpenTag scopes outermost c = .ok (o, e)) :
    pieceAt (c.followedBy more) = .element := by
  obtain ⟨first, others, begins, name, -⟩ := begins_of_element piece ok
  rw [Cursor.followedBy, begins]
  exact pieceAt_of_name name _

/-- Content is read up to its end tag, whatever follows it. -/
theorem readContent_followedBy {tag : StartTag} {scopes : Scopes} {fuel fuel' : Nat}
    (enough : fuel ≤ fuel') {f : Forest} (ok : readContent tag scopes fuel c = .ok (f, e)) :
    readContent tag scopes fuel' (c.followedBy more) = .ok (f, e.followedBy more) := by
  induction fuel generalizing fuel' tag scopes c e f with
  | zero => cases ok
  | succ fuel ih =>
    obtain ⟨fuel', rfl⟩ := Nat.exists_eq_succ_of_ne_zero (Nat.ne_zero_of_lt enough)
    have enough := Nat.le_of_succ_le_succ enough
    obtain ⟨filled, reads⟩ := readContent_eq_ok_iff.1 ok
    have filled : c.rest ≠ [] := by simpa using filled
    refine readContent_eq_ok_iff.2 ⟨Cursor.isEmpty_followedBy more filled, ?_⟩
    -- A text is followed by the rest of the content, so it has ended.
    have goesOn {after e : Cursor} {f : Forest}
        (rest : readContent tag scopes fuel after = .ok (f, e)) : after.rest ≠ [] := by
      cases fuel with
      | zero => cases rest
      | succ fuel => simpa using (readContent_eq_ok_iff.1 rest).1
    have marks {c : Cursor} := pieceAt_of_startsWith (c := c)
    have begins := startsWith_of_pieceAt (c := c)
    cases reads with
    | ending piece ended =>
      exact .ending (pieceAt_followedBy_mark more marks.1 (begins.1 piece))
        (readEndTag_followedBy more ended)
    | passed piece through rest =>
      have rest := ih enough rest
      obtain ⟨piece, rfl⟩ | ⟨piece, rfl⟩ := piece
      · exact .passed (.inl ⟨pieceAt_followedBy_mark more marks.2.1 (begins.2.1 piece), rfl⟩)
          (Cursor.through_followedBy more (by decide) through) rest
      · exact .passed (.inr ⟨pieceAt_followedBy_mark more marks.2.2.2 (begins.2.2.2.1 piece), rfl⟩)
          (Cursor.through_followedBy more (by decide) through) rest
    | characterData piece taken rest =>
      exact .characterData (pieceAt_followedBy_mark more marks.2.2.1 (begins.2.2.1 piece))
        (readCharacterData_followedBy more taken) (ih enough rest)
    | blank piece taken rest =>
      exact .blank (pieceAt_followedBy_text more filled piece)
        (readText_followedBy more taken (goesOn rest)) (ih enough rest)
    | text piece taken rest =>
      exact .text (pieceAt_followedBy_text more filled piece)
        (readText_followedBy more taken (goesOn rest)) (ih enough rest)
    | @element inner inside after _ children siblings piece opened below rest =>
      refine .element (pieceAt_followedBy_element more piece opened)
        (readOpenTag_followedBy more opened) ?_ (ih enough rest)
      split at below
      case isTrue closed =>
        cases below
        rw [if_pos closed]
        rfl
      case isFalse closed =>
        rw [if_neg closed]
        exact ih enough below

/-! ## Before the outermost element -/

/-- What is passed over has ended, and the beginning of a comment does not end a declaration. -/
theorem preamble_followedBy {opening closing : String} {skipped : List Char}
    (piece : c.Preamble opening closing) (through : c.through closing = .ok (skipped, e)) :
    (c.followedBy more).Preamble opening closing := by
  cases piece with
  | instruction begins => exact .instruction (Cursor.startsWith_followedBy more begins)
  | comment begins => exact .comment (Cursor.startsWith_followedBy more begins)
  | declaration begins noComment =>
    exact .declaration (Cursor.startsWith_followedBy more begins)
      (Cursor.not_startsWith_followedBy more through noComment (by decide))

/-- What comes before the first tag is passed over, if the tag goes on behind its bracket. -/
theorem readPrologue_followedBy {fuel fuel' : Nat} (enough : fuel ≤ fuel')
    (ok : readPrologue fuel c = .ok e) (begins : 2 ≤ e.rest.length) :
    readPrologue fuel' (c.followedBy more) = .ok (e.followedBy more) := by
  induction fuel generalizing fuel' c with
  | zero => cases ok
  | succ fuel ih =>
    obtain ⟨fuel', rfl⟩ := Nat.exists_eq_succ_of_ne_zero (Nat.ne_zero_of_lt enough)
    have enough := Nat.le_of_succ_le_succ enough
    have two : 2 ≤ c.skipBlanks.rest.length := Nat.le_trans begins (prologue_suffix ok).length_le
    have filled {c : Cursor} (long : 2 ≤ c.rest.length) : c.rest ≠ [] := by
      rintro none
      simp [none] at long
    have left {after : Cursor} (rest : readPrologue fuel after = .ok e) : after.rest ≠ [] :=
      filled (Nat.le_trans begins ((prologue_suffix rest).trans (Cursor.span_suffix _ _)).length_le)
    obtain ⟨-, reads⟩ := readPrologue_eq_ok_iff.1 ok
    rw [readPrologue_eq_ok_iff, Cursor.skipBlanks_followedBy more (filled two)]
    refine ⟨Cursor.isEmpty_followedBy more (filled two), ?_⟩
    -- There are two characters, so a mark of two characters is not completed by what follows.
    have same (mark : String) (short : mark.toList.length ≤ 2) :
        (c.skipBlanks.followedBy more).startsWith mark = c.skipBlanks.startsWith mark :=
      Cursor.startsWith_followedBy_eq more (Nat.le_trans short two)
    cases reads with
    | passed piece through rest =>
      exact .passed (preamble_followedBy more piece through)
        (Cursor.through_followedBy more piece.closing_ne_nil through) (ih enough rest)
    | tag bracket noInstruction noDeclaration here =>
      exact .tag (by rwa [same "<" (by decide)]) (by rwa [same "<?" (by decide)])
        (by rwa [same "<!" (by decide)]) (by rw [here])
    | stray noBracket rest =>
      refine .stray (by rwa [same "<" (by decide)]) ?_
      rw [Cursor.span_followedBy more (left rest)]
      exact ih enough rest

end Reading

/-! ## Documents -/

/-- **Only the first element matters**: whatever follows a document, the same document is read, with
the same positions. -/
theorem NodeTree.read_append {d : String} {t : NodeTree} (read : NodeTree.read d = .ok t)
    (more : String) : NodeTree.read (d ++ more) = .ok t := by
  obtain ⟨start, outer, inside, below, last, prologue, opened, content, rfl⟩ :=
    read_eq_ok_iff.1 read
  -- The bracket of the first tag and the first character of its name.
  have begins : 2 ≤ start.rest.length := by
    obtain ⟨_, _, others, is, -, -⟩ := StartTag.begins_of_read (readOpenTag_eq_ok_iff.1 opened).1
    rw [is]
    exact Nat.le_add_left 2 others.length
  refine read_eq_ok_iff.2 ⟨start.followedBy more.toList, outer, inside.followedBy more.toList, below,
    last.followedBy more.toList, ?_, readOpenTag_followedBy _ opened, ?_, rfl⟩
  · rw [Cursor.ofText_append]
    exact readPrologue_followedBy _ (Cursor.length_followedBy _) prologue begins
  · split at content
    case isTrue closed =>
      cases content
      rw [if_pos closed]
      rfl
    case isFalse closed =>
      rw [if_neg closed]
      exact readContent_followedBy _ (Cursor.length_followedBy _) content

/-- Behind the outermost element a comment begins that only what follows completes, and broken markup
comes after it. -/
theorem NodeTree.read_append_comment :
    let d := "<A xmlns=\"u\">\n<B X=\"1\"/>text</A><!-"
    let t : NodeTree := ⟨#[
      ⟨⟨.root, ⟨"u", "A"⟩, [], [], [("", "u")], ⟨1, 1⟩⟩, [1, 2], none⟩,
      ⟨⟨.element, ⟨"u", "B"⟩, [], [⟨⟨"", "X"⟩, .raw "1", ⟨2, 4⟩⟩], [], ⟨2, 1⟩⟩, [], none⟩,
      ⟨.ofText "text" ⟨2, 11⟩, [], none⟩], []⟩
    NodeTree.read d = .ok t ∧ NodeTree.read (d ++ "- </A> --></b><![CDATA[") = .ok t := by
  intro d t
  have read : NodeTree.read d = .ok t := ok_of_toOption (by decide +kernel)
  exact ⟨read, read_append read _⟩

end MarkupLoader
