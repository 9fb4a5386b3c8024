import MarkupLoader.Proofs.Resolution

/-!
# Reading undoes writing

Whatever way is taken to write markup, reading gives the document that the markup means, apart from
positions.

* **Content** is read piece by piece, each piece as the part of the content that it has been
  written for. The induction is on the way of writing; it is about every text that begins with
  what has been written and goes on with the closing tag.
* **Comments.** The end of a comment is looked for from its very beginning, so that `<!-->` and
  `<!--->` are taken for comments. A comment is gone over as a whole exactly if its body does not
  begin in such a way (`passedOver_iff`).

Main results: `readContent_of_writing`, `passedOver_iff`, `read_undoes_writing`.
-/

namespace MarkupLoader

open Text Markup

/-- The nodes of a forest at no place. -/
def Forest.unplaced : Forest → Forest
  | nil => nil
  | cons body children siblings => cons body.unplaced children.unplaced siblings.unplaced

/-- The nodes of a tree at no place. -/
def NodeTree.unplaced (t : NodeTree) : NodeTree :=
  { t with nodes := t.nodes.map fun n => { n with toNodeBody := n.toNodeBody.unplaced } }

/-! ## Comments -/

/-- A text that ends in a character begins in another before what does not have the character. -/
theorem prefix_of_prefix_append {s body tail : List Char} {c : Char} (free : c ∉ tail)
    (begins : s ++ [c] <+: body ++ tail) : s ++ [c] <+: body := by
  rcases List.prefix_or_prefix_of_prefix begins (List.prefix_append body tail) with
    inside | ⟨left, whole⟩
  · exact inside
  · rw [← whole] at begins ⊢
    have within : left <+: tail := (List.prefix_append_right_inj body).1 begins
    rcases List.eq_nil_or_concat left with rfl | ⟨front, d, rfl⟩
    · exact ⟨[], by simp⟩
    · -- The last character would be one of the tail.
      rw [List.concat_eq_append, ← List.append_assoc] at whole
      obtain rfl : d = c := List.singleton_inj.1 (List.append_inj' whole rfl).2
      have mem : d ∈ front.concat d := by simp
      exact absurd (within.subset mem) free

/-- A comment whose body is clear is gone over. -/
theorem through_comment {body : List Char} (comment : CommentBody body)
    (clear : CommentBody.Clear body) (rest : List Char) (p : Position) :
    (Cursor.mk ("<!--".toList ++ (body ++ ("-->".toList ++ rest))) p).through "-->" =
      .ok ("<!--".toList ++ body, ⟨rest, p.past ("<!--".toList ++ (body ++ "-->".toList))⟩) := by
  have first : ¬ "-->".toList <:+: ("<!--".toList ++ body) ++ "-->".toList.dropLast := by
    have inside : ¬ ['-', '-', '>'] <:+: body ++ ['-', '-'] := comment
    -- What the opening mark of the comment leaves of the end mark would begin the body.
    have late : ¬ [] ++ ['>'] <+: body ++ ['-', '-'] := fun begins =>
      clear.1 (prefix_of_prefix_append (by decide) begins)
    have later : ¬ ['-'] ++ ['>'] <+: body ++ ['-', '-'] := fun begins =>
      clear.2 (prefix_of_prefix_append (by decide) begins)
    show ¬ ['-', '-', '>'] <:+: '<' :: '!' :: '-' :: '-' :: (body ++ ['-', '-'])
    simp only [List.nil_append, List.cons_append] at late later
    simp [List.infix_cons_iff, List.cons_prefix_cons, inside, late, later]
  have cut := cutAt?_append first rest
  rw [List.append_assoc] at cut
  unfold Cursor.through Cursor.through?
  rw [cut, ← List.append_assoc]
  rfl

/-- Whether a comment is gone over as a whole, whatever follows it. -/
def CommentBody.PassedOver (body : List Char) : Prop :=
  ∀ (rest : List Char) (p : Position),
    ((Cursor.mk ("<!--".toList ++ (body ++ ("-->".toList ++ rest))) p).through "-->").map
      (·.2.rest) = .ok rest

/-- A comment is gone over as a whole exactly if its body is clear. -/
theorem passedOver_iff {body : List Char} (comment : CommentBody body) :
    CommentBody.PassedOver body ↔ CommentBody.Clear body := by
  constructor
  · intro passed
    -- Otherwise the comment ends early, and the rest of it is left.
    constructor
    · rintro ⟨left, rfl⟩
      have early : Except.ok (left ++ ("-->".toList ++ [])) = Except.ok [] := passed [] .start
      have lengths := congrArg List.length (Except.ok.inj early)
      simp at lengths
    · rintro ⟨left, rfl⟩
      have early : Except.ok (left ++ ("-->".toList ++ [])) = Except.ok [] := passed [] .start
      have lengths := congrArg List.length (Except.ok.inj early)
      simp at lengths
  · intro clear rest p
    rw [through_comment comment clear]
    rfl

/-! ## Pieces of content -/

section Pieces

variable {tag : StartTag} {scopes : Scopes} {fuel : Nat} {p : Position}

theorem pieceAt_of_not_lt {c : Char} (ne : '<' ≠ c) (rest : List Char) :
    pieceAt ⟨c :: rest, p⟩ = .text := by
  unfold pieceAt
  rw [Cursor.startsWith_cons_of_ne rfl ne, Cursor.startsWith_cons_of_ne rfl ne,
    Cursor.startsWith_cons_of_ne rfl ne, Cursor.startsWith_cons_of_ne rfl ne,
    Cursor.startsWith_cons_of_ne rfl ne]
  rfl

/-- A character that may stand in a name is none that may not. -/
theorem ne_of_isNameChar {c d : Char} (name : isNameChar c = true) (other : isNameChar d = false) :
    d ≠ c := by
  rintro rfl
  rw [name] at other
  cases other

/-- A tag begins an element. -/
theorem pieceAt_of_name {c : Char} (name : isNameChar c = true) (rest : List Char) :
    pieceAt ⟨'<' :: c :: rest, p⟩ = .element := by
  have slash := ne_of_isNameChar name (show isNameChar '/' = false by decide)
  have mark := ne_of_isNameChar name (show isNameChar '!' = false by decide)
  have question := ne_of_isNameChar name (show isNameChar '?' = false by decide)
  unfold pieceAt
  rw [Cursor.startsWith_cons_cons_of_ne rfl slash, Cursor.startsWith_cons_cons_of_ne rfl mark,
    Cursor.startsWith_cons_cons_of_ne rfl mark, Cursor.startsWith_cons_cons_of_ne rfl question]
  rfl

/-- A comment whose body is clear is passed over. -/
theorem readContent_comment {body : List Char} (comment : CommentBody body)
    (clear : CommentBody.Clear body) (rest : List Char) :
    readContent tag scopes (fuel + 1) ⟨"<!--".toList ++ (body ++ ("-->".toList ++ rest)), p⟩ =
      readContent tag scopes fuel
        ⟨rest, p.past ("<!--".toList ++ (body ++ "-->".toList))⟩ := by
  have through := through_comment comment clear rest p
  have piece : pieceAt ⟨"<!--".toList ++ (body ++ ("-->".toList ++ rest)), p⟩ = .comment := rfl
  rw [readContent, piece]
  simp only [through, bind, Except.bind]
  rfl

/-- A text loses nothing but the way in which it is written. -/
theorem readText_of_writing {text : String} {v : List Char} (writing : TextWriting text v)
    (nonempty : text ≠ "") {rest : List Char} (next : rest.head? = some '<') :
    v ≠ [] ∧ '<' ∉ v ∧
      readText ⟨v ++ rest, p⟩ = .ok (some (.ofText text p), ⟨rest, p.past v⟩) := by
  have plain : ∀ c, c ≠ '&' ∧ c ≠ '<' → c ≠ '&' := fun _ allowed => allowed.1
  have decoded := decodeAt_of_spelling plain writing.spelling p
  have unmarked : '<' ∉ v :=
    not_mem_spelling writing.spelling (by decide) fun allowed => allowed.2 rfl
  have kept : v ≠ [] := by
    rintro rfl
    have nothing : Except.ok [] = Except.ok text.toList :=
      Reference.decode_of_spelling plain writing.spelling
    exact nonempty (String.toList_eq_nil_iff.1 (Except.ok.inj nothing).symm)
  have inside : ∀ c ∈ v, (c != '<') = true := by
    intro c mem
    exact bne_iff_ne.2 fun same => unmarked (same ▸ mem)
  have ends : ∀ c ∈ rest.head?, (c != '<') = false := by
    rw [next]
    rintro _ ⟨⟩
    rfl
  refine ⟨kept, unmarked, ?_⟩
  unfold readText
  rw [Cursor.span_append inside ends]
  dsimp only
  rw [trim_eq_self writing.first writing.last, if_neg (by simpa using kept), decoded]
  rfl

/-- A text is read as a node of its own. -/
theorem readContent_text {text : String} {v : List Char} (writing : TextWriting text v)
    (nonempty : text ≠ "") {rest : List Char} (next : rest.head? = some '<') :
    readContent tag scopes (fuel + 1) ⟨v ++ rest, p⟩ =
      (readContent tag scopes fuel ⟨rest, p.past v⟩).map fun found =>
        (.cons (.ofText text p) .nil found.1, found.2) := by
  obtain ⟨kept, unmarked, read⟩ := readText_of_writing (p := p) writing nonempty next
  obtain ⟨c, others, rfl⟩ := List.exists_cons_of_ne_nil kept
  have ne : '<' ≠ c := List.ne_of_not_mem_cons unmarked
  have piece : pieceAt ⟨c :: others ++ rest, p⟩ = .text := pieceAt_of_not_lt ne _
  rw [readContent, piece]
  simp only [read, bind, Except.bind]
  cases readContent tag scopes fuel ⟨rest, p.past (c :: others)⟩ <;> rfl

/-- The closing tag of an element ends its content. -/
theorem readContent_ending {n : Name} (valid : n.Valid)
    (written : tag.written = String.ofList n.written) {after : List Char} (blank : Blank after)
    (rest : List Char) :
    readContent tag scopes (fuel + 1) ⟨"</".toList ++ (n.written ++ (after ++ '>' :: rest)), p⟩ =
      .ok (.nil, ⟨rest, p.past ("</".toList ++ (n.written ++ (after ++ ['>'])))⟩) := by
  have piece : pieceAt ⟨"</".toList ++ (n.written ++ (after ++ '>' :: rest)), p⟩ = .ending := rfl
  have opened : (Cursor.mk ("</".toList ++ (n.written ++ (after ++ '>' :: rest))) p).drop 2 =
      ⟨n.written ++ (after ++ '>' :: rest), p.past ['<', '/']⟩ := rfl
  have afterName := head?_blank_append blank (fun _ => isNameChar_of_isBlank)
    (show isNameChar '>' = false by decide) rest
  have notBlank : ∀ c ∈ ('>' :: rest).head?, isBlank c = false := by
    rintro _ ⟨⟩
    decide
  rw [readContent, piece]
  unfold readEndTag
  rw [opened, Cursor.readName_append valid.chars afterName, written]
  simp only [ne_eq, not_true_eq_false, if_false, Cursor.skipBlanks_append blank notBlank,
    Cursor.expect_cons, bind, Except.bind, ← Position.past_append]
  simp only [List.append_assoc]
  rfl

/-- An element is read to its end, and then its siblings. -/
theorem readContent_element {c : Char} {others : List Char} (name : isNameChar c = true)
    {o : OpenTag} {inside after : Cursor} {below : Forest}
    (opened : readOpenTag scopes false ⟨'<' :: c :: others, p⟩ = .ok (o, inside))
    (read : (if o.tag.closed then pure (.nil, inside)
      else readContent o.tag o.scopes fuel inside) = .ok (below, after)) :
    readContent tag scopes (fuel + 1) ⟨'<' :: c :: others, p⟩ =
      (readContent tag scopes fuel after).map fun found =>
        (.cons o.body below found.1, found.2) := by
  rw [readContent, pieceAt_of_name name]
  simp only [opened, bind, Except.bind, List.isEmpty_cons, Bool.false_eq_true, if_false]
  by_cases closed : o.tag.closed = true
  · rw [if_pos closed] at read ⊢
    cases read
    dsimp only [pure, Except.pure]
    cases readContent tag scopes fuel inside <;> rfl
  · rw [if_neg closed] at read ⊢
    rw [read]
    dsimp only
    cases readContent tag scopes fuel after <;> rfl

/-! ## Elements -/

/-- What a start tag with the content after it is read as. -/
structure Opens (t : Tag) (b : Bindings) (outermost closed : Bool) (o : OpenTag) : Prop where
  closed : o.tag.closed = closed
  written : o.tag.written = String.ofList t.name.written
  body : o.body.unplaced = t.body (b.within t.declarations) outermost
  ignorable : o.ignorable = t.marks.flatMap (·.ignorable (b.within t.declarations))
  agrees : (b.within t.declarations).Agrees o.scopes

theorem readOpenTag_of_writings {b : Bindings} {t : Tag} {outermost : Bool}
    (agrees : b.Agrees scopes) (valid : t.Valid (b.within t.declarations) outermost)
    {marks before : List Char} (writings : Mark.Writings t.marks marks) (blank : Blank before)
    (closed : Bool) (rest : List Char) :
    let w := '<' :: (t.name.written ++ (marks ++ (before ++ StartTag.ending closed)))
    ∃ o, readOpenTag scopes outermost ⟨w ++ rest, p⟩ = .ok (o, ⟨rest, p.past w⟩) ∧
      Opens t b outermost closed o := by
  intro w
  have names : ∀ m ∈ t.marks, m.name.Valid := fun m mem => (valid.marks m mem).name
  obtain ⟨read, run, reads, isClosed⟩ := StartTag.read_of_writings p rest writings blank valid.name
    names valid.apart closed
  have declared : read.declarations = t.declarations :=
    StartTag.declarations_of_reads reads valid.marks
  have inner : (b.within t.declarations).Agrees (read.declarations :: scopes) :=
    declared ▸ agrees.within t.declarations
  obtain ⟨body, meant, unplaced⟩ := StartTag.body_of_reads inner valid reads
  refine ⟨⟨read, body, t.marks.flatMap (·.ignorable (b.within t.declarations)),
    read.declarations :: scopes⟩, ?_, isClosed, reads.written, unplaced, rfl, inner⟩
  unfold readOpenTag
  simp only [run, meant, bind, Except.bind, w]
  rfl

end Pieces

/-- What is written as `w` is read as `content`, whatever element it is in. -/
def ReadsContent (b : Bindings) (content : Content) (w : List Char) : Prop :=
  ∀ {scopes : Scopes} {tag : StartTag} {n : Name} {after : List Char} {fuel : Nat}
    (p : Position) (rest : List Char), b.Agrees scopes → n.Valid →
    tag.written = String.ofList n.written → Blank after → w.length < fuel →
    ∃ forest, readContent tag scopes fuel
        ⟨w ++ ("</".toList ++ (n.written ++ (after ++ '>' :: rest))), p⟩ =
      .ok (forest, ⟨rest, p.past (w ++ ("</".toList ++ (n.written ++ (after ++ ['>']))))⟩) ∧
      forest.unplaced = content.forest b

/-- An element begins with its name, and is longer than what is in it. -/
theorem Markup.Tag.Writing.begins {t : Tag} {content : Content} {inner v : List Char}
    (writing : t.Writing content inner v) (name : t.name.Valid) :
    ∃ c others, v = '<' :: c :: others ∧ isNameChar c = true ∧ inner.length + 2 ≤ v.length := by
  obtain ⟨c, others, written⟩ := List.exists_cons_of_ne_nil name.nonempty
  have nameChar : isNameChar c = true := name.chars c (written ▸ List.mem_cons_self)
  cases writing with
  | single =>
    rw [written]
    exact ⟨c, _, rfl, nameChar, by simp⟩
  | pair =>
    rw [written]
    refine ⟨c, _, rfl, nameChar, ?_⟩
    simp only [List.length_cons, List.length_append]
    omega

/-- An element is read from its first tag to its last. -/
theorem readElement_of_writing {b : Bindings} {scopes : Scopes} {t : Tag} {content : Content}
    {inner v : List Char} {outermost : Bool} (agrees : b.Agrees scopes)
    (valid : t.Valid (b.within t.declarations) outermost)
    (reads : ReadsContent (b.within t.declarations) content inner)
    (writing : t.Writing content inner v) (p : Position) (rest : List Char) :
    ∃ o inside, readOpenTag scopes outermost ⟨v ++ rest, p⟩ = .ok (o, inside) ∧
      Opens t b outermost o.tag.closed o ∧
      (o.tag.closed = false → inner.length < inside.rest.length) ∧
      ∀ fuel, (o.tag.closed = false → inner.length < fuel) →
        ∃ forest, (if o.tag.closed then pure (.nil, inside)
            else readContent o.tag o.scopes fuel inside) = .ok (forest, ⟨rest, p.past v⟩) ∧
          forest.unplaced = content.forest (b.within t.declarations) := by
  cases writing with
  | @single marks before writings blank =>
    obtain ⟨o, run, opens⟩ :=
      readOpenTag_of_writings (p := p) agrees valid writings blank true rest
    refine ⟨o, _, run, opens.closed.symm ▸ opens, ?_, ?_⟩
    · rw [opens.closed]
      exact fun isClosed => nomatch isClosed
    · intro fuel _
      rw [if_pos opens.closed]
      exact ⟨.nil, rfl, rfl⟩
  | @pair _ _ marks before after writings blank =>
    have text : '<' :: (t.name.written ++ (marks ++ (before ++ '>' :: (inner ++ ("</".toList ++
        (t.name.written ++ (after ++ ['>']))))))) ++ rest =
        '<' :: (t.name.written ++ (marks ++ (before ++ StartTag.ending false))) ++ (inner ++
          ("</".toList ++ (t.name.written ++ (after ++ '>' :: rest)))) := by
      simp [StartTag.ending]
    obtain ⟨o, run, opens⟩ := readOpenTag_of_writings (p := p) agrees valid writings blank.1 false
      (inner ++ ("</".toList ++ (t.name.written ++ (after ++ '>' :: rest))))
    refine ⟨o, _, (congrArg _ (congrArg (Cursor.mk · p) text)).trans run,
      opens.closed.symm ▸ opens, ?_, ?_⟩
    · intro _
      simp
    · intro fuel enough
      obtain ⟨forest, read, unplaced⟩ := reads
        (p.past ('<' :: (t.name.written ++ (marks ++ (before ++ StartTag.ending false))))) rest
        opens.agrees valid.name opens.written blank.2 (enough opens.closed)
      refine ⟨forest, ?_, unplaced⟩
      rw [if_neg (by rw [opens.closed]; decide), read, ← Position.past_append]
      simp [StartTag.ending]

/-! ## Content -/

/-- A content that is written in some way is read as what it means, if its comments are clear. -/
theorem readContent_of_writing {comment : List Char → Prop}
    (clear : ∀ body, comment body → CommentBody body ∧ CommentBody.Clear body)
    {content : Content} {w : List Char} (writing : content.Writing comment w) :
    ∀ {b : Bindings}, content.Valid b → ReadsContent b content w := by
  induction writing with
  | nil =>
    intro b _ scopes tag n after fuel p rest _ name written blank enough
    obtain ⟨fuel, rfl⟩ := Nat.exists_eq_succ_of_ne_zero (Nat.ne_of_gt enough)
    exact ⟨.nil, readContent_ending name written blank rest, rfl⟩
  | @comment body w content holds _ ih =>
    intro b valid scopes tag n after fuel p rest agrees name written blank enough
    obtain ⟨fuel, rfl⟩ := Nat.exists_eq_succ_of_ne_zero (Nat.ne_zero_of_lt enough)
    obtain ⟨isBody, isClear⟩ := clear body holds
    have left : w.length < fuel := by
      simp only [List.length_append] at enough
      have : "<!--".toList.length = 4 := rfl
      omega
    obtain ⟨forest, read, unplaced⟩ := ih valid
      (p.past ("<!--".toList ++ (body ++ "-->".toList))) rest agrees name written blank left
    refine ⟨forest, ?_, unplaced⟩
    simp only [List.append_assoc]
    rw [readContent_comment isBody isClear, read, ← Position.past_append]
    simp only [List.append_assoc]
  | @text text v w siblings writing apart _ ih =>
    intro b valid scopes tag n after fuel p rest agrees name written blank enough
    obtain ⟨fuel, rfl⟩ := Nat.exists_eq_succ_of_ne_zero (Nat.ne_zero_of_lt enough)
    obtain ⟨nonempty, validLater⟩ := valid
    -- What follows the text is other markup, or the closing tag.
    have next : (w ++ ("</".toList ++ (n.written ++ (after ++ '>' :: rest)))).head? = some '<' := by
      cases w with
      | nil => rfl
      | cons c w => exact congrArg some (apart c rfl)
    have left : w.length < fuel := by
      have := List.length_pos_of_ne_nil
        (readText_of_writing (p := p) writing nonempty next).1
      rw [List.length_append] at enough
      omega
    obtain ⟨forest, read, unplaced⟩ := ih validLater (p.past v) rest agrees name written blank left
    refine ⟨.cons (.ofText text p) .nil forest, ?_, ?_⟩
    · rw [List.append_assoc, readContent_text writing nonempty next, read, List.append_assoc,
        ← Position.past_append]
      rfl
    · rw [Forest.unplaced, unplaced]
      rfl
  | @element t children siblings inner v w _ writing _ insideReads ih =>
    intro b valid scopes tag n after fuel p rest agrees name written blank enough
    obtain ⟨fuel, rfl⟩ := Nat.exists_eq_succ_of_ne_zero (Nat.ne_zero_of_lt enough)
    obtain ⟨validTag, validChildren, validLater⟩ := valid
    obtain ⟨c, others, begins, nameChar, longer⟩ := writing.begins validTag.name
    rw [List.length_append] at enough
    obtain ⟨o, inside, opened, opens, -, reads⟩ := readElement_of_writing agrees validTag
      (insideReads validChildren) writing p
      (w ++ ("</".toList ++ (n.written ++ (after ++ '>' :: rest))))
    obtain ⟨below, read, belowUnplaced⟩ := reads fuel fun _ => by omega
    obtain ⟨forest, readLater, unplaced⟩ := ih validLater (p.past v) rest agrees name written blank
      (show w.length < fuel by omega)
    refine ⟨.cons o.body below forest, ?_, ?_⟩
    · rw [List.append_assoc, List.append_assoc]
      rw [begins, List.cons_append, List.cons_append] at opened ⊢
      rw [readContent_element nameChar opened read, readLater, ← begins, ← Position.past_append]
      rfl
    · rw [Forest.unplaced, opens.body, belowUnplaced, unplaced]
      rfl

/-! ## Documents -/

/-- A document that begins with its outermost element has nothing before it. -/
theorem readPrologue_of_name {c : Char} (name : isNameChar c = true) (others : List Char)
    (fuel : Nat) (p : Position) :
    readPrologue (fuel + 1) ⟨'<' :: c :: others, p⟩ = .ok ⟨'<' :: c :: others, p⟩ := by
  have mark := ne_of_isNameChar name (show isNameChar '!' = false by decide)
  have question := ne_of_isNameChar name (show isNameChar '?' = false by decide)
  have here : (Cursor.mk ('<' :: c :: others) p).skipBlanks = ⟨'<' :: c :: others, p⟩ := rfl
  rw [readPrologue, here, Cursor.startsWith_cons_cons_of_ne rfl question,
    Cursor.startsWith_cons_cons_of_ne rfl mark, Cursor.startsWith_cons_cons_of_ne rfl mark]
  rfl

namespace Forest

variable (f : Forest)

theorem size_unplaced : f.unplaced.size = f.size := by
  induction f with
  | nil => rfl
  | cons body children siblings below after => rw [unplaced, size, size, below, after]

theorem roots_unplaced : ∀ base, f.unplaced.roots base = f.roots base := by
  induction f with
  | nil => exact fun _ => rfl
  | cons body children siblings _ after =>
    intro base
    rw [unplaced, roots, roots, after, size_unplaced]

/-- Laying out does not look at positions. -/
theorem nodes_unplaced : ∀ base, f.unplaced.nodes base =
    (f.nodes base).map fun n => { n with toNodeBody := n.toNodeBody.unplaced } := by
  induction f with
  | nil => exact fun _ => rfl
  | cons body children siblings below after =>
    intro base
    rw [unplaced, nodes, nodes, below, after, roots_unplaced, size_unplaced, List.map_cons,
      List.map_append]

end Forest

theorem NodeTree.unplaced_ofForest (body : NodeBody) (below : Forest) (ignorable : List String) :
    (ofForest body below ignorable).unplaced =
      ofForest body.unplaced below.unplaced ignorable := by
  unfold ofForest unplaced
  rw [below.nodes_unplaced, below.roots_unplaced]
  simp

namespace Markup.Document

/-- Markup that is written in some way with clear comments is read as what it means. -/
theorem read_of_clear {d : Document} (valid : d.Valid) {comment : List Char → Prop}
    (clear : ∀ body, comment body → CommentBody body ∧ CommentBody.Clear body) {w : List Char}
    (writing : d.Writing comment w) :
    ∃ tree, NodeTree.read (String.ofList w) = .ok tree ∧ tree.unplaced = d.tree := by
  obtain ⟨validTag, validContent⟩ := valid
  cases writing with
  | @intro inner _ inside element =>
    have reads : ReadsContent d.bindings d.content inner :=
      readContent_of_writing clear inside validContent
    obtain ⟨c, others, begins, nameChar, -⟩ := element.begins validTag.name
    obtain ⟨o, inside, opened, opens, enough, below⟩ :=
      readElement_of_writing Bindings.agrees_nil validTag reads element .start []
    obtain ⟨forest, read, unplaced⟩ := below _ enough
    refine ⟨.ofForest o.body forest o.ignorable, ?_, ?_⟩
    · have beginning : Cursor.ofText (String.ofList w) = ⟨'<' :: c :: others, .start⟩ := by
        rw [Cursor.ofText, String.toList_ofList, begins]
      rw [List.append_nil, begins] at opened
      unfold NodeTree.read
      rw [beginning]
      simp only [List.length_cons, readPrologue_of_name nameChar, opened, bind, Except.bind]
      by_cases closed : o.tag.closed = true
      · rw [if_pos closed] at read ⊢
        cases read
        rfl
      · rw [if_neg closed] at read ⊢
        rw [read]
        rfl
    · rw [NodeTree.unplaced_ofForest, opens.body, opens.ignorable, unplaced]
      rfl

/--
**Reading undoes writing.** Markup that means something is read from any way to write it, and what
is read is the document that it means, apart from positions, if the comments in it are clear. These
are exactly the comments that are gone over as a whole.
-/
theorem read_undoes_writing {d : Document} (valid : d.Valid) {comment : List Char → Prop}
    (bodies : ∀ body, comment body → CommentBody body) {w : List Char}
    (writing : d.Writing comment w) :
    ((∀ body, comment body → CommentBody.Clear body) →
        ∃ tree, NodeTree.read (String.ofList w) = .ok tree ∧ tree.unplaced = d.tree) ∧
      ∀ body, comment body → (CommentBody.PassedOver body ↔ CommentBody.Clear body) := by
  refine ⟨fun clear => ?_, fun body holds => passedOver_iff (bodies body holds)⟩
  exact read_of_clear valid (fun body holds => ⟨bodies body holds, clear body holds⟩) writing

/-- An element with two texts in it. -/
def texts : Document := ⟨⟨⟨none, "A"⟩, []⟩, .text "x" (.text "y" .nil)⟩

theorem valid_texts : texts.Valid := by
  have unbound : texts.tag.name.Bound texts.bindings := by
    intro qualifier mem
    cases mem
  have chars : ∀ c ∈ ['A'], isNameChar c = true := List.forall_mem_singleton.2 (by decide)
  exact ⟨⟨⟨by decide, chars, by decide⟩, unbound, List.forall_mem_nil _, .nil⟩, by decide, by decide,
    trivial⟩

/-- Any comment may keep the texts apart. -/
theorem writing_texts (comment : List Char → Prop) {body : List Char} (holds : comment body) :
    texts.Writing comment ("<A>x<!--".toList ++ (body ++ "-->y</A>".toList)) := by
  have spelled : ∀ c, c ≠ '&' ∧ c ≠ '<' → isBlank c = false →
      TextWriting (String.ofList [c]) [c] := by
    intro c bare notBlank
    refine ⟨?_, ?_, ?_⟩
    · rw [String.toList_ofList]
      exact .bare bare .nil
    · rintro _ ⟨⟩
      exact notBlank
    · rintro _ ⟨⟩
      exact notBlank
  have last : Content.Writing comment (.text "y" .nil) ['y'] :=
    .text (spelled 'y' (by decide) (by decide)) (by rintro _ ⟨⟩) .nil
  have first : Content.Writing comment texts.content
      ('x' :: ("<!--".toList ++ (body ++ ("-->".toList ++ ['y'])))) :=
    .text (spelled 'x' (by decide) (by decide)) (by rintro _ ⟨⟩; rfl) (.comment holds last)
  have blank : Blank [] := List.forall_mem_nil _
  obtain ⟨w, writing, same⟩ : ∃ w, texts.Writing comment w ∧
      w = "<A>x<!--".toList ++ (body ++ "-->y</A>".toList) := by
    refine ⟨_, .intro first (.pair .nil ⟨blank, blank⟩), ?_⟩
    simp [texts, Name.written]
  rwa [← same]

/-- A comment with a blank in it keeps two texts apart. -/
theorem read_undoes_writing_texts :
    let w := "<A>x<!--".toList ++ ([' '] ++ "-->y</A>".toList)
    texts.Valid ∧ (∀ body, body = [' '] → CommentBody body) ∧ texts.Writing (· = [' ']) w ∧
      (∀ body, body = [' '] → CommentBody.Clear body) ∧
      ∃ tree, NodeTree.read (String.ofList w) = .ok tree ∧ tree.unplaced = texts.tree := by
  intro w
  have comment : ∀ body, body = [' '] → CommentBody body := by
    rintro _ rfl
    unfold CommentBody
    decide
  have clear : ∀ body, body = [' '] → CommentBody.Clear body := by
    rintro _ rfl
    unfold CommentBody.Clear
    decide
  have writing : texts.Writing (· = [' ']) w := writing_texts _ rfl
  exact ⟨valid_texts, comment, writing, clear,
    (read_undoes_writing valid_texts comment writing).1 clear⟩

/-- A comment that begins with a greater-than sign is taken to end there. -/
theorem misread_texts :
    let w := "<A>x<!--".toList ++ (['>'] ++ "-->y</A>".toList)
    texts.Valid ∧ texts.Writing CommentBody w ∧
      ¬ ∃ tree, NodeTree.read (String.ofList w) = .ok tree ∧ tree.unplaced = texts.tree := by
  intro w
  have comment : CommentBody ['>'] := by
    unfold CommentBody
    decide
  refine ⟨valid_texts, writing_texts CommentBody comment, ?_⟩
  rintro ⟨tree, read, same⟩
  have other : (NodeTree.read (String.ofList w)).toOption.map (·.unplaced) ≠ some texts.tree := by
    decide +kernel
  rw [read] at other
  exact other (congrArg some same)

end Markup.Document

end MarkupLoader
