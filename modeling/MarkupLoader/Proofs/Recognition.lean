import Mathlib.Data.List.Forall2
import MarkupLoader.Document.Reader
import MarkupLoader.Proofs.Rendering

/-!
# Reading what has been written

What the parts of a reader make of texts that have been written in one of the ways of
`Proofs/Rendering`, whatever follows them.

* **A cursor** before a text that it goes over as a whole is left behind that text, at the
  position past it.
* **Characters.** Every spelling of a text decodes to it.
* **Tags.** A tag is read with all its marks in order.

Main results: `decode_of_spelling`, `read_of_writing`, `readAll_of_writings`.
-/

namespace MarkupLoader

open Text Markup

/-! ## Blanks and names -/

/-- No blank may stand in a name. -/
theorem Text.isNameChar_of_isBlank {c : Char} (blank : isBlank c = true) :
    isNameChar c = false := by
  have codes : ∀ n ∈ [9, 10, 11, 12, 13, 0x20, 0x85, 0xa0, 0x1680, 0x2000, 0x2001, 0x2002, 0x2003,
      0x2004, 0x2005, 0x2006, 0x2007, 0x2008, 0x2009, 0x200a, 0x2028, 0x2029, 0x202f, 0x205f,
      0x3000], isNameChar (Char.ofNat n) = false := by decide +kernel
  have known := codes c.toNat
  rw [Char.ofNat_toNat] at known
  refine known ?_
  simp only [isBlank, Bool.or_eq_true, Bool.and_eq_true, decide_eq_true_eq, beq_iff_eq] at blank
  simp only [List.mem_cons, List.not_mem_nil, or_false]
  omega

section Spans

variable {s rest : List Char} {f : Char → Bool}

/-- Characters are taken up to the first that does not belong to them. -/
theorem Text.takeWhile_append (all : ∀ c ∈ s, f c = true) (stops : ∀ c ∈ rest.head?, f c = false) :
    (s ++ rest).takeWhile f = s := by
  have none : rest.takeWhile f = [] := by
    cases rest with
    | nil => rfl
    | cons c rest => simp [stops c rfl]
  rw [List.takeWhile_append_of_pos all, none, List.append_nil]

/-- What is left of a text begins with the first character that is not taken. -/
theorem Text.dropWhile_append (all : ∀ c ∈ s, f c = true) (stops : ∀ c ∈ rest.head?, f c = false) :
    (s ++ rest).dropWhile f = rest := by
  rw [List.dropWhile_append_of_pos all]
  cases rest with
  | nil => rfl
  | cons c rest => simp [stops c rfl]

end Spans

namespace Cursor

variable {s rest : List Char} {p : Position}

/-- Characters are gone over up to the first that does not belong to them. -/
theorem span_append {f : Char → Bool} (all : ∀ c ∈ s, f c = true)
    (stops : ∀ c ∈ rest.head?, f c = false) :
    (Cursor.mk (s ++ rest) p).span f = (s, ⟨rest, p.past s⟩) := by
  show ((s ++ rest).takeWhile f, Cursor.mk ((s ++ rest).dropWhile f) _) = _
  rw [takeWhile_append all stops, dropWhile_append all stops]

theorem skipBlanks_append (blank : Blank s) (stops : ∀ c ∈ rest.head?, isBlank c = false) :
    (Cursor.mk (s ++ rest) p).skipBlanks = ⟨rest, p.past s⟩ := by
  rw [skipBlanks, span_append blank stops]

theorem readName_append (chars : ∀ c ∈ s, isNameChar c = true)
    (stops : ∀ c ∈ rest.head?, isNameChar c = false) :
    (Cursor.mk (s ++ rest) p).readName = (String.ofList s, ⟨rest, p.past s⟩) := by
  rw [readName, span_append chars stops]

theorem current_cons (c : Char) : (Cursor.mk (c :: rest) p).current = c := rfl

theorem drop_one (c : Char) : (Cursor.mk (c :: rest) p).drop 1 = ⟨rest, p.past [c]⟩ := rfl

/-- A text that begins with another character does not begin with a mark. -/
theorem startsWith_cons_of_ne {mark : String} {c first : Char} {others : List Char}
    (is : mark.toList = first :: others) (ne : first ≠ c) :
    (Cursor.mk (c :: rest) p).startsWith mark = false := by
  rw [startsWith, is, List.isPrefixOf_cons_cons, beq_false_of_ne ne, Bool.false_and]

theorem startsWith_cons_cons_of_ne {mark : String} {c d first second : Char} {others : List Char}
    (is : mark.toList = first :: second :: others) (ne : second ≠ d) :
    (Cursor.mk (c :: d :: rest) p).startsWith mark = false := by
  rw [startsWith, is, List.isPrefixOf_cons_cons, List.isPrefixOf_cons_cons, beq_false_of_ne ne,
    Bool.false_and, Bool.and_false]

theorem expect_cons (c : Char) : (Cursor.mk (c :: rest) p).expect c = .ok ⟨rest, p.past [c]⟩ :=
  if_pos rfl

end Cursor

/-! ## Characters -/

section Digits

variable {base value n : Nat} {c : Char} {digits : List Char}

theorem digit?_of_isDigit (is : IsDigit value c) (small : value < base) :
    digit? base c = some value := by
  have known : ∀ v < 16, ("0123456789abcdef".toList[v]?.all fun c => digit? 16 c == some v) = true ∧
      ("0123456789ABCDEF".toList[v]?.all fun c => digit? 16 c == some v) = true := by decide +kernel
  have below : value < 16 := by
    rcases is with is | is
    · exact (List.getElem?_eq_some_iff.1 is).1
    · exact (List.getElem?_eq_some_iff.1 is).1
  have hexadecimal : digit? 16 c = some value := by
    obtain ⟨lower, upper⟩ := known value below
    rcases is with is | is
    · rw [is] at lower
      exact beq_iff_eq.1 lower
    · rw [is] at upper
      exact beq_iff_eq.1 upper
  -- The base only says which digits there are.
  unfold digit? at hexadecimal ⊢
  dsimp only at hexadecimal ⊢
  rw [Option.filter_eq_some_iff] at hexadecimal ⊢
  exact ⟨hexadecimal.1, decide_eq_true small⟩

theorem digitsFrom?_append (base : Nat) (s t : List Char) : ∀ value,
    digitsFrom? base value (s ++ t) = (digitsFrom? base value s).bind fun n =>
      digitsFrom? base n t := by
  induction s with
  | nil => exact fun _ => rfl
  | cons c rest ih =>
    intro value
    rw [List.cons_append, digitsFrom?, digitsFrom?, Option.bind_assoc]
    exact congrArg _ (funext fun d => ih _)

theorem digitsFrom?_of_numeral (numeral : Numeral base n digits) :
    digitsFrom? base 0 digits = some n := by
  induction numeral with
  | @digit value c small is =>
    rw [digitsFrom?, digit?_of_isDigit is small, Option.bind_some, digitsFrom?, Nat.zero_mul,
      Nat.zero_add]
  | next _ small is ih =>
    rw [digitsFrom?_append, ih, Option.bind_some, digitsFrom?, digit?_of_isDigit is small,
      Option.bind_some, digitsFrom?]

/-- A numeral consists of digits, one at least. -/
theorem isDigit_of_numeral (numeral : Numeral base n digits) :
    digits ≠ [] ∧ ∀ c ∈ digits, ∃ value < base, IsDigit value c := by
  induction numeral with
  | digit small is =>
    refine ⟨List.cons_ne_nil _ _, fun c mem => ?_⟩
    rw [List.mem_singleton.1 mem]
    exact ⟨_, small, is⟩
  | next _ small is ih =>
    refine ⟨by simp, fun c mem => ?_⟩
    rcases List.mem_append.1 mem with mem | mem
    · exact ih.2 c mem
    · rw [List.mem_singleton.1 mem]
      exact ⟨_, small, is⟩

theorem mem_digits (is : IsDigit value c) : c ∈ "0123456789abcdefABCDEF".toList := by
  have lower : "0123456789abcdef".toList ⊆ "0123456789abcdefABCDEF".toList := by decide
  have upper : "0123456789ABCDEF".toList ⊆ "0123456789abcdefABCDEF".toList := by decide
  rcases is with is | is
  · exact lower (List.mem_of_getElem? is)
  · exact upper (List.mem_of_getElem? is)

theorem unsigned?_of_numeral (numeral : Numeral base n digits) :
    unsigned? base digits = some n := by
  obtain ⟨nonempty, all⟩ := isDigit_of_numeral numeral
  have read := digitsFrom?_of_numeral numeral
  cases digits with
  | nil => exact absurd rfl nonempty
  | cons d rest =>
    have plus : d ≠ '+' := by
      rintro rfl
      obtain ⟨value, -, is⟩ := all _ List.mem_cons_self
      exact absurd (mem_digits is) (by decide)
    have unsigned : unsigned? base (d :: rest) = digits? base (d :: rest) := by
      unfold unsigned?
      split
      case h_1 same => exact absurd (List.cons.inj same).1 plus
      case h_2 => rfl
    rw [unsigned]
    exact read

end Digits

namespace Reference

theorem scalar?_toNat (c : Char) : scalar? c.toNat = some c := by
  rw [scalar?, if_pos (show c.toNat.isValidChar from c.valid), Char.ofNat_toNat]

/-- Every reference is read as the character that it refers to. -/
theorem character?_of_reference {c : Char} {reference : List Char}
    (refers : CharacterReference c reference) :
    ∃ inner, reference = '&' :: (inner ++ [';']) ∧ ';' ∉ inner ∧ character? inner = some c := by
  cases refers with
  | @name name known =>
    have all : ∀ entry ∈ named, ';' ∉ entry.1.toList ∧ character? entry.1.toList = some entry.2 := by
      decide +kernel
    exact ⟨_, rfl, all _ known⟩
  | @decimal digits numeral =>
    obtain ⟨nonempty, digit⟩ := isDigit_of_numeral numeral
    refine ⟨_, rfl, ?_, ?_⟩
    · rintro (_ | ⟨_, mem⟩)
      obtain ⟨value, -, is⟩ := digit _ mem
      exact absurd (mem_digits is) (by decide)
    · have value := unsigned?_of_numeral numeral
      cases digits with
      | nil => exact absurd rfl nonempty
      | cons d rest =>
        have decimal : d ≠ 'x' := by
          rintro rfl
          obtain ⟨value, -, is⟩ := digit _ List.mem_cons_self
          exact absurd (mem_digits is) (by decide)
        have numbered : numbered? ('#' :: d :: rest) = (unsigned? 10 (d :: rest)).bind scalar? := by
          unfold numbered?
          split
          case h_1 same => exact absurd (List.cons.inj (List.cons.inj same).2).1 decimal
          case h_2 same => rw [(List.cons.inj same).2]
          case h_3 _ other => exact absurd rfl (other _)
        show (numbered? ('#' :: d :: rest)) = some c
        rw [numbered, value, Option.bind_some, scalar?_toNat]
  | @hexadecimal digits numeral =>
    obtain ⟨-, digit⟩ := isDigit_of_numeral numeral
    refine ⟨_, rfl, ?_, ?_⟩
    · rintro (_ | ⟨_, _ | ⟨_, mem⟩⟩)
      obtain ⟨value, -, is⟩ := digit _ mem
      exact absurd (mem_digits is) (by decide)
    · show (unsigned? 16 digits).bind scalar? = some c
      rw [unsigned?_of_numeral numeral, Option.bind_some, scalar?_toNat]

/-- A reference is read to its end. -/
theorem decodeFrom_reading {c : Char} (rest : List Char) {inner : List Char} (ends : ';' ∉ inner) :
    ∀ reading : List Char, character? (reading.reverse ++ inner) = some c →
      decodeFrom (some reading) (inner ++ ';' :: rest) = (decodeFrom none rest).map (c :: ·) := by
  induction inner with
  | nil =>
    intro reading known
    rw [List.append_nil] at known
    rw [List.nil_append, decodeFrom, if_pos rfl, known]
  | cons d inner ih =>
    intro reading known
    have here : d ≠ ';' := (List.ne_of_not_mem_cons ends).symm
    have later : ';' ∉ inner := List.not_mem_of_not_mem_cons ends
    rw [List.cons_append, decodeFrom, if_neg here]
    refine ih later (d :: reading) ?_
    rwa [List.reverse_cons, List.append_assoc]

/-- Every spelling of a text is decoded to it. -/
theorem decode_of_spelling {bare : Char → Prop} (plain : ∀ c, bare c → c ≠ '&')
    {meant written : List Char} (spelling : Spelling bare meant written) :
    decode written = .ok meant := by
  unfold decode
  induction spelling with
  | nil => rfl
  | bare allowed _ ih =>
    rw [decodeFrom, if_neg (plain _ allowed), ih]
    rfl
  | @reference c reference _ written refers _ ih =>
    obtain ⟨inner, rfl, ends, known⟩ := character?_of_reference refers
    have closed : '&' :: (inner ++ [';']) ++ written = '&' :: (inner ++ ';' :: written) := by simp
    rw [closed, decodeFrom, if_pos rfl, decodeFrom_reading written ends [] known, ih]
    rfl

end Reference

theorem decodeAt_of_spelling {bare : Char → Prop} (plain : ∀ c, bare c → c ≠ '&')
    {meant : String} {written : List Char} (spelling : Spelling bare meant.toList written)
    (p : Position) : decodeAt p written = .ok meant := by
  rw [decodeAt, Reference.decode_of_spelling plain spelling]
  dsimp only
  rw [String.ofList_toList]

/-- No mark of markup stands in a reference. -/
theorem not_mem_reference {c mark : Char} {reference : List Char}
    (refers : CharacterReference c reference) (is : mark ∈ ['<', '"', '\'']) :
    mark ∉ reference := by
  obtain ⟨digits, punctuation⟩ : mark ∉ "0123456789abcdefABCDEF".toList ∧
      mark ≠ '&' ∧ mark ≠ '#' ∧ mark ≠ 'x' ∧ mark ≠ ';' := by
    simp only [List.mem_cons, List.not_mem_nil, or_false] at is
    rcases is with rfl | rfl | rfl <;> decide
  cases refers with
  | @name entity known =>
    have names : ∀ entry ∈ named, '<' ∉ entry.1.toList ∧ '"' ∉ entry.1.toList ∧
        '\'' ∉ entry.1.toList := by decide
    obtain ⟨lt, double, single⟩ := names _ known
    have inside : mark ∉ entity.toList := by
      simp only [List.mem_cons, List.not_mem_nil, or_false] at is
      rcases is with rfl | rfl | rfl
      · exact lt
      · exact double
      · exact single
    simp [inside, punctuation]
  | decimal numeral =>
    have inside : mark ∉ _ := fun mem =>
      have ⟨_, _, is⟩ := (isDigit_of_numeral numeral).2 mark mem
      digits (mem_digits is)
    simp [inside, punctuation]
  | hexadecimal numeral =>
    have inside : mark ∉ _ := fun mem =>
      have ⟨_, _, is⟩ := (isDigit_of_numeral numeral).2 mark mem
      digits (mem_digits is)
    simp [inside, punctuation]

/-- A mark of markup that may not stand bare does not occur in a spelling. -/
theorem not_mem_spelling {bare : Char → Prop} {meant written : List Char}
    (spelling : Spelling bare meant written) {mark : Char} (is : mark ∈ ['<', '"', '\''])
    (refused : ¬ bare mark) : mark ∉ written := by
  induction spelling with
  | nil => exact List.not_mem_nil
  | bare allowed _ ih =>
    intro mem
    rcases List.mem_cons.1 mem with rfl | mem
    · exact refused allowed
    · exact ih mem
  | reference refers _ ih =>
    intro mem
    rcases List.mem_append.1 mem with mem | mem
    · exact not_mem_reference refers is mem
    · exact ih mem

/-! ## Attributes -/

theorem Markup.Mark.Writing.length_pos {m : Mark} {w : List Char} (writing : m.Writing w) :
    0 < w.length := by
  cases writing with
  | intro apart =>
    rw [List.length_append]
    exact Nat.add_pos_left (List.length_pos_of_ne_nil apart) _

/-- What follows blanks does not go on with what they end. -/
theorem head?_blank_append {f : Char → Bool} {s : List Char} {next : Char} (blank : Blank s)
    (others : ∀ c, isBlank c = true → f c = false) (stops : f next = false) (rest : List Char) :
    ∀ c ∈ (s ++ next :: rest).head?, f c = false := by
  intro c mem
  cases s with
  | nil =>
    obtain rfl : next = c := Option.some.inj mem
    exact stops
  | cons d s =>
    obtain rfl : d = c := Option.some.inj mem
    exact others d (blank d List.mem_cons_self)

namespace RawAttribute

/-- An attribute is read to its closing quote. -/
theorem read_of_writing (p : Position) (rest : List Char) {name atSign atQuote value : List Char}
    {quote : Char} {meant : String} (nonempty : name ≠ []) (chars : ∀ c ∈ name, isNameChar c = true)
    (blank : Blank atSign ∧ Blank atQuote) (quotes : quote = '"' ∨ quote = '\'')
    (spelling : Spelling (fun c => c ≠ '&' ∧ c ≠ '<' ∧ c ≠ quote) meant.toList value) :
    read ⟨name ++ (atSign ++ '=' :: (atQuote ++ quote :: (value ++ quote :: rest))), p⟩ =
      .ok (⟨String.ofList name, meant, p⟩,
        ⟨rest, p.past (name ++ (atSign ++ '=' :: (atQuote ++ quote :: (value ++ [quote]))))⟩) := by
  obtain ⟨blankSign, blankQuote⟩ := blank
  have quoteNotBlank : isBlank quote = false := by
    rcases quotes with rfl | rfl <;> decide
  have isMark : quote ∈ ['<', '"', '\''] := by
    rcases quotes with rfl | rfl <;> decide
  have named : String.isEmpty (String.ofList name) = false := by
    simpa using nonempty
  have afterName := head?_blank_append blankSign (fun _ => isNameChar_of_isBlank)
    (show isNameChar '=' = false by decide) (atQuote ++ quote :: (value ++ quote :: rest))
  have signStops : ∀ c ∈ ('=' :: (atQuote ++ quote :: (value ++ quote :: rest))).head?,
      isBlank c = false := by
    rintro _ ⟨⟩
    decide
  have quoteStops : ∀ c ∈ (quote :: (value ++ quote :: rest)).head?, isBlank c = false := by
    rintro _ ⟨⟩
    exact quoteNotBlank
  have inside : ∀ c ∈ value, (c != quote) = true := by
    intro c mem
    have unquoted := not_mem_spelling spelling isMark fun allowed => allowed.2.2 rfl
    exact bne_iff_ne.2 fun same => unquoted (same ▸ mem)
  have ends : ∀ c ∈ (quote :: rest).head?, (c != quote) = false := by
    rintro _ ⟨⟩
    exact bne_self_eq_false _
  have quoted : ¬ (quote ≠ '"' ∧ quote ≠ '\'') := by
    rintro ⟨double, single⟩
    exact quotes.elim double single
  unfold read
  rw [Cursor.readName_append chars afterName]
  simp only [bind, Except.bind, named, Cursor.skipBlanks_append blankSign signStops,
    Cursor.expect_cons, Cursor.skipBlanks_append blankQuote quoteStops, Cursor.current_cons,
    Cursor.drop_one, Cursor.span_append inside ends, if_neg quoted,
    decodeAt_of_spelling (fun _ allowed => allowed.1) spelling, List.isEmpty_cons, if_false,
    Bool.false_eq_true, pure, Except.pure, ← Position.past_append]
  simp only [List.append_assoc, List.cons_append, List.nil_append]

/-- An attribute as it is read from the way in which a mark is written. -/
structure Reads (m : Mark) (a : RawAttribute) : Prop where
  written : a.written = String.ofList m.name.written
  value : a.value = m.value

section Attributes

variable (tag : String) (opened : Position)

/-- A mark written with a new name is read, and then what follows it. -/
theorem readAll_of_writing (fuel : Nat) (p : Position) {seen : List RawAttribute} {m : Mark}
    {w : List Char} (writing : m.Writing w) (valid : m.name.Valid)
    (free : ∀ a ∈ seen, a.written ≠ String.ofList m.name.written) (rest : List Char) :
    ∃ a, Reads m a ∧ readAll tag opened (fuel + 1) seen ⟨w ++ rest, p⟩ =
      readAll tag opened fuel (seen ++ [a]) ⟨rest, p.past w⟩ := by
  cases writing with
  | @intro blanks atSign atQuote value quote _ blank quotes spelling =>
    obtain ⟨c, cs, name⟩ := List.exists_cons_of_ne_nil valid.nonempty
    have nameChar : isNameChar c = true := valid.chars c (name ▸ List.mem_cons_self)
    have starts : ∀ d ∈ (m.name.written ++ (atSign ++ '=' :: (atQuote ++ quote ::
        (value ++ quote :: rest)))).head?, isBlank d = false := by
      rw [name]
      rintro _ ⟨⟩
      refine eq_false_of_ne_true fun blank => ?_
      rw [isNameChar_of_isBlank blank] at nameChar
      cases nameChar
    have noEnd : '>' ≠ c ∧ '/' ≠ c := by
      constructor <;> rintro rfl <;> exact absurd nameChar (by decide)
    let next : RawAttribute := ⟨String.ofList m.name.written, m.value, p.past blanks⟩
    have read := read_of_writing (p.past blanks) rest valid.nonempty valid.chars blank.2 quotes
      spelling
    have unseen : seen.any (·.written == next.written) = false := by
      rw [List.any_eq_false]
      exact fun a mem same => free a mem (beq_iff_eq.1 same)
    have text : blanks ++ (m.name.written ++ (atSign ++ '=' :: (atQuote ++ quote ::
        (value ++ [quote])))) ++ rest = blanks ++ (m.name.written ++ (atSign ++ '=' ::
          (atQuote ++ quote :: (value ++ quote :: rest)))) := by simp
    refine ⟨next, ⟨rfl, rfl⟩, ?_⟩
    rw [readAll]
    dsimp only
    rw [text, Cursor.skipBlanks_append blank.1 starts, Position.past_append]
    rw [name, List.cons_append] at read ⊢
    rw [Cursor.startsWith_cons_of_ne rfl noEnd.1, Cursor.startsWith_cons_of_ne rfl noEnd.2]
    simp only [List.isEmpty_cons, Bool.false_eq_true, if_false, Bool.or_self, bind, Except.bind,
      read, ← name, next, unseen]

/-- Marks are read in order up to the end of the tag, blanks before the end included. -/
theorem readAll_of_writings {marks : List Mark} {w : List Char} (writings : Mark.Writings marks w)
    {before ending : List Char} (blank : Blank before)
    (ends : ∃ rest, ending = '>' :: rest ∨ ending = '/' :: '>' :: rest) :
    ∀ {seen : List RawAttribute} {fuel : Nat} {p : Position}, (∀ m ∈ marks, m.name.Valid) →
      (marks.map (·.name.written)).Nodup →
      (∀ a ∈ seen, ∀ m ∈ marks, a.written ≠ String.ofList m.name.written) → w.length < fuel →
      ∃ attributes, readAll tag opened fuel seen ⟨w ++ (before ++ ending), p⟩ =
          .ok (seen ++ attributes, ⟨ending, p.past (w ++ before)⟩) ∧
        List.Forall₂ Reads marks attributes := by
  induction writings with
  | nil =>
    intro seen fuel p _ _ _ enough
    obtain ⟨fuel, rfl⟩ := Nat.exists_eq_succ_of_ne_zero (Nat.ne_of_gt enough)
    have notBlank : ∀ c ∈ ending.head?, isBlank c = false := by
      obtain ⟨rest, rfl | rfl⟩ := ends <;> rintro _ ⟨⟩ <;> decide
    refine ⟨[], ?_, .nil⟩
    rw [List.nil_append, List.nil_append, List.append_nil, readAll]
    dsimp only
    rw [Cursor.skipBlanks_append blank notBlank]
    obtain ⟨rest, rfl | rfl⟩ := ends <;> rfl
  | @cons m marks first w writing writings ih =>
    intro seen fuel p valid apart fresh enough
    obtain ⟨fuel, rfl⟩ := Nat.exists_eq_succ_of_ne_zero (Nat.ne_zero_of_lt enough)
    obtain ⟨validHere, validLater⟩ := List.forall_mem_cons.1 valid
    obtain ⟨otherNames, apartLater⟩ := List.nodup_cons.1 apart
    obtain ⟨a, readsHere, step⟩ := readAll_of_writing tag opened fuel p writing validHere
      (fun a mem => fresh a mem m List.mem_cons_self) (w ++ (before ++ ending))
    have new : ∀ other ∈ seen ++ [a], ∀ m ∈ marks, other.written ≠ String.ofList m.name.written := by
      intro other mem m' later
      rcases List.mem_append.1 mem with mem | mem
      · exact fresh other mem m' (List.mem_cons_of_mem m later)
      · rw [List.mem_singleton.1 mem, readsHere.written]
        intro same
        exact otherNames (List.mem_map.2 ⟨m', later, (String.ofList_inj.1 same).symm⟩)
    have left : w.length < fuel := by
      have := writing.length_pos
      rw [List.length_append] at enough
      omega
    obtain ⟨attributes, run, reads⟩ := ih (p := p.past first) validLater apartLater new left
    refine ⟨a :: attributes, ?_, .cons readsHere reads⟩
    rw [List.append_assoc, step, run, List.append_assoc, List.append_assoc,
      ← Position.past_append]
    rfl

end Attributes

end RawAttribute

/-! ## Tags -/

namespace StartTag

/-- A start tag as it is read from the way in which a tag is written. -/
structure Reads (t : Tag) (read : StartTag) : Prop where
  written : read.written = String.ofList t.name.written
  attributes : List.Forall₂ RawAttribute.Reads t.marks read.attributes

/-- The marks of a tag do not go on with its name. -/
theorem head?_writings {marks : List Mark} {w before rest : List Char} {next : Char}
    (writings : Mark.Writings marks w) (blank : Blank before) (stops : isNameChar next = false) :
    ∀ c ∈ (w ++ (before ++ next :: rest)).head?, isNameChar c = false := by
  cases writings with
  | nil => exact head?_blank_append blank (fun _ => isNameChar_of_isBlank) stops rest
  | cons first _ =>
    cases first with
    | @intro blanks _ _ _ _ apart blank =>
      obtain ⟨c, others, rfl⟩ := List.exists_cons_of_ne_nil apart
      rintro _ ⟨⟩
      exact isNameChar_of_isBlank (blank.1 c List.mem_cons_self)

/-- The text that ends a start tag. -/
def ending (closed : Bool) : List Char := if closed then ['/', '>'] else ['>']

theorem startsWith_ending (closed : Bool) (rest : List Char) (p : Position) :
    (Cursor.mk (ending closed ++ rest) p).startsWith "/>" = closed := by
  cases closed <;> rfl

theorem drop_ending (closed : Bool) (rest : List Char) (p : Position) :
    (Cursor.mk (ending closed ++ rest) p).drop (if closed then 2 else 1) =
      ⟨rest, p.past (ending closed)⟩ := by
  cases closed <;> rfl

/-- A start tag is read to its end. -/
theorem read_of_writings {t : Tag} {marks before : List Char} (p : Position) (rest : List Char)
    (writings : Mark.Writings t.marks marks) (blank : Blank before) (name : t.name.Valid)
    (valid : ∀ m ∈ t.marks, m.name.Valid) (apart : (t.marks.map (·.name.written)).Nodup)
    (closed : Bool) :
    let w := '<' :: (t.name.written ++ (marks ++ (before ++ ending closed)))
    ∃ tag, read ⟨w ++ rest, p⟩ = .ok (tag, ⟨rest, p.past w⟩) ∧ Reads t tag ∧
      tag.closed = closed := by
  intro w
  let atEnd := ending closed ++ rest
  have ends : ∃ left, atEnd = '>' :: left ∨ atEnd = '/' :: '>' :: left := by
    cases closed with
    | false => exact ⟨rest, .inl rfl⟩
    | true => exact ⟨rest, .inr rfl⟩
  have stops : ∀ c ∈ (marks ++ (before ++ atEnd)).head?, isNameChar c = false := by
    obtain ⟨left, is | is⟩ := ends
    · rw [is]
      exact head?_writings writings blank (by decide)
    · rw [is]
      exact head?_writings writings blank (by decide)
  have enough : marks.length < (marks ++ (before ++ atEnd)).length := by
    obtain ⟨left, is | is⟩ := ends <;> simp only [is, List.length_append, List.length_cons] <;> omega
  have written : String.isEmpty (String.ofList t.name.written) = false := by
    simpa using name.nonempty
  have text : w ++ rest = '<' :: (t.name.written ++ (marks ++ (before ++ atEnd))) := by
    simp [w, atEnd]
  have fresh : ∀ a ∈ ([] : List RawAttribute), ∀ m ∈ t.marks,
      a.written ≠ String.ofList m.name.written := List.forall_mem_nil _
  obtain ⟨attributes, run, reads⟩ := RawAttribute.readAll_of_writings
    (String.ofList t.name.written) p writings blank ends (p := (p.past ['<']).past t.name.written)
    valid apart fresh enough
  refine ⟨⟨String.ofList t.name.written, attributes, p, closed⟩, ?_, ⟨rfl, reads⟩, rfl⟩
  unfold read
  rw [text, Cursor.drop_one, Cursor.readName_append name.chars stops]
  simp only [written, Bool.false_eq_true, if_false, bind, Except.bind, run, List.nil_append]
  have position : (((p.past ['<']).past t.name.written).past (marks ++ before)).past
      (ending closed) = p.past w := by
    simp [w, ← Position.past_append]
  rw [startsWith_ending, drop_ending, position]
  rfl

end StartTag

end MarkupLoader
