import MarkupLoader.Proofs.Declarations
import MarkupLoader.Proofs.Locality
import Mathlib.Data.List.TakeWhile

/-!
# Comments and instructions inside texts

A comment or an instruction that is put inside a text is passed over, but the text is read as two
texts then: **what stands before it and what stands after it**, each of them without the blanks around
it (`textsOf`). All else is read as before (`Forest.Retexted`).

* **A place inside a text** (`Place`) is one that a scan of the markup comes to: the scan stands at the
  beginning of the text, and no reference is cut in two.
* **If one of the parts is blank**, it makes no node, and the other one makes the node that the whole
  text makes. Otherwise both make a node, and the blanks at the place are lost (`textsOf_append`).

Main results: `split_readContent`, `textsOf_append`, `read_of_place`.
-/

namespace MarkupLoader

open Text Markup

/-! ## What is passed over -/

/-- The body of an instruction: it does not contain the end of one, and it does not begin with a
bracket, as it begins with a name. -/
def InstructionBody (body : List Char) : Prop := ¬ "?>".toList <:+: body ∧ ¬ ">".toList <+: body

instance (body : List Char) : Decidable (InstructionBody body) :=
  inferInstanceAs (Decidable (_ ∧ _))

/-- What may be put inside a text: a comment whose body is clear, or an instruction. -/
inductive Aside : List Char → Prop
  | comment {body : List Char} (comment : CommentBody body) (clear : CommentBody.Clear body) :
    Aside ("<!--".toList ++ (body ++ "-->".toList))
  | instruction {body : List Char} (instruction : InstructionBody body) :
    Aside ("<?".toList ++ (body ++ "?>".toList))

/-- An instruction is gone over. -/
theorem through_instruction {body : List Char} (instruction : InstructionBody body)
    (rest : List Char) (p : Position) :
    (Cursor.mk ("<?".toList ++ (body ++ ("?>".toList ++ rest))) p).through "?>" =
      .ok ("<?".toList ++ body, ⟨rest, p.past ("<?".toList ++ (body ++ "?>".toList))⟩) := by
  have first : ¬ "?>".toList <:+: ("<?".toList ++ body) ++ "?>".toList.dropLast := by
    have inside : ¬ ['?', '>'] <:+: body := instruction.1
    -- The end of the mark is not the beginning of one.
    have later : ¬ ['?', '>'] <:+: body ++ ['?'] := by
      rw [List.infix_concat_iff]
      rintro (ends | within)
      · rcases List.suffix_concat_iff.1 ends with none | ⟨front, whole, -⟩
        · cases none
        · have last := congrArg List.getLast? whole
          simp at last
      · exact inside within
    have late : ¬ [] ++ ['>'] <+: body ++ ['?'] := fun begins =>
      instruction.2 (prefix_of_prefix_append (by decide) begins)
    show ¬ ['?', '>'] <:+: '<' :: '?' :: (body ++ ['?'])
    simp only [List.nil_append] at late
    simp [List.infix_cons_iff, List.cons_prefix_cons, later, late]
  have cut := cutAt?_append first rest
  rw [List.append_assoc] at cut
  unfold Cursor.through Cursor.through?
  rw [cut, ← List.append_assoc]
  rfl

namespace Aside

variable {w : List Char} (aside : Aside w)

include aside

theorem head?_append (rest : List Char) : (w ++ rest).head? = some '<' := by
  cases aside <;> rfl

theorem passes (rest : List Char) (p : Position) : ∃ mark skipped,
    (pieceAt ⟨w ++ rest, p⟩ = .comment ∧ mark = "-->" ∨
      pieceAt ⟨w ++ rest, p⟩ = .instruction ∧ mark = "?>") ∧
    (Cursor.mk (w ++ rest) p).through mark = .ok (skipped, ⟨rest, p.past w⟩) := by
  cases aside with
  | @comment body comment clear =>
    refine ⟨"-->", "<!--".toList ++ body, .inl ⟨rfl, rfl⟩, ?_⟩
    rw [List.append_assoc, List.append_assoc]
    exact through_comment comment clear rest p
  | @instruction body instruction =>
    refine ⟨"?>", "<?".toList ++ body, .inr ⟨rfl, rfl⟩, ?_⟩
    rw [List.append_assoc, List.append_assoc]
    exact through_instruction instruction rest p

end Aside

/-! ## Blanks at the ends -/

section Trimming

variable {s u v : List Char}

theorem trim_append_blank (blank : Blank v) (s : List Char) : trim (s ++ v) = trim s := by
  have ends : ∀ t, trimEnd (t ++ v) = trimEnd t := fun t => by
    unfold trimEnd
    rw [List.reverse_append, List.dropWhile_append_of_pos fun c mem => blank c (List.mem_reverse.1 mem)]
  unfold trim trimStart
  rw [List.dropWhile_append]
  split
  case isTrue none =>
    rw [List.isEmpty_iff.1 none, List.dropWhile_eq_nil_iff.2 blank]
  case isFalse => exact ends _

theorem trim_blank_append (blank : Blank u) (s : List Char) : trim (u ++ s) = trim s := by
  unfold trim trimStart
  rw [List.dropWhile_append_of_pos blank]

/-- Trimming takes away blanks at the ends. -/
theorem exists_trim (s : List Char) : ∃ u v, Blank u ∧ Blank v ∧ s = u ++ (trim s ++ v) := by
  have start : s = s.takeWhile isBlank ++ trimStart s := List.takeWhile_append_dropWhile.symm
  have ending : trimStart s = trim s ++ ((trimStart s).reverse.takeWhile isBlank).reverse := by
    unfold trim trimEnd
    rw [← List.reverse_append, List.takeWhile_append_dropWhile, List.reverse_reverse]
  have blank (t : List Char) : Blank (t.takeWhile isBlank) := List.all_eq_true.1 List.all_takeWhile
  exact ⟨_, _, blank s, fun c mem => blank _ c (List.mem_reverse.1 mem), by rw [← ending, ← start]⟩

theorem trim_eq_nil_iff : trim s = [] ↔ Blank s := by
  constructor
  · intro none
    obtain ⟨u, v, blank, blank', is⟩ := exists_trim s
    rw [is, none, List.nil_append]
    exact fun c mem => (List.mem_append.1 mem).elim (blank c) (blank' c)
  · intro blank
    exact trim_append_blank blank []

/-- Nothing blank is left at the ends. -/
theorem ends_trim (s : List Char) : (∀ c ∈ (trim s).head?, isBlank c = false) ∧
    ∀ c ∈ (trim s).getLast?, isBlank c = false := by
  have begins : ∀ t : List Char, ∀ c ∈ (t.dropWhile isBlank).head?, isBlank c = false := by
    intro t c mem
    have := List.head?_dropWhile_not isBlank t
    rw [mem] at this
    exact this
  constructor
  · intro c mem
    have within : trim s <+: trimStart s := by
      rw [← List.reverse_suffix, trim, trimEnd, List.reverse_reverse]
      exact List.dropWhile_suffix _
    obtain ⟨others, is⟩ := List.head?_eq_some_iff.1 mem
    obtain ⟨more, whole⟩ := within
    refine begins s c ?_
    rw [show s.dropWhile isBlank = trimStart s from rfl, ← whole, is]
    rfl
  · intro c mem
    unfold trim trimEnd at mem
    rw [List.getLast?_reverse] at mem
    exact begins _ c mem

/-- Of two texts put together, the blanks at the ends are taken away, and those in between stay. -/
theorem trim_append {first second : List Char} (kept : ¬ Blank first) (kept' : ¬ Blank second) :
    ∃ gap, Blank gap ∧ trim (first ++ second) = trim first ++ (gap ++ trim second) ∧
      ((∀ c ∈ first.getLast?, isBlank c = false) → (∀ c ∈ second.head?, isBlank c = false) →
        gap = []) := by
  obtain ⟨u, v, blankStart, blank, is⟩ := exists_trim first
  obtain ⟨u', v', blank', blankEnd, is'⟩ := exists_trim second
  have some : trim first ≠ [] := fun none => kept (trim_eq_nil_iff.1 none)
  have some' : trim second ≠ [] := fun none => kept' (trim_eq_nil_iff.1 none)
  refine ⟨v ++ u', fun c mem => (List.mem_append.1 mem).elim (blank c) (blank' c), ?_, ?_⟩
  · have whole : first ++ second = u ++ ((trim first ++ ((v ++ u') ++ trim second)) ++ v') := by
      conv_lhs => rw [is, is']
      simp only [List.append_assoc]
    rw [whole, trim_blank_append blankStart, trim_append_blank blankEnd]
    refine trim_eq_self (fun c mem => ?_) fun c mem => ?_
    · rw [List.head?_append_of_ne_nil _ some] at mem
      exact (ends_trim first).1 c mem
    · rw [List.getLast?_append_of_ne_nil _ (by simp [some']), List.getLast?_append_of_ne_nil _ some'] at mem
      exact (ends_trim second).2 c mem
  · intro last head
    have none : v = [] := by
      refine Decidable.byContradiction fun filled => ?_
      obtain ⟨c, mem⟩ := Option.ne_none_iff_exists'.1 (mt List.getLast?_eq_none_iff.1 filled)
      have here := last c (by
        rw [is, ← List.append_assoc, List.getLast?_append_of_ne_nil _ filled]
        exact mem)
      rw [blank c (List.mem_of_getLast? mem)] at here
      cases here
    have none' : u' = [] := by
      refine Decidable.byContradiction fun filled => ?_
      obtain ⟨c, mem⟩ := Option.ne_none_iff_exists'.1 (mt List.head?_eq_none_iff.1 filled)
      have here := head c (by
        rw [is', List.head?_append_of_ne_nil _ filled]
        exact mem)
      rw [blank' c (List.mem_of_head? mem)] at here
      cases here
    rw [none, none']
    rfl

end Trimming

namespace Reference

/-- A text that begins no reference without ending it is decoded on its own. -/
theorem decodeFrom_append {first : List Char} (outside : ∀ b a, first = b ++ '&' :: a → ';' ∈ a)
    (second : List Char) {reading : Option (List Char)} (closes : reading ≠ none → ';' ∈ first) :
    decodeFrom reading (first ++ second) =
      decodeFrom reading first >>= fun a => (decodeFrom none second).map (a ++ ·) := by
  induction first generalizing reading with
  | nil =>
    cases reading with
    | none =>
      show decodeFrom none second = (decodeFrom none second).map _
      cases decodeFrom none second <;> rfl
    | some => exact absurd (closes (by simp)) (by simp)
  | cons c rest ih =>
    have outside' : ∀ b a, rest = b ++ '&' :: a → ';' ∈ a := fun b a is =>
      outside (c :: b) a (by rw [is]; rfl)
    cases reading with
    | none =>
      rw [List.cons_append, decodeFrom, decodeFrom]
      by_cases opens : c = '&'
      · rw [if_pos opens, if_pos opens]
        exact ih outside' fun _ => outside [] rest (by rw [opens]; rfl)
      · rw [if_neg opens, if_neg opens, ih outside' fun other => absurd rfl other]
        cases decodeFrom none rest with
        | error => rfl
        | ok a =>
          show ((decodeFrom none second).map _).map _ = (decodeFrom none second).map _
          cases decodeFrom none second <;> rfl
    | some read =>
      rw [List.cons_append, decodeFrom, decodeFrom]
      by_cases ends : c = ';'
      · rw [if_pos ends, if_pos ends]
        cases character? read.reverse with
        | none => rfl
        | some decoded =>
          dsimp only
          rw [ih outside' fun other => absurd rfl other]
          cases decodeFrom none rest with
          | error => rfl
          | ok a =>
            show ((decodeFrom none second).map _).map _ = (decodeFrom none second).map _
            cases decodeFrom none second <;> rfl
      · rw [if_neg ends, if_neg ends]
        refine ih outside' fun _ => ?_
        exact (List.mem_cons.1 (closes (by simp))).resolve_left (Ne.symm ends)

/-- A text that is decoded in two parts. -/
theorem decode_append {first second whole : List Char}
    (outside : ∀ b a, first = b ++ '&' :: a → ';' ∈ a) (ok : decode (first ++ second) = .ok whole) :
    ∃ one two, decode first = .ok one ∧ decode second = .ok two ∧ whole = one ++ two := by
  have parts : decode (first ++ second) =
      decode first >>= fun a => (decode second).map (a ++ ·) :=
    decodeFrom_append outside second fun other => absurd rfl other
  rw [ok] at parts
  obtain ⟨one, read, parts⟩ := ok_of_bind parts.symm
  obtain ⟨two, read', is⟩ := ok_of_map parts
  exact ⟨one, two, read, read', is.symm⟩

end Reference

/-! ## The texts of a run -/

/-- The texts that a run of characters makes: none if all of them are blank, and otherwise what is left
without the blanks at its ends. -/
def textsOf (run : List Char) : Except DocumentFault (List String) :=
  if trim run = [] then .ok [] else (Reference.decode (trim run)).map fun text => [String.ofList text]

/-- **The texts of the parts of a run.** If one of the parts is blank, they are the text of the whole;
otherwise the blanks between them are lost. -/
theorem textsOf_append {first second : List Char} (outside : ∀ b a, first = b ++ '&' :: a → ';' ∈ a)
    {texts : List String} (ok : textsOf (first ++ second) = .ok texts) :
    ∃ one two, textsOf first = .ok one ∧ textsOf second = .ok two ∧
      (Blank first ∨ Blank second → one ++ two = texts) ∧
      (¬ Blank first → ¬ Blank second → ∃ a gap b, texts = [a ++ gap ++ b] ∧ one = [a] ∧ two = [b] ∧
        Blank gap.toList ∧ ((∀ c ∈ first.getLast?, isBlank c = false) →
          (∀ c ∈ second.head?, isBlank c = false) → gap = "")) := by
  have none {run : List Char} (blank : Blank run) : textsOf run = .ok [] :=
    if_pos (trim_eq_nil_iff.2 blank)
  have same {run run' : List Char} (trims : trim run' = trim run) : textsOf run' = textsOf run := by
    rw [textsOf, trims, ← textsOf]
  by_cases blank : Blank first
  · refine ⟨[], texts, none blank, ?_, fun _ => rfl, fun kept => absurd blank kept⟩
    rw [← ok, same (trim_blank_append blank second)]
  by_cases blank' : Blank second
  · refine ⟨texts, [], ?_, none blank', fun _ => List.append_nil _, fun _ kept => absurd blank' kept⟩
    rw [← ok, same (trim_append_blank blank' first)]
  obtain ⟨gap, blankGap, whole, seam⟩ := trim_append blank blank'
  have filled {run : List Char} (kept : ¬ Blank run) : trim run ≠ [] :=
    fun none => kept (trim_eq_nil_iff.1 none)
  have read {run text : List Char} (kept : ¬ Blank run) (decodes : Reference.decode (trim run) = .ok text) :
      textsOf run = .ok [String.ofList text] := by
    rw [textsOf, if_neg (filled kept), decodes]
    rfl
  rw [textsOf, whole, if_neg (by simp [filled blank])] at ok
  cases decodes : Reference.decode (trim first ++ (gap ++ trim second)) with
  | error =>
    rw [decodes] at ok
    cases ok
  | ok all =>
    rw [decodes] at ok
    cases ok
    -- A reference that begins in what is left of the first part ends there.
    have inside : ∀ b a, trim first = b ++ '&' :: a → ';' ∈ a := by
      intro b a is
      obtain ⟨u, v, -, blankEnd, parts⟩ := exists_trim first
      have ends := outside (u ++ b) (a ++ v) (by
        rw [is] at parts
        simpa using parts)
      refine (List.mem_append.1 ends).resolve_right fun mem => ?_
      exact absurd (blankEnd _ mem) (by decide)
    have free : '&' ∉ gap := fun mem => absurd (blankGap _ mem) (by decide)
    obtain ⟨one, others, read₁, later, rfl⟩ := Reference.decode_append inside decodes
    obtain ⟨between, two, plain, read₂, rfl⟩ := Reference.decode_append (fun b a is => by
      rw [is] at free
      simp at free) later
    cases (Reference.decode_eq_self free).symm.trans plain
    refine ⟨_, _, read blank read₁, read blank' read₂,
      fun some => absurd some (not_or.2 ⟨blank, blank'⟩), fun _ _ =>
      ⟨String.ofList one, String.ofList gap, String.ofList two, ?_, rfl, rfl, ?_, fun last head => ?_⟩⟩
    · simp [String.append_assoc]
    · rwa [String.toList_ofList]
    · rw [seam last head]

namespace Forest

/-- Texts before their siblings. -/
def withTexts (p : Position) (texts : List String) (siblings : Forest) : Forest :=
  texts.foldr (fun text later => .cons (.ofText text p) .nil later) siblings

theorem withTexts_append (p : Position) (texts others : List String) (siblings : Forest) :
    siblings.withTexts p (texts ++ others) = (siblings.withTexts p others).withTexts p texts :=
  List.foldr_append

theorem unplaced_withTexts (p : Position) (texts : List String) (siblings : Forest) :
    (siblings.withTexts p texts).unplaced = siblings.unplaced.withTexts .nowhere texts := by
  induction texts with
  | nil => rfl
  | cons text texts ih => exact congrArg (Forest.cons _ .nil ·) ih

/-- Forests that are the same but for the texts at one place: there are the texts `new` for the texts
`old`. -/
inductive Retexted (old new : List String) : Forest → Forest → Prop
  | here (siblings : Forest) :
    Retexted old new (siblings.withTexts .nowhere old) (siblings.withTexts .nowhere new)
  | inside (body : NodeBody) {f g : Forest} (siblings : Forest) (children : Retexted old new f g) :
    Retexted old new (.cons body f siblings) (.cons body g siblings)
  | behind (body : NodeBody) (children : Forest) {f g : Forest} (siblings : Retexted old new f g) :
    Retexted old new (.cons body children f) (.cons body children g)

/-- The same texts make the same forest. -/
theorem Retexted.eq {texts : List String} {f g : Forest} (same : Retexted texts texts f g) :
    g = f := by
  induction same with
  | here => rfl
  | inside body siblings _ ih => rw [ih]
  | behind body children _ ih => rw [ih]

end Forest

section Reading

variable {run rest : List Char} {p : Position} {e : Cursor} (free : '<' ∉ run)
  (ends : rest.head? = some '<')

include free ends

/-- A run is read up to the next tag. -/
theorem readText_run {n : Option NodeBody} :
    readText ⟨run ++ rest, p⟩ = .ok (n, e) ↔ e = ⟨rest, p.past run⟩ ∧ ∃ texts,
      textsOf run = .ok texts ∧ n.toList = texts.map fun text => NodeBody.ofText text p := by
  have spans : (Cursor.mk (run ++ rest) p).span (· != '<') = (run, ⟨rest, p.past run⟩) := by
    refine Cursor.span_append (fun c mem => bne_iff_ne.2 fun is => free (is ▸ mem)) ?_
    rw [ends]
    rintro _ ⟨⟩
    rfl
  rw [readText_eq_ok_iff, spans, textsOf]
  dsimp only
  refine and_congr_right fun _ => ?_
  constructor
  · rintro (⟨blank, rfl⟩ | ⟨kept, decoded, decodes, rfl⟩)
    · exact ⟨[], if_pos blank, rfl⟩
    · exact ⟨_, by rw [if_neg kept, decodes]; rfl, rfl⟩
  · rintro ⟨texts, read, same⟩
    split at read
    case isTrue blank =>
      cases read
      exact .inl ⟨blank, Option.toList_eq_nil_iff.1 same⟩
    case isFalse kept =>
      cases decodes : Reference.decode (trim run) with
      | error fault =>
        rw [decodes] at read
        cases read
      | ok decoded =>
        rw [decodes] at read
        cases read
        exact .inr ⟨kept, decoded, rfl, Option.toList_eq_singleton_iff.1 same⟩

/-- A run in content is read as its texts. -/
theorem readContent_run (filled : run ≠ []) {tag : StartTag} {scopes : Scopes} {fuel : Nat}
    {f : Forest} : readContent tag scopes (fuel + 1) ⟨run ++ rest, p⟩ = .ok (f, e) ↔
      ∃ texts siblings, textsOf run = .ok texts ∧
        readContent tag scopes fuel ⟨rest, p.past run⟩ = .ok (siblings, e) ∧
        f = siblings.withTexts p texts := by
  have more : (run ++ rest).isEmpty = false := by
    simp [filled]
  have text : pieceAt ⟨run ++ rest, p⟩ = .text := by
    obtain ⟨first, others, rfl⟩ := List.exists_cons_of_ne_nil filled
    exact pieceAt_of_not_lt (List.ne_of_not_mem_cons free) _
  rw [readContent_eq_ok_iff]
  constructor
  · rintro ⟨-, reads⟩
    cases reads with
    | ending piece | characterData piece | element piece => cases text.symm.trans piece
    | passed piece => obtain ⟨piece, -⟩ | ⟨piece, -⟩ := piece <;> cases text.symm.trans piece
    | blank _ taken later =>
      obtain ⟨rfl, texts, read, same⟩ := (readText_run free ends).1 taken
      obtain rfl : texts = [] := List.map_eq_nil_iff.1 same.symm
      exact ⟨[], f, read, later, rfl⟩
    | @text n _ _ siblings _ taken later =>
      obtain ⟨rfl, texts, read, same⟩ := (readText_run free ends).1 taken
      obtain ⟨text, rfl, rfl⟩ := List.map_eq_singleton_iff.1 same.symm
      exact ⟨[text], siblings, read, later, rfl⟩
  · rintro ⟨texts, siblings, read, later, rfl⟩
    refine ⟨more, ?_⟩
    have short : texts = [] ∨ ∃ text, texts = [text] := by
      unfold textsOf at read
      split at read
      · exact .inl (Except.ok.inj read).symm
      · cases decodes : Reference.decode (trim run) <;> rw [decodes] at read <;> cases read
        exact .inr ⟨_, rfl⟩
    obtain rfl | ⟨content, rfl⟩ := short
    · exact .blank text ((readText_run free ends).2 ⟨rfl, [], read, rfl⟩) later
    · exact .text text ((readText_run free ends).2 ⟨rfl, [content], read, rfl⟩) later

end Reading

/-! ## A run cut in two -/

/-- A run of characters up to a tag, cut in two. -/
structure TextCut (first second tail : List Char) : Prop where
  filled : first ≠ []
  filled' : second ≠ []
  free : '<' ∉ first ++ second
  ends : tail.head? = some '<'

/-- A forest that has been read where a text is cut in two: there are the texts of the parts for the
texts of the whole. -/
inductive Forest.Cut (first second : List Char) (f g : Forest) : Prop
  | intro {old one two : List String} (whole : textsOf (first ++ second) = .ok old)
    (before : textsOf first = .ok one) (after : textsOf second = .ok two)
    (retexted : f.Retexted old (one ++ two) g)

section Cutting

variable {first second : List Char} {n m : NodeBody} {f g h k : Forest}
  (body : m.unplaced = n.unplaced)

include body

theorem Forest.Cut.inside (cut : f.unplaced.Cut first second g.unplaced)
    (siblings : k.unplaced = h.unplaced) :
    (Forest.cons n f h).unplaced.Cut first second (Forest.cons m g k).unplaced := by
  obtain ⟨whole, before, after, retexted⟩ := cut
  refine ⟨whole, before, after, ?_⟩
  show Retexted _ _ (cons n.unplaced f.unplaced h.unplaced) (cons m.unplaced g.unplaced k.unplaced)
  rw [body, siblings]
  exact .inside _ _ retexted

theorem Forest.Cut.behind (children : k.unplaced = h.unplaced)
    (cut : f.unplaced.Cut first second g.unplaced) :
    (Forest.cons n h f).unplaced.Cut first second (Forest.cons m k g).unplaced := by
  obtain ⟨whole, before, after, retexted⟩ := cut
  refine ⟨whole, before, after, ?_⟩
  show Retexted _ _ (cons n.unplaced h.unplaced f.unplaced) (cons m.unplaced k.unplaced g.unplaced)
  rw [body, children]
  exact .behind _ _ retexted

end Cutting

section Cutting

variable {first second tail w : List Char} (cut : TextCut first second tail) (aside : Aside w)
  (parts : ∀ texts, textsOf (first ++ second) = .ok texts →
    ∃ one two, textsOf first = .ok one ∧ textsOf second = .ok two)
  {tag tag' : StartTag} (written : tag'.written = tag.written) {fuel fuel' : Nat}
  (enough : fuel + 2 ≤ fuel') {c d e : Cursor} {f : Forest}

include cut

theorem TextCut.endings (w : List Char) :
    Endings (first ++ (second ++ tail)) (first ++ (w ++ (second ++ tail))) where
  head := by rw [List.head?_append_of_ne_nil _ cut.filled, List.head?_append_of_ne_nil _ cut.filled]
  longer := by
    simp only [List.length_append]
    omega

include aside parts written enough

/-- Where a run is read, it is read in two parts if something is put in between that is passed over. -/
theorem cut_readContent {scopes : Scopes} (here : c.rest = first ++ (second ++ tail))
    (there : d.rest = first ++ (w ++ (second ++ tail)))
    (ok : readContent tag scopes fuel c = .ok (f, e)) :
    ∃ f' e', readContent tag' scopes fuel' d = .ok (f', e') ∧ e'.rest = e.rest ∧
      f.unplaced.Cut first second f'.unplaced := by
  cases fuel with
  | zero => cases ok
  | succ fuel =>
  obtain ⟨fuel', rfl⟩ : ∃ n, fuel' = n + 3 := ⟨fuel' - 3, by omega⟩
  obtain ⟨_, p⟩ := c
  obtain ⟨_, q⟩ := d
  dsimp only at here there
  subst here there
  have free := List.mem_append.not.1 cut.free
  rw [not_or] at free
  rw [← List.append_assoc] at ok
  obtain ⟨old, siblings, whole, later, rfl⟩ :=
    (readContent_run cut.free cut.ends (by simp [cut.filled])).1 ok
  obtain ⟨one, two, texts, texts'⟩ := parts old whole
  -- What follows is read as before.
  obtain ⟨siblings', e', later', after, same⟩ := shared_readContent (.refl [])
    (show fuel ≤ fuel' by omega) written
    (c := ⟨tail, p.past (first ++ second)⟩) (d := ⟨tail, ((q.past first).past w).past second⟩)
    (.of_rest rfl) later List.nil_suffix
  have afterwards := (readContent_run free.2 cut.ends cut.filled').2
    ⟨two, siblings', texts', later', rfl⟩
  obtain ⟨mark, skipped, piece, through⟩ := aside.passes (second ++ tail) (q.past first)
  have passed := readContent_eq_ok_iff.2 ⟨by
    obtain ⟨others, is⟩ := List.head?_eq_some_iff.1 (aside.head?_append (second ++ tail))
    rw [is]
    rfl, .passed piece through afterwards⟩
  have before := (readContent_run free.1 (aside.head?_append _) cut.filled).2
    ⟨one, _, texts, passed, rfl⟩
  refine ⟨_, e', before, after.rest_eq, whole, texts, texts', ?_⟩
  rw [Forest.unplaced_withTexts, Forest.unplaced_withTexts, Forest.unplaced_withTexts,
    ← Forest.withTexts_append, same]
  exact .here _

end Cutting

/-! ## Where a scan comes to -/

namespace Scanner

variable {s next : Scanner}

/-- Every step goes over a character. -/
theorem onward_of_step (step : s.step? = some next) :
    s.cursor.rest ≠ [] ∧ next.cursor.rest <:+ (s.cursor.drop 1).rest := by
  have ok {α : Type} {read : Except FaultAt α} {f : α → Scanner}
      (is : read.toOption.map f = some next) : ∃ a, read = .ok a ∧ f a = next := by
    cases read with
    | error => cases is
    | ok a => exact ⟨a, rfl, Option.some.inj is⟩
  have one : ∀ {n : Nat}, 1 ≤ n → (s.cursor.drop n).rest <:+ (s.cursor.drop 1).rest := fun within =>
    List.drop_suffix_drop_left _ within
  unfold step? at step
  split at step
  · cases step
  split at step
  · cases step
  case isFalse more =>
  refine ⟨fun none => more (List.isEmpty_iff.2 none), ?_⟩
  split at step
  case h_1 =>
    obtain ⟨after, ended, rfl⟩ := ok step
    exact (endTag_suffix ended).trans (one (by decide))
  case h_2 | h_3 =>
    obtain ⟨⟨skipped, after⟩, through, rfl⟩ := ok step
    exact Cursor.through_suffix_drop through (by rw [List.length_append]; exact Nat.le_add_left _ _)
  case h_4 =>
    obtain ⟨⟨text, after⟩, taken, rfl⟩ := ok step
    exact (characterData_suffix taken).trans (one (by decide))
  case h_5 piece =>
    obtain ⟨⟨kept, after⟩, taken, rfl⟩ := ok step
    have later := text_suffix_drop (fun none => more (List.isEmpty_iff.2 none)) piece taken
    dsimp only
    split <;> exact later
  case h_6 =>
    obtain ⟨⟨tag, after⟩, read, rfl⟩ := ok step
    exact StartTag.read_suffix_drop read

/-- A scan goes on to an end of the text, and stays where it is only if it goes over nothing. -/
theorem onward_of_runs (runs : Runs s next) : next.cursor.rest <:+ s.cursor.rest ∧
    (s = next ∨ next.cursor.rest.length < s.cursor.rest.length) := by
  induction runs with
  | refl => exact ⟨List.suffix_rfl, .inl rfl⟩
  | tail _ step ih =>
    obtain ⟨filled, further⟩ := onward_of_step step
    have length := further.length_le
    have shorter := List.length_pos_iff.2 filled
    rw [Cursor.drop, List.length_drop] at length
    refine ⟨(further.trans (Cursor.drop_suffix _ _)).trans ih.1, .inr ?_⟩
    rcases ih.2 with rfl | before <;> omega

/-- Of two places that a scan comes to, one comes from the other. -/
theorem Runs.total {last : Scanner} (runs : Runs s next) (runs' : Runs s last) :
    Runs next last ∨ Runs last next :=
  Relation.ReflTransGen.total_of_right_unique
    (fun _ _ _ here there => Option.some.inj (here.symm.trans there)) runs runs'

end Scanner

section Splitting

variable {first second tail w : List Char} (cut : TextCut first second tail) (aside : Aside w)
  (parts : ∀ texts, textsOf (first ++ second) = .ok texts →
    ∃ one two, textsOf first = .ok one ∧ textsOf second = .ok two)

include cut aside parts

/-- **Content with a text that is cut in two is read as before**, but for the texts that are made of
the parts. The scan of the content comes to the text before it comes to the end. -/
theorem split_readContent {tag tag' : StartTag} (written : tag'.written = tag.written)
    {around : List StartTag} {outline : List (List StartTag)} {fuel fuel' : Nat}
    (enough : fuel + 2 ≤ fuel') {c d e : Cursor} {f : Forest} {s : Scanner}
    (shared : Cursor.Shared (first ++ (second ++ tail)) (first ++ (w ++ (second ++ tail))) c d)
    (here : s.cursor.rest = first ++ (second ++ tail))
    (comes : Scanner.Runs ⟨c, tag :: around, outline⟩ s)
    (within : e.rest.length < s.cursor.rest.length)
    (ok : readContent tag ((tag :: around).map StartTag.declarations) fuel c = .ok (f, e)) :
    ∃ f' e', readContent tag' ((tag :: around).map StartTag.declarations) fuel' d = .ok (f', e') ∧
      e'.rest = e.rest ∧ f.unplaced.Cut first second f'.unplaced := by
  have ends := cut.endings w
  induction fuel generalizing tag tag' around outline fuel' c d e f with
  | zero => cases ok
  | succ fuel ih =>
  rcases Relation.ReflTransGen.cases_head comes with rfl | ⟨next, step, later⟩
  case inl =>
    obtain ⟨v, whole, whole'⟩ := shared
    obtain rfl : v = [] := List.self_eq_append_left.1 (here.symm.trans whole)
    exact cut_readContent cut aside parts written enough whole whole' ok
  case inr =>
  obtain ⟨fuel', rfl⟩ := Nat.exists_eq_succ_of_ne_zero (Nat.ne_zero_of_lt enough)
  have enough := Nat.le_of_succ_le_succ enough
  obtain ⟨more, reads⟩ := readContent_eq_ok_iff.1 ok
  have more' : d.rest.isEmpty = false := (shared.isEmpty ends).trans more
  -- The text stands behind all that the scan has gone over.
  have inside {start : Scanner} (later : Scanner.Runs start s) :
      first ++ (second ++ tail) <:+ start.cursor.rest := here ▸ (Scanner.onward_of_runs later).1
  cases reads with
  | ending piece ended =>
    cases step.symm.trans (Scanner.step?_ending around outline more piece ended)
    exact absurd (Scanner.onward_of_runs later).1.length_le (Nat.not_le_of_lt within)
  | @passed mark skipped after _ _ piece through rest =>
    cases step.symm.trans (Scanner.step?_passed around outline more piece through)
    obtain ⟨after', piece', through', sharedAfter⟩ :=
      shared_passedOver ends shared piece through (inside later)
    obtain ⟨f', e', rest', last, cuts⟩ := ih written enough sharedAfter later within rest
    exact ⟨f', e', readContent_eq_ok_iff.2 ⟨more', .passed piece' through' rest'⟩, last, cuts⟩
  | @characterData n after _ siblings piece taken rest =>
    cases step.symm.trans (Scanner.step?_characterData around outline more piece taken)
    have piece' := pieceAt_of_startsWith.2.2.1 (shared.startsWith
      (startsWith_of_pieceAt.2.2.1 piece) ((inside later).trans (characterData_suffix taken)))
    obtain ⟨m, after', taken', sharedAfter, same⟩ :=
      shared_readCharacterData ends shared taken (inside later)
    obtain ⟨f', e', rest', last, cuts⟩ := ih written enough sharedAfter later within rest
    exact ⟨.cons m .nil f', e', readContent_eq_ok_iff.2
      ⟨more', .characterData piece' taken' rest'⟩, last, .behind same rfl cuts⟩
  | @blank after _ _ piece taken rest =>
    cases step.symm.trans (Scanner.step?_blank around outline more piece taken)
    obtain ⟨m, after', taken', sharedAfter, same⟩ := shared_readText ends shared taken (inside later)
    obtain rfl : m = none := Option.map_eq_none_iff.1 same
    obtain ⟨f', e', rest', last, cuts⟩ := ih written enough sharedAfter later within rest
    exact ⟨f', e', readContent_eq_ok_iff.2
      ⟨more', .blank (shared_text ends shared more piece) taken' rest'⟩, last, cuts⟩
  | @text n after _ siblings piece taken rest =>
    cases step.symm.trans (Scanner.step?_text around outline more piece taken)
    obtain ⟨_, after', taken', sharedAfter, same⟩ := shared_readText ends shared taken (inside later)
    obtain ⟨m, rfl, same'⟩ := Option.map_eq_some_iff.1 same
    obtain ⟨f', e', rest', last, cuts⟩ := ih written enough sharedAfter later within rest
    exact ⟨.cons m .nil f', e', readContent_eq_ok_iff.2
      ⟨more', .text (shared_text ends shared more piece) taken' rest'⟩, last, .behind same' rfl cuts⟩
  | @element inner start after _ children siblings piece opened below rest =>
    obtain ⟨read, -, scopes⟩ := readOpenTag_eq_ok_iff.1 opened
    cases step.symm.trans (Scanner.step?_element around outline more piece read)
    have inStart : first ++ (second ++ tail) <:+ start.rest := inside later
    obtain ⟨inner', start', opened', sharedStart, alike⟩ :=
      shared_readOpenTag ends shared opened inStart
    have piece' := shared_element shared piece opened inStart
    -- The text is behind the element.
    have behind (o : List (List StartTag)) (later : Scanner.Runs ⟨after, tag :: around, o⟩ s) :
        ∃ f' e', readContent tag' ((tag :: around).map StartTag.declarations) (fuel' + 1) d =
            .ok (f', e') ∧ e'.rest = e.rest ∧
          (Forest.cons inner.body children siblings).unplaced.Cut first second f'.unplaced := by
      obtain ⟨children', after', below', sharedAfter, same⟩ := shared_below ends
        (show fuel ≤ fuel' by omega) alike sharedStart below (inside later)
      obtain ⟨f', e', rest', last, cuts⟩ := ih written enough sharedAfter later within rest
      exact ⟨.cons inner'.body children' f', e', readContent_eq_ok_iff.2
        ⟨more', .element piece' opened' below' rest'⟩, last, .behind alike.body same cuts⟩
    unfold Scanner.enter at later
    cases closed : inner.tag.closed with
    | true =>
      rw [closed, if_pos rfl] at below later
      cases below
      exact behind _ later
    | false =>
      rw [closed, if_neg Bool.false_ne_true] at below later
      have scopes' : inner.scopes = (inner.tag :: tag :: around).map StartTag.declarations := scopes
      rw [scopes'] at below
      obtain ⟨outline', -, runs⟩ := runs_of_readContent below
      by_cases early : after.rest.length < s.cursor.rest.length
      case pos =>
        -- The text is inside the element.
        obtain ⟨children', after', below', last, cuts⟩ :=
          ih alike.tag.written enough sharedStart later early below
        obtain ⟨siblings', e', rest', sharedEnd, same⟩ := shared_readContent (.refl [])
          (show fuel ≤ fuel' by omega) written (.of_rest last) rest List.nil_suffix
        refine ⟨.cons inner'.body children' siblings', e', readContent_eq_ok_iff.2
          ⟨more', .element piece' opened' ?_ rest'⟩, sharedEnd.rest_eq, .inside alike.body cuts same⟩
        rw [alike.tag.closed, closed, if_neg Bool.false_ne_true, alike.scopes, scopes']
        exact below'
      case neg =>
        have ran := runs (outline ++ [inner.tag :: tag :: around])
        rcases Scanner.Runs.total ran later with further | back
        · exact behind _ further
        · rcases (Scanner.onward_of_runs back).2 with rfl | shorter
          · exact behind _ .refl
          · exact absurd shorter early

end Splitting

/-! ## Places inside texts -/

/-- A scan of a text comes to a state. -/
inductive Scanner.Comes (text : String) (s : Scanner) : Prop
  | intro {start after : Cursor} {tag : StartTag}
    (prologue : readPrologue (Cursor.ofText text).rest.length (Cursor.ofText text) = .ok start)
    (opened : StartTag.read start = .ok (tag, after))
    (runs : Scanner.Runs (Scanner.enter ⟨start, [], []⟩ tag after) s)

/-- Goes over a number of pieces. -/
def Scanner.steps? : Nat → Scanner → Option Scanner
  | 0, s => some s
  | n + 1, s => s.step?.bind (Scanner.steps? n)

/-- The state that a scan of a text comes to when it has gone over a number of pieces. -/
def Scanner.past? (text : String) (pieces : Nat) : Option Scanner := do
  let start ← (readPrologue (Cursor.ofText text).rest.length (Cursor.ofText text)).toOption
  let (tag, after) ← (StartTag.read start).toOption
  (Scanner.enter ⟨start, [], []⟩ tag after).steps? pieces

/-- Where a scan comes to inside an element, asked in a form that can be decided. -/
theorem Scanner.exists_comes {text : String} {rest : List Char} (pieces : Nat)
    (past : (Scanner.past? text pieces).map (fun s => (s.enclosing.isEmpty, s.cursor.rest)) =
      some (false, rest)) :
    ∃ s, Scanner.Comes text s ∧ s.enclosing ≠ [] ∧ s.cursor.rest = rest := by
  have runs : ∀ (n : Nat) (s last : Scanner), s.steps? n = some last → Scanner.Runs s last := by
    intro n
    induction n with
    | zero =>
      rintro s last ⟨⟩
      exact .refl
    | succ n ih =>
      intro s last goes
      obtain ⟨next, step, goes⟩ := Option.bind_eq_some_iff.1 goes
      exact .head step (ih next last goes)
  obtain ⟨s, past, is⟩ := Option.map_eq_some_iff.1 past
  obtain ⟨inside, here⟩ := Prod.mk.inj is
  obtain ⟨start, prologue, past⟩ := Option.bind_eq_some_iff.1 past
  obtain ⟨⟨tag, after⟩, opened, past⟩ := Option.bind_eq_some_iff.1 past
  refine ⟨s, ⟨ok_of_toOption prologue, ok_of_toOption opened, runs _ _ _ past⟩, ?_, here⟩
  simpa using inside

/-- **A place inside a text** of a document: the text is one in the content of an element, there are
characters of it on both sides, and no reference is cut in two. -/
structure Place (markup : String) (before first second tail : List Char) : Prop
    extends TextCut first second tail where
  whole : markup.toList = before ++ (first ++ (second ++ tail))
  comes : ∃ s, Scanner.Comes markup s ∧ s.enclosing ≠ [] ∧
    s.cursor.rest = first ++ (second ++ tail)
  outside : ∀ b a, first = b ++ '&' :: a → ';' ∈ a

/-- A place inside a text without references before it, asked in a form that can be decided. -/
theorem Place.of_past {before first second tail : List Char} (pieces : Nat)
    (cut : first ≠ [] ∧ second ≠ [] ∧ '<' ∉ first ++ second ∧ '&' ∉ first ∧ tail.head? = some '<')
    (past : (Scanner.past? (String.ofList (before ++ (first ++ (second ++ tail)))) pieces).map
      (fun s => (s.enclosing.isEmpty, s.cursor.rest)) = some (false, first ++ (second ++ tail))) :
    Place (String.ofList (before ++ (first ++ (second ++ tail)))) before first second tail := by
  obtain ⟨filled, filled', free, plain, ends⟩ := cut
  exact {
    filled, filled', free, ends
    whole := String.toList_ofList
    comes := Scanner.exists_comes pieces past
    outside := fun b a is => absurd (is ▸ List.mem_append_right b List.mem_cons_self) plain }

theorem Aside.two_le_length {w : List Char} (aside : Aside w) : 2 ≤ w.length := by
  cases aside with
  | comment | instruction =>
    rw [List.length_append]
    exact Nat.le_add_right_of_le (by decide)

/-- **A document with something inside a text that is passed over** is read as the document without
it, but for the text. -/
theorem read_of_place {markup : String} {before first second tail w : List Char}
    (place : Place markup before first second tail) (aside : Aside w) {t : NodeTree}
    (read : NodeTree.read markup = .ok t) :
    ∃ body below body' below' ignorable, t = .ofForest body below ignorable ∧
      NodeTree.read (String.ofList (before ++ (first ++ (w ++ (second ++ tail))))) =
        .ok (.ofForest body' below' ignorable) ∧
      body'.unplaced = body.unplaced ∧ below.unplaced.Cut first second below'.unplaced := by
  have ends := place.endings w
  obtain ⟨s, comes, open_, here⟩ := place.comes
  obtain ⟨start, outer, inside, below, e, prologue, opens, content, rfl⟩ :=
    NodeTree.read_eq_ok_iff.1 read
  obtain ⟨tagRead, meant, scopes⟩ := readOpenTag_eq_ok_iff.1 opens
  obtain @⟨start', after, tag, prologue', tagRead', runs⟩ := comes
  cases prologue.symm.trans prologue'
  cases tagRead.symm.trans tagRead'
  -- Where a scan has ended it does not go on.
  have stays {state : Scanner} (ended : state.enclosing = []) (runs : Scanner.Runs state s) :
      False := by
    rcases Relation.ReflTransGen.cases_head runs with rfl | ⟨_, step, _⟩
    · exact open_ ended
    · rw [Scanner.step?_of_ended ended] at step
      cases step
  have behind := here ▸ (Scanner.onward_of_runs runs).1
  have shared : Cursor.Shared (first ++ (second ++ tail)) (first ++ (w ++ (second ++ tail)))
      (Cursor.ofText markup)
      (Cursor.ofText (String.ofList (before ++ (first ++ (w ++ (second ++ tail)))))) :=
    ⟨before, place.whole, String.toList_ofList⟩
  obtain ⟨_, _, others, begins, -, later⟩ := StartTag.begins_of_read tagRead
  have inStart : first ++ (second ++ tail) <:+ (start.drop 2).rest := by
    show _ <:+ start.rest.drop 2
    rw [begins]
    exact behind.trans later
  obtain ⟨start', prologue', sharedStart⟩ := shared_readPrologue ends (shared.length_le ends) shared
    prologue inStart (by rw [begins]; exact Nat.le_add_left _ _)
  obtain ⟨outer', inside', opens', sharedInside, alike⟩ := shared_readOpenTag ends sharedStart opens behind
  cases closed : outer.tag.closed with
  | true =>
    rw [Scanner.enter, closed] at runs
    exact (stays rfl runs).elim
  | false =>
    rw [Scanner.enter, closed] at runs
    rw [closed, scopes] at content
    have content : readContent outer.tag (([outer.tag] : List StartTag).map StartTag.declarations)
      inside.rest.length inside = .ok (below, e) := content
    obtain ⟨outline, -, goes⟩ := runs_of_readContent content
    have within : e.rest.length < s.cursor.rest.length := by
      rcases Scanner.Runs.total (goes _) runs with on | back
      · exact (stays rfl on).elim
      · rcases (Scanner.onward_of_runs back).2 with is | shorter
        · exact absurd (by rw [is]) open_
        · exact shorter
    have enough : inside.rest.length + 2 ≤ inside'.rest.length := by
      obtain ⟨v, one, two⟩ := sharedInside
      have := aside.two_le_length
      rw [one, two]
      simp only [List.length_append]
      omega
    obtain ⟨below', e', content', -, cuts⟩ := split_readContent place.toTextCut aside
      (fun texts ok => by
        obtain ⟨one, two, read, read', -⟩ := textsOf_append place.outside ok
        exact ⟨one, two, read, read'⟩)
      alike.tag.written enough sharedInside here runs within content
    refine ⟨outer.body, below, outer'.body, below', outer.ignorable, rfl, ?_, alike.body, cuts⟩
    rw [← alike.ignorable]
    refine NodeTree.read_eq_ok_iff.2 ⟨start', outer', inside', below', e', prologue', opens', ?_, rfl⟩
    rw [alike.tag.closed, closed, if_neg Bool.false_ne_true, alike.scopes.trans scopes]
    exact content'

end MarkupLoader
