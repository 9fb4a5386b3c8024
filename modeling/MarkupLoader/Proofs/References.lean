import Mathlib.Data.List.Forall2
import MarkupLoader.Proofs.Coerced

/-!
# Which references are decoded

A text is decoded exactly if every ampersand in it begins a reference, and what it is decoded to is
told without reading it from the left: the text **falls into pieces**, each of which is one character
that stands for itself or a reference, and the characters of the pieces in order are what it means
(`Means`). No piece is looked at twice, so an ampersand that comes out of a reference begins none.

* **Ampersands** stand at the beginning of pieces only. Where each of them begins a reference, pieces
  are found one after the other (`exists_means_iff`).
* **Reading** goes on to the first semicolon after an ampersand, wherever that is; what stands in
  between is a name or a number, or the text is refused (`character?_eq_some_iff`). The induction is on
  the text, outside references and inside at once (`means_of_decodeFrom`).
* **Signs.** The reader of numbers takes a plus sign, which no reference has. Texts in which no number
  begins with one are decoded exactly if all their ampersands begin references
  (`decodes_references`).
-/

namespace MarkupLoader

open Text Markup

/-! ## Texts in pieces -/

/-- A character that is not in the first part of a text is in the rest of it. -/
theorem Text.suffix_of_suffix_append {c : Char} {s t u : List Char} (not : c ∉ s)
    (ends : c :: u <:+ s ++ t) : c :: u <:+ t := by
  induction s with
  | nil => exact ends
  | cons d s ih =>
    rcases List.suffix_cons_iff.1 ends with same | later
    · exact absurd (List.cons.inj same).1 (List.ne_of_not_mem_cons not)
    · exact ih (List.not_mem_of_not_mem_cons not) later

namespace Markup

/-- What is taken for a reference to a character: a reference, or one with a plus sign in front of the
digits of its number. -/
inductive TakenReference (c : Char) : List Char → Prop
  | proper {reference : List Char} (refers : CharacterReference c reference) :
    TakenReference c reference
  | signedDecimal {digits : List Char} (numeral : Numeral 10 c.toNat digits) :
    TakenReference c ('&' :: ('#' :: '+' :: digits ++ [';']))
  | signedHexadecimal {digits : List Char} (numeral : Numeral 16 c.toNat digits) :
    TakenReference c ('&' :: ('#' :: 'x' :: '+' :: digits ++ [';']))

section Definitions

variable (refers : Char → List Char → Prop)

/-- The ways in which a character stands in a text: by a reference, or as itself if it is no
ampersand. -/
def IsPiece (c : Char) (piece : List Char) : Prop := c ≠ '&' ∧ piece = [c] ∨ refers c piece

/-- What a text means: it falls into pieces, in each of which one character stands. -/
def Means (text meant : List Char) : Prop :=
  ∃ pieces, List.Forall₂ (IsPiece refers) meant pieces ∧ pieces.flatten = text

/-- Every ampersand in a text begins a reference. -/
def AmpersandsRefer (text : List Char) : Prop :=
  ∀ rest, '&' :: rest <:+ text → ∃ c reference, refers c reference ∧ reference <+: '&' :: rest

end Definitions

/-- Nowhere in a text does a plus sign stand where the number of a reference begins. -/
def Unsigned (text : List Char) : Prop := ¬ "&#+".toList <:+: text ∧ ¬ "&#x+".toList <:+: text

instance (text : List Char) : Decidable (Unsigned text) := inferInstanceAs (Decidable (_ ∧ _))

section Pieces

variable {refers refers' : Char → List Char → Prop} {c : Char}
  {text rest meant piece reference : List Char}

/-- A piece may be put in front of a text. -/
theorem Means.cons (is : IsPiece refers c piece) (means : Means refers rest meant) :
    Means refers (piece ++ rest) (c :: meant) := by
  obtain ⟨pieces, each, rfl⟩ := means
  exact ⟨piece :: pieces, .cons is each, rfl⟩

/-- Which references there are counts for those in the text only. -/
theorem Means.imp (means : Means refers text meant)
    (sub : ∀ c reference, reference <:+: text → refers c reference → refers' c reference) :
    Means refers' text meant := by
  obtain ⟨pieces, each, rfl⟩ := means
  induction each with
  | nil => exact ⟨[], .nil, rfl⟩
  | @cons c piece meant pieces is _ ih =>
    have here : IsPiece refers' c piece := is.imp_right (sub _ _ (List.prefix_append _ _).isInfix)
    have later : Means refers' pieces.flatten meant := ih fun c reference inside =>
      sub c reference (inside.trans (List.suffix_append _ _).isInfix)
    exact later.cons here

theorem AmpersandsRefer.imp (all : AmpersandsRefer refers text)
    (sub : ∀ c reference, reference <:+: text → refers c reference → refers' c reference) :
    AmpersandsRefer refers' text := by
  intro rest ends
  obtain ⟨c, reference, is, begins⟩ := all rest ends
  exact ⟨c, reference, sub c reference (begins.isInfix.trans ends.isInfix) is, begins⟩

section Shape

-- References begin with an ampersand, and no other one is in them.
variable (shape : ∀ c reference, refers c reference →
  ∃ inner, reference = '&' :: inner ∧ '&' ∉ inner)

include shape

/-- Of a text that begins with a piece, an ampersand begins that piece or comes after it. -/
theorem ampersandsRefer_append (is : IsPiece refers c piece) (later : AmpersandsRefer refers rest) :
    AmpersandsRefer refers (piece ++ rest) := by
  intro after ends
  rcases is with ⟨plain, rfl⟩ | refersTo
  · have not : '&' ∉ [c] := fun mem => plain (List.mem_singleton.1 mem).symm
    exact later after (suffix_of_suffix_append not ends)
  · obtain ⟨inner, rfl, not⟩ := shape _ _ refersTo
    rcases List.suffix_cons_iff.1 ends with same | inside
    · exact ⟨c, _, refersTo, same ▸ List.prefix_append _ _⟩
    · exact later after (suffix_of_suffix_append not inside)

theorem ampersandsRefer_of_means (means : Means refers text meant) : AmpersandsRefer refers text := by
  obtain ⟨pieces, each, rfl⟩ := means
  induction each with
  | nil => exact fun _ ends => absurd (List.suffix_nil.1 ends) (List.cons_ne_nil _ _)
  | cons is _ ih => exact ampersandsRefer_append shape is ih

/-- Pieces are found one after the other. -/
theorem exists_means_of_ampersandsRefer (all : AmpersandsRefer refers text) :
    ∃ meant, Means refers text meant := by
  -- A reference may be of any length, so the induction is on the length of what is left.
  induction size : text.length using Nat.strongRecOn generalizing text with
  | ind n ih =>
    subst size
    have onward : ∀ {c piece rest}, IsPiece refers c piece → piece ≠ [] → text = piece ++ rest →
        ∃ meant, Means refers text meant := by
      rintro c piece rest is filled rfl
      have shorter : rest.length < (piece ++ rest).length := by
        have := List.length_pos_of_ne_nil filled
        rw [List.length_append]
        omega
      have rest' : AmpersandsRefer refers rest := fun _ ends =>
        all _ (ends.trans (List.suffix_append _ _))
      obtain ⟨meant, means⟩ := ih _ shorter rest' rfl
      exact ⟨c :: meant, means.cons is⟩
    cases text with
    | nil => exact ⟨[], [], .nil, rfl⟩
    | cons c rest =>
      by_cases amp : c = '&'
      · subst amp
        obtain ⟨c, reference, refersTo, later, same⟩ := all rest (List.suffix_refl _)
        obtain ⟨inner, rfl, -⟩ := shape _ _ refersTo
        exact onward (.inr refersTo) (List.cons_ne_nil _ _) same.symm
      · exact onward (.inl ⟨amp, rfl⟩) (List.cons_ne_nil _ _) rfl

/-- **A text means something exactly if all its ampersands begin references.** -/
theorem exists_means_iff : (∃ meant, Means refers text meant) ↔ AmpersandsRefer refers text :=
  ⟨fun ⟨_, means⟩ => ampersandsRefer_of_means shape means, exists_means_of_ampersandsRefer shape⟩

end Shape

end Pieces

/-! ## The characters of references -/

section References

variable {c : Char} {reference text meant : List Char}

/-- The characters of references between the ampersand and the semicolon. -/
def referring : List Char := "ltgampquos#x+0123456789abcdefABCDEF".toList

theorem Numeral.subset_referring {base n : Nat} {digits : List Char}
    (numeral : Numeral base n digits) : digits ⊆ referring := by
  intro d mem
  obtain ⟨value, -, is⟩ := (isDigit_of_numeral numeral).2 d mem
  have known : "0123456789abcdefABCDEF".toList ⊆ referring := by decide
  exact known (mem_digits is)

/-- What is taken for a reference begins with the only ampersand in it and ends with the only
semicolon. -/
theorem TakenReference.exists_inner (taken : TakenReference c reference) :
    ∃ inner, reference = '&' :: (inner ++ [';']) ∧ inner ⊆ referring := by
  have known : '#' ∈ referring ∧ 'x' ∈ referring ∧ '+' ∈ referring := by decide
  obtain ⟨number, hexadecimal, plus⟩ := known
  cases taken with
  | proper refers =>
    cases refers with
    | name entry =>
      have all : ∀ entry ∈ named, entry.1.toList ⊆ referring := by decide
      exact ⟨_, rfl, all _ entry⟩
    | decimal numeral =>
      exact ⟨_, rfl, List.cons_subset.2 ⟨number, numeral.subset_referring⟩⟩
    | hexadecimal numeral =>
      exact ⟨_, rfl, List.cons_subset.2 ⟨number, List.cons_subset.2
        ⟨hexadecimal, numeral.subset_referring⟩⟩⟩
  | signedDecimal numeral =>
    exact ⟨_, rfl, List.cons_subset.2 ⟨number, List.cons_subset.2 ⟨plus, numeral.subset_referring⟩⟩⟩
  | signedHexadecimal numeral =>
    exact ⟨_, rfl, List.cons_subset.2 ⟨number, List.cons_subset.2 ⟨hexadecimal, List.cons_subset.2
      ⟨plus, numeral.subset_referring⟩⟩⟩⟩

theorem TakenReference.shape (taken : TakenReference c reference) :
    ∃ inner, reference = '&' :: inner ∧ '&' ∉ inner := by
  obtain ⟨inner, rfl, known⟩ := taken.exists_inner
  refine ⟨_, rfl, fun mem => ?_⟩
  rcases List.mem_append.1 mem with mem | mem
  · exact absurd (known mem) (by decide)
  · exact absurd mem (by decide)

/-- A plus sign stands in no reference. -/
theorem CharacterReference.not_mem_plus (refers : CharacterReference c reference) :
    '+' ∉ reference := by
  cases refers with
  | name entry =>
    have all : ∀ entry ∈ named, '+' ∉ '&' :: (entry.1.toList ++ [';']) := by decide
    exact all _ entry
  | decimal numeral =>
    have none : '+' ∉ _ := fun mem => (numeral.plain _ mem).1 rfl
    simpa using none
  | hexadecimal numeral =>
    have none : '+' ∉ _ := fun mem => (numeral.plain _ mem).1 rfl
    simpa using none

/-- A text that begins with a reference has no plus sign where only a part of a reference stands
before it. -/
theorem CharacterReference.not_prefix (refers : CharacterReference c reference)
    {before : List Char} (unfinished : ';' ∉ before) (after : List Char) :
    ¬ reference <+: before ++ '+' :: after := by
  intro begins
  have closed : ';' ∈ reference := by
    obtain ⟨inner, rfl, -⟩ := (TakenReference.proper refers).exists_inner
    simp
  rcases List.prefix_or_prefix_of_prefix begins (List.prefix_append _ _) with short | ⟨more, rfl⟩
  · exact unfinished (short.subset closed)
  · -- The reference goes on, so the sign is in it.
    rcases more with _ | ⟨d, more⟩
    · rw [List.append_nil] at closed
      exact unfinished closed
    · obtain ⟨rfl, -⟩ := List.cons_prefix_cons.1 ((List.prefix_append_right_inj _).1 begins)
      exact refers.not_mem_plus (by simp)

/-- No sign stands in a text in which all ampersands begin references. -/
theorem unsigned_of_ampersandsRefer (all : AmpersandsRefer CharacterReference text) :
    Unsigned text := by
  -- A sign in the text stands after an ampersand, whose reference would have to end before it.
  constructor
  · rintro ⟨before, after, rfl⟩
    obtain ⟨c, reference, refers, begins⟩ := all ("#+".toList ++ after) ⟨before, by simp⟩
    have unfinished : ';' ∉ "&#".toList := by decide
    exact refers.not_prefix unfinished after begins
  · rintro ⟨before, after, rfl⟩
    obtain ⟨c, reference, refers, begins⟩ := all ("#x+".toList ++ after) ⟨before, by simp⟩
    have unfinished : ';' ∉ "&#x".toList := by decide
    exact refers.not_prefix unfinished after begins

/-- What is taken for a reference in a text without signs is one. -/
theorem TakenReference.proper_of_unsigned (taken : TakenReference c reference)
    (unsigned : Unsigned text) (inside : reference <:+: text) : CharacterReference c reference := by
  cases taken with
  | proper refers => exact refers
  | signedDecimal => exact absurd ((List.prefix_append "&#+".toList _).isInfix.trans inside) unsigned.1
  | signedHexadecimal =>
    exact absurd ((List.prefix_append "&#x+".toList _).isInfix.trans inside) unsigned.2

end References

end Markup

/-! ## What is read as a reference -/

namespace Reference

variable {c : Char} {inner piece text meant : List Char} {base n : Nat}

/-- The numbers of characters are the Unicode scalar values. -/
theorem scalar?_eq_some_iff : scalar? n = some c ↔ c.toNat = n := by
  constructor
  · intro read
    unfold scalar? at read
    split at read
    case isTrue valid =>
      rw [← Option.some.inj read, Char.ofNat, dif_pos valid]
      rfl
    case isFalse => cases read
  · rintro rfl
    exact scalar?_toNat c

/-- The number of a character is read with a plus sign or without one. -/
theorem unsigned?_bind_scalar?_eq_some_iff {s : List Char} :
    (unsigned? base s).bind scalar? = some c ↔
      Numeral base c.toNat s ∨ ∃ digits, s = '+' :: digits ∧ Numeral base c.toNat digits := by
  simp only [Option.bind_eq_some_iff, scalar?_eq_some_iff, exists_eq_right', unsigned?_eq_some_iff]

theorem mem_named_of_named? (known : named? inner = some c) : (String.ofList inner, c) ∈ named := by
  unfold named? at known
  split at known <;> cases known <;> decide

/-- What is read as a character is taken for a reference to it, and nothing else is. -/
theorem character?_eq_some_iff :
    character? inner = some c ↔ TakenReference c ('&' :: (inner ++ [';'])) := by
  constructor
  · intro known
    rcases Option.or_eq_some_iff.1 known with name | ⟨-, number⟩
    · have refers := CharacterReference.name (mem_named_of_named? name)
      rw [String.toList_ofList] at refers
      exact .proper refers
    · unfold numbered? at number
      split at number
      case h_1 =>
        obtain numeral | ⟨digits, rfl, numeral⟩ := unsigned?_bind_scalar?_eq_some_iff.1 number
        · exact .proper (.hexadecimal numeral)
        · exact .signedHexadecimal numeral
      case h_2 =>
        -- An `x` would have been taken for the mark of the other base.
        obtain numeral | ⟨digits, rfl, numeral⟩ := unsigned?_bind_scalar?_eq_some_iff.1 number
        · exact .proper (.decimal numeral)
        · exact .signedDecimal numeral
      case h_3 => cases number
  · intro taken
    generalize whole : '&' :: (inner ++ [';']) = reference at taken
    cases taken with
    | proper refers =>
      obtain ⟨inner', rfl, -, known⟩ := character?_of_reference refers
      obtain rfl := List.append_cancel_right (List.cons.inj whole).2
      exact known
    | @signedDecimal digits numeral =>
      obtain rfl : inner = '#' :: '+' :: digits := List.append_cancel_right (List.cons.inj whole).2
      exact unsigned?_bind_scalar?_eq_some_iff.2 (.inr ⟨digits, rfl, numeral⟩)
    | @signedHexadecimal digits numeral =>
      obtain rfl : inner = '#' :: 'x' :: '+' :: digits :=
        List.append_cancel_right (List.cons.inj whole).2
      exact unsigned?_bind_scalar?_eq_some_iff.2 (.inr ⟨digits, rfl, numeral⟩)

/-! ## Decoding -/

/-- A piece is decoded to its character, whatever follows. -/
theorem decode_piece (is : IsPiece TakenReference c piece) (rest : List Char) :
    decode (piece ++ rest) = (decode rest).map (c :: ·) := by
  rcases is with ⟨plain, rfl⟩ | taken
  · rw [List.singleton_append, decode, decodeFrom, if_neg plain, decode]
  · obtain ⟨inner, rfl, known⟩ := taken.exists_inner
    have ends : ';' ∉ inner := fun mem => absurd (known mem) (by decide)
    have whole : '&' :: (inner ++ [';']) ++ rest = '&' :: (inner ++ ';' :: rest) := by simp
    rw [whole, decode, decodeFrom, if_pos rfl,
      decodeFrom_reading rest ends [] (character?_eq_some_iff.2 taken), decode]

theorem decode_of_means (means : Means TakenReference text meant) : decode text = .ok meant := by
  obtain ⟨pieces, each, rfl⟩ := means
  induction each with
  | nil => rfl
  | cons is _ ih =>
    rw [List.flatten_cons, decode_piece is, ih]
    rfl

/-- What a text is decoded to is what it means. In the middle of a reference, what is left of the text
goes on to its end first. -/
theorem means_of_decodeFrom (text : List Char) :
    (∀ meant, decodeFrom none text = .ok meant → Means TakenReference text meant) ∧
    ∀ reading meant, decodeFrom (some reading) text = .ok meant →
      ∃ inner rest c later, text = inner ++ ';' :: rest ∧
        character? (reading.reverse ++ inner) = some c ∧ Means TakenReference rest later ∧
        meant = c :: later := by
  induction text with
  | nil =>
    refine ⟨fun meant read => ?_, fun _ _ read => by cases read⟩
    cases read
    exact ⟨[], .nil, rfl⟩
  | cons c text ih =>
    obtain ⟨outside, inside⟩ := ih
    constructor
    · intro meant read
      rw [decodeFrom] at read
      by_cases opens : c = '&'
      · -- What follows is the rest of a reference of which nothing has been read.
        subst opens
        rw [if_pos rfl] at read
        obtain ⟨inner, rest, c, later, rfl, known, means, rfl⟩ := inside [] meant read
        have first := means.cons (.inr (character?_eq_some_iff.1 known))
        simpa using first
      · rw [if_neg opens] at read
        obtain ⟨later, found, rfl⟩ := ok_of_map read
        exact (outside later found).cons (.inl ⟨opens, rfl⟩)
    · intro reading meant read
      rw [decodeFrom] at read
      by_cases closes : c = ';'
      · subst closes
        rw [if_pos rfl] at read
        cases known : character? reading.reverse with
        | none =>
          rw [known] at read
          cases read
        | some c =>
          rw [known] at read
          obtain ⟨later, found, rfl⟩ := ok_of_map read
          exact ⟨[], text, c, later, rfl, by rwa [List.append_nil], outside later found, rfl⟩
      · -- The character joins those of the reference that have been read.
        rw [if_neg closes] at read
        obtain ⟨inner, rest, d, later, rfl, known, means, rfl⟩ := inside (c :: reading) meant read
        rw [List.reverse_cons, List.append_assoc] at known
        exact ⟨c :: inner, rest, d, later, rfl, known, means, rfl⟩

/-- **A text is decoded to what it means.** -/
theorem decode_eq_ok_iff : decode text = .ok meant ↔ Means TakenReference text meant :=
  ⟨(means_of_decodeFrom text).1 meant, decode_of_means⟩

end Reference

section Decoding

variable {p : Position} {text : List Char} {s : String}

theorem decodeAt_eq_ok_iff_means : decodeAt p text = .ok s ↔ Means TakenReference text s.toList := by
  rw [decodeAt_eq_ok_iff, ← Reference.decode_eq_ok_iff]
  constructor
  · rintro ⟨decoded, read, rfl⟩
    rwa [String.toList_ofList]
  · exact fun read => ⟨_, read, String.ofList_toList.symm⟩

theorem exists_decodeAt_eq_ok_iff :
    (∃ s, decodeAt p text = .ok s) ↔ AmpersandsRefer TakenReference text := by
  rw [← exists_means_iff fun _ _ => TakenReference.shape]
  constructor
  · rintro ⟨s, read⟩
    exact ⟨_, decodeAt_eq_ok_iff_means.1 read⟩
  · rintro ⟨meant, means⟩
    exact ⟨String.ofList meant, decodeAt_eq_ok_iff_means.2 (by rwa [String.toList_ofList])⟩

end Decoding

/-! ## Main results -/

/--
**References are decoded, and nothing else is.** A text is decoded exactly if every ampersand in it
begins what is taken for a reference, and then to what it means: each of them is replaced by its
character, and every other character is kept.

If no number in it begins with a plus sign, the text is decoded exactly if every ampersand begins a
reference, and then each reference is replaced by its character. No other text is made of references.
-/
theorem decodes_references (p : Position) (text : List Char) :
    ((∃ s, decodeAt p text = .ok s) ↔ AmpersandsRefer TakenReference text) ∧
    (∀ s, decodeAt p text = .ok s ↔ Means TakenReference text s.toList) ∧
    (AmpersandsRefer CharacterReference text → Unsigned text) ∧
    (Unsigned text →
      ((∃ s, decodeAt p text = .ok s) ↔ AmpersandsRefer CharacterReference text) ∧
      ∀ s, decodeAt p text = .ok s ↔ Means CharacterReference text s.toList) := by
  refine ⟨exists_decodeAt_eq_ok_iff, fun _ => decodeAt_eq_ok_iff_means, unsigned_of_ampersandsRefer,
    fun unsigned => ?_⟩
  have proper : ∀ c reference, reference <:+: text → TakenReference c reference →
      CharacterReference c reference :=
    fun _ _ inside taken => taken.proper_of_unsigned unsigned inside
  have taken : ∀ c reference, reference <:+: text → CharacterReference c reference →
      TakenReference c reference :=
    fun _ _ _ => .proper
  constructor
  · rw [exists_decodeAt_eq_ok_iff]
    exact ⟨fun all => all.imp proper, fun all => all.imp taken⟩
  · intro s
    rw [decodeAt_eq_ok_iff_means]
    exact ⟨fun means => means.imp proper, fun means => means.imp taken⟩

/-- References whose characters make up another reference, which is left as it is. -/
theorem decodes_references_once :
    let text := "R&amp;lt; &#x26;#65; &#0000038;".toList
    let meant := "R&lt; &#65; &"
    Unsigned text ∧ decodeAt .start text = .ok meant ∧
      AmpersandsRefer CharacterReference text ∧ Means CharacterReference text meant.toList := by
  intro text meant
  have unsigned : Unsigned text := by decide +kernel
  obtain ⟨-, -, -, proper⟩ := decodes_references .start text
  obtain ⟨succeeds, means⟩ := proper unsigned
  have decoded : decodeAt .start text = .ok meant := by rfl
  exact ⟨unsigned, decoded, succeeds.1 ⟨meant, decoded⟩, (means meant).1 decoded⟩

/-- A number with a plus sign is decoded, though it stands in no reference. -/
theorem decodes_signed_number :
    let text := "&#+65;".toList
    decodeAt .start text = .ok "A" ∧ ¬ AmpersandsRefer CharacterReference text := by
  intro text
  have signed : ¬ Unsigned text := by decide +kernel
  exact ⟨by rfl, fun all => signed (unsigned_of_ampersandsRefer all)⟩

end MarkupLoader
