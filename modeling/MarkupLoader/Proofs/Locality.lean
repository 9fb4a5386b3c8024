import MarkupLoader.Proofs.RoundTrip
import MarkupLoader.Proofs.Readings

/-!
# What reading looks at

Markup is read from left to right. **What is read of a stretch of text depends on that stretch**: not
on where it stands, and not on what comes after it, but for the character that ends a name or a text.

* **Two cursors share a stretch** (`Cursor.Shared`) if their texts are the same up to where they go on
  with two ends. The ends begin with the same character (`Endings`), so that names and texts come to an
  end at the same place.
* **Every part of the reader** that does not go beyond the stretch at the first cursor reads the same
  at the second one, apart from positions. Whether it does is known from what it leaves: reading goes
  on to an end of the text (`StartTag.read_suffix`, `readContent_suffix`).

Two texts that do not differ at all share all of it, so positions do not count.

Main results: `shared_readOpenTag`, `shared_readPrologue`, `shared_readContent`.
-/

namespace MarkupLoader

open Text

/-! ## Endings -/

/-- Two ends of a text that begin with the same character. The second one is no shorter. -/
structure Endings (R S : List Char) : Prop where
  head : S.head? = R.head?
  longer : R.length ≤ S.length

theorem Endings.refl (R : List Char) : Endings R R := ⟨rfl, Nat.le_refl _⟩

namespace Endings

variable {R S w w' : List Char} (ends : Endings R S)

include ends

/-- Without a first end there is no second one. -/
theorem eq_nil (none : R = []) : S = [] := by
  have head := ends.head
  rw [none] at head
  exact List.head?_eq_none_iff.1 head

theorem head?_append (w : List Char) : (w ++ S).head? = (w ++ R).head? := by
  rw [List.head?_append, List.head?_append, ends.head]

/-- As many characters are left. -/
theorem drop {n : Nat} (left : (w ++ R).drop n = w' ++ R) : (w ++ S).drop n = w' ++ S := by
  by_cases within : n ≤ w.length
  · rw [List.drop_append_of_le_length within] at left ⊢
    rw [List.append_cancel_right left]
  · -- More than the stretch is gone over only if there is no end.
    have lengths := congrArg List.length left
    simp only [List.length_drop, List.length_append] at lengths
    obtain rfl : R = [] := List.eq_nil_of_length_eq_zero (by omega)
    obtain rfl : w' = [] := List.eq_nil_of_length_eq_zero (by rw [List.length_nil] at lengths; omega)
    obtain rfl := ends.eq_nil rfl
    exact left

/-- A run of characters ends at the same place. -/
theorem span {p : Char → Bool} (left : (w ++ R).dropWhile p = w' ++ R) :
    (w ++ S).dropWhile p = w' ++ S ∧ (w ++ S).takeWhile p = (w ++ R).takeWhile p := by
  induction w with
  | nil =>
    rw [List.nil_append] at left
    cases R with
    | nil =>
      obtain rfl := ends.eq_nil rfl
      exact ⟨left, rfl⟩
    | cons c R =>
      obtain ⟨S, rfl⟩ : ∃ T, S = c :: T := List.head?_eq_some_iff.1 ends.head
      by_cases runs : p c = true
      · -- The run would go on into the end.
        rw [List.dropWhile_cons_of_pos runs] at left
        have lengths := (List.dropWhile_suffix p (l := R)).length_le
        rw [left, List.length_append, List.length_cons] at lengths
        omega
      · rw [List.dropWhile_cons_of_neg runs] at left
        obtain rfl : w' = [] := List.self_eq_append_left.1 left
        exact ⟨List.dropWhile_cons_of_neg runs,
          (List.takeWhile_cons_of_neg runs).trans (List.takeWhile_cons_of_neg runs).symm⟩
  | cons c w ih =>
    rw [List.cons_append] at left
    by_cases runs : p c = true
    · rw [List.dropWhile_cons_of_pos runs] at left
      obtain ⟨dropped, taken⟩ := ih left
      refine ⟨(List.dropWhile_cons_of_pos runs).trans dropped, ?_⟩
      rw [List.cons_append, List.cons_append, List.takeWhile_cons_of_pos runs,
        List.takeWhile_cons_of_pos runs, taken]
    · rw [List.dropWhile_cons_of_neg runs, ← List.cons_append] at left
      rw [← List.append_cancel_right left]
      exact ⟨List.dropWhile_cons_of_neg runs,
        (List.takeWhile_cons_of_neg runs).trans (List.takeWhile_cons_of_neg runs).symm⟩

end Endings

/-- What is cut is put together of its parts. -/
theorem Text.eq_of_cutAt? {mark s before after : List Char}
    (cut : cutAt? mark s = some (before, after)) : s = before ++ (mark ++ after) := by
  induction s generalizing before with
  | nil =>
    rw [cutAt?] at cut
    split at cut
    case isTrue empty =>
      cases cut
      rw [List.isEmpty_iff.1 empty]
      rfl
    case isFalse => cases cut
  | cons c s ih =>
    rw [cutAt?] at cut
    split at cut
    case isTrue here =>
      cases cut
      obtain ⟨rest, whole⟩ := List.isPrefixOf_iff_prefix.1 here
      rw [← whole, List.drop_left, List.nil_append]
    case isFalse =>
      obtain ⟨⟨first, rest⟩, later, same⟩ := Option.map_eq_some_iff.1 cut
      cases same
      rw [ih later]
      rfl

/-- What follows a text does not count for a mark that is no longer than the text. -/
theorem Text.isPrefixOf_append {mark w : List Char} (long : mark.length ≤ w.length) (T : List Char) :
    mark.isPrefixOf (w ++ T) = mark.isPrefixOf w := by
  rw [Bool.eq_iff_iff, List.isPrefixOf_iff_prefix, List.isPrefixOf_iff_prefix]
  exact ⟨fun begins => List.prefix_of_prefix_length_le begins (List.prefix_append _ _) long,
    fun begins => begins.trans (List.prefix_append _ _)⟩

/-- The first occurrence of a mark is the same. -/
theorem Endings.cutAt? {R S w w' mark before : List Char} (ends : Endings R S) (marked : mark ≠ [])
    (cut : cutAt? mark (w ++ R) = some (before, w' ++ R)) :
    Text.cutAt? mark (w ++ S) = some (before, w' ++ S) := by
  have within := Text.eq_of_cutAt? cut
  rw [← List.append_assoc, ← List.append_assoc, List.append_assoc before] at within
  have stretch := List.append_cancel_right within
  clear within
  induction w generalizing before with
  | nil =>
    have parts := List.append_eq_nil_iff.1 stretch.symm
    exact absurd (List.append_eq_nil_iff.1 parts.2).1 marked
  | cons c w ih =>
    rw [List.cons_append] at cut ⊢
    -- The mark is found within the stretch, and so it is looked for there.
    have long : mark.length ≤ (c :: w).length := by
      rw [stretch, List.length_append, List.length_append]
      omega
    have same : mark.isPrefixOf (c :: (w ++ S)) = mark.isPrefixOf (c :: (w ++ R)) := by
      exact (isPrefixOf_append long S).trans (isPrefixOf_append long R).symm
    rw [Text.cutAt?] at cut ⊢
    rw [same]
    split at cut
    case isTrue here =>
      rw [if_pos here]
      obtain ⟨rfl, left⟩ := Prod.mk.inj (Option.some.inj cut)
      rw [← List.cons_append] at left ⊢
      rw [ends.drop left]
    case isFalse later =>
      rw [if_neg later]
      obtain ⟨⟨first, rest⟩, found, parts⟩ := Option.map_eq_some_iff.1 cut
      obtain ⟨rfl, rfl⟩ := Prod.mk.inj parts
      rw [ih found (List.cons.inj stretch).2]
      rfl

/-! ## Cursors -/

namespace Cursor

/-- Cursors at texts that are the same up to where they go on with `R` and with `S`. -/
def Shared (R S : List Char) (c d : Cursor) : Prop := ∃ w, c.rest = w ++ R ∧ d.rest = w ++ S

/-- Cursors at one text, wherever they stand. -/
theorem Shared.of_rest {c d : Cursor} (same : d.rest = c.rest) : Shared [] [] c d :=
  ⟨c.rest, (List.append_nil _).symm, same.trans (List.append_nil _).symm⟩

theorem Shared.rest_eq {c d : Cursor} (shared : Shared [] [] c d) : d.rest = c.rest := by
  obtain ⟨w, first, second⟩ := shared
  rw [first, second]

theorem drop_suffix (c : Cursor) (n : Nat) : (c.drop n).rest <:+ c.rest := List.drop_suffix _ _

theorem span_suffix (c : Cursor) (p : Char → Bool) : (c.span p).2.rest <:+ c.rest :=
  List.dropWhile_suffix p

/-- All that stands before the end of the mark is gone over. -/
theorem through_suffix_drop {c e : Cursor} {mark : String} {before : List Char}
    (found : c.through mark = .ok (before, e)) {n : Nat}
    (within : n ≤ (before ++ mark.toList).length) : e.rest <:+ (c.drop n).rest := by
  show e.rest <:+ c.rest.drop n
  rw [eq_of_cutAt? (through_eq_ok_iff.1 found).1, ← List.append_assoc,
    List.drop_append_of_le_length within]
  exact List.suffix_append _ _

theorem through_suffix {c e : Cursor} {mark : String} {before : List Char}
    (found : c.through mark = .ok (before, e)) : e.rest <:+ c.rest :=
  through_suffix_drop found (Nat.zero_le _)

theorem startsWith_bracket (c : Cursor) : c.startsWith "<" = (c.rest.head? == some '<') := by
  obtain ⟨rest, position⟩ := c
  cases rest with
  | nil => rfl
  | cons d others => simp [startsWith, List.isPrefixOf, Bool.beq_comm]

/-- The end of a comment is none of its first characters. -/
theorem through_comment_suffix {c e : Cursor} {skipped : List Char}
    (begins : c.startsWith "<!--" = true) (found : c.through "-->" = .ok (skipped, e)) :
    e.rest <:+ (c.drop "<!--".toList.length).rest := by
  have later : skipped ≠ [] := by
    rintro rfl
    have whole := eq_of_cutAt? (through_eq_ok_iff.1 found).1
    obtain ⟨others, is⟩ := List.isPrefixOf_iff_prefix.1 begins
    rw [← is] at whole
    cases (List.cons.inj whole).1
  have := List.length_pos_iff.2 later
  refine through_suffix_drop found ?_
  rw [List.length_append]
  show 4 ≤ skipped.length + 3
  omega

section Shared

variable {R S : List Char} {c d : Cursor} (ends : Endings R S) (shared : Shared R S c d)

include ends shared

theorem Shared.head? : d.rest.head? = c.rest.head? := by
  obtain ⟨w, first, second⟩ := shared
  rw [first, second, ends.head?_append]

theorem Shared.current : d.current = c.current := by
  rw [Cursor.current, Cursor.current, List.headD_eq_head?_getD, List.headD_eq_head?_getD,
    shared.head? ends]

theorem Shared.isEmpty : d.rest.isEmpty = c.rest.isEmpty := by
  rw [Bool.eq_iff_iff, List.isEmpty_iff, List.isEmpty_iff, ← List.head?_eq_none_iff,
    ← List.head?_eq_none_iff, shared.head? ends]

theorem Shared.length_le : c.rest.length ≤ d.rest.length := by
  obtain ⟨w, first, second⟩ := shared
  have longer := ends.longer
  rw [first, second, List.length_append, List.length_append]
  omega

theorem Shared.drop {n : Nat} (inside : R <:+ (c.drop n).rest) :
    Shared R S (c.drop n) (d.drop n) := by
  obtain ⟨w, first, second⟩ := shared
  obtain ⟨w', left⟩ := inside
  refine ⟨w', left.symm, ?_⟩
  have left : c.rest.drop n = w' ++ R := left.symm
  rw [first] at left
  show d.rest.drop n = w' ++ S
  rw [second]
  exact ends.drop left

theorem Shared.span {p : Char → Bool} (inside : R <:+ (c.span p).2.rest) :
    Shared R S (c.span p).2 (d.span p).2 ∧ (d.span p).1 = (c.span p).1 := by
  obtain ⟨w, first, second⟩ := shared
  obtain ⟨w', left⟩ := inside
  have dropped : c.rest.dropWhile p = w' ++ R := left.symm
  rw [first] at dropped
  obtain ⟨dropped', taken⟩ := ends.span dropped
  refine ⟨⟨w', left.symm, ?_⟩, ?_⟩
  · show d.rest.dropWhile p = _
    rw [second, dropped']
  · show d.rest.takeWhile p = c.rest.takeWhile p
    rw [first, second, taken]

theorem Shared.skipBlanks (inside : R <:+ c.skipBlanks.rest) :
    Shared R S c.skipBlanks d.skipBlanks := (shared.span ends inside).1

theorem Shared.readName (inside : R <:+ c.readName.2.rest) :
    Shared R S c.readName.2 d.readName.2 ∧ d.readName.1 = c.readName.1 := by
  obtain ⟨after, name⟩ := shared.span ends inside
  exact ⟨after, congrArg String.ofList name⟩

theorem Shared.expect {e : Cursor} {wanted : Char} (expected : c.expect wanted = .ok e)
    (inside : R <:+ e.rest) : ∃ e', d.expect wanted = .ok e' ∧ Shared R S e e' := by
  obtain ⟨here, rfl⟩ := expect_eq_ok_iff.1 expected
  exact ⟨d.drop 1, expect_eq_ok_iff.2 ⟨(shared.head? ends).trans here, rfl⟩, shared.drop ends inside⟩

theorem Shared.through {e : Cursor} {mark : String} {before : List Char} (marked : mark.toList ≠ [])
    (found : c.through mark = .ok (before, e)) (inside : R <:+ e.rest) :
    ∃ e', d.through mark = .ok (before, e') ∧ Shared R S e e' := by
  obtain ⟨w, first, second⟩ := shared
  obtain ⟨w', left⟩ := inside
  obtain ⟨cut, -⟩ := through_eq_ok_iff.1 found
  rw [first, ← left] at cut
  have cut' := ends.cutAt? marked cut
  rw [← second] at cut'
  exact ⟨⟨w' ++ S, d.position.past (before ++ mark.toList)⟩, through_eq_ok_iff.2 ⟨cut', rfl⟩,
    w', left.symm, rfl⟩

omit ends in
/-- A mark that is gone over begins both texts. -/
theorem Shared.startsWith {mark : String} (begins : c.startsWith mark = true)
    (inside : R <:+ (c.drop mark.toList.length).rest) : d.startsWith mark = true := by
  obtain ⟨w, first, second⟩ := shared
  obtain ⟨rest, whole⟩ := List.isPrefixOf_iff_prefix.1 begins
  obtain ⟨w', left⟩ := inside
  have left : w' ++ R = c.rest.drop mark.toList.length := left
  rw [← whole, List.drop_left] at left
  rw [first, ← left, ← List.append_assoc] at whole
  refine List.isPrefixOf_iff_prefix.2 ⟨w' ++ S, ?_⟩
  rw [second, ← List.append_cancel_right whole, List.append_assoc]

omit ends in
/-- Both texts begin with the same marks that are no longer than the stretch. -/
theorem Shared.startsWith_eq {mark : String} {n : Nat} (inside : R <:+ (c.drop n).rest)
    (within : n ≤ c.rest.length) (long : mark.toList.length ≤ n) :
    d.startsWith mark = c.startsWith mark := by
  obtain ⟨w, first, second⟩ := shared
  have shorter : R.length ≤ c.rest.length - n := List.length_drop ▸ inside.length_le
  rw [first, List.length_append] at within shorter
  unfold Cursor.startsWith
  rw [first, second, isPrefixOf_append (by omega), isPrefixOf_append (by omega)]

omit ends in
/-- A mark that is not at the first cursor is not at the second one, if another mark follows that
has a character of its own. -/
theorem Shared.not_startsWith {e : Cursor} {mark other : String} {skipped : List Char}
    (found : c.through mark = .ok (skipped, e)) (inside : R <:+ e.rest)
    (absent : ¬ c.startsWith other = true) (own : ¬ mark.toList ⊆ other.toList) :
    ¬ d.startsWith other = true := by
  obtain ⟨w, first, second⟩ := shared
  obtain ⟨v, left⟩ := inside
  have whole := eq_of_cutAt? (through_eq_ok_iff.1 found).1
  rw [first, ← left, ← List.append_assoc, ← List.append_assoc] at whole
  obtain rfl := List.append_cancel_right whole
  unfold Cursor.startsWith at absent ⊢
  rw [List.isPrefixOf_iff_prefix] at absent ⊢
  intro begins
  rw [second] at begins
  rcases List.prefix_or_prefix_of_prefix begins (List.prefix_append _ S) with inside | around
  · exact absent (first ▸ inside.trans (List.prefix_append _ R))
  · exact own fun x mem => around.subset (by simp [mem])

end Shared

end Cursor

/-! ## Tags -/

/-- An attribute as written, at no place. -/
def RawAttribute.unplaced (a : RawAttribute) : RawAttribute := { a with position := .nowhere }

namespace RawAttribute

theorem read_suffix {c e : Cursor} {a : RawAttribute} (ok : read c = .ok (a, e)) :
    e.rest <:+ c.rest := by
  obtain ⟨sign, decoded, -, expected, -, -, -, -, rfl⟩ := read_eq_ok_iff.1 ok
  obtain ⟨-, rfl⟩ := Cursor.expect_eq_ok_iff.1 expected
  refine ((Cursor.drop_suffix _ _).trans (Cursor.span_suffix _ _)).trans ?_
  refine ((Cursor.drop_suffix _ _).trans (Cursor.span_suffix _ _)).trans ?_
  exact ((Cursor.drop_suffix _ _).trans (Cursor.span_suffix _ _)).trans (Cursor.span_suffix _ _)

/-- An attribute begins with a character of a name. -/
theorem begins_of_read {c e : Cursor} {a : RawAttribute} (ok : read c = .ok (a, e)) :
    ∃ first, c.rest.head? = some first ∧ isNameChar first = true := by
  obtain ⟨_, _, named, -⟩ := read_eq_ok_iff.1 ok
  unfold Cursor.readName Cursor.span at named
  dsimp only at named
  cases is : c.rest with
  | nil =>
    rw [is] at named
    cases named
  | cons first rest =>
    refine ⟨first, rfl, Decidable.byContradiction fun other => ?_⟩
    rw [is, List.takeWhile_cons_of_neg other] at named
    cases named

section Shared

variable {R S : List Char} {c d e : Cursor} (ends : Endings R S) (shared : Cursor.Shared R S c d)

include ends shared

theorem shared_read {a : RawAttribute} (ok : read c = .ok (a, e)) (inside : R <:+ e.rest) :
    ∃ a' e', read d = .ok (a', e') ∧ Cursor.Shared R S e e' ∧ a'.unplaced = a.unplaced := by
  obtain ⟨sign, decoded, named, expected, quoted, ended, decodes, rfl, rfl⟩ := read_eq_ok_iff.1 ok
  obtain ⟨-, here⟩ := Cursor.expect_eq_ok_iff.1 expected
  -- What comes last is within the stretch, and so is all that comes before it.
  have inValue := inside.trans (Cursor.drop_suffix _ _)
  have inQuote := inValue.trans (Cursor.span_suffix _ _)
  have inBlanks := inQuote.trans (Cursor.drop_suffix _ _)
  have inSign := inBlanks.trans (Cursor.span_suffix _ _)
  have inName := (here ▸ inSign : R <:+ (c.readName.2.skipBlanks.drop 1).rest).trans
    (Cursor.drop_suffix _ _)
  obtain ⟨afterName, name⟩ := shared.readName ends (inName.trans (Cursor.span_suffix _ _))
  obtain ⟨sign', expected', afterSign⟩ :=
    (afterName.skipBlanks ends inName).expect ends expected inSign
  have afterBlanks := afterSign.skipBlanks ends inBlanks
  have quote := afterBlanks.current ends
  obtain ⟨afterValue, value⟩ := (afterBlanks.drop ends inQuote).span ends inValue
  rw [← quote] at afterValue value quoted
  refine ⟨⟨c.readName.1, String.ofList decoded, d.position⟩, _, read_eq_ok_iff.2 ⟨sign', decoded,
    ?_, expected', quoted, ?_, ?_, ?_, rfl⟩, ?_, rfl⟩
  · rw [name]
    exact named
  · rw [afterValue.isEmpty ends, quote]
    exact ended
  · rw [value, quote]
    exact decodes
  · rw [name]
  · rw [quote] at afterValue ⊢
    exact afterValue.drop ends inside

end Shared

/-- What begins with a character of a name is no end of a tag. -/
theorem not_ending_of_begins {c : Cursor} {first : Char} (here : c.rest.head? = some first)
    (name : isNameChar first = true) :
    c.startsWith ">" = false ∧ c.startsWith "/>" = false := by
  obtain ⟨rest, position⟩ := c
  obtain ⟨others, rfl⟩ := List.head?_eq_some_iff.1 here
  exact ⟨Cursor.startsWith_cons_of_ne rfl
      (ne_of_isNameChar name (show isNameChar '>' = false by decide)),
    Cursor.startsWith_cons_of_ne rfl
      (ne_of_isNameChar name (show isNameChar '/' = false by decide))⟩

theorem readAll_suffix {tag : String} {opened : Position} {fuel : Nat}
    {seen attributes : List RawAttribute} {c e : Cursor}
    (ok : readAll tag opened fuel seen c = .ok (attributes, e)) : e.rest <:+ c.rest := by
  induction fuel generalizing seen c with
  | zero => cases ok
  | succ fuel ih =>
    rw [readAll] at ok
    dsimp only at ok
    split at ok
    · cases ok
    · split at ok
      · cases ok
        exact Cursor.span_suffix _ _
      · obtain ⟨⟨next, after⟩, reads, ok⟩ := ok_of_bind ok
        dsimp only at ok
        split at ok
        · cases ok
        · exact (ih ok).trans ((read_suffix reads).trans (Cursor.span_suffix _ _))

section Shared

variable {R S : List Char} (ends : Endings R S)

include ends

omit ends in
/-- The end of a tag is the same. -/
theorem shared_ending {c d : Cursor} (shared : Cursor.Shared R S c d)
    (ending : (c.startsWith ">" || c.startsWith "/>") = true)
    (inside : R <:+ (c.drop (endingLength c)).rest) :
    (d.startsWith ">" || d.startsWith "/>") = true ∧ d.startsWith "/>" = c.startsWith "/>" := by
  unfold endingLength at inside
  cases closed : c.startsWith "/>" with
  | true =>
    rw [if_pos closed] at inside
    have closed' := shared.startsWith closed inside
    rw [closed', Bool.or_true]
    exact ⟨rfl, rfl⟩
  | false =>
    rw [if_neg (by simp [closed])] at inside
    have opens : c.startsWith ">" = true := by simpa [closed] using ending
    have opens' := shared.startsWith opens inside
    refine ⟨by rw [opens', Bool.true_or], ?_⟩
    obtain ⟨rest, position⟩ := d
    obtain ⟨others, rfl⟩ := List.isPrefixOf_iff_prefix.1 opens'
    rfl

theorem shared_readAll {tag : String} {opened : Position} (opened' : Position) {fuel fuel' : Nat}
    (enough : fuel ≤ fuel') {seen seen' attributes : List RawAttribute}
    (same : seen'.map unplaced = seen.map unplaced) {c d e : Cursor}
    (shared : Cursor.Shared R S c d) (ok : readAll tag opened fuel seen c = .ok (attributes, e))
    (inside : R <:+ (e.drop (endingLength e)).rest) :
    ∃ attributes' e', readAll tag opened' fuel' seen' d = .ok (attributes', e') ∧
      Cursor.Shared R S e e' ∧ e'.startsWith "/>" = e.startsWith "/>" ∧
      attributes'.map unplaced = attributes.map unplaced := by
  induction fuel generalizing fuel' seen seen' c d with
  | zero => cases ok
  | succ fuel ih =>
    obtain ⟨fuel', rfl⟩ := Nat.exists_eq_succ_of_ne_zero (Nat.ne_zero_of_lt enough)
    have enough := Nat.le_of_succ_le_succ enough
    have inBlanks : R <:+ c.skipBlanks.rest := by
      refine (inside.trans (Cursor.drop_suffix _ _)).trans ?_
      rw [readAll] at ok
      dsimp only at ok
      split at ok
      · cases ok
      · split at ok
        · cases ok
          exact List.suffix_rfl
        · obtain ⟨⟨next, after⟩, reads, ok⟩ := ok_of_bind ok
          dsimp only at ok
          split at ok
          · cases ok
          · exact (readAll_suffix ok).trans (read_suffix reads)
    have shared := shared.skipBlanks ends inBlanks
    rw [readAll] at ok
    rw [readAll]
    dsimp only at ok ⊢
    rw [shared.isEmpty ends]
    split at ok
    · cases ok
    case isFalse more =>
      rw [if_neg more]
      split at ok
      case isTrue ending =>
        cases ok
        obtain ⟨ending', closed⟩ := shared_ending shared ending inside
        rw [if_pos ending']
        exact ⟨seen', _, rfl, shared, closed, same⟩
      case isFalse goesOn =>
        obtain ⟨⟨next, after⟩, reads, ok⟩ := ok_of_bind ok
        dsimp only at ok
        split at ok
        · cases ok
        case isFalse new =>
          obtain ⟨first, here, name⟩ := begins_of_read reads
          obtain ⟨opens, closes⟩ := not_ending_of_begins ((shared.head? ends).trans here) name
          obtain ⟨next', after', reads', sharedAfter, same'⟩ := shared_read ends shared reads
            ((inside.trans (Cursor.drop_suffix _ _)).trans (readAll_suffix ok))
          have written : next'.written = next.written :=
            show next'.unplaced.written = next.unplaced.written from same' ▸ rfl
          have known : seen'.any (·.written == next'.written) =
              seen.any (·.written == next.written) := by
            have names : ∀ list : List RawAttribute, list.any (·.written == next.written) =
                (list.map unplaced).any (·.written == next.written) := fun list => by
              rw [List.any_map]
              rfl
            rw [written, names seen', names seen, same]
          rw [opens, closes, reads']
          simp only [Bool.or_self, Bool.false_eq_true, if_false, bind, Except.bind]
          rw [known, if_neg new]
          exact ih enough (by rw [List.map_append, List.map_append, same, List.map_singleton,
            List.map_singleton, same']) sharedAfter ok

end Shared

end RawAttribute

namespace StartTag

/-- Start tags that are written alike. -/
structure Alike (t u : StartTag) : Prop where
  written : u.written = t.written
  attributes : u.attributes.map (·.unplaced) = t.attributes.map (·.unplaced)
  closed : u.closed = t.closed

theorem read_suffix {c e : Cursor} {t : StartTag} (ok : read c = .ok (t, e)) :
    e.rest <:+ c.rest := by
  obtain ⟨attributes, last, -, reads, -, rfl⟩ := read_eq_ok_iff.1 ok
  refine ((Cursor.drop_suffix _ _).trans (RawAttribute.readAll_suffix reads)).trans ?_
  exact (Cursor.span_suffix _ _).trans (Cursor.drop_suffix _ _)

/-- After its bracket, a start tag begins with a character of its name. -/
theorem begins_of_read {c e : Cursor} {t : StartTag} (ok : read c = .ok (t, e)) :
    ∃ bracket first others, c.rest = bracket :: first :: others ∧ isNameChar first = true ∧
      e.rest <:+ others := by
  obtain ⟨attributes, last, named, reads, -, rfl⟩ := read_eq_ok_iff.1 ok
  have later : (last.drop (RawAttribute.endingLength last)).rest <:+ (c.drop 1).readName.2.rest :=
    (Cursor.drop_suffix _ _).trans (RawAttribute.readAll_suffix reads)
  unfold Cursor.readName Cursor.span at named later
  dsimp only at named later
  unfold Cursor.drop at named later
  dsimp only at named later
  match is : c.rest with
  | [] =>
    rw [is] at named
    cases named
  | [_] =>
    rw [is] at named
    cases named
  | bracket :: first :: others =>
    rw [is, List.drop_succ_cons, List.drop_zero] at named later
    by_cases name : isNameChar first = true
    · rw [List.dropWhile_cons_of_pos name] at later
      exact ⟨bracket, first, others, rfl, name, later.trans (List.dropWhile_suffix _)⟩
    · rw [List.takeWhile_cons_of_neg name] at named
      cases named

/-- A start tag goes over its bracket. -/
theorem read_suffix_drop {c e : Cursor} {t : StartTag} (ok : read c = .ok (t, e)) :
    e.rest <:+ (c.drop 1).rest := by
  obtain ⟨_, first, others, begins, -, later⟩ := begins_of_read ok
  show e.rest <:+ c.rest.drop 1
  rw [begins]
  exact later.trans (List.suffix_cons _ _)

section Shared

variable {R S : List Char} {c d e : Cursor} (ends : Endings R S) (shared : Cursor.Shared R S c d)

include ends shared

theorem shared_read {t : StartTag} (ok : read c = .ok (t, e)) (inside : R <:+ e.rest) :
    ∃ t' e', read d = .ok (t', e') ∧ Cursor.Shared R S e e' ∧ t.Alike t' := by
  obtain ⟨attributes, last, named, reads, rfl, rfl⟩ := read_eq_ok_iff.1 ok
  have inAll := (inside.trans (Cursor.drop_suffix _ _)).trans (RawAttribute.readAll_suffix reads)
  obtain ⟨afterName, name⟩ := (shared.drop ends (inAll.trans (Cursor.span_suffix _ _))).readName
    ends inAll
  obtain ⟨attributes', last', reads', sharedLast, closed, same⟩ :=
    RawAttribute.shared_readAll ends d.position (afterName.length_le ends)
      (List.map_nil : [].map RawAttribute.unplaced = _) afterName reads inside
  rw [← name] at reads'
  refine ⟨_, _, read_eq_ok_iff.2 ⟨attributes', last', ?_, reads', rfl, rfl⟩, ?_, name, same, closed⟩
  · rw [name]
    exact named
  · unfold RawAttribute.endingLength at inside ⊢
    rw [closed]
    exact sharedLast.drop ends inside

end Shared

end StartTag

/-! ## Bodies -/

/-- What an attribute contributes, at no place. -/
def Contribution.unplaced : Contribution → Contribution
  | directions uris => directions uris
  | own a typeArguments => own a.unplaced typeArguments

namespace RawAttribute

variable {scopes : Scopes} {outermost : Bool}

theorem Named.congr {a b : RawAttribute} {name : QName} (same : b.written = a.written)
    (named : a.Named scopes name) : b.Named scopes name := by
  cases named with
  | plain parts => exact .plain (same ▸ parts)
  | prefixed parts found => exact .prefixed (same ▸ parts) found

/-- An attribute contributes the same wherever it stands. -/
theorem Contributes.moved {a b : RawAttribute} (same : b.unplaced = a.unplaced) {x : Contribution}
    (contributes : a.Contributes scopes outermost x) :
    ∃ y, b.Contributes scopes outermost y ∧ y.unplaced = x.unplaced := by
  have written : b.written = a.written :=
    show b.unplaced.written = a.unplaced.written from same ▸ rfl
  have value : b.value = a.value :=
    show b.unplaced.value = a.unplaced.value from same ▸ rfl
  have declares : b.declaredPrefix? = a.declaredPrefix? := by
    unfold declaredPrefix?
    rw [written]
  cases contributes with
  | declaration is => exact ⟨_, .declaration (declares ▸ is), rfl⟩
  | @named name _ other named adds =>
    have adding {y : Contribution} (adds : b.Adds scopes outermost name y) :
        b.Contributes scopes outermost y := .named (declares ▸ other) (named.congr written) adds
    cases adds with
    | ignorable compatible directs listed =>
      exact ⟨_, adding (.ignorable compatible directs (value ▸ listed)), rfl⟩
    | compatibility compatible other => exact ⟨_, adding (.compatibility compatible other), rfl⟩
    | arguments own lists read =>
      exact ⟨_, adding (.arguments own lists (value ▸ read)), by rw [value]; rfl⟩
    | plain own other => exact ⟨_, adding (.plain own other), by rw [value]; rfl⟩

/-- Attributes contribute the same wherever they stand. -/
theorem contributes_moved {list list' : List RawAttribute}
    (same : list'.map (·.unplaced) = list.map (·.unplaced)) {given : List Contribution}
    (contribute : List.Forall₂ (Contributes scopes outermost) list given) :
    ∃ given', List.Forall₂ (Contributes scopes outermost) list' given' ∧
      given'.map (·.unplaced) = given.map (·.unplaced) := by
  induction contribute generalizing list' with
  | nil =>
    obtain rfl : list' = [] := List.map_eq_nil_iff.1 same
    exact ⟨[], .nil, rfl⟩
  | cons contributes _ ih =>
    obtain ⟨b, rest', rfl, here, later⟩ := List.map_eq_cons_iff.1 same
    obtain ⟨y, contributes', unplaced⟩ := contributes.moved here
    obtain ⟨others', follow', same'⟩ := ih later
    exact ⟨y :: others', .cons contributes' follow', by rw [List.map_cons, List.map_cons, unplaced, same']⟩

end RawAttribute

/-- What is gathered from contributions has their positions at most. -/
theorem Contribution.gather_unplaced {given given' : List Contribution}
    (same : given'.map (·.unplaced) = given.map (·.unplaced)) :
    given'.flatMap (·.ignorable) = given.flatMap (·.ignorable) ∧
      given'.filterMap (·.typeArguments?) = given.filterMap (·.typeArguments?) ∧
      (given'.filterMap (·.attribute?)).map (·.unplaced) =
        (given.filterMap (·.attribute?)).map (·.unplaced) := by
  induction given generalizing given' with
  | nil =>
    obtain rfl : given' = [] := List.map_eq_nil_iff.1 same
    exact ⟨rfl, rfl, rfl⟩
  | cons x rest ih =>
    obtain ⟨y, rest', rfl, here, later⟩ := List.map_eq_cons_iff.1 same
    obtain ⟨ignorable, typeArguments, attributes⟩ := ih later
    rw [List.flatMap_cons, List.flatMap_cons, List.filterMap_cons, List.filterMap_cons,
      List.filterMap_cons, List.filterMap_cons, ignorable, typeArguments]
    cases x with
    | directions uris =>
      cases y with
      | own => cases here
      | directions => cases here; exact ⟨rfl, rfl, attributes⟩
    | own a names =>
      cases y with
      | directions => cases here
      | own b =>
        obtain ⟨place, rfl⟩ := Contribution.own.inj here
        exact ⟨rfl, rfl, congrArg₂ List.cons place attributes⟩

namespace StartTag.Alike

variable {t u : StartTag} (alike : t.Alike u)

include alike

/-- Tags that are written alike declare the same. -/
theorem declarations : u.declarations = t.declarations := by
  have unplaced : ∀ tag : StartTag, tag.declarations =
      (tag.attributes.map (·.unplaced)).filterMap fun a =>
        a.declaredPrefix?.map fun key => (key, a.value) := fun tag => by
    rw [StartTag.declarations, List.filterMap_map]
    rfl
  rw [unplaced, unplaced, alike.attributes]

/-- Tags that are written alike mean the same, apart from positions. -/
theorem body {scopes : Scopes} {outermost : Bool} {n : NodeBody} {ignorable : List String}
    (ok : t.body scopes outermost = .ok (n, ignorable)) :
    ∃ m, u.body scopes outermost = .ok (m, ignorable) ∧ m.unplaced = n.unplaced := by
  obtain ⟨name, given, named, contribute, rfl, rfl⟩ := StartTag.body_eq_ok_iff.1 ok
  obtain ⟨given', contribute', same⟩ := RawAttribute.contributes_moved alike.attributes contribute
  obtain ⟨ignorable, typeArguments, attributes⟩ := Contribution.gather_unplaced same
  refine ⟨_, StartTag.body_eq_ok_iff.2
    ⟨name, given', alike.written ▸ named, contribute', rfl, ignorable.symm⟩, ?_⟩
  unfold NodeBody.unplaced StartTag.bodyOf
  rw [attributes, typeArguments, alike.declarations]

end StartTag.Alike

/-! ## Pieces of content -/

/-- Start tags that are written and meant alike, in the same declarations. -/
structure OpenTag.Alike (o q : OpenTag) : Prop where
  tag : o.tag.Alike q.tag
  body : q.body.unplaced = o.body.unplaced
  ignorable : q.ignorable = o.ignorable
  scopes : q.scopes = o.scopes

/-! ## Going on -/

theorem endTag_suffix {opened : String} {c e : Cursor} (ok : readEndTag opened c = .ok e) :
    e.rest <:+ (c.drop 2).rest := by
  obtain ⟨-, expected⟩ := readEndTag_eq_ok_iff.1 ok
  obtain ⟨-, rfl⟩ := Cursor.expect_eq_ok_iff.1 expected
  exact (Cursor.drop_suffix _ _).trans ((Cursor.span_suffix _ _).trans (Cursor.span_suffix _ _))

theorem characterData_suffix {c e : Cursor} {n : NodeBody} (ok : readCharacterData c = .ok (n, e)) :
    e.rest <:+ (c.drop "<![CDATA[".length).rest := by
  obtain ⟨text, through, -⟩ := readCharacterData_eq_ok_iff.1 ok
  exact Cursor.through_suffix through

theorem text_suffix {c e : Cursor} {n : Option NodeBody} (ok : readText c = .ok (n, e)) :
    e.rest <:+ c.rest := by
  obtain ⟨rfl, -⟩ := readText_eq_ok_iff.1 ok
  exact Cursor.span_suffix _ _

/-- Reading content goes on to an end of the text. -/
theorem readContent_suffix {tag : StartTag} {scopes : Scopes} {fuel : Nat} {c e : Cursor} {f : Forest}
    (ok : readContent tag scopes fuel c = .ok (f, e)) : e.rest <:+ c.rest := by
  induction fuel generalizing tag scopes c e f with
  | zero => cases ok
  | succ fuel ih =>
    obtain ⟨-, reads⟩ := readContent_eq_ok_iff.1 ok
    cases reads with
    | ending _ ended => exact (endTag_suffix ended).trans (Cursor.drop_suffix _ _)
    | passed _ through rest => exact (ih rest).trans (Cursor.through_suffix through)
    | characterData _ taken rest =>
      exact (ih rest).trans ((characterData_suffix taken).trans (Cursor.drop_suffix _ _))
    | blank _ taken rest => exact (ih rest).trans (text_suffix taken)
    | text _ taken rest => exact (ih rest).trans (text_suffix taken)
    | @element inner inside after _ children siblings _ opened below rest =>
      have tag := StartTag.read_suffix (readOpenTag_eq_ok_iff.1 opened).1
      refine (ih rest).trans (List.IsSuffix.trans ?_ tag)
      split at below
      · cases below
        exact List.suffix_rfl
      · exact ih below

/-- What comes next, by the mark that it begins with. -/
theorem startsWith_of_pieceAt {c : Cursor} :
    (pieceAt c = .ending → c.startsWith "</" = true) ∧
      (pieceAt c = .comment → c.startsWith "<!--" = true) ∧
      (pieceAt c = .characterData → c.startsWith "<![CDATA[" = true) ∧
      (pieceAt c = .instruction → c.startsWith "<?" = true) ∧
      (pieceAt c = .element → c.startsWith "<" = true) ∧
      (pieceAt c = .text → c.startsWith "<" = false) := by
  unfold pieceAt
  split
  case isTrue is => simp [is]
  split
  case isTrue is => simp [is]
  split
  case isTrue is => simp [is]
  split
  case isTrue is => simp [is]
  split
  case isTrue is => simp [is]
  case isFalse is => simpa using is

/-- What stands at a mark is known by the mark. -/
theorem pieceAt_of_startsWith {c : Cursor} :
    (c.startsWith "</" = true → pieceAt c = .ending) ∧
      (c.startsWith "<!--" = true → pieceAt c = .comment) ∧
      (c.startsWith "<![CDATA[" = true → pieceAt c = .characterData) ∧
      (c.startsWith "<?" = true → pieceAt c = .instruction) := by
  obtain ⟨rest, p⟩ := c
  refine ⟨fun begins => ?_, fun begins => ?_, fun begins => ?_, fun begins => ?_⟩
  all_goals
    obtain ⟨others, rfl⟩ := List.isPrefixOf_iff_prefix.1 begins
    rfl

/-- Where an element is read, a character of its name is behind a bracket. -/
theorem begins_of_element {c e : Cursor} {scopes : Scopes} {outermost : Bool} {o : OpenTag}
    (piece : pieceAt c = .element) (ok : readOpenTag scopes outermost c = .ok (o, e)) :
    ∃ first others, c.rest = '<' :: first :: others ∧ isNameChar first = true ∧
      e.rest <:+ others := by
  obtain ⟨bracket, first, others, begins, name, later⟩ :=
    StartTag.begins_of_read (readOpenTag_eq_ok_iff.1 ok).1
  obtain ⟨rest, whole⟩ := List.isPrefixOf_iff_prefix.1 (startsWith_of_pieceAt.2.2.2.2.1 piece)
  rw [begins] at whole
  obtain rfl : '<' = bracket := (List.cons.inj whole).1
  exact ⟨first, others, begins, name, later⟩

/-- A text is known by its first character. -/
theorem pieceAt_eq_text_iff {c : Cursor} (more : c.rest ≠ []) :
    pieceAt c = .text ↔ c.rest.head? ≠ some '<' := by
  constructor
  · intro text here
    have bracket := startsWith_of_pieceAt.2.2.2.2.2 text
    rw [Cursor.startsWith_bracket, here] at bracket
    cases bracket
  · obtain ⟨rest, p⟩ := c
    obtain ⟨first, others, rfl⟩ := List.exists_cons_of_ne_nil more
    exact fun other => pieceAt_of_not_lt (fun is => other (is ▸ rfl)) others

/-- A text goes over a character, as it does not begin with the bracket that ends it. -/
theorem text_suffix_drop {c e : Cursor} {n : Option NodeBody} (more : c.rest ≠ [])
    (piece : pieceAt c = .text) (ok : readText c = .ok (n, e)) : e.rest <:+ (c.drop 1).rest := by
  obtain ⟨rfl, -⟩ := readText_eq_ok_iff.1 ok
  have text := (pieceAt_eq_text_iff more).1 piece
  obtain ⟨first, others, begins⟩ := List.exists_cons_of_ne_nil more
  rw [begins] at text
  have runs : (first != '<') = true := bne_iff_ne.2 fun is => text (is ▸ rfl)
  show c.rest.dropWhile _ <:+ c.rest.drop 1
  rw [begins, List.dropWhile_cons_of_pos (p := (· != '<')) runs]
  exact List.dropWhile_suffix _

section Shared

variable {R S : List Char} {c d e : Cursor} (ends : Endings R S) (shared : Cursor.Shared R S c d)

include ends shared

theorem shared_readOpenTag {scopes : Scopes} {outermost : Bool} {o : OpenTag}
    (ok : readOpenTag scopes outermost c = .ok (o, e)) (inside : R <:+ e.rest) :
    ∃ q e', readOpenTag scopes outermost d = .ok (q, e') ∧ Cursor.Shared R S e e' ∧ o.Alike q := by
  obtain ⟨read, meant, inner⟩ := readOpenTag_eq_ok_iff.1 ok
  obtain ⟨tag, e', read', after, alike⟩ := StartTag.shared_read ends shared read inside
  obtain ⟨body, meant', same⟩ := alike.body meant
  rw [← alike.declarations] at meant' inner
  exact ⟨⟨tag, body, o.ignorable, tag.declarations :: scopes⟩, e',
    readOpenTag_eq_ok_iff.2 ⟨read', meant', rfl⟩, after, alike, same, rfl, inner.symm⟩

theorem shared_readEndTag {opened : String} (ok : readEndTag opened c = .ok e)
    (inside : R <:+ e.rest) : ∃ e', readEndTag opened d = .ok e' ∧ Cursor.Shared R S e e' := by
  obtain ⟨closed, expected⟩ := readEndTag_eq_ok_iff.1 ok
  have inBlanks : R <:+ (c.drop 2).readName.2.skipBlanks.rest := by
    obtain ⟨-, rfl⟩ := Cursor.expect_eq_ok_iff.1 expected
    exact inside.trans (Cursor.drop_suffix _ _)
  have inName := inBlanks.trans (Cursor.span_suffix _ _)
  obtain ⟨afterName, name⟩ :=
    (shared.drop ends (inName.trans (Cursor.span_suffix _ _))).readName ends inName
  obtain ⟨e', expected', after⟩ := (afterName.skipBlanks ends inBlanks).expect ends expected inside
  exact ⟨e', readEndTag_eq_ok_iff.2 ⟨name.trans closed, expected'⟩, after⟩

theorem shared_readCharacterData {n : NodeBody} (ok : readCharacterData c = .ok (n, e))
    (inside : R <:+ e.rest) :
    ∃ m e', readCharacterData d = .ok (m, e') ∧ Cursor.Shared R S e e' ∧
      m.unplaced = n.unplaced := by
  obtain ⟨text, through, rfl⟩ := readCharacterData_eq_ok_iff.1 ok
  obtain ⟨e', through', after⟩ :=
    (shared.drop ends (inside.trans (Cursor.through_suffix through))).through ends (by decide)
      through inside
  exact ⟨_, e', readCharacterData_eq_ok_iff.2 ⟨text, through', rfl⟩, after, rfl⟩

theorem shared_readText {n : Option NodeBody} (ok : readText c = .ok (n, e))
    (inside : R <:+ e.rest) :
    ∃ m e', readText d = .ok (m, e') ∧ Cursor.Shared R S e e' ∧
      m.map (·.unplaced) = n.map (·.unplaced) := by
  obtain ⟨rfl, kept⟩ := readText_eq_ok_iff.1 ok
  obtain ⟨after, text⟩ := shared.span ends inside
  rcases kept with ⟨blank, rfl⟩ | ⟨kept, decoded, decodes, rfl⟩
  · exact ⟨none, _, readText_eq_ok_iff.2 ⟨rfl, .inl ⟨text ▸ blank, rfl⟩⟩, after, rfl⟩
  · exact ⟨_, _, readText_eq_ok_iff.2 ⟨rfl, .inr ⟨text ▸ kept, decoded, text ▸ decodes, rfl⟩⟩,
      after, rfl⟩

omit ends in
/-- An element begins both texts. -/
theorem shared_element {scopes : Scopes} {outermost : Bool} {o : OpenTag}
    (piece : pieceAt c = .element) (ok : readOpenTag scopes outermost c = .ok (o, e))
    (inside : R <:+ e.rest) : pieceAt d = .element := by
  obtain ⟨first, others, begins, name, later⟩ := begins_of_element piece ok
  -- The bracket and the first character of the name are gone over.
  obtain ⟨w, left⟩ := inside.trans later
  obtain ⟨v, one, two⟩ := shared
  rw [begins, ← left, ← List.cons_append, ← List.cons_append] at one
  obtain rfl := List.append_cancel_right one
  obtain ⟨rest, p⟩ := d
  dsimp only at two
  rw [two]
  exact pieceAt_of_name name _

omit ends in
/-- A comment or an instruction begins both texts. -/
theorem shared_passed {mark : String} {skipped : List Char}
    (piece : pieceAt c = .comment ∧ mark = "-->" ∨ pieceAt c = .instruction ∧ mark = "?>")
    (through : c.through mark = .ok (skipped, e)) (inside : R <:+ e.rest) :
    pieceAt d = .comment ∧ mark = "-->" ∨ pieceAt d = .instruction ∧ mark = "?>" := by
  obtain ⟨piece, rfl⟩ | ⟨piece, rfl⟩ := piece
  · have begins := startsWith_of_pieceAt.2.1 piece
    exact .inl ⟨pieceAt_of_startsWith.2.1 (shared.startsWith begins
      (inside.trans (Cursor.through_comment_suffix begins through))), rfl⟩
  · have within : "<?".toList.length ≤ (skipped ++ "?>".toList).length := by
      rw [List.length_append]
      exact Nat.le_add_left _ _
    exact .inr ⟨pieceAt_of_startsWith.2.2.2 (shared.startsWith
      (startsWith_of_pieceAt.2.2.2.1 piece)
      (inside.trans (Cursor.through_suffix_drop through within))), rfl⟩

/-- A comment or an instruction is passed over in both texts. -/
theorem shared_passedOver {mark : String} {skipped : List Char}
    (piece : pieceAt c = .comment ∧ mark = "-->" ∨ pieceAt c = .instruction ∧ mark = "?>")
    (through : c.through mark = .ok (skipped, e)) (inside : R <:+ e.rest) :
    ∃ e', (pieceAt d = .comment ∧ mark = "-->" ∨ pieceAt d = .instruction ∧ mark = "?>") ∧
      d.through mark = .ok (skipped, e') ∧ Cursor.Shared R S e e' := by
  have marked : mark.toList ≠ [] := by
    obtain ⟨-, rfl⟩ | ⟨-, rfl⟩ := piece <;> decide
  obtain ⟨e', through', after⟩ := shared.through ends marked through inside
  exact ⟨e', shared_passed shared piece through inside, through', after⟩

/-- A text begins both texts. -/
theorem shared_text (more : c.rest.isEmpty = false) (piece : pieceAt c = .text) :
    pieceAt d = .text := by
  have filled : ∀ {b : Cursor}, b.rest.isEmpty = false → b.rest ≠ [] := fun more none => by
    rw [none] at more
    cases more
  refine (pieceAt_eq_text_iff (filled ((shared.isEmpty ends).trans more))).2 ?_
  rw [shared.head? ends]
  exact (pieceAt_eq_text_iff (filled more)).1 piece

end Shared

/-- What is in an element is read alike, if its content is when it has any. -/
theorem shared_below_of {R S : List Char} {fuel fuel' : Nat} {inner inner' : OpenTag}
    (alike : inner.Alike inner') {c d e : Cursor} {f : Forest} (shared : Cursor.Shared R S c d)
    (content : readContent inner.tag inner.scopes fuel c = .ok (f, e) →
      ∃ f' e', readContent inner'.tag inner'.scopes fuel' d = .ok (f', e') ∧
        Cursor.Shared R S e e' ∧ f'.unplaced = f.unplaced)
    (below : (if inner.tag.closed then pure (.nil, c)
      else readContent inner.tag inner.scopes fuel c) = Except.ok (f, e)) :
    ∃ f' e', (if inner'.tag.closed then pure (.nil, d)
        else readContent inner'.tag inner'.scopes fuel' d) = .ok (f', e') ∧
      Cursor.Shared R S e e' ∧ f'.unplaced = f.unplaced := by
  rw [alike.tag.closed]
  split at below
  case isTrue closed =>
    cases below
    exact ⟨.nil, d, if_pos closed, shared, rfl⟩
  case isFalse closed =>
    rw [if_neg closed]
    exact content below

/-- **Content is read alike** where it is written alike, apart from positions. -/
theorem shared_readContent {R S : List Char} (ends : Endings R S) {fuel fuel' : Nat}
    (enough : fuel ≤ fuel') {tag tag' : StartTag} (written : tag'.written = tag.written)
    {scopes : Scopes} {c d e : Cursor} {f : Forest} (shared : Cursor.Shared R S c d)
    (ok : readContent tag scopes fuel c = .ok (f, e)) (inside : R <:+ e.rest) :
    ∃ f' e', readContent tag' scopes fuel' d = .ok (f', e') ∧ Cursor.Shared R S e e' ∧
      f'.unplaced = f.unplaced := by
  induction fuel generalizing fuel' tag tag' scopes c d e f with
  | zero => cases ok
  | succ fuel ih =>
    obtain ⟨fuel', rfl⟩ := Nat.exists_eq_succ_of_ne_zero (Nat.ne_zero_of_lt enough)
    have enough := Nat.le_of_succ_le_succ enough
    obtain ⟨more, reads⟩ := readContent_eq_ok_iff.1 ok
    have more' : d.rest.isEmpty = false := (shared.isEmpty ends).trans more
    -- Whatever comes next is within the stretch.
    have onward {f : Forest} {after : Cursor}
        (rest : readContent tag scopes fuel after = .ok (f, e)) : R <:+ after.rest :=
      inside.trans (readContent_suffix rest)
    cases reads with
    | ending piece ended =>
      have piece' := pieceAt_of_startsWith.1 (shared.startsWith (startsWith_of_pieceAt.1 piece)
        (inside.trans (endTag_suffix ended)))
      obtain ⟨e', ended', after⟩ := shared_readEndTag ends shared ended inside
      rw [← written] at ended'
      exact ⟨.nil, e', readContent_eq_ok_iff.2 ⟨more', .ending piece' ended'⟩, after, rfl⟩
    | passed piece through rest =>
      obtain ⟨after', piece', through', after⟩ :=
        shared_passedOver ends shared piece through (onward rest)
      obtain ⟨f', e', rest', last, unplaced⟩ := ih enough written after rest inside
      exact ⟨f', e', readContent_eq_ok_iff.2 ⟨more', .passed piece' through' rest'⟩, last, unplaced⟩
    | characterData piece taken rest =>
      have piece' := pieceAt_of_startsWith.2.2.1 (shared.startsWith
        (startsWith_of_pieceAt.2.2.1 piece) ((onward rest).trans (characterData_suffix taken)))
      obtain ⟨m, after', taken', after, same⟩ :=
        shared_readCharacterData ends shared taken (onward rest)
      obtain ⟨siblings, e', rest', last, unplaced⟩ := ih enough written after rest inside
      exact ⟨_, e', readContent_eq_ok_iff.2 ⟨more', .characterData piece' taken' rest'⟩, last,
        congrArg₂ (Forest.cons · .nil ·) same unplaced⟩
    | blank piece taken rest =>
      obtain ⟨m, after', taken', after, same⟩ := shared_readText ends shared taken (onward rest)
      obtain rfl : m = none := Option.map_eq_none_iff.1 same
      obtain ⟨f', e', rest', last, unplaced⟩ := ih enough written after rest inside
      exact ⟨f', e', readContent_eq_ok_iff.2
        ⟨more', .blank (shared_text ends shared more piece) taken' rest'⟩, last, unplaced⟩
    | text piece taken rest =>
      obtain ⟨_, after', taken', after, same⟩ := shared_readText ends shared taken (onward rest)
      obtain ⟨m, rfl, same'⟩ := Option.map_eq_some_iff.1 same
      obtain ⟨siblings, e', rest', last, unplaced⟩ := ih enough written after rest inside
      exact ⟨_, e', readContent_eq_ok_iff.2
        ⟨more', .text (shared_text ends shared more piece) taken' rest'⟩, last,
        congrArg₂ (Forest.cons · .nil ·) same' unplaced⟩
    | @element inner start after _ children siblings piece opened below rest =>
      have inStart : R <:+ start.rest := by
        refine (onward rest).trans ?_
        split at below
        · cases below
          exact List.suffix_rfl
        · exact readContent_suffix below
      obtain ⟨inner', start', opened', sharedStart, alike⟩ :=
        shared_readOpenTag ends shared opened inStart
      have piece' := shared_element shared piece opened inStart
      obtain ⟨children', after', below', sharedAfter, same⟩ :=
        shared_below_of alike sharedStart (fun content => alike.scopes ▸
          ih enough alike.tag.written sharedStart content (onward rest)) below
      obtain ⟨siblings', e', rest', last, unplaced⟩ := ih enough written sharedAfter rest inside
      refine ⟨_, e', readContent_eq_ok_iff.2 ⟨more', .element piece' opened' below' rest'⟩, last, ?_⟩
      rw [Forest.unplaced, Forest.unplaced, alike.body, same, unplaced]

/-- What is in an element is read alike, if there is anything. -/
theorem shared_below {R S : List Char} (ends : Endings R S) {fuel fuel' : Nat}
    (enough : fuel ≤ fuel') {inner inner' : OpenTag} (alike : inner.Alike inner') {c d e : Cursor}
    {f : Forest} (shared : Cursor.Shared R S c d)
    (below : (if inner.tag.closed then pure (.nil, c)
      else readContent inner.tag inner.scopes fuel c) = Except.ok (f, e)) (inside : R <:+ e.rest) :
    ∃ f' e', (if inner'.tag.closed then pure (.nil, d)
        else readContent inner'.tag inner'.scopes fuel' d) = .ok (f', e') ∧
      Cursor.Shared R S e e' ∧ f'.unplaced = f.unplaced :=
  shared_below_of alike shared (fun content => alike.scopes ▸
    shared_readContent ends enough alike.tag.written shared content inside) below

/-! ## What comes before the first element -/

theorem prologue_suffix {fuel : Nat} {c start : Cursor} (ok : readPrologue fuel c = .ok start) :
    start.rest <:+ c.skipBlanks.rest := by
  induction fuel generalizing c with
  | zero => cases ok
  | succ fuel ih =>
    obtain ⟨-, reads⟩ := readPrologue_eq_ok_iff.1 ok
    have further {after : Cursor} (onward : after.rest <:+ c.skipBlanks.rest)
        (rest : readPrologue fuel after = .ok start) : start.rest <:+ c.skipBlanks.rest :=
      (ih rest).trans ((Cursor.span_suffix _ _).trans onward)
    cases reads with
    | passed _ through rest => exact further (Cursor.through_suffix through) rest
    | tag _ _ _ here => exact here ▸ List.suffix_rfl
    | stray _ rest => exact further (Cursor.span_suffix _ _) rest

/-- What is passed over before the first element begins both texts. -/
theorem shared_preamble {R S : List Char} {c d e : Cursor} (shared : Cursor.Shared R S c d)
    {opening closing : String} {skipped : List Char} (piece : c.Preamble opening closing)
    (through : c.through closing = .ok (skipped, e)) (inside : R <:+ e.rest) :
    d.Preamble opening closing := by
  cases piece with
  | instruction begins =>
    have within : "<?".toList.length ≤ (skipped ++ "?>".toList).length := by
      rw [List.length_append]
      exact Nat.le_add_left _ _
    exact .instruction (shared.startsWith begins
      (inside.trans (Cursor.through_suffix_drop through within)))
  | comment begins =>
    exact .comment (shared.startsWith begins
      (inside.trans (Cursor.through_comment_suffix begins through)))
  | declaration begins noComment =>
    have later : skipped ≠ [] := by
      rintro rfl
      have whole := eq_of_cutAt? (Cursor.through_eq_ok_iff.1 through).1
      obtain ⟨others, is⟩ := List.isPrefixOf_iff_prefix.1 begins
      rw [← is] at whole
      cases (List.cons.inj whole).1
    have within : "<!".toList.length ≤ (skipped ++ ">".toList).length := by
      have := List.length_pos_iff.2 later
      rw [List.length_append]
      show 2 ≤ skipped.length + 1
      omega
    exact .declaration
      (shared.startsWith begins (inside.trans (Cursor.through_suffix_drop through within)))
      (shared.not_startsWith through inside noComment (by decide))

/-- What comes before the first element is gone over alike, if the bracket and the first character of
its tag are written alike. -/
theorem shared_readPrologue {R S : List Char} (ends : Endings R S) {fuel fuel' : Nat}
    (enough : fuel ≤ fuel') {c d start : Cursor} (shared : Cursor.Shared R S c d)
    (ok : readPrologue fuel c = .ok start) (inside : R <:+ (start.drop 2).rest)
    (begins : 2 ≤ start.rest.length) :
    ∃ start', readPrologue fuel' d = .ok start' ∧ Cursor.Shared R S start start' := by
  induction fuel generalizing fuel' c d with
  | zero => cases ok
  | succ fuel ih =>
    obtain ⟨fuel', rfl⟩ := Nat.exists_eq_succ_of_ne_zero (Nat.ne_zero_of_lt enough)
    have enough := Nat.le_of_succ_le_succ enough
    have inStart := inside.trans (Cursor.drop_suffix start 2)
    have shared := shared.skipBlanks ends (inStart.trans (prologue_suffix ok))
    obtain ⟨more, reads⟩ := readPrologue_eq_ok_iff.1 ok
    have more' : d.skipBlanks.rest.isEmpty = false := (shared.isEmpty ends).trans more
    have onward {after : Cursor} (rest : readPrologue fuel after = .ok start) : R <:+ after.rest :=
      inStart.trans ((prologue_suffix rest).trans (Cursor.span_suffix _ _))
    cases reads with
    | passed piece through rest =>
      have piece' := shared_preamble shared piece through (onward rest)
      obtain ⟨after', through', after⟩ :=
        shared.through ends piece.closing_ne_nil through (onward rest)
      obtain ⟨start', rest', same⟩ := ih enough after rest
      exact ⟨start', readPrologue_eq_ok_iff.2 ⟨more', .passed piece' through' rest'⟩, same⟩
    | tag bracket noInstruction noDeclaration here =>
      subst here
      have same {mark : String} (short : mark.toList.length ≤ 2) :
          d.skipBlanks.startsWith mark = c.skipBlanks.startsWith mark :=
        shared.startsWith_eq inside begins short
      exact ⟨_, readPrologue_eq_ok_iff.2 ⟨more', .tag (by rwa [same (by decide)])
        (by rwa [same (by decide)]) (by rwa [same (by decide)]) rfl⟩, shared⟩
    | stray noBracket rest =>
      have noBracket' : ¬ d.skipBlanks.startsWith "<" = true := by
        rwa [Cursor.startsWith_bracket, shared.head? ends, ← Cursor.startsWith_bracket]
      obtain ⟨start', rest', same⟩ := ih enough (shared.span ends (onward rest)).1 rest
      exact ⟨start', readPrologue_eq_ok_iff.2 ⟨more', .stray noBracket' rest'⟩, same⟩

end MarkupLoader
