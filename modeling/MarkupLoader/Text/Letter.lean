import MarkupLoader.Text.LetterRanges

/-!
# Letters, digits and the characters of names

* **Letters and digits** (`isLetterOrDigit`) are decided by the ASCII rule below 128 and by
  `letterRanges` above.
* **Name characters** (`isNameChar`) make up tags and attribute names; **identifier
  characters** (`isIdentifierChar`) make up the names of markup extensions, which have no
  hyphen.

Main statements: `isLetterOrDigit_of_isAlphanum`, `isNameChar_of_isIdentifierChar`.
-/

namespace MarkupLoader.Text

/-- Whether a code point lies in one of the closed ranges. -/
def inRanges (ranges : List (Nat × Nat)) (n : Nat) : Bool :=
  ranges.any fun (low, high) => low ≤ n && n ≤ high

/-- Letters and digits of any script. -/
def isLetterOrDigit (c : Char) : Bool :=
  if c.toNat < 128 then c.isAlphanum else inRanges letterRanges c.toNat

/-- The characters of the name of a tag or an attribute. -/
def isNameChar (c : Char) : Bool :=
  isLetterOrDigit c || c == '-' || c == '_' || c == ':' || c == '.'

/-- The characters of the name of a markup extension. -/
def isIdentifierChar (c : Char) : Bool :=
  isLetterOrDigit c || c == '_' || c == ':' || c == '.'

/-! ## Laws -/

/-- Every ASCII letter and digit is a letter or digit. -/
theorem isLetterOrDigit_of_isAlphanum {c : Char} (h : c.isAlphanum = true) :
    isLetterOrDigit c = true := by
  have below : ∀ {last : UInt32}, c.val ≤ last → last.toNat < 128 → c.toNat < 128 :=
    fun inside bound => Nat.lt_of_le_of_lt (UInt32.le_iff_toNat_le.1 inside) bound
  have low : c.toNat < 128 := by
    obtain letter | digit := (Bool.or_eq_true c.isAlpha c.isDigit).mp h
    · obtain upper | lower := (Bool.or_eq_true c.isUpper c.isLower).mp letter
      · exact below (of_decide_eq_true upper).2 (by decide)
      · exact below (of_decide_eq_true ((Bool.and_eq_true _ _).mp lower).2) (by decide)
    · exact below (of_decide_eq_true ((Bool.and_eq_true _ _).mp digit).2) (by decide)
  simp [isLetterOrDigit, low, h]

/-- An identifier character may stand in any name. -/
theorem isNameChar_of_isIdentifierChar {c : Char} (h : isIdentifierChar c = true) :
    isNameChar c = true := by
  simp only [isIdentifierChar, isNameChar, Bool.or_eq_true] at h ⊢
  rcases h with ((h | h) | h) | h <;> simp [h]

end MarkupLoader.Text
