/-!
# Blank characters

The characters of the Unicode property `White_Space`, and the operations on texts that are
defined by them: trimming and splitting into words.

* **Trimming** (`trim`) removes blanks at both ends and nothing inside.
* **Words** (`words`) are the longest runs without a blank.

Main statements: `trim_eq_self`, `cut?_append`, `cutAt?_append`, `isBlank_of_isWhitespace`.
-/

namespace MarkupLoader.Text

/-- The 25 characters with the Unicode property `White_Space`. -/
def isBlank (c : Char) : Bool :=
  let n := c.toNat
  (9 ≤ n && n ≤ 13) || n == 0x20 || n == 0x85 || n == 0xa0 || n == 0x1680 ||
    (0x2000 ≤ n && n ≤ 0x200a) || n == 0x2028 || n == 0x2029 || n == 0x202f ||
    n == 0x205f || n == 0x3000

/-- The text without the blanks it starts with. -/
def trimStart (s : List Char) : List Char := s.dropWhile isBlank

/-- The text without the blanks it ends with. -/
def trimEnd (s : List Char) : List Char := (s.reverse.dropWhile isBlank).reverse

/-- The text without the blanks at either end. -/
def trim (s : List Char) : List Char := trimEnd (trimStart s)

/-- `trim` on strings. -/
def trimmed (s : String) : String := String.ofList (trim s.toList)

/-! ## Pieces -/

/-- Cuts a text at every character that satisfies `p`; `n` such characters give `n + 1`
pieces, some of which may be empty. -/
def pieces (p : Char → Bool) : List Char → List (List Char)
  | [] => [[]]
  | c :: rest =>
    if p c then [] :: pieces p rest
    else match pieces p rest with
      | [] => [[c]]
      | first :: others => (c :: first) :: others

/-- The pieces of a string between the occurrences of one character. -/
def splitAt (separator : Char) (s : String) : List String :=
  (pieces (· == separator) s.toList).map String.ofList

/-- The words of a string: its longest runs without a blank. -/
def words (s : String) : List String :=
  ((pieces isBlank s.toList).filter (· ≠ [])).map String.ofList

/-! ## Cutting once -/

/-- What stands before and after the first occurrence of `separator`, if there is one. -/
def cut? (separator : Char) : List Char → Option (List Char × List Char)
  | [] => none
  | c :: rest =>
    if c = separator then some ([], rest)
    else (cut? separator rest).map fun (before, after) => (c :: before, after)

/-- What stands before and after the first occurrence of the text `mark`, if there is one. -/
def cutAt? (mark : List Char) : List Char → Option (List Char × List Char)
  | [] => if mark.isEmpty then some ([], []) else none
  | c :: rest =>
    if mark.isPrefixOf (c :: rest) then some ([], (c :: rest).drop mark.length)
    else (cutAt? mark rest).map fun (before, after) => (c :: before, after)

/-- What stands after the last occurrence of `separator`; the whole text if there is none. -/
def afterLast (separator : Char) (s : String) : String :=
  String.ofList ((s.toList.reverse.takeWhile (· != separator)).reverse)

/-- What is left of a string after the text `start`, if it begins with it. -/
def after? (start s : String) : Option String :=
  if start.toList.isPrefixOf s.toList then
    some (String.ofList (s.toList.drop start.toList.length))
  else none

/-- What is left of a string before the text `ending`, if it stops with it. -/
def before? (ending s : String) : Option String :=
  if ending.toList.isSuffixOf s.toList then
    some (String.ofList (s.toList.take (s.toList.length - ending.toList.length)))
  else none

/-! ## Laws -/

/-- Every blank of the ASCII class is a blank. -/
theorem isBlank_of_isWhitespace {c : Char} (h : c.isWhitespace = true) : isBlank c = true := by
  simp only [Char.isWhitespace, Bool.or_eq_true, decide_eq_true_eq] at h
  rcases h with ((rfl | rfl) | rfl) | rfl <;> decide

/-- A text that does not start with a blank has none to lose there. -/
theorem trimStart_eq_self {c : Char} {s : List Char} (h : isBlank c = false) :
    trimStart (c :: s) = c :: s := by
  simp [trimStart, h]

/-- A text with no blank at either end has none to lose. -/
theorem trim_eq_self {s : List Char} (first : ∀ c ∈ s.head?, isBlank c = false)
    (last : ∀ c ∈ s.getLast?, isBlank c = false) : trim s = s := by
  have start : trimStart s = s := by
    cases s with
    | nil => rfl
    | cons c s => exact trimStart_eq_self (first c rfl)
  have ending : s.reverse.dropWhile isBlank = s.reverse := by
    rw [List.getLast?_eq_head?_reverse] at last
    generalize s.reverse = r at last
    cases r with
    | nil => rfl
    | cons c r => exact trimStart_eq_self (last c rfl)
  rw [trim, start, trimEnd, ending, List.reverse_reverse]

/-- A text is cut at its first separator. -/
theorem cut?_append {separator : Char} {s : List Char} (free : separator ∉ s) (t : List Char) :
    cut? separator (s ++ separator :: t) = some (s, t) := by
  induction s with
  | nil => rw [List.nil_append, cut?, if_pos rfl]
  | cons c s ih =>
    rw [List.cons_append, cut?, if_neg (List.ne_of_not_mem_cons free).symm,
      ih (List.not_mem_of_not_mem_cons free)]
    rfl

/-- A text without a separator is not cut. -/
theorem cut?_eq_none {separator : Char} {s : List Char} (free : separator ∉ s) :
    cut? separator s = none := by
  induction s with
  | nil => rfl
  | cons c s ih =>
    rw [cut?, if_neg (List.ne_of_not_mem_cons free).symm, ih (List.not_mem_of_not_mem_cons free)]
    rfl

/-- A text is cut at the first occurrence of a mark, if the mark does not begin before it. -/
theorem cutAt?_append {mark before : List Char} (first : ¬ mark <:+: before ++ mark.dropLast)
    (rest : List Char) : cutAt? mark (before ++ (mark ++ rest)) = some (before, rest) := by
  induction before with
  | nil =>
    have here : mark.isPrefixOf (mark ++ rest) = true :=
      List.isPrefixOf_iff_prefix.2 (List.prefix_append mark rest)
    have left : (mark ++ rest).drop mark.length = rest := List.drop_left
    rw [List.nil_append]
    generalize found : mark ++ rest = text at here left
    cases text with
    | nil =>
      obtain ⟨rfl, rfl⟩ := List.append_eq_nil_iff.1 found
      rfl
    | cons c text => rw [cutAt?, if_pos here, left]
  | cons c before ih =>
    rw [List.cons_append, List.infix_cons_iff, not_or] at first
    obtain ⟨notHere, notLater⟩ := first
    have passed : ¬ mark.isPrefixOf (c :: (before ++ (mark ++ rest))) = true := by
      intro isPrefix
      refine notHere (List.prefix_of_prefix_length_le (List.isPrefixOf_iff_prefix.1 isPrefix) ?_ ?_)
      · -- All of the mark but its last character stands after `before`.
        obtain ⟨left, whole⟩ := List.dropLast_prefix mark
        refine ⟨left ++ rest, ?_⟩
        rw [List.cons_append, List.append_assoc, ← List.append_assoc mark.dropLast, whole]
      · rw [List.length_cons, List.length_append, List.length_dropLast]
        omega
    rw [List.cons_append, cutAt?, if_neg passed, ih notLater]
    rfl

end MarkupLoader.Text
