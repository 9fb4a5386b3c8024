import MarkupLoader.Heap.Coercion
import MarkupLoader.Proofs.Asides
import Mathlib.Algebra.Group.Int.Defs

/-!
# Coerced values

A value that a property takes becomes one of the property's type, and **what has been taken once is
taken again as it is**. Nearly every value is given back unchanged by one arm of the coercion; what is
left are the texts, which are read.

* **A member** of a fixed list is compared and kept without the blanks around it, so that it has none
  left to lose.
* **A whole number** is written as digits after a sign or none (`WholeNumber`), with blanks around it
  or none (`Denotes`). The sign and the magnitude are put together before the number has to fit 64
  bits, so the least number is read though its magnitude alone would not fit.

Main results: `signed?_eq_some_iff`, `denotes_iff`, `Heap.coerce_coerced`, `Heap.coerce_settles`.
-/

namespace MarkupLoader

open Text Markup

/-! ## Digits -/

section Digits

variable {base value n : Nat} {c : Char} {digits seen : List Char}

/-- The digits of a base are the characters with a value below it. -/
theorem Text.digit?_eq_some_iff : digit? base c = some value ↔ value < base ∧ IsDigit value c := by
  refine ⟨fun read => ?_, fun ⟨small, is⟩ => digit?_of_isDigit is small⟩
  -- A character is told by its code, and each range of codes is a stretch of the tables.
  have known : (∀ v < 10, IsDigit v (Char.ofNat (v + 48))) ∧
      (∀ v < 6, IsDigit (v + 10) (Char.ofNat (v + 97))) ∧
      ∀ v < 6, IsDigit (v + 10) (Char.ofNat (v + 65)) := by
    unfold IsDigit
    decide +kernel
  have code : ∀ {first : Nat}, first ≤ c.toNat → Char.ofNat (c.toNat - first + first) = c :=
    fun low => by rw [Nat.sub_add_cancel low, Char.ofNat_toNat]
  have range : ∀ {a b : Char}, a ≤ c ∧ c ≤ b → a.toNat ≤ c.toNat ∧ c.toNat ≤ b.toNat :=
    fun ⟨low, high⟩ => ⟨low, high⟩
  unfold digit? at read
  obtain ⟨found, small⟩ := Option.filter_eq_some_iff.1 read
  refine ⟨of_decide_eq_true small, ?_⟩
  simp only [Char.reduceToNat] at found
  split at found
  case isTrue decimal =>
    obtain ⟨low, high⟩ : 48 ≤ c.toNat ∧ c.toNat ≤ 57 := range decimal
    obtain rfl := Option.some.inj found
    have is := known.1 (c.toNat - 48) (by omega)
    rwa [code low] at is
  split at found
  case isTrue lower =>
    obtain ⟨low, high⟩ : 97 ≤ c.toNat ∧ c.toNat ≤ 102 := range lower
    obtain rfl := Option.some.inj found
    have is := known.2.1 (c.toNat - 97) (by omega)
    rwa [code low] at is
  split at found
  case isTrue upper =>
    obtain ⟨low, high⟩ : 65 ≤ c.toNat ∧ c.toNat ≤ 70 := range upper
    obtain rfl := Option.some.inj found
    have is := known.2.2 (c.toNat - 65) (by omega)
    rwa [code low] at is
  case isFalse => cases found

/-- Digits that are read after a numeral make a longer one. -/
theorem numeral_of_digitsFrom? (before : Numeral base value seen)
    (read : digitsFrom? base value digits = some n) : Numeral base n (seen ++ digits) := by
  -- Each digit joins the ones before it, so what has been seen is a numeral all along.
  induction digits generalizing value seen with
  | nil =>
    cases read
    rwa [List.append_nil]
  | cons c rest ih =>
    obtain ⟨d, first, later⟩ := Option.bind_eq_some_iff.1 read
    obtain ⟨small, is⟩ := Text.digit?_eq_some_iff.1 first
    rw [List.append_cons]
    exact ih (.next before small is) later

/-- Digits are read as the number that they make. -/
theorem Text.digits?_eq_some_iff : digits? base digits = some n ↔ Numeral base n digits := by
  constructor
  · intro read
    cases digits with
    | nil => cases read
    | cons c rest =>
      rw [digits?_cons] at read
      obtain ⟨d, first, later⟩ := Option.bind_eq_some_iff.1 read
      obtain ⟨small, is⟩ := digit?_eq_some_iff.1 first
      exact numeral_of_digitsFrom? (.digit small is) later
  · intro numeral
    rw [digits?, if_neg (by simpa using (isDigit_of_numeral numeral).1)]
    exact digitsFrom?_of_numeral numeral

/-- A number is read after a plus sign or without one. -/
theorem Text.unsigned?_eq_some_iff : unsigned? base digits = some n ↔
    Numeral base n digits ∨ ∃ rest, digits = '+' :: rest ∧ Numeral base n rest := by
  constructor
  · intro read
    unfold unsigned? at read
    split at read
    case h_1 rest => exact .inr ⟨rest, rfl, digits?_eq_some_iff.1 read⟩
    case h_2 => exact .inl (digits?_eq_some_iff.1 read)
  · rintro (numeral | ⟨rest, rfl, numeral⟩)
    · exact unsigned?_of_numeral numeral
    · exact digits?_eq_some_iff.2 numeral

/-- No digit is a sign or a blank. -/
theorem Markup.Numeral.plain (numeral : Numeral base n digits) :
    ∀ c ∈ digits, c ≠ '+' ∧ c ≠ '-' ∧ isBlank c = false := by
  have table : ("0123456789abcdefABCDEF".toList.all fun c =>
      c != '+' && c != '-' && !isBlank c) = true := by
    decide +kernel
  intro c mem
  obtain ⟨value, -, is⟩ := (isDigit_of_numeral numeral).2 c mem
  simpa [and_assoc] using List.all_eq_true.1 table c (mem_digits is)

/-- A number is written as a numeral. -/
theorem numeral_toDigits (n : Nat) : Numeral 10 n (Nat.toDigits 10 n) := by
  have known : ∀ v < 10, IsDigit v v.digitChar := by
    unfold IsDigit
    decide +kernel
  induction n using Nat.strongRecOn with
  | ind n ih =>
    rcases Nat.lt_or_ge n 10 with small | large
    · rw [Nat.toDigits_of_lt_base small]
      exact .digit small (known n small)
    · -- The last digit stands behind those of a tenth of the number.
      have last : n % 10 < 10 := Nat.mod_lt n (by decide)
      have numeral := Numeral.next (ih (n / 10) (by omega)) last (known _ last)
      rw [Nat.toDigits_of_base_le (by decide) large]
      rwa [Nat.div_add_mod' n 10] at numeral

end Digits

/-! ## Whole numbers -/

/-- The ways to write a whole number: digits, one at least, after a sign or none. -/
inductive WholeNumber : Int → List Char → Prop
  | plain {n : Nat} {digits : List Char} (numeral : Numeral 10 n digits) : WholeNumber n digits
  | plus {n : Nat} {digits : List Char} (numeral : Numeral 10 n digits) :
    WholeNumber n ('+' :: digits)
  | minus {n : Nat} {digits : List Char} (numeral : Numeral 10 n digits) :
    WholeNumber (-n) ('-' :: digits)

/-- The whole number that a text denotes, blanks around it or none. -/
def Denotes (text : String) (n : Int) : Prop :=
  ∃ before number after, text.toList = before ++ (number ++ after) ∧ Blank before ∧ Blank after ∧
    WholeNumber n number

section WholeNumbers

variable {n : Int} {s : List Char} {text : String}

theorem Text.signed?_minus (digits : List Char) :
    signed? ('-' :: digits) = (digits? 10 digits).map fun n : Nat => -(n : Int) := by
  rw [signed?]
  cases digits? 10 digits <;> rfl

/-- A number is read with a sign or without one. -/
theorem Text.signed?_eq_some_iff : signed? s = some n ↔ WholeNumber n s := by
  constructor
  · intro read
    -- Only a minus is a case of its own; a plus is taken along with the digits.
    by_cases signed : ∃ digits, s = '-' :: digits
    · obtain ⟨digits, rfl⟩ := signed
      rw [signed?_minus] at read
      obtain ⟨m, found, rfl⟩ := Option.map_eq_some_iff.1 read
      exact .minus (digits?_eq_some_iff.1 found)
    · have unsigned : signed? s = (unsigned? 10 s).map Int.ofNat := by
        unfold signed?
        split
        case h_1 digits => exact absurd ⟨digits, rfl⟩ signed
        case h_2 => rfl
      rw [unsigned] at read
      obtain ⟨m, found, rfl⟩ := Option.map_eq_some_iff.1 read
      obtain numeral | ⟨digits, rfl, numeral⟩ := unsigned?_eq_some_iff.1 found
      · exact .plain numeral
      · exact .plus numeral
  · intro written
    cases written with
    | plus numeral => exact congrArg (Option.map _) (digits?_eq_some_iff.2 numeral)
    | minus numeral =>
      rw [signed?_minus, digits?_eq_some_iff.2 numeral]
      rfl
    | @plain m digits numeral =>
      -- The first digit is no sign.
      unfold signed?
      split
      case h_1 => exact absurd rfl (numeral.plain _ List.mem_cons_self).2.1
      case h_2 => rw [unsigned?_of_numeral numeral]; rfl

/-- A number that is written out is written in one of the ways. -/
theorem wholeNumber_toString (n : Int) : WholeNumber n (toString n).toList := by
  rw [Int.toString_eq_repr, Int.repr_eq_if]
  split
  case isTrue natural =>
    have written := WholeNumber.plain (numeral_toDigits n.toNat)
    rwa [Int.toNat_of_nonneg natural, ← Nat.toList_repr] at written
  case isFalse negative =>
    have written := WholeNumber.minus (numeral_toDigits (-n).toNat)
    rw [Int.toNat_of_nonneg (by omega), Int.neg_neg, ← Nat.toList_repr] at written
    rwa [String.toList_append]

/-- Nothing blank stands in a whole number. -/
theorem WholeNumber.not_blank (written : WholeNumber n s) : ∀ c ∈ s, isBlank c = false := by
  cases written with
  | plain numeral => exact fun c mem => (numeral.plain c mem).2.2
  | plus numeral => exact List.forall_mem_cons.2 ⟨by decide, fun c mem => (numeral.plain c mem).2.2⟩
  | minus numeral => exact List.forall_mem_cons.2 ⟨by decide, fun c mem => (numeral.plain c mem).2.2⟩

/-- What a text denotes is read off what is left of it without the blanks around. -/
theorem denotes_iff : Denotes text n ↔ signed? (trim text.toList) = some n := by
  rw [signed?_eq_some_iff]
  constructor
  · rintro ⟨before, number, after, whole, blank, blank', written⟩
    -- The number neither begins nor ends with a blank, so it is all that is left.
    have ends := written.not_blank
    rwa [whole, trim_blank_append blank, trim_append_blank blank', trim_eq_self
      (fun c mem => ends c (List.mem_of_head? mem)) fun c mem => ends c (List.mem_of_getLast? mem)]
  · intro written
    obtain ⟨before, after, blank, blank', whole⟩ := exists_trim text.toList
    exact ⟨before, _, after, whole, blank, blank', written⟩

/-- The numbers of 64 bits are read, both ends of their range included. -/
theorem Text.int64?_eq_some_iff {m : Int64} :
    int64? s = some m ↔ ∃ n, -2 ^ 63 ≤ n ∧ n < 2 ^ 63 ∧ signed? s = some n ∧ m = Int64.ofInt n := by
  have fits : ∀ n : Int, (Int64.minValue.toInt ≤ n ∧ n ≤ Int64.maxValue.toInt) ↔
      -2 ^ 63 ≤ n ∧ n < 2 ^ 63 := by
    intro n
    rw [Int64.toInt_minValue, Int64.toInt_maxValue]
    omega
  unfold int64?
  simp only [fits]
  constructor
  · intro read
    obtain ⟨n, found, read⟩ := Option.bind_eq_some_iff.1 read
    split at read
    case isTrue inside => exact ⟨n, inside.1, inside.2, found, (Option.some.inj read).symm⟩
    case isFalse => cases read
  · rintro ⟨n, low, high, found, rfl⟩
    rw [found, Option.bind_some, if_pos ⟨low, high⟩]

end WholeNumbers

/-! ## Coercion -/

theorem Text.trimmed_trimmed (text : String) : trimmed (trimmed text) = trimmed text := by
  unfold trimmed
  rw [String.toList_ofList, trim_eq_self (ends_trim _).1 (ends_trim _).2]

namespace Heap

variable (h : Heap) {type : PropertyType} {given value : Value} {text : String} {id : ObjectId}

/-- What a text has been read as is taken as it is. -/
theorem coerce_of_coerceText (read : coerceText text type = .ok value) :
    h.coerce value type = .ok value := by
  cases type with
  | string | object constraint | any =>
    cases read
    rfl
  | collection | dictionary => cases read
  | bool | int | float =>
    unfold coerceText at read
    dsimp only at read
    split at read
    · cases read
      rfl
    · cases read
  | oneOf members =>
    unfold coerceText at read
    dsimp only at read
    split at read
    case isTrue member =>
      cases read
      -- The member itself has no blanks around it.
      have again : members.contains (trimmed (trimmed text)) = true := by rwa [trimmed_trimmed]
      show coerceText (trimmed text) (.oneOf members) = _
      rw [coerceText, if_pos again, trimmed_trimmed]
    case isFalse => cases read

/-- An object is taken as itself. -/
theorem eq_of_coerceObject (taken : h.coerceObject id type = .ok value) : value = .object id := by
  unfold coerceObject at taken
  -- Its type may be looked at, but the object is handed on.
  split at taken
  case h_1 | h_2 => exact (Except.ok.inj taken).symm
  case h_3 | h_4 | h_5 =>
    split at taken
    · exact (Except.ok.inj taken).symm
    · cases taken
  case h_6 => cases taken

theorem coerce_object (type : PropertyType) : h.coerce (.object id) type = h.coerceObject id type := by
  cases type <;> rfl

/-- What has been coerced is taken as it is. -/
theorem coerce_coerced (coerced : h.coerce given type = .ok value) :
    h.coerce value type = .ok value := by
  cases given with
  | null =>
    cases coerced
    rfl
  | string text =>
    have read : coerceText text type = .ok value := by
      rw [← coerced]
      cases type <;> rfl
    exact h.coerce_of_coerceText read
  | object id =>
    rw [coerce_object] at coerced
    obtain rfl := h.eq_of_coerceObject coerced
    rwa [coerce_object]
  | bool | int | float | list => cases type <;> cases coerced <;> rfl
  | type name =>
    -- The name of a type is a value only where any value is, and where any object is.
    cases type with
    | object constraint => cases constraint <;> cases coerced; rfl
    | any =>
      cases coerced
      rfl
    | _ => cases coerced

/-- A text becomes the number that it denotes, or is refused. -/
theorem coerce_int_eq_ok_iff : h.coerce (.string text) .int = .ok value ↔
    ∃ n, -2 ^ 63 ≤ n ∧ n < 2 ^ 63 ∧ Denotes text n ∧ value = .int (Int64.ofInt n) := by
  show coerceText text .int = _ ↔ _
  unfold coerceText
  simp only [denotes_iff]
  constructor
  · intro read
    split at read
    case h_1 m found =>
      obtain ⟨n, low, high, denotes, rfl⟩ := int64?_eq_some_iff.1 found
      exact ⟨n, low, high, denotes, (Except.ok.inj read).symm⟩
    case h_2 => cases read
  · rintro ⟨n, low, high, denotes, rfl⟩
    rw [int64?_eq_some_iff.2 ⟨n, low, high, denotes, rfl⟩]

/--
**Coercion settles a value.** What has been coerced to a type is coerced to that type without change,
floating-point numbers bit by bit.

A text is coerced to an integer exactly if it is an optional sign and decimal digits, blanks around
them aside, that denote a number of 64 bits, and it becomes that number. Every other text is refused.
An integer that is coerced to a text and back is the same.
-/
theorem coerce_settles :
    (∀ given type value, h.coerce given type = .ok value → h.coerce value type = .ok value) ∧
    (∀ text value, h.coerce (.string text) .int = .ok value ↔
      ∃ n, -2 ^ 63 ≤ n ∧ n < 2 ^ 63 ∧ Denotes text n ∧ value = .int (Int64.ofInt n)) ∧
    (∀ text, (¬ ∃ n, -2 ^ 63 ≤ n ∧ n < 2 ^ 63 ∧ Denotes text n) →
      h.coerce (.string text) .int = .error (.notAnInt text)) ∧
    ∀ n, (h.coerce (.int n) .string >>= fun text => h.coerce text .int) = .ok (.int n) := by
  refine ⟨fun _ _ _ => h.coerce_coerced, fun _ _ => h.coerce_int_eq_ok_iff, fun text none => ?_,
    fun n => ?_⟩
  · cases read : h.coerce (.string text) .int with
    | ok value =>
      obtain ⟨n, low, high, denotes, -⟩ := h.coerce_int_eq_ok_iff.1 read
      exact absurd ⟨n, low, high, denotes⟩ none
    | error fault =>
      have reads : coerceText text .int = .error fault := read
      unfold coerceText at reads
      dsimp only at reads
      split at reads
      · cases reads
      · exact congrArg Except.error (Except.error.inj reads).symm
  · have denotes : Denotes (toString n.toInt) n.toInt :=
      ⟨[], _, [], by simp, nofun, nofun, wholeNumber_toString n.toInt⟩
    exact h.coerce_int_eq_ok_iff.2
      ⟨n.toInt, n.le_toInt, n.toInt_lt, denotes, by rw [Int64.ofInt_toInt]⟩

/-- A member with blanks around it, and texts at the lower end of the range and beyond the upper one. -/
theorem coerce_settles_ends :
    let h := Heap.empty
    let members := PropertyType.oneOf ["Start", "End"]
    let least := " -9223372036854775808\n"
    let beyond := "+9223372036854775808"
    h.coerce (.string " End ") members = .ok (.string "End") ∧
      h.coerce (.string "End") members = .ok (.string "End") ∧
      (∃ n, -2 ^ 63 ≤ n ∧ n < 2 ^ 63 ∧ Denotes least n ∧
        Value.int Int64.minValue = .int (Int64.ofInt n)) ∧
      (¬ ∃ n, -2 ^ 63 ≤ n ∧ n < 2 ^ 63 ∧ Denotes beyond n) ∧
      h.coerce (.string beyond) .int = .error (.notAnInt beyond) ∧
      (h.coerce (.int Int64.minValue) .string >>= fun text => h.coerce text .int) =
        .ok (.int Int64.minValue) := by
  intro h members least beyond
  obtain ⟨settles, reads, refuses, returns⟩ := h.coerce_settles
  have member : h.coerce (.string " End ") members = .ok (.string "End") := rfl
  have none : ¬ ∃ n, -2 ^ 63 ≤ n ∧ n < 2 ^ 63 ∧ Denotes beyond n := by
    rintro ⟨n, low, high, denotes⟩
    have magnitude : Text.signed? (Text.trim beyond.toList) = some 9223372036854775808 := by
      decide +kernel
    have is := Option.some.inj ((denotes_iff.1 denotes).symm.trans magnitude)
    omega
  have read : h.coerce (.string least) .int = .ok (.int Int64.minValue) := by
    have number : Text.int64? (Text.trim least.toList) = some Int64.minValue := by decide +kernel
    show coerceText least .int = _
    rw [coerceText, number]
  exact ⟨member, settles _ _ _ member, (reads least _).1 read, none, refuses beyond none, returns _⟩

end Heap

end MarkupLoader
