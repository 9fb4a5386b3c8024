/-!
# Numerals

Whole numbers written in a base up to 16, with the ASCII digits and letters of either case. A
plus sign may stand in front of any number, a minus sign in front of a signed one, and at least
one digit must follow.

Main statements: `digits?_cons`, `digits?_nil`.
-/

namespace MarkupLoader.Text

/-- The value of a digit in a base. -/
def digit? (base : Nat) (c : Char) : Option Nat :=
  let value :=
    if '0' ≤ c ∧ c ≤ '9' then some (c.toNat - '0'.toNat)
    else if 'a' ≤ c ∧ c ≤ 'f' then some (c.toNat - 'a'.toNat + 10)
    else if 'A' ≤ c ∧ c ≤ 'F' then some (c.toNat - 'A'.toNat + 10)
    else none
  value.filter (· < base)

/-- The number that digits add up to, after those that make `value`. -/
def digitsFrom? (base value : Nat) : List Char → Option Nat
  | [] => some value
  | c :: rest => (digit? base c).bind fun d => digitsFrom? base (value * base + d) rest

/-- The number written with one digit or more. -/
def digits? (base : Nat) (s : List Char) : Option Nat :=
  if s.isEmpty then none else digitsFrom? base 0 s

/-- A number that a plus sign may precede. -/
def unsigned? (base : Nat) : List Char → Option Nat
  | '+' :: rest => digits? base rest
  | s => digits? base s

/-- A decimal number that a sign may precede. -/
def signed? : List Char → Option Int
  | '-' :: rest => (digits? 10 rest).map fun n => -(n : Int)
  | s => (unsigned? 10 s).map Int.ofNat

/-- A decimal number that a sign may precede, if it fits 64 bits. -/
def int64? (s : List Char) : Option Int64 :=
  (signed? s).bind fun n =>
    if Int64.minValue.toInt ≤ n ∧ n ≤ Int64.maxValue.toInt then some (Int64.ofInt n) else none

/-! ## Laws -/

/-- No digits make no number. -/
theorem digits?_nil (base : Nat) : digits? base [] = none := rfl

/-- Digits are read from the left. -/
theorem digits?_cons (base : Nat) (c : Char) (rest : List Char) :
    digits? base (c :: rest) = (digit? base c).bind fun d => digitsFrom? base d rest := by
  simp [digits?, digitsFrom?]

end MarkupLoader.Text
