import MarkupLoader.Text.Numeral

/-!
# Reading floating-point numbers

A number is an optional sign, digits with at most one point among, before or after them, and an
optional exponent; infinity and not-a-number have names in either case. The double nearest to
the number is meant.

Main definition: `float?`.
-/

namespace MarkupLoader.Decimal

open Text

/-- Whether a character is a decimal digit. -/
def isDigit (c : Char) : Bool := (digit? 10 c).isSome

/-- The digits before and after the point, and what follows them; `none` if there is no digit. -/
def mantissa? (s : List Char) : Option (List Char × List Char × List Char) :=
  let whole := s.takeWhile isDigit
  let (fraction, rest) :=
    match s.dropWhile isDigit with
    | '.' :: rest => (rest.takeWhile isDigit, rest.dropWhile isDigit)
    | rest => ([], rest)
  if whole.isEmpty && fraction.isEmpty then none else some (whole, fraction, rest)

/-- The exponent that ends a number; 0 if there is none. -/
def exponent? : List Char → Option Int
  | [] => some 0
  | c :: rest => if c = 'e' ∨ c = 'E' then signed? rest else none

/-- The double nearest to `digits * 10 ^ exponent`. Exponents far outside the range of a double
are settled without computing the power. -/
def nearestDouble (digits : Nat) (exponent : Int) : Float :=
  let leading : Int := (Nat.toDigits 10 digits).length + exponent
  if digits = 0 then 0.0
  else if leading < -400 then 0.0
  else if 400 < leading then 1.0 / 0.0
  else Float.ofScientific digits (exponent < 0) exponent.natAbs

/-- A number without a sign. -/
def magnitude? (s : List Char) : Option Float :=
  let name := String.ofList (s.map Char.toLower)
  if name = "inf" ∨ name = "infinity" then some (1.0 / 0.0)
  else if name = "nan" then some (0.0 / 0.0)
  else do
    let (whole, fraction, rest) ← mantissa? s
    let exponent ← exponent? rest
    let digits ← digits? 10 (whole ++ fraction)
    return nearestDouble digits (exponent - fraction.length)

/-- The double that a text stands for. -/
def float? : List Char → Option Float
  | '-' :: rest => (magnitude? rest).map Neg.neg
  | '+' :: rest => magnitude? rest
  | s => magnitude? s

end MarkupLoader.Decimal
