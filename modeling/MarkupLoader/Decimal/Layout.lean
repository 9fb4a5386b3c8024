import MarkupLoader.Decimal.Shortest

/-!
# Layouts of floating-point numbers

The digits of a number are its shortest decimal; **a layout** (`Layout`) decides everything else:
for which exponents the number is written positionally, whether a whole number keeps a point, how
an exponent is written, and which way a tie goes.
-/

namespace MarkupLoader.Decimal

/-- The decisions of a format for floating-point numbers. -/
structure Layout where
  /-- The least exponent of the first digit that is written positionally; `none` for no bound. -/
  least : Option Int
  /-- The greatest exponent of the first digit that is written positionally. -/
  greatest : Option Int
  /-- Whether a positional number always has a digit after the point. -/
  keepsFraction : Bool
  /-- Whether a positive exponent has a sign. -/
  signsExponent : Bool
  tie : Tie
deriving DecidableEq, Repr

namespace Layout

/-- Whether a number whose first digit has a given exponent is written positionally. -/
def positional (l : Layout) (leading : Int) : Bool :=
  l.least.all (· ≤ leading) && l.greatest.all (leading ≤ ·)

/-- Zeros in a row. -/
def zeros (count : Nat) : String := String.ofList (List.replicate count '0')

/-- The digits of a number without the zeros it ends with, and the exponent of the first one. -/
def significant (s : Scaled) : List Char × Int :=
  let digits := Nat.toDigits 10 s.digits
  let kept := (digits.reverse.dropWhile (· == '0')).reverse
  (if kept.isEmpty then ['0'] else kept, s.exponent + digits.length - 1)

/-- Writes digits whose first one has a given exponent. -/
def write (l : Layout) (digits : List Char) (leading : Int) : String :=
  let text := String.ofList digits
  if l.positional leading then
    if leading < 0 then "0." ++ zeros (-leading - 1).toNat ++ text
    else
      let whole := leading.toNat + 1
      if digits.length ≤ whole then
        text ++ zeros (whole - digits.length) ++ if l.keepsFraction then ".0" else ""
      else String.ofList (digits.take whole) ++ "." ++ String.ofList (digits.drop whole)
  else
    let head := String.ofList (digits.take 1)
    let tail := if digits.length ≤ 1 then "" else "." ++ String.ofList (digits.drop 1)
    let sign := if 0 ≤ leading && l.signsExponent then "+" else ""
    s!"{head}{tail}e{sign}{leading}"

/-- Writes a double; `none` if it is not finite. -/
def finite? (l : Layout) (x : Float) : Option String :=
  match parts x with
  | .finite negative m =>
    let (digits, leading) := significant (m.shortest l.tie)
    some ((if negative then "-" else "") ++ l.write digits leading)
  | _ => none

/-- Writes a double. -/
def text (l : Layout) (x : Float) : String :=
  match parts x with
  | .notANumber => "NaN"
  | .infinite negative => if negative then "-inf" else "inf"
  | .finite _ _ => (l.finite? x).getD ""

end Layout

/-- A number as a text of its own: never an exponent, and no point in a whole number. A half
goes up. -/
def plain : Layout := ⟨none, none, false, false, .up⟩

end MarkupLoader.Decimal
