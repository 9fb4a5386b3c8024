/-!
# Shortest decimals

A double stands for every real number that rounds to it, and is written with **the fewest digits
that read back**: of the decimal grids `10 ^ k`, from coarse to fine, the first that has a point
in the interval of those reals decides, and of two such points the nearer one is taken.

All arithmetic is exact. A finite double is decoded into `mantissa * 2 ^ exponent`; its interval
reaches half a unit to either side, except that below a power of two the lower half is half as
wide. The ends belong to the interval if and only if the mantissa is even.

If the interval has any point of a grid, it has one of the two neighbours of the double on that
grid, so no others are tried.

Main definitions: `Magnitude`, `Float.parts`, `Magnitude.shortest`.
-/

namespace MarkupLoader.Decimal

/-! ## Decoding -/

/-- A positive finite double, or zero. -/
structure Magnitude where
  mantissa : Nat
  exponent : Int
  /-- Whether the next smaller double is only half as far away as the next larger one. -/
  narrowBelow : Bool
deriving DecidableEq, Repr

/-- What a double stands for. -/
inductive FloatParts where
  | notANumber
  | infinite (negative : Bool)
  | finite (negative : Bool) (magnitude : Magnitude)
deriving DecidableEq, Repr

/-- Decodes the 64 bits of a double. -/
def partsOfBits (bits : Nat) : FloatParts :=
  let negative := bits >>> 63 % 2 == 1
  let biased : Nat := bits >>> 52 % 0x800
  let fraction : Nat := bits % 1 <<< 52
  if biased = 0x7ff then
    if fraction = 0 then .infinite negative else .notANumber
  else if biased = 0 then .finite negative ⟨fraction, -1074, false⟩
  else .finite negative ⟨1 <<< 52 + fraction, (biased : Int) - 1075, fraction == 0 && biased > 1⟩

/-- What a double stands for. -/
def parts (x : Float) : FloatParts := partsOfBits x.toBits.toNat

/-! ## Grids -/

/-- What happens halfway between two points of a grid. -/
inductive Tie where
  | up
  | toEven
deriving DecidableEq, Repr

/-- A decimal number, `digits * 10 ^ exponent`. -/
structure Scaled where
  digits : Nat
  exponent : Int
deriving DecidableEq, Repr

namespace Magnitude

/-- The fraction `n * 2 ^ (m.exponent - 2) / 10 ^ k` for a number `n` of quarter units, as a
numerator and a denominator. -/
def quarters (m : Magnitude) (k : Int) (n : Nat) : Nat × Nat :=
  let e := m.exponent - 2
  ((n <<< e.toNat) * Nat.pow 10 (-k).toNat, (1 <<< (-e).toNat) * Nat.pow 10 k.toNat)

/-- Whether the point `c` of the grid `10 ^ k` rounds to the double. -/
def covers (m : Magnitude) (k : Int) (c : Nat) : Bool :=
  let low := m.quarters k (4 * m.mantissa - if m.narrowBelow then 1 else 2)
  let high := m.quarters k (4 * m.mantissa + 2)
  if m.mantissa % 2 = 0 then low.1 ≤ c * low.2 && c * high.2 ≤ high.1
  else low.1 < c * low.2 && c * high.2 < high.1

/-- The point of the grid `10 ^ k` that is nearest to the double among those that round to
it. -/
def nearest? (m : Magnitude) (tie : Tie) (k : Int) : Option Nat :=
  let (num, den) := m.quarters k (4 * m.mantissa)
  let below := num / den
  match m.covers k below, m.covers k (below + 1) with
  | false, false => none
  | true, false => some below
  | false, true => some (below + 1)
  | true, true =>
    let twice := 2 * (num % den)
    if twice < den then some below
    else if den < twice then some (below + 1)
    else match tie with
      | .up => some (below + 1)
      | .toEven => some (if below % 2 = 0 then below else below + 1)

/-- The exponent of the first decimal digit. -/
def leading (m : Magnitude) : Int :=
  let (num, den) := m.quarters 0 (4 * m.mantissa)
  if den ≤ num then ((Nat.toDigits 10 (num / den)).length : Int) - 1
  else -(((List.range 400).find? fun j => den ≤ num * Nat.pow 10 (j + 1)).getD 0 + 1 : Nat)

/-- The fewest digits that read back, and nearest to the double among those. Seventeen digits are
always enough. -/
def shortest (m : Magnitude) (tie : Tie) : Scaled :=
  if m.mantissa = 0 then ⟨0, 0⟩
  else
    let first := m.leading
    let found := (List.range 17).findSome? fun (n : Nat) =>
      (m.nearest? tie (first - n)).map fun c => (⟨c, first - n⟩ : Scaled)
    found.getD ⟨0, 0⟩

end Magnitude

end MarkupLoader.Decimal
