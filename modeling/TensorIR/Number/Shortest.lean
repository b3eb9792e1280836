/-!
# The fewest digits that read back

A finite binary number is `m · 2 ^ q`. The real numbers that round to it form an interval, whose
ends belong to it when `m` is even. The shortest decimal of the number is a point of the interval
that lies on the coarsest decimal grid with such a point; of two points on that grid it is the one
nearer to the number, and of two equally near the greater.

## Main definitions

* `Binary` — the exact value and the neighbourhood of a finite positive number
* `Decimal` — a coefficient and a power of ten
* `Binary.shortest` — the shortest decimal of a number
* `Decimal.toFloat` — the nearest floating-point number
-/

namespace TensorIR

namespace Number

/-- A positive number `mantissa · 2 ^ exponent`, with a mark that its lower neighbour is only half
as far away as its upper one. -/
structure Binary where
  mantissa : Nat
  exponent : Int
  closerBelow : Bool := false
  deriving DecidableEq, Repr

/-- A number `coefficient · 10 ^ exponent`. -/
structure Decimal where
  coefficient : Nat
  exponent : Int
  deriving DecidableEq, Repr

/-- What the bits of a floating-point number say about its absolute value. -/
inductive Magnitude where
  | nan
  | infinite
  | zero
  | finite (value : Binary)
  deriving DecidableEq, Repr

/-- Whether the sign bit is set. -/
def isNegative (x : Float) : Bool :=
  x.toBits >>> 63 == 1

/-- The absolute value of a floating-point number. -/
def magnitude (x : Float) : Magnitude :=
  let bits : Nat := x.toBits.toNat
  let fraction : Nat := bits % Nat.pow 2 52
  let biased : Nat := bits / Nat.pow 2 52 % Nat.pow 2 11
  if biased == 2047 then
    if fraction == 0 then .infinite else .nan
  else if biased == 0 then
    if fraction == 0 then .zero else .finite ⟨fraction, -1074, false⟩
  else .finite ⟨Nat.pow 2 52 + fraction, (biased : Int) - 1075, fraction == 0 && biased != 1⟩

namespace Binary

/-- The number of decimal digits of a positive natural number. -/
def digitCount (n : Nat) : Nat :=
  (Nat.toDigits 10 n).length

/-- The power of ten of the leading decimal digit. -/
def leadingPower (value : Binary) : Int :=
  if value.exponent ≥ 0 then
    (digitCount (value.mantissa * Nat.pow 2 value.exponent.toNat) : Int) - 1
  else
    let shifted := value.mantissa * Nat.pow 10 400 / Nat.pow 2 (-value.exponent).toNat
    (digitCount shifted : Int) - 401

/-- The point of the grid of multiples of `10 ^ power` that stands for the number, if the interval
of numbers that round to it has one. Everything is measured in quarters of the last place. -/
def pointOnGrid (value : Binary) (power : Int) : Option Nat :=
  let quarters := value.exponent - 2
  let scale := Nat.pow 2 quarters.toNat * Nat.pow 10 (-power).toNat
  let unit := Nat.pow 2 (-quarters).toNat * Nat.pow 10 power.toNat
  let centre := 4 * value.mantissa * scale
  let low := (4 * value.mantissa - if value.closerBelow then 1 else 2) * scale
  let high := (4 * value.mantissa + 2) * scale
  let closed := value.mantissa % 2 == 0
  let below := centre / unit
  let above := below + 1
  let belowFits := low < below * unit || (closed && low == below * unit)
  let aboveFits := above * unit < high || (closed && above * unit == high)
  if belowFits && aboveFits then
    if centre - below * unit < above * unit - centre then some below else some above
  else if belowFits then some below
  else if aboveFits then some above
  else none

/-- The shortest decimal on grids of at least `digits` digits, trying `attempts` more of them. -/
def shortestFrom (value : Binary) (leading : Int) : Nat → Nat → Decimal
  | 0, digits => ⟨value.mantissa, leading - digits⟩
  | attempts + 1, digits =>
    let power := leading + 1 - digits
    match value.pointOnGrid power with
    | some point => ⟨point, power⟩
    | none => shortestFrom value leading attempts (digits + 1)

/-- The decimal with the fewest digits that reads back as the number. Seventeen digits are always
enough. -/
def shortest (value : Binary) : Decimal :=
  value.shortestFrom value.leadingPower 17 1

end Binary

namespace Decimal

/-- Divides a coefficient by ten as long as it is a multiple of ten. -/
def dropZeros : Nat → Decimal → Decimal
  | 0, decimal => decimal
  | fuel + 1, ⟨coefficient, exponent⟩ =>
    if coefficient != 0 && coefficient % 10 == 0 then
      dropZeros fuel ⟨coefficient / 10, exponent + 1⟩
    else ⟨coefficient, exponent⟩

/-- The digits of the coefficient without trailing zeros, and the power of ten of the first. -/
def significant (decimal : Decimal) : List Char × Int :=
  let reduced := dropZeros 20 decimal
  let digits := Nat.toDigits 10 reduced.coefficient
  (digits, reduced.exponent + digits.length - 1)

/-- The floating-point number nearest to a decimal. Far outside the range of floating-point numbers
the result is infinite or zero. -/
def toFloat (decimal : Decimal) : Float :=
  if decimal.coefficient == 0 then 0.0
  else
    let size := decimal.exponent + (Nat.toDigits 10 decimal.coefficient).length
    if size > 320 then 1.0 / 0.0
    else if size < -340 then 0.0
    else if decimal.exponent ≥ 0 then
      Float.ofScientific decimal.coefficient false decimal.exponent.toNat
    else Float.ofScientific decimal.coefficient true (-decimal.exponent).toNat

end Decimal

end Number

end TensorIR
