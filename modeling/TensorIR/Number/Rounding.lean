import TensorIR.Number.Shortest
import TensorIR.Type.Scalar

/-!
# Rounding

Integers wrap to the width of their type. Floating-point numbers are cut to integers with
saturation, rounded to integers with ties to even, and rounded to single precision. All of these
are computed exactly from the bits of the number.

## Main definitions

* `wrapInt64`, `wrapTo` — the integer modulo the width of a type
* `truncateToInt` — the integer part, kept within 64 bits
* `roundToEven` — the nearest integer as a floating-point number
* `roundSingle` — the nearest number in single precision
-/

namespace TensorIR

namespace Number

/-- The signed 64-bit integer congruent to a given one. -/
def wrapInt64 (value : Int) : Int :=
  value.bmod (Nat.pow 2 64)

/-- The value of an integer type congruent to a signed 64-bit integer. -/
def wrapTo (type : ScalarType) (value : Int) : Int :=
  match type with
  | .i1 => value % 2
  | .i8 => value.bmod (Nat.pow 2 8)
  | .ui8 => value % Nat.pow 2 8
  | .i32 => value.bmod (Nat.pow 2 32)
  | _ => value

/-- The nearest multiple of `2 ^ shift`, divided by it; of two equally near the even one. -/
def shiftToEven (value shift : Nat) : Nat :=
  let whole := Nat.pow 2 shift
  let kept := value / whole
  let dropped := value % whole
  if 2 * dropped > whole || (2 * dropped == whole && kept % 2 == 1) then kept + 1 else kept

/-- The integer part of the absolute value of a number. -/
def Binary.floor (value : Binary) : Nat :=
  value.mantissa * Nat.pow 2 value.exponent.toNat / Nat.pow 2 (-value.exponent).toNat

/-- The integer part of a number. Numbers beyond the signed 64-bit integers become the nearest of
them, and what is no number becomes zero. -/
def truncateToInt (x : Float) : Int :=
  match magnitude x with
  | .nan | .zero => 0
  | .infinite => if isNegative x then minInt64 else maxInt64
  | .finite value =>
    if value.exponent > 64 then if isNegative x then minInt64 else maxInt64
    else
      let whole : Int := value.floor
      if isNegative x then max minInt64 (-whole) else min maxInt64 whole

/-- The number with the sign of another. -/
def withSignOf (x value : Float) : Float :=
  if isNegative x then -value else value

/-- The integer nearest to a number; of two equally near the even one. The sign is kept, also that
of zero. -/
def roundToEven (x : Float) : Float :=
  match magnitude x with
  | .finite value =>
    if value.exponent ≥ 0 then x
    else withSignOf x (Float.ofNat (shiftToEven value.mantissa (-value.exponent).toNat))
  | _ => x

/-- A power of two in the range of normal numbers. -/
def powerOfTwo (exponent : Int) : Float :=
  Float.ofBits ((exponent + 1023).toNat.toUInt64 <<< 52)

/-- The number nearest to a given one in single precision; of two equally near the one with an even
last place. -/
def roundSingle (x : Float) : Float :=
  match magnitude x with
  | .finite value =>
    let size : Int := Nat.log2 value.mantissa + 1
    let place := max (value.exponent + size - 24) (-149)
    if place ≤ value.exponent then
      if value.exponent + size > 128 then withSignOf x (1.0 / 0.0) else x
    else
      let kept := shiftToEven value.mantissa (place - value.exponent).toNat
      if place + (Nat.log2 kept + 1 : Nat) > 128 then withSignOf x (1.0 / 0.0)
      else withSignOf x (Float.ofNat kept * powerOfTwo place)
  | _ => x

/-- The greater of two numbers. What is no number is passed over, and of two equal numbers the second
is taken. -/
def maximum (a b : Float) : Float :=
  if b.isNaN then a else if a > b then a else b

/-- The lesser of two numbers. What is no number is passed over, and of two equal numbers the second
is taken. -/
def minimum (a b : Float) : Float :=
  if b.isNaN then a else if a < b then a else b

/-- Wrapping keeps a value within the range of its type. -/
theorem wrapTo_mem_range {type : ScalarType} {low high value : Int}
    (range : type.intRange? = some (low, high)) (inside : minInt64 ≤ value ∧ value ≤ maxInt64) :
    low ≤ wrapTo type value ∧ wrapTo type value ≤ high := by
  obtain ⟨least, most⟩ := inside
  simp only [minInt64, maxInt64] at least most
  cases type <;> simp only [ScalarType.intRange?, minInt64, maxInt64, Option.some.injEq,
    Prod.mk.injEq, reduceCtorEq] at range <;> obtain ⟨rfl, rfl⟩ := range <;>
    simp only [wrapTo, Int.bmod_def, Nat.pow_eq] <;> grind

end Number

end TensorIR
