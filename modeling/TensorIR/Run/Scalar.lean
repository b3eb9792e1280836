import TensorIR.Number.Rounding
import TensorIR.Program.Infer

/-!
# Numbers in a run

While a program runs, an integer is kept within the width of its type after every operation, and a
floating-point number is rounded to single precision when its type is narrower than double
precision.

## Main definitions

* `Scalar` — a number
* `Scalar.ofFloat` — a number of a given type
* `Scalar.cast` — the conversion between types
* `compareInts`, `compareFloats` — comparison by name
-/

namespace TensorIR

/-- A number in a run. -/
inductive Scalar where
  | int (value : Int)
  | float (value : Float)
  deriving Inhabited

/-- A floating-point number as precise as its type. -/
def Number.roundTo (type : ScalarType) (value : Float) : Float :=
  match type with
  | .f16 | .f32 => roundSingle value
  | _ => value

/-- An integer of a type, taken modulo its width if it is one of more than 64 bits. -/
def Number.wrapInto (type : ScalarType) (value : Int) : Int :=
  wrapTo type (wrapInt64 value)

namespace Scalar

/-- The number as a floating-point number. -/
def toFloat : Scalar → Float
  | int value => Float.ofInt value
  | float value => value

/-- The number as an integer; what stands behind the point is cut off. -/
def toInt : Scalar → Int
  | int value => value
  | float value => Number.truncateToInt value

/-- The number of a given type that belongs to a floating-point number. -/
def ofFloat (type : ScalarType) (value : Float) : Scalar :=
  if type.isFloat then float (Number.roundTo type value)
  else int (Number.wrapTo type (Number.truncateToInt value))

/-- One or zero. -/
def ofBool (value : Bool) : Scalar :=
  int (if value then 1 else 0)

/-- The integer nearest to a number, kept within the range of a type. -/
def saturate (type : ScalarType) (value : Float) : Int :=
  let rounded := Number.roundToEven value
  match type.intRange? with
  | some (least, most) =>
    Number.truncateToInt
      (Number.minimum (Number.maximum rounded (Float.ofInt least)) (Float.ofInt most))
  | none => Number.truncateToInt rounded

/-- A number converted to another type. Floating-point numbers are rounded to integers with ties to
even and saturate, and what is not zero is true. -/
def cast (source type : ScalarType) (value : Scalar) : Scalar :=
  if type.isFloat then float (Number.roundTo type value.toFloat)
  else if source.isFloat then
    if type = .i1 then ofBool (value.toFloat != 0.0) else int (saturate type value.toFloat)
  else if type = .i1 then ofBool (value.toInt ≠ 0)
  else int (Number.wrapTo type value.toInt)

/-- An operation on two numbers of a type. -/
def arithmetic (type : ScalarType) (onInts : Int → Int → Int) (onFloats : Float → Float → Float)
    (a b : Scalar) : Scalar :=
  if type.isFloat then float (Number.roundTo type (onFloats a.toFloat b.toFloat))
  else int (Number.wrapInto type (onInts a.toInt b.toInt))

/-- The sum of two numbers of a type. -/
def add (type : ScalarType) : Scalar → Scalar → Scalar :=
  arithmetic type (· + ·) (· + ·)

/-- The product of two numbers of a type. -/
def mul (type : ScalarType) : Scalar → Scalar → Scalar :=
  arithmetic type (· * ·) (· * ·)

/-- A function of a number that gives a floating-point number of a type. -/
def onFloat (type : ScalarType) (compute : Float → Float) (value : Scalar) : Scalar :=
  float (Number.roundTo type (compute value.toFloat))

end Scalar

/-- The bits of an integer of a type as a natural number. -/
def unsignedOf (type : ScalarType) (value : Int) : Int :=
  value % Nat.pow 2 type.bitWidth

/-- The comparison of two integers of a type that a name stands for. -/
def compareInts (predicate : String) (type : ScalarType) (a b : Int) : Except Error Bool :=
  let x := unsignedOf type a
  let y := unsignedOf type b
  match predicate with
  | "eq" => .ok (a = b)
  | "ne" => .ok (a ≠ b)
  | "slt" => .ok (a < b)
  | "sle" => .ok (a ≤ b)
  | "sgt" => .ok (a > b)
  | "sge" => .ok (a ≥ b)
  | "ult" => .ok (x < y)
  | "ule" => .ok (x ≤ y)
  | "ugt" => .ok (x > y)
  | "uge" => .ok (x ≥ y)
  | _ => failing s!"unknown predicate {predicate}"

/-- The comparison of two floating-point numbers that a name stands for. It is false if one of them
is no number. -/
def compareFloats (predicate : String) (a b : Float) : Except Error Bool :=
  if a.isNaN || b.isNaN then .ok false
  else
    match predicate with
    | "oeq" => .ok (a == b)
    | "one" => .ok (a != b)
    | "olt" => .ok (a < b)
    | "ole" => .ok (a ≤ b)
    | "ogt" => .ok (a > b)
    | "oge" => .ok (a ≥ b)
    | _ => failing s!"unknown predicate {predicate}"

/-- The greater of two numbers, and no number if one of them is none. -/
def greater (a b : Float) : Float :=
  if a.isNaN || b.isNaN then 0.0 / 0.0 else Number.maximum a b

/-- The lesser of two numbers, and no number if one of them is none. -/
def lesser (a b : Float) : Float :=
  if a.isNaN || b.isNaN then 0.0 / 0.0 else Number.minimum a b

/-- The logistic function. -/
def logistic (x : Float) : Float :=
  1.0 / (1.0 + (-x).exp)

end TensorIR
