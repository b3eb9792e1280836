import TensorIR.Type.Fault

/-!
# Scalar types

The types of single numbers after lowering: signless integers of four widths, unsigned bytes, three
floating-point formats, and the type of positions in a buffer.

## Main definitions

* `ScalarType` — the nine scalar types
* `ScalarType.intRange?` — the values of an integer type
* `ScalarType.read` — the type with a given name
-/

namespace TensorIR

/-- The type of a single number. -/
inductive ScalarType where
  | i1
  | i8
  | i32
  | i64
  | ui8
  | f16
  | f32
  | f64
  | index
  deriving DecidableEq, Repr, Inhabited

namespace ScalarType

/-- All scalar types. -/
def all : List ScalarType := [i1, i8, i32, i64, ui8, f16, f32, f64, index]

/-- The name of a scalar type. -/
def text : ScalarType → String
  | i1 => "i1"
  | i8 => "i8"
  | i32 => "i32"
  | i64 => "i64"
  | ui8 => "ui8"
  | f16 => "f16"
  | f32 => "f32"
  | f64 => "f64"
  | index => "index"

/-- The scalar type with a given name. -/
def read (name : String) : Except TypeFault ScalarType :=
  match all.find? (·.text == name) with
  | some type => .ok type
  | none => .error (.unknownScalar name)

/-- The type holds floating-point numbers. -/
def isFloat : ScalarType → Bool
  | f16 | f32 | f64 => true
  | _ => false

/-- The type holds integers that are not positions. -/
def isInteger (type : ScalarType) : Bool :=
  !type.isFloat && type != index

/-- The type holds non-negative integers only. -/
def isUnsigned (type : ScalarType) : Bool :=
  type == ui8

/-- The number of bits of a value. -/
def bitWidth : ScalarType → Nat
  | i1 => 1
  | i8 | ui8 => 8
  | f16 => 16
  | i32 | f32 => 32
  | i64 | f64 | index => 64

/-- The least and the greatest value of a type that holds integers or positions. -/
def intRange? : ScalarType → Option (Int × Int)
  | i1 => some (0, 1)
  | i8 => some (-128, 127)
  | ui8 => some (0, 255)
  | i32 => some (-2147483648, 2147483647)
  | i64 | index => some (Number.minInt64, Number.maxInt64)
  | _ => none

@[simp]
theorem read_text (type : ScalarType) : read type.text = .ok type := by
  cases type <;> rfl

end ScalarType

end TensorIR
