import TensorIR.Text.Split
import TensorIR.Type.Scalar

/-!
# Element types of torch tensors

The ten kinds of element, their storage after lowering, and the promotion of two kinds to the kind
of an elementwise result: booleans give way to integers and integers to floating-point numbers, and
within one of these groups the wider kind wins.

## Main definitions

* `Dtype` — the kinds of element
* `Dtype.promote?`, `Dtype.trueDivide?` — the kind of an elementwise result and of a quotient
* `Dtype.ofCode?` — the kind with a given code
-/

namespace TensorIR

/-- The kind of the elements of a torch tensor. -/
inductive Dtype where
  | bool
  | si8
  | ui8
  | si32
  | si64
  | f16
  | f32
  | f64
  | qint8
  | quint8
  deriving DecidableEq, Repr, Inhabited

namespace Dtype

/-- All kinds of element. -/
def all : List Dtype := [bool, si8, ui8, si32, si64, f16, f32, f64, qint8, quint8]

/-- The written form of a kind. -/
def text : Dtype → String
  | bool => "i1"
  | si8 => "si8"
  | ui8 => "ui8"
  | si32 => "si32"
  | si64 => "si64"
  | f16 => "f16"
  | f32 => "f32"
  | f64 => "f64"
  | qint8 => "!torch.qint8"
  | quint8 => "!torch.quint8"

/-- The name of a kind without the dialect. -/
def shortName : Dtype → String
  | qint8 => "qint8"
  | quint8 => "quint8"
  | dtype => dtype.text

/-- The text without the dialect's name in front, however often it stands there. -/
def withoutDialect : Nat → List Char → List Char
  | 0, name => name
  | fuel + 1, name =>
    match Text.afterPrefix? "!torch.".toList name with
    | some rest => withoutDialect fuel rest
    | none => name

/-- The kind with a given written form. The dialect's name may be left out or repeated. -/
def read (name : List Char) : Except TypeFault Dtype :=
  let short := String.ofList (withoutDialect name.length name)
  match all.find? (·.shortName == short) with
  | some dtype => .ok dtype
  | none => .error (.unknownDtype (String.ofList name))

/-- The elements are floating-point numbers. -/
def isFloat : Dtype → Bool
  | f16 | f32 | f64 => true
  | _ => false

/-- The elements stand for real numbers through a scale and a zero point. -/
def isQuantized : Dtype → Bool
  | qint8 | quint8 => true
  | _ => false

/-- The elements are integers. -/
def isInteger : Dtype → Bool
  | si8 | ui8 | si32 | si64 => true
  | _ => false

/-- The group of a kind in the order of promotion. -/
def category : Dtype → Nat
  | bool => 0
  | si8 | ui8 | si32 | si64 => 1
  | f16 | f32 | f64 => 2
  | qint8 | quint8 => 3

/-- The scalar type that stores the elements. -/
def storage : Dtype → ScalarType
  | bool => .i1
  | si8 | qint8 => .i8
  | ui8 | quint8 => .ui8
  | si32 => .i32
  | si64 => .i64
  | f16 => .f16
  | f32 => .f32
  | f64 => .f64

/-- The number of bits of an element. -/
def width (dtype : Dtype) : Nat := dtype.storage.bitWidth

/-- The kind of an elementwise result. Signed and unsigned bytes need a wider signed kind, and
quantized kinds do not promote. -/
def promote? (a b : Dtype) : Option Dtype :=
  if a.isQuantized || b.isQuantized then none
  else if a = b then some a
  else if a.category ≠ b.category then some (if a.category > b.category then a else b)
  else
    match a, b with
    | si8, ui8 | ui8, si8 => some si32
    | _, _ => some (if a.width ≥ b.width then a else b)

/-- The kind of a quotient, which is always a floating-point kind. -/
def trueDivide? (a b : Dtype) : Option Dtype :=
  (promote? a b).map fun promoted => if promoted.isFloat then promoted else f32

/-- The quantized kind stored as a given one. -/
def quantized? : Dtype → Option Dtype
  | si8 => some qint8
  | ui8 => some quint8
  | _ => none

/-- The integer kind that holds the values of a quantized one. -/
def intRepr? : Dtype → Option Dtype
  | qint8 => some si8
  | quint8 => some ui8
  | _ => none

/-- The number that stands for a kind in operands. -/
def code : Dtype → Int
  | ui8 => 0
  | si8 => 1
  | si32 => 3
  | si64 => 4
  | f16 => 5
  | f32 => 6
  | f64 => 7
  | bool => 11
  | qint8 => 12
  | quint8 => 13

/-- The kind with a given number. -/
def ofCode? (code : Int) : Option Dtype :=
  all.find? (·.code == code)

@[simp]
theorem ofCode?_code (dtype : Dtype) : ofCode? dtype.code = some dtype := by
  cases dtype <;> decide

theorem mem_all (dtype : Dtype) : dtype ∈ all := by
  cases dtype <;> decide

end Dtype

end TensorIR
