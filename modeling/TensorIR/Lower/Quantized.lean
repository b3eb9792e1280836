import TensorIR.Program.Infer

/-!
# Quantization parameters

A quantized tensor stores integers `q` that stand for the real numbers `(q - zero point) · scale`.
After lowering only the integers are left, so the parameters are kept in a table beside the program.

## Main definitions

* `QuantParams` — a scale, a zero point and a quantized kind of element
* `QuantTable` — the parameters of lowered values
-/

namespace TensorIR

/-- The meaning of stored integers: `(q - zeroPoint) * scale`. -/
structure QuantParams where
  scale : Float
  zeroPoint : Int
  dtype : Dtype

/-- The parameters of lowered values. -/
structure QuantTable where
  entries : List (ValueId × QuantParams) := []

namespace QuantTable

/-- The parameters of a value. -/
def get? (table : QuantTable) (value : ValueId) : Option QuantParams :=
  table.entries.lookup value

/-- The table with the parameters of a value set. -/
def insert (table : QuantTable) (value : ValueId) (params : QuantParams) : QuantTable :=
  ⟨(value, params) :: table.entries.filter (·.1 ≠ value)⟩

/-- The number of values with parameters. -/
def size (table : QuantTable) : Nat := table.entries.length

@[simp]
theorem get?_insert_self (table : QuantTable) (value : ValueId) (params : QuantParams) :
    (table.insert value params).get? value = some params := by
  simp [insert, get?]

end QuantTable

namespace QuantParams

/-- The least and the greatest stored integer. -/
def range (params : QuantParams) : Int × Int :=
  params.dtype.storage.intRange?.getD (0, 0)

end QuantParams

namespace Program

variable (program : Program)

/-- The parameters with which an operation quantizes. The scale must be positive and the zero point
one of the stored integers. -/
def checkedParams (op : OpId) (scale : Float) (zeroPoint : Int) (dtype : Dtype) :
    Except Error QuantParams := do
  unless scale.isFinite && scale > 0.0 do
    throw (.attributeRange (program.report op
      s!"scale must be positive and finite, but got {Number.plainText scale}"))
  match dtype.storage.intRange? with
  | some (least, most) =>
    if zeroPoint < least ∨ most < zeroPoint then
      throw (.attributeRange (program.report op
        s!"zero point {zeroPoint} does not fit into {dtype.storage.text}"))
  | none => pure ()
  return ⟨scale, zeroPoint, dtype⟩

/-- The parameters that the operands of a quantizing operation tell, where `dtype` is the kind of
element of its result. -/
def quantParams (op : OpId) (dtype : Option Dtype) : Except Error QuantParams := do
  let scale := program.foldFloat? (← program.operand op 1)
  let zeroPoint := program.foldInt? (← program.operand op 2)
  match scale, zeroPoint, dtype.filter Dtype.isQuantized with
  | some scale, some zeroPoint, some dtype => program.checkedParams op scale zeroPoint dtype
  | _, _, _ =>
    throw (program.unsupported op "requires a constant scale, zero point and quantized dtype")

end Program

end TensorIR
