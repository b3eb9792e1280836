import TensorIR.Program.Infer
import TensorIR.Shape.Tensor

/-!
# Rules for operations on tensors

A lowered tensor operation has fully known shapes, and the type of its result is determined. Before
lowering, the declared type of a result must not contradict the one that follows from the operands.

## Main definitions

* `Program.verifyTosa` — the rule for lowered tensor operations
* `Program.verifyInferred` — the rule for tensor operations before lowering
-/

namespace TensorIR

/-- The tensor type of known shape that a type is. -/
def expectTensor (type : Ty) : Except Error ShapedType :=
  match type with
  | .shaped shaped =>
    if shaped.kind = .tensor ∧ shaped.isStatic then .ok shaped
    else failing s!"expected a statically shaped tensor, but got {type.text}"
  | _ => failing s!"expected a statically shaped tensor, but got {type.text}"

/-- Fails unless a result has a given shape and element type. -/
def expectResult (result : ShapedType) (shape : List Int) (element : ScalarType) :
    Except Error Unit :=
  if result.shape = shape ∧ result.element = element then .ok ()
  else
    failing <|
      s!"expected result type {(ShapedType.tensor shape element).text}, but got {result.text}"

namespace Program

variable (program : Program)

/-- The tensor types of the operands, of which there are a given number, and of the one result. -/
def tensorTypes (op : OpId) (arity : Nat) : Except Error (List ShapedType × ShapedType) := do
  let operandTypes ← program.typedOperands op
  let resultTypes ← program.typedResults op
  match resultTypes with
  | [result] =>
    if operandTypes.length ≠ arity then
      failing s!"expected {arity} operands and 1 result, but got {operandTypes.length} and 1"
    let operands ← operandTypes.mapM expectTensor
    return (operands, ← expectTensor result)
  | _ =>
    failing <|
      s!"expected {arity} operands and 1 result, but got {operandTypes.length} and " ++
        toString resultTypes.length

/-- The tensor types of the one operand and of the one result. -/
def unaryTypes (op : OpId) : Except Error (ShapedType × ShapedType) := do
  let (operands, result) ← program.tensorTypes op 1
  return (operands.head?.getD result, result)

/-- The tensor types of two operands of one element type and of the one result. -/
def binaryTypes (op : OpId) : Except Error (ShapedType × ShapedType × ShapedType) := do
  match ← program.tensorTypes op 2 with
  | ([a, b], result) =>
    if a.element ≠ b.element then failing "operands must have the same element type"
    return (a, b, result)
  | (_, result) => return (result, result, result)

/-- A list of integers that an operation must carry. -/
def expectArray (op : OpId) (name : String) : Except Error (List Int) :=
  match (program.attributes op).array? name with
  | some values => .ok values
  | none => failing s!"missing attribute '{name}'"

/-- The rule for operations on each element. -/
def verifyElementwise (op : OpId) : Except Error Unit := do
  let (operand, result) ← program.unaryTypes op
  expectResult result operand.shape operand.element

/-- The rule for functions on each element of a floating-point tensor. -/
def verifyFloatElementwise (op : OpId) : Except Error Unit := do
  let (operand, _) ← program.unaryTypes op
  if !operand.element.isFloat then failing "expected a float tensor"
  program.verifyElementwise op

/-- An error that says that an attribute is out of its range. -/
def outOfRange (op : OpId) (message : String) : Error :=
  .attributeRange (program.report op message)

/-- The rule for keeping elements between two bounds, given both for floating-point numbers and for
integers. -/
def verifyTensorClamp (op : OpId) : Except Error Unit := do
  program.verifyElementwise op
  let attributes := program.attributes op
  match attributes.float? "min_fp", attributes.float? "max_fp" with
  | some low, some high =>
    if low.isNaN || high.isNaN || low > high then
      throw <| program.outOfRange op <|
        s!"min_fp {Number.plainText low} is larger than max_fp {Number.plainText high}"
  | _, _ => failing "missing attribute 'min_fp' or 'max_fp'"
  match attributes.int? "min_int", attributes.int? "max_int" with
  | some low, some high =>
    if low > high then
      throw (program.outOfRange op s!"min_int {low} is larger than max_int {high}")
  | _, _ => failing "missing attribute 'min_int' or 'max_int'"

/-- The rule for constant tensors. -/
def verifyTensorConstant (op : OpId) : Except Error Unit := do
  let (_, result) ← program.tensorTypes op 0
  match (program.attributes op).dense? "value" with
  | none => failing "missing dense value"
  | some data =>
    if !data.isSplat ∧ (data.values.length : Int) ≠ result.elementCount then
      failing <|
        s!"expected {result.elementCount} elements for {result.text}, but got " ++
          toString data.values.length

/-- The rule for giving the elements of a tensor another shape. -/
def verifyTensorReshape (op : OpId) : Except Error Unit := do
  let (operand, result) ← program.unaryTypes op
  let shape ← program.expectArray op "new_shape"
  if shape.any (· < 0) ∨ Shape.product shape ≠ operand.elementCount then
    failing s!"cannot reshape {operand.text} into {integersText shape}"
  expectResult result shape operand.element

/-- The rule for lowered tensor operations. -/
def verifyTosa (op : OpId) : TosaKind → Except Error Unit
  | .add | .sub | .mul | .maximum | .minimum => do
    let (a, b, result) ← program.binaryTypes op
    expectResult result (← ofShape (Shape.ofBroadcast a.shape b.shape)) a.element
  | .reciprocal | .exp | .tanh | .sigmoid => program.verifyFloatElementwise op
  | .negate | .abs => program.verifyElementwise op
  | .clamp => program.verifyTensorClamp op
  | .cast => do
    let (operand, result) ← program.unaryTypes op
    expectResult result operand.shape result.element
  | .reshape => program.verifyTensorReshape op
  | .transpose => do
    let (operand, result) ← program.unaryTypes op
    let order ← program.expectArray op "perms"
    expectResult result (← ofShape (Shape.ofTranspose operand.shape order)) operand.element
  | .slice => do
    let (operand, result) ← program.unaryTypes op
    let start ← program.expectArray op "start"
    let size ← program.expectArray op "size"
    expectResult result (← ofShape (Shape.ofSlice operand.shape start size)) operand.element
  | .pad => do
    let (operand, result) ← program.unaryTypes op
    if ((program.attributes op).float? "pad_const").isNone then
      failing "missing attribute 'pad_const'"
    let padding ← program.expectArray op "padding"
    expectResult result (← ofShape (Shape.ofPad operand.shape padding)) operand.element
  | .tile => do
    let (operand, result) ← program.unaryTypes op
    let multiples ← program.expectArray op "multiples"
    expectResult result (← ofShape (Shape.ofTile operand.shape multiples)) operand.element
  | .matmul => do
    let (a, b, result) ← program.binaryTypes op
    expectResult result (← ofShape (Shape.ofMatmul a.shape b.shape)) a.element
  | .reduceSum => do
    let (operand, result) ← program.unaryTypes op
    let some axis := (program.attributes op).int? "axis" | failing "missing attribute 'axis'"
    expectResult result (← ofShape (Shape.ofReduce operand.shape axis)) operand.element
  | .const => program.verifyTensorConstant op

/-- The rule for tensor operations before lowering: the declared type of the result and the one that
follows from the operands have a common subtype. -/
def verifyInferred (op : OpId) (inferred : TensorInfo) : Except Error Unit := do
  let count := (program.results op).length
  if count ≠ 1 then failing s!"expected 1 result, but got {count}"
  let declared := (program.torchTypeOf? (← program.result op 0)).getD .any
  match declared with
  | .vtensor info =>
    if (info.meet? inferred).isNone then
      failing <|
        s!"result type {declared.text} is incompatible with the inferred type " ++
          (TorchType.vtensor inferred).text
  | other => failing s!"result must be a value tensor, but got {other.text}"

end Program

end TensorIR
