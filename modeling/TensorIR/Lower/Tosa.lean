import TensorIR.Lower.Step
import TensorIR.Shape.Tensor

/-!
# Lowering to operations on whole tensors

A tensor becomes a tensor of known shape, and a tensor operation a short sequence of operations on
whole tensors. Scalars are parameters that must be known; one that is used otherwise becomes a
tensor without dimensions.

## Main definitions

* `Tosa.cast`, `Tosa.reshape`, `Tosa.splat` — tensors made to fit together
* `Tosa.tensorOp`, `Tosa.scalarOp` — the lowering of one operation
* `Lowering.toTosa` — the lowering of a program
-/

namespace TensorIR

namespace Tosa

/-- The type of a tensor. -/
def tensorType (value : ValueId) : Build ShapedType :=
  Build.askFor fun program => do
    match ← program.typed value with
    | .shaped type => return type
    | type => failing s!"expected a tensor, but got {type.text}"

/-- The result of an operation on tensors. -/
def tensor (kind : TosaKind) (operands : List ValueId) (shape : List Int) (element : ScalarType)
    (attributes : Attributes := .empty) : Build ValueId :=
  Build.value (.tosa kind) operands (.shaped (.tensor shape element)) attributes

/-- A list of integers as the only attribute. -/
def arrayAttribute (name : String) (values : List Int) : Attributes :=
  Attributes.empty.insert name (.array values)

/-- A tensor with its elements converted. -/
def cast (value : ValueId) (element : ScalarType) : Build ValueId := do
  let type ← tensorType value
  if type.element = element then return value
  tensor .cast [value] type.shape element

/-- A tensor with its elements in another shape. -/
def reshape (value : ValueId) (shape : List Int) : Build ValueId := do
  let type ← tensorType value
  if type.shape = shape then return value
  tensor .reshape [value] shape type.element (arrayAttribute "new_shape" shape)

/-- A tensor with dimensions of size one in front, up to a given number of dimensions. -/
def toRank (value : ValueId) (rank : Nat) : Build ValueId := do
  let shape := (← tensorType value).shape
  if shape.length ≥ rank then return value
  reshape value (List.replicate (rank - shape.length) 1 ++ shape)

/-- A constant tensor of one value, with all sizes one. -/
def splat (value : Float) (rank : Nat) (element : ScalarType) : Build ValueId :=
  tensor .const [] (List.replicate rank 1) element
    (Attributes.empty.insert "value" (.dense (.splat value element.isFloat)))

/-- The result of an operation on two tensors, element by element. -/
def binary (kind : TosaKind) (lhs rhs : ValueId) : Build ValueId := do
  let l ← tensorType lhs
  let r ← tensorType rhs
  let shape ← Build.askFor fun _ => ofShape (Shape.ofBroadcast l.shape r.shape)
  tensor kind [lhs, rhs] shape l.element

/-- The result of a function of each element. -/
def unary (kind : TosaKind) (value : ValueId) : Build ValueId := do
  let type ← tensorType value
  Build.value (.tosa kind) [value] (.shaped type)

/-- The least and the greatest signed 64-bit integer as floating-point numbers. -/
def intBounds : Float × Float :=
  (Float.ofInt Number.minInt64, Float.ofInt Number.maxInt64)

/-- The attributes that state two bounds, both as floating-point numbers and as integers. -/
def clampAttributes (least most : Float) : Attributes :=
  ((((Attributes.empty.insert "min_fp" (.float least)).insert "max_fp" (.float most)).insert
    "min_int" (.int (Number.truncateToInt (Number.maximum least intBounds.1)))).insert
    "max_int" (.int (Number.truncateToInt (Number.minimum most intBounds.2))))

/-- A tensor with its elements kept between two bounds. -/
def clamp (value : ValueId) (least most : Float) : Build ValueId := do
  let type ← tensorType value
  Build.value (.tosa .clamp) [value] (.shaped type) (clampAttributes least most)

/-- A part of a tensor. -/
def slice (value : ValueId) (start size : List Int) : Build ValueId := do
  let element := (← tensorType value).element
  tensor .slice [value] size element ((arrayAttribute "start" start).insert "size" (.array size))

/-- The greatest finite number in single precision. -/
def mostSingle : Float := 340282346638528859811704183484516925440.0

/-- The greatest finite number. -/
def mostFinite : Float := 1.7976931348623157e308

/-- The least and the greatest value that the elements of a tensor can have. -/
def elementRange (element : ScalarType) : Float × Float :=
  match element.intRange? with
  | some (least, most) => (Float.ofInt least, Float.ofInt most)
  | none =>
    if element = .f64 then (-mostFinite, mostFinite) else (-mostSingle, mostSingle)

section Operation

variable (op : OpId)

/-- An operand of the operation that is lowered. -/
def operand (index : Nat) : Build ValueId :=
  Build.askFor fun program => program.operand op index

/-- Fails because the operation has no lowering. -/
def unsupported {α : Type} (message : String) : Build α := do
  throw (← Build.ask fun program => program.unsupported op message)

/-- Fails because operations of this kind have no lowering. -/
def notLegalized {α : Type} : Build α := do
  throw (← Build.ask fun program => program.notLegalized .tosa op)

/-- The shape, the stored type and the kind of element of the result. -/
def resultTensor : Build (List Int × ScalarType × Option Dtype) :=
  Build.askFor fun program => program.resultTensor op

/-- An operand with the elements of the result and at least as many dimensions. -/
def fitted (index : Nat) (shape : List Int) (element : ScalarType) : Build ValueId := do
  let converted ← cast (← operand op index) element
  toRank converted shape.length

/-- The second operand of a sum or difference, times its factor, which must be known. -/
def scaled (value : ValueId) (element : ScalarType) : Build ValueId := do
  let factor ← operand op 2
  match ← Build.ask fun program => program.foldFloat? factor with
  | none => unsupported op "requires a constant alpha"
  | some factor =>
    if factor == 1.0 then return value
    let rank := (← tensorType value).rank
    binary .mul value (← splat factor rank element)

/-- The lowering of an operation on two tensors, element by element. -/
def binaryOp (kind : TosaKind) (isScaled : Bool := false) : Build ValueId := do
  let (shape, element, _) ← resultTensor op
  let lhs ← fitted op 0 shape element
  let rhs ← fitted op 1 shape element
  if isScaled then binary kind lhs (← scaled op rhs element) else binary kind lhs rhs

/-- The lowering of a quotient: a product with the reciprocal. -/
def divOp : Build ValueId := do
  let (shape, element, _) ← resultTensor op
  let lhs ← fitted op 0 shape element
  let rhs ← fitted op 1 shape element
  unless element.isFloat do unsupported op "requires a float result"
  binary .mul lhs (← unary .reciprocal rhs)

/-- A bound of the kept elements, which must be known; the given one if it is absent. -/
def bound (index : Nat) (absent : Float) : Build Float := do
  let value ← operand op index
  if ← Build.ask fun program => program.isNone value then return absent
  match ← Build.ask fun program => program.foldFloat? value with
  | some bound => return bound
  | none => unsupported op "requires constant bounds"

/-- The lowering of keeping elements between two bounds. -/
def clampOp : Build ValueId := do
  let (shape, element, _) ← resultTensor op
  let x ← fitted op 0 shape element
  let (lowest, highest) := elementRange element
  let least ← bound op 1 lowest
  let most ← bound op 2 highest
  clamp x least most

/-- The lowering of a function of each element. -/
def unaryOp (kind : TorchKind) : Build ValueId := do
  let (shape, element, _) ← resultTensor op
  let x ← fitted op 0 shape element
  match kind with
  | .relu => clamp x 0.0 (elementRange element).2
  | .neg => unary .negate x
  | .abs => unary .abs x
  | .exp => unary .exp x
  | .tanh => unary .tanh x
  | .sigmoid => unary .sigmoid x
  | _ => notLegalized op

/-- The lowering of a matrix product: a batch of one. -/
def mmOp : Build ValueId := do
  let (shape, element, _) ← resultTensor op
  let lhs ← cast (← operand op 0) element
  let rhs ← cast (← operand op 1) element
  let l := (← tensorType lhs).shape
  let r := (← tensorType rhs).shape
  -- The product is defined for batches only.
  let lhsBatch ← reshape lhs (1 :: l.take 2)
  let rhsBatch ← reshape rhs (1 :: r.take 2)
  let product ← tensor .matmul [lhsBatch, rhsBatch] (1 :: shape.take 2) element
  reshape product shape

/-- A tensor reduced along dimensions, one after the other. -/
def reduced (element : ScalarType) (x : ValueId) : List Nat → Build ValueId
  | [] => return x
  | dim :: dims => do
    let current := (← tensorType x).shape
    let shape ← Build.askFor fun _ => ofShape (Shape.ofReduce current dim)
    let sum ← tensor .reduceSum [x] shape element (Attributes.empty.insert "axis" (.int dim))
    reduced element sum dims

/-- The lowering of a sum. -/
def sumOp : Build ValueId := do
  let (shape, element, _) ← resultTensor op
  let x ← cast (← operand op 0) element
  let rank := (← tensorType x).rank
  match ← Build.askFor fun program => program.reducedDims op rank with
  | none => unsupported op "requires constant dimensions"
  | some dims =>
    let sum ← reduced element x dims
    reshape sum shape

/-- The lowering of a transposition. -/
def transposeOp : Build ValueId := do
  let (shape, element, _) ← resultTensor op
  let x ← cast (← operand op 0) element
  let rank := (← tensorType x).rank
  match ← Build.askFor fun program => program.transposedDims op rank with
  | none => unsupported op "requires constant dimensions"
  | some (a, b) =>
    -- An order that changes nothing needs no operation.
    if a = b then return x
    let order := Program.exchanged a b ((List.range rank).map Int.ofNat)
    tensor .transpose [x] shape element (arrayAttribute "perms" order)

/-- A tensor with zeros behind its elements along one dimension. -/
def padBehind (x : ValueId) (dim : Nat) (missing : Int) (sizes : List Int) (element : ScalarType) :
    Build ValueId :=
  if missing > 0 then
    let padding := (List.replicate (2 * sizes.length) (0 : Int)).set (2 * dim + 1) missing
    tensor .pad [x] sizes element ((arrayAttribute "padding" padding).insert "pad_const" (.float 0.0))
  else pure x

/-- The lowering of a slice. One with gaps takes the part that it covers, pads it to full steps,
splits the dimension into steps and takes the first element of each. -/
def sliceOp : Build ValueId := do
  let (shape, element, _) ← resultTensor op
  let x ← cast (← operand op 0) element
  let input := (← tensorType x).shape
  match ← Build.askFor fun program => program.sliceParams op input with
  | none => unsupported op "requires constant slice bounds"
  | some (dim, start, length, step) =>
    let starts := (List.replicate input.length (0 : Int)).set dim start
    if step = 1 ∨ length = 0 then slice x starts shape
    else
      -- The last step may reach behind the end of the dimension.
      let covered := min (length * step) (input.getD dim 0 - start)
      let part ← slice x starts (input.set dim covered)
      let sizes := input.set dim (length * step)
      let full ← padBehind part dim (length * step - covered) sizes element
      -- Each row of the split dimension is one step, and its first element is kept.
      let split := input.take dim ++ [length, step] ++ input.drop (dim + 1)
      let steps ← reshape full split
      let first ← slice steps (List.replicate split.length 0) (split.set (dim + 1) 1)
      reshape first shape

/-- The lowering of a broadcast to given sizes. -/
def broadcastOp : Build ValueId := do
  let (shape, element, _) ← resultTensor op
  let x ← fitted op 0 shape element
  let input := (← tensorType x).shape
  let multiples := (input.zip shape).map fun (size, wanted) => if size = 1 then wanted else 1
  if multiples.all (· = 1) then return x
  tensor .tile [x] shape element (arrayAttribute "multiples" multiples)

/-- The lowering of a view. -/
def viewOp : Build ValueId := do
  let (shape, _, _) ← resultTensor op
  reshape (← operand op 0) shape

/-- The lowering of quantizing: the elements are multiplied by the reciprocal of the scale, shifted
by the zero point and kept within the stored integers; the conversion rounds them. -/
def quantizeOp : Build (ValueId × QuantParams) := do
  let (_, element, dtype) ← resultTensor op
  let params ← Build.askFor fun program => program.quantParams op dtype
  let x ← operand op 0
  let type ← tensorType x
  let inverse ← splat (1.0 / params.scale) type.rank type.element
  let product ← binary .mul x inverse
  let zeroPoint ← splat (Float.ofInt params.zeroPoint) type.rank type.element
  let shifted ← binary .add product zeroPoint
  let (least, most) := params.range
  let kept ← clamp shifted (Float.ofInt least) (Float.ofInt most)
  return (← cast kept element, params)

/-- The lowering of turning stored integers into the numbers that they stand for. -/
def dequantizeOp (table : QuantTable) : Build ValueId := do
  let (_, element, _) ← resultTensor op
  let stored ← operand op 0
  match table.get? stored with
  | none => unsupported op "unknown quantization parameters"
  | some params =>
    let x ← cast stored element
    let rank := (← tensorType x).rank
    let zeroPoint ← splat (Float.ofInt params.zeroPoint) rank element
    let shifted ← binary .sub x zeroPoint
    let scale ← splat params.scale rank element
    binary .mul shifted scale

/-- The lowering of an operation that gives its operand another type: the operand itself. -/
def sameOp : Build ValueId := do
  let _ ← resultTensor op
  operand op 0

/-- The lowering of taking integers for those of a quantized tensor: the operand itself, with
parameters. -/
def affineOp : Build (ValueId × QuantParams) := do
  let (_, _, dtype) ← resultTensor op
  let params ← Build.askFor fun program => program.quantParams op dtype
  return (← operand op 0, params)

/-- The lowering of a tensor operation, and the parameters of its result if it quantizes. -/
def tensorOp (table : QuantTable) (kind : TorchKind) : Build (ValueId × Option QuantParams) :=
  let plain (step : Build ValueId) : Build (ValueId × Option QuantParams) :=
    return (← step, none)
  let quantizing (step : Build (ValueId × QuantParams)) : Build (ValueId × Option QuantParams) := do
    let (value, params) ← step
    return (value, some params)
  match kind with
  | .addTensor => plain (binaryOp op .add true)
  | .subTensor => plain (binaryOp op .sub true)
  | .mulTensor => plain (binaryOp op .mul)
  | .maximum => plain (binaryOp op .maximum)
  | .minimum => plain (binaryOp op .minimum)
  | .divTensor => plain (divOp op)
  | .clamp => plain (clampOp op)
  | .mm => plain (mmOp op)
  | .sumDimIntList => plain (sumOp op)
  | .transposeInt => plain (transposeOp op)
  | .view | .reshape => plain (viewOp op)
  | .sliceTensor => plain (sliceOp op)
  | .broadcastTo => plain (broadcastOp op)
  | .quantizePerTensor => quantizing (quantizeOp op)
  | .dequantizeSelf => plain (dequantizeOp op table)
  | .perTensorAffineCreate => quantizing (affineOp op)
  | .intRepr | .tensorStaticInfoCast => plain (sameOp op)
  | _ => plain (unaryOp op kind)

/-- The number that a literal stands for as the element of a tensor. -/
def elementValue? : Literal → Option Float
  | .int value => some (Float.ofInt value)
  | .float value => some value
  | .bool value => some (if value then 1.0 else 0.0)
  | _ => none

/-- The lowering of an operation on scalars whose result is used otherwise than as a parameter: a
tensor without dimensions. -/
def scalarOp : Build ValueId := do
  let result ← Build.askFor fun program => program.result op 0
  let type ← Build.askFor fun program => program.typed result
  match ← Build.askFor fun _ => Target.tosa.lowered? type with
  | none => notLegalized op
  | some lowered =>
    match (← Build.ask fun program => program.fold? op).bind elementValue? with
    | none => notLegalized op
    | some value =>
      let isFloat := (lowered.shaped?.map fun type => type.element.isFloat).getD false
      Build.value (.tosa .const) [] lowered
        (Attributes.empty.insert "value" (.dense (.splat value isFloat)))

end Operation

end Tosa

namespace Lowering

/-- Lowers one torch operation to operations on whole tensors. Parameters are taken away, and so are
scalars that are not used. -/
def opToTosa (op : OpId) (kind : TorchKind) : Lowering Unit := do
  if kind.isParameter then Change.erase op
  else if kind.isScalar then
    if (← Change.ask fun program => program.userCount op) = 0 then Change.erase op
    else supersede op (return (← Tosa.scalarOp op, none))
  else if kind.isLowerableTensor then supersede op (Tosa.tensorOp op (← get) kind)
  else throw (← Change.ask fun program => program.notLegalized .tosa op)

/-- The torch operation can be lowered now. Parameters and scalars wait until no torch operation
reads them. -/
def isDueForTosa (program : Program) (op : OpId) (kind : TorchKind) : Bool :=
  !(kind.isParameter || kind.isScalar) ||
    !(((program.usersOf? op).getD []).any fun use => (program.kind use.op).isTorch)

/-- Lowers all torch operations to operations on whole tensors. -/
def toTosa : Lowering Bool :=
  exhaust isDueForTosa opToTosa

end Lowering

end TensorIR
