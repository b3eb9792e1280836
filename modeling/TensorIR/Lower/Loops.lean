import TensorIR.Lower.Step

/-!
# Lowering to loops over buffers

A tensor becomes a buffer, and a tensor operation a new buffer that loops over all positions fill:
they load elements of the operands, compute one element of the result and store it. Integers,
floating-point numbers and truth values become scalars, and control flow becomes loops and branches
over scalars.

## Main definitions

* `Loops.cast`, `Loops.binary` — conversion and arithmetic of scalars
* `Loops.elementwise`, `Loops.gather` — buffers that are filled position by position
* `Loops.tensorOp`, `Loops.scalarOp` — the lowering of one operation
* `Change.toLoops` — the lowering of a program
-/

namespace TensorIR

namespace Loops

/-- The type of a buffer. -/
def bufferType (value : ValueId) : Build ShapedType :=
  Build.askFor fun program => do
    match ← program.typed value with
    | .shaped type => return type
    | type => failing s!"expected a memref, but got {type.text}"

/-- The type of a scalar. -/
def scalarType (value : ValueId) : Build ScalarType :=
  Build.askFor fun program => do
    match ← program.typed value with
    | .scalar type => return type
    | type => failing s!"expected a scalar, but got {type.text}"

/-- The result of an operation on scalars. -/
def arith (kind : ArithKind) (operands : List ValueId) (type : ScalarType) : Build ValueId :=
  Build.value (.arith kind) operands (.scalar type)

/-- The result of a function on scalars. -/
def math (kind : MathKind) (operand : ValueId) (type : ScalarType) : Build ValueId :=
  Build.value (.math kind) [operand] (.scalar type)

/-- A comparison of two scalars. -/
def compare (predicate : String) (lhs rhs : ValueId) : Build ValueId := do
  let kind : ArithKind := if (← scalarType lhs).isFloat then .cmpf else .cmpi
  Build.value (.arith kind) [lhs, rhs] (.scalar .i1)
    (Attributes.empty.insert "predicate" (.str predicate))

/-- The conversion between floating-point types. -/
def resize (source type : ScalarType) : ArithKind :=
  if type.bitWidth > source.bitWidth then .extf else .truncf

/-- A scalar converted to another type. Truth values are zero and one, a number is true unless it is
zero, and unsigned numbers widen without a sign. -/
def cast (value : ValueId) (type : ScalarType) : Build ValueId := do
  let source ← scalarType value
  if source = type then return value
  if type = .i1 then
    let zero ← Build.scalar 0.0 source
    compare (if source.isFloat then "one" else "ne") value zero
  else if source = .i1 then
    let one ← Build.scalar 1.0 type
    let zero ← Build.scalar 0.0 type
    arith .select [value, one, zero] type
  else
    match source.isFloat, type.isFloat with
    | true, true => arith (resize source type) [value] type
    | false, true => arith (if source.isUnsigned then .uitofp else .sitofp) [value] type
    | true, false => arith (if type.isUnsigned then .fptoui else .fptosi) [value] type
    | false, false =>
      if type.bitWidth ≤ source.bitWidth then arith .trunci [value] type
      else if source.isUnsigned then do
        -- Integers only widen with a sign; a double holds every unsigned byte.
        let wide ← arith .uitofp [value] .f64
        arith .fptosi [wide] type
      else arith .extsi [value] type

/-- An operation on two scalars of one type. -/
inductive Binary where
  | add
  | sub
  | mul
  | div
  | max
  | min
  deriving DecidableEq, Repr

/-- The operation on scalars of a type. -/
def Binary.kind (isFloat : Bool) : Binary → ArithKind
  | add => if isFloat then .addf else .addi
  | sub => if isFloat then .subf else .subi
  | mul => if isFloat then .mulf else .muli
  | div => if isFloat then .divf else .divsi
  | max => if isFloat then .maximumf else .maxsi
  | min => if isFloat then .minimumf else .minsi

/-- The result of an operation on two scalars of one type. -/
def binary (operation : Binary) (lhs rhs : ValueId) : Build ValueId := do
  let type ← scalarType lhs
  arith (operation.kind type.isFloat) [lhs, rhs] type

/-- A scalar with the opposite sign. -/
def negate (value : ValueId) : Build ValueId := do
  let type ← scalarType value
  if type.isFloat then arith .negf [value] type
  else
    let zero ← Build.scalar 0.0 type
    binary .sub zero value

/-- A new buffer. -/
def alloc (shape : List Int) (element : ScalarType) : Build ValueId :=
  Build.value (.memref .alloc) [] (.shaped (.memref shape element))

/-- The element of a buffer at a position. -/
def load (buffer : ValueId) (position : List ValueId) : Build ValueId := do
  let type ← bufferType buffer
  Build.value (.memref .load) (buffer :: position) (.scalar type.element)

/-- Sets the element of a buffer at a position. -/
def store (value buffer : ValueId) (position : List ValueId) : Build Unit :=
  Build.emit (.memref .store) (value :: buffer :: position)

/-- The position in an operand of a given shape that belongs to a position of the result.
Dimensions are aligned at the last one, and a dimension of size one stays at zero. -/
def broadcastPosition : List Int → List ValueId → Build (List ValueId)
  | size :: shape, place :: position => do
    let first ← if size = 1 then Build.index 0 else pure place
    return first :: (← broadcastPosition shape position)
  | _, _ => return []

/-- The position in an operand of lower rank that belongs to a position of the result. -/
def alignedPosition (shape : List Int) (position : List ValueId) : Build (List ValueId) :=
  broadcastPosition shape (position.drop (position.length - shape.length))

/-- A buffer of which every element is computed from the elements of the inputs at its position. -/
def elementwise (inputs : List ValueId) (shape : List Int) (element : ScalarType)
    (compute : List ValueId → Build ValueId) : Build ValueId := do
  let shapes ← inputs.mapM fun input => return (← bufferType input).shape
  if shapes.any (·.length > shape.length) then
    throw (.failure "operand rank exceeds the result rank")
  let output ← alloc shape element
  Build.loopNest shape fun position => do
    let loaded ← (inputs.zip shapes).mapM fun (input, inputShape) => do
      load input (← alignedPosition inputShape position)
    let value ← cast (← compute loaded) element
    store value output position
  return output

/-- The inputs of an elementwise computation, as far as there are any. -/
def withOne (compute : ValueId → Build ValueId) : List ValueId → Build ValueId
  | value :: _ => compute value
  | [] => throw (.failure "expected an operand")

/-- The same for a computation on two elements. -/
def withTwo (compute : ValueId → ValueId → Build ValueId) : List ValueId → Build ValueId
  | first :: second :: _ => compute first second
  | _ => throw (.failure "expected two operands")

section Operation

variable (op : OpId)

/-- An operand of the operation that is lowered. -/
def operand (index : Nat) : Build ValueId :=
  Build.askFor fun program => program.operand op index

/-- Fails because the operation has no lowering. -/
def unsupported {α : Type} (message : String) : Build α := do
  throw (← Build.ask fun program => program.unsupported op message)

/-- The factor of the second operand of a sum or difference, unless it is known to be one. -/
def scaling (element : ScalarType) : Build (Option ValueId) := do
  let value ← operand op 2
  if (← Build.ask fun program => program.foldFloat? value) == some 1.0 then return none
  some <$> cast value element

/-- The operation is a sum or a difference, whose second operand is scaled. -/
def isScaled (kind : TorchKind) : Bool :=
  kind == .addTensor || kind == .subTensor

/-- The lowering of an operation on two tensors, element by element. -/
def binaryOp (kind : TorchKind) (operation : Binary) : Build ValueId := do
  let (shape, element, _) ← Build.askFor fun program => program.resultTensor op
  let first ← operand op 0
  let second ← operand op 1
  let factor ← if isScaled kind then scaling op element else pure none
  elementwise [first, second] shape element <| withTwo fun a b => do
    let lhs ← cast a element
    let rhs ← cast b element
    let scaled ←
      match factor with
      | some factor => binary .mul rhs factor
      | none => pure rhs
    binary operation lhs scaled

/-- The absolute value of a scalar. -/
def absolute (element : ScalarType) (zero x : ValueId) : Build ValueId := do
  if element.isFloat then math .absf x element
  else
    let negative ← compare "slt" x zero
    let negated ← negate x
    arith .select [negative, negated, x] element

/-- The logistic function of a scalar. -/
def logistic (element : ScalarType) (one x : ValueId) : Build ValueId := do
  let negated ← negate x
  let power ← math .exp negated element
  let denominator ← binary .add one power
  binary .div one denominator

/-- The function of one element that an operation computes. -/
def unaryFunction (kind : TorchKind) (element : ScalarType) (zero one x : ValueId) :
    Build ValueId :=
  match kind with
  | .relu => binary .max x zero
  | .neg => negate x
  | .abs => absolute element zero x
  | .exp => math .exp x element
  | .tanh => math .tanh x element
  | _ => logistic element one x

/-- The lowering of a function of each element. -/
def unaryOp (kind : TorchKind) : Build ValueId := do
  let (shape, element, _) ← Build.askFor fun program => program.resultTensor op
  let input ← operand op 0
  let zero ← Build.scalar 0.0 element
  let one ← Build.scalar 1.0 element
  elementwise [input] shape element <| withOne fun a => do
    unaryFunction kind element zero one (← cast a element)

/-- A bound of the kept elements, unless it is absent. -/
def bound (element : ScalarType) (index : Nat) : Build (Option ValueId) := do
  let value ← operand op index
  if ← Build.ask fun program => program.isNone value then return none
  some <$> cast value element

/-- The greater or lesser of a scalar and a bound, if there is one. -/
def bounded (operation : Binary) (x : ValueId) : Option ValueId → Build ValueId
  | some limit => binary operation x limit
  | none => return x

/-- The lowering of keeping elements between two bounds. -/
def clampOp : Build ValueId := do
  let (shape, element, _) ← Build.askFor fun program => program.resultTensor op
  let least ← bound op element 1
  let most ← bound op element 2
  let input ← operand op 0
  elementwise [input] shape element <| withOne fun a => do
    let x ← cast a element
    let raised ← bounded .max x least
    bounded .min raised most

/-- One term of a matrix product, added to the terms before it. -/
def mmTerm (element : ScalarType) (lhs rhs row column k sum : ValueId) : Build ValueId := do
  let a ← cast (← load lhs [row, k]) element
  let b ← cast (← load rhs [k, column]) element
  let product ← binary .mul a b
  binary .add sum product

/-- The lowering of a matrix product. -/
def mmOp : Build ValueId := do
  let (shape, element, _) ← Build.askFor fun program => program.resultTensor op
  let lhs ← operand op 0
  let rhs ← operand op 1
  let contracted := (← bufferType lhs).shape.getD 1 0
  let output ← alloc shape element
  Build.loopNest shape fun position => do
    let zero ← Build.scalar 0.0 element
    let lower ← Build.index 0
    let upper ← Build.index contracted
    let step ← Build.index 1
    match position with
    | row :: column :: _ =>
      let sums ← Build.forLoop lower upper step [zero] fun k sums =>
        sums.mapM (mmTerm element lhs rhs row column k)
      for sum in sums do
        store sum output position
    | _ => unsupported op "expected a tensor result"
  return output

/-- The position of a sum that an element at a position is added to. A dimension that the sum runs
over is left out, or stays at zero if it is kept. -/
def reducedPosition (dims : List Nat) (keep : Bool) (index : Nat) :
    List ValueId → Build (List ValueId)
  | [] => return []
  | place :: position => do
    let first ←
      if !dims.contains index then pure [place]
      else if keep then List.singleton <$> Build.index 0
      else pure []
    return first ++ (← reducedPosition dims keep (index + 1) position)

/-- The lowering of a sum: all elements of the result are set to zero, and each element of the
input is added to its sum. -/
def sumOp : Build ValueId := do
  let (shape, element, _) ← Build.askFor fun program => program.resultTensor op
  let input ← operand op 0
  let inputShape := (← bufferType input).shape
  match ← Build.askFor fun program => program.reducedDims op inputShape.length with
  | none => unsupported op "requires constant dimensions"
  | some dims =>
    let output ← alloc shape element
    Build.loopNest shape fun position => do
      store (← Build.scalar 0.0 element) output position
    Build.loopNest inputShape fun position => do
      -- A dimension that is kept shows in the rank of the result.
      let place ← reducedPosition dims (shape.length == inputShape.length) 0 position
      let x ← cast (← load input position) element
      let sum ← binary .add (← load output place) x
      store sum output place
    return output

/-- A buffer of which every element is the element of the operand at another position. -/
def gather (source : List ValueId → Build (List ValueId)) : Build ValueId := do
  let (shape, element, _) ← Build.askFor fun program => program.resultTensor op
  let input ← operand op 0
  let output ← alloc shape element
  Build.loopNest shape fun position => do
    let x ← load input (← source position)
    store (← cast x element) output position
  return output

/-- The lowering of a transposition. -/
def transposeOp : Build ValueId := do
  let rank := (← bufferType (← operand op 0)).rank
  match ← Build.askFor fun program => program.transposedDims op rank with
  | none => unsupported op "requires constant dimensions"
  | some (a, b) => gather op fun position => return Program.exchanged a b position

/-- The result of an operation on positions. -/
def onIndices (kind : ArithKind) (lhs rhs : ValueId) : Build ValueId :=
  arith kind [lhs, rhs] .index

/-- The number of a position in row-major order, added to a number. -/
def linearFrom (linear : ValueId) : List (ValueId × Int) → Build ValueId
  | [] => return linear
  | (place, stride) :: rest => do
    let term ← onIndices .muli place (← Build.index stride)
    linearFrom (← onIndices .addi linear term) rest

/-- The position that has a given number in row-major order. -/
def positionOf (linear : ValueId) : List (Int × Int) → Build (List ValueId)
  | [] => return []
  | (size, stride) :: rest => do
    let strideIndex ← Build.index stride
    let sizeIndex ← Build.index size
    let quotient ← onIndices .divsi linear strideIndex
    let place ← onIndices .remsi quotient sizeIndex
    return place :: (← positionOf linear rest)

/-- The lowering of a view: elements keep their number in row-major order. -/
def viewOp : Build ValueId := do
  let (shape, _, _) ← Build.askFor fun program => program.resultTensor op
  let inputShape := (← bufferType (← operand op 0)).shape
  gather op fun position => do
    let zero ← Build.index 0
    -- A position of the result gives a number, and the number a position of the operand.
    let linear ← linearFrom zero (position.zip (Shape.strides shape))
    positionOf linear (inputShape.zip (Shape.strides inputShape))

/-- The lowering of a slice. -/
def sliceOp : Build ValueId := do
  let inputShape := (← bufferType (← operand op 0)).shape
  match ← Build.askFor fun program => program.sliceParams op inputShape with
  | none => unsupported op "requires constant slice bounds"
  | some (dim, start, _, step) =>
    gather op fun position => do
      let stepIndex ← Build.index step
      let startIndex ← Build.index start
      match position[dim]? with
      | none => return position
      | some place =>
        let offset ← onIndices .muli place stepIndex
        return position.set dim (← onIndices .addi startIndex offset)

/-- The lowering of a broadcast to given sizes. -/
def broadcastOp : Build ValueId := do
  let inputShape := (← bufferType (← operand op 0)).shape
  gather op (alignedPosition inputShape)

/-- The lowering of quantizing: the element is divided by the scale, rounded to an integer, shifted by
the zero point and kept within the stored integers. -/
def quantizeOp : Build (ValueId × QuantParams) := do
  let (shape, element, dtype) ← Build.askFor fun program => program.resultTensor op
  let params ← Build.askFor fun program => program.quantParams op dtype
  let input ← operand op 0
  let real := (← bufferType input).element
  let scale ← Build.float params.scale real
  let zeroPoint ← Build.float (Float.ofInt params.zeroPoint) real
  let least ← Build.float (Float.ofInt params.range.1) real
  let most ← Build.float (Float.ofInt params.range.2) real
  let output ← elementwise [input] shape element <| withOne fun x => do
    -- Rounding comes before the shift, so that the zero point stays exact.
    let scaled ← binary .div x scale
    let rounded ← math .roundeven scaled real
    let shifted ← binary .add rounded zeroPoint
    let raised ← binary .max shifted least
    cast (← binary .min raised most) element
  return (output, params)

/-- The lowering of turning stored integers into the numbers that they stand for. -/
def dequantizeOp (table : QuantTable) : Build ValueId := do
  let (shape, element, _) ← Build.askFor fun program => program.resultTensor op
  let input ← operand op 0
  match table.get? input with
  | none => unsupported op "unknown quantization parameters"
  | some params =>
    let scale ← Build.float params.scale element
    let zeroPoint ← Build.float (Float.ofInt params.zeroPoint) element
    elementwise [input] shape element <| withOne fun a => do
      let shifted ← binary .sub (← cast a element) zeroPoint
      binary .mul shifted scale

/-- The lowering of an operation that gives its operand another type: the operand itself. -/
def sameOp : Build ValueId := do
  let _ ← Build.askFor fun program => program.resultTensor op
  operand op 0

/-- The lowering of taking integers for those of a quantized tensor: the operand itself, with
parameters. -/
def affineOp : Build (ValueId × QuantParams) := do
  let (_, _, dtype) ← Build.askFor fun program => program.resultTensor op
  let params ← Build.askFor fun program => program.quantParams op dtype
  return (← operand op 0, params)

/-- The lowering of a tensor operation, and the parameters of its result if it quantizes. -/
def tensorOp (table : QuantTable) (kind : TorchKind) : Build (ValueId × Option QuantParams) :=
  let plain (step : Build ValueId) : Build (ValueId × Option QuantParams) :=
    return (← step, none)
  let quantizing (step : Build (ValueId × QuantParams)) : Build (ValueId × Option QuantParams) := do
    let (value, params) ← step
    return (value, some params)
  match kind with
  | .addTensor => plain (binaryOp op kind .add)
  | .subTensor => plain (binaryOp op kind .sub)
  | .mulTensor => plain (binaryOp op kind .mul)
  | .divTensor => plain (binaryOp op kind .div)
  | .maximum => plain (binaryOp op kind .max)
  | .minimum => plain (binaryOp op kind .min)
  | .clamp => plain (clampOp op)
  | .mm => plain (mmOp op)
  | .sumDimIntList => plain (sumOp op)
  | .transposeInt => plain (transposeOp op)
  | .view | .reshape => plain (viewOp op)
  | .sliceTensor => plain (sliceOp op)
  | .broadcastTo => plain (broadcastOp op)
  | .quantizePerTensor => quantizing (quantizeOp op)
  | .dequantizeSelf => plain (dequantizeOp op table)
  | .perTensorAffineCreate => quantizing (affineOp op)
  | .intRepr | .tensorStaticInfoCast => plain (sameOp op)
  | _ => plain (unaryOp op kind)

/-- The size that a size query gives, if it is known. -/
def knownSize? : Build (Option Literal) := do
  let shape := (← bufferType (← operand op 0)).shape
  let dim ← operand op 1
  Build.ask fun program => do
    let position ← Shape.normalizeDim? (← program.foldInt? dim) shape.length
    (shape[position]?).map .int

/-- The counterpart of a type that the operation works with. -/
def counterpart (type : Ty) : Build Ty := do
  match ← Build.askFor fun _ => Target.loops.lowered? type with
  | some lowered => return lowered
  | none => unsupported op s!"type {type.text} has no counterpart"

/-- The lowering of an operation on two integers. -/
def intOp (kind : TorchKind) (lhs rhs : ValueId) : Build ValueId :=
  match kind with
  | .addInt => binary .add lhs rhs
  | .subInt => binary .sub lhs rhs
  | .mulInt => binary .mul lhs rhs
  | .ltInt => compare "slt" lhs rhs
  | .gtInt => compare "sgt" lhs rhs
  | .eqInt => compare "eq" lhs rhs
  | .neInt => compare "ne" lhs rhs
  | _ => do throw (← Build.ask fun program => program.notLegalized .loops op)

/-- The lowering of an operation on scalars: a constant if the result is known. -/
def scalarOp (kind : TorchKind) : Build ValueId := do
  let result ← Build.askFor fun program => program.result op 0
  let type ← counterpart op (← Build.askFor fun program => program.typed result)
  let known ←
    if kind = .sizeInt then knownSize? op else Build.ask fun program => program.fold? op
  match known with
  | some literal =>
    match ← Build.literal literal type with
    | some constant => return constant
    | none => unsupported op s!"cannot materialize {literal.text}"
  | none =>
    let lhs ← operand op 0
    let rhs ← operand op 1
    intOp op kind lhs rhs

/-- The counterparts of the types of the results. -/
def resultTypes : Build (List Ty) := do
  (← Build.askFor fun program => program.typedResults op).mapM (counterpart op)

end Operation

end Loops

namespace Change

/-- Puts a new operation with the regions of another one in its place. -/
def replaceHead (op : OpId) (build : Build OpId) (finish : Change Unit := pure ()) :
    Change Unit := do
  let new ← Change.build op build
  finish
  -- The regions move last: until then their values are found inside the old operation.
  let inside ← ask fun program => program.regionsOf op
  modify fun program => (program.setRegions op .nil).setRegions new inside
  supersedeAll op (← ask fun program => program.results new)

/-- Lowers a branch. The regions stay as they are. -/
def branchToLoops (op : OpId) : Change Unit :=
  replaceHead op do
    let types ← Loops.resultTypes op
    let condition ← Loops.operand op 0
    Build.create (.scf .ifElse) [condition] types

/-- The number of rounds of a loop as a position. -/
def tripCount (op : OpId) : Build ValueId := do
  let rounds ← Loops.operand op 0
  match ← Build.ask fun program => program.foldInt? rounds with
  | some known => Build.index (max known 0)
  | none => Build.value (.arith .indexCast) [rounds] (.scalar .index)

/-- Gives the arguments of a loop's body their new types. The number of the round becomes a
position, and its uses get it back as an integer. -/
def convertBody (block : BlockId) (body : Body) (types : List Ty) : Change Unit := do
  let arguments ← ask fun program => (program.header block).arguments
  for (argument, type) in (arguments.drop 1).zip types do
    modify fun program => program.setType argument type
  match arguments with
  | [] => return
  | round :: _ =>
    let uses ← ask fun program => program.usesOf round
    modify fun program => program.setType round (.scalar .index)
    match body.heads with
    | [] => return
    | first :: _ =>
      unless uses.isEmpty do
        -- The cast reads the position itself, so it is built after the uses have been listed.
        let cast ← build first (Build.value (.arith .indexCast) [round] (.scalar .i64))
        for use in uses do
          modify fun program => program.setUse use cast

/-- Lowers a loop that is known to run all its rounds. -/
def loopToLoops (op : OpId) : Change Unit := do
  let now ← program
  match now.entryOf? op with
  | none => throw (now.unsupported op "expected a loop body")
  | some (block, body) =>
    unless now.isForLike op do
      throw (now.unsupported op "requires a loop that always continues")
    let types ← build op (Loops.resultTypes op)
    replaceHead op
      (do
        let upper ← tripCount op
        let lower ← Build.index 0
        let step ← Build.index 1
        let initial ← Build.ask fun program => (program.operands op).drop 2
        Build.create (.scf .forLoop) ([lower, upper, step] ++ initial) types)
      (convertBody block body types)

/-- Lowers an operation that ends a block; all but the first operands are passed on. -/
def terminatorToLoops (op : OpId) (skipped : Nat) : Change Unit := do
  let operands ← ask fun program => program.operands op
  build op (Build.emit (.scf .yield) (operands.drop skipped))
  erase op

end Change

namespace Lowering

/-- Lowers one torch operation to loops. A parameter is taken away. -/
def opToLoops (op : OpId) (kind : TorchKind) : Lowering Unit := do
  if kind.isParameter then Change.erase op
  else
    match kind with
    | .primIf => Change.branchToLoops op
    | .primLoop => Change.loopToLoops op
    | .primIfYield => Change.terminatorToLoops op 0
    | .primLoopCondition => Change.terminatorToLoops op 1
    | _ =>
      if kind.isScalar then supersede op (return (← Loops.scalarOp op kind, none))
      else if kind.isLowerableTensor then supersede op (Loops.tensorOp op (← get) kind)
      else throw (← Change.ask fun program => program.notLegalized .loops op)

/-- The torch operation can be lowered to loops now. Parameters wait until nothing reads them. -/
def isDueForLoops (program : Program) (op : OpId) (kind : TorchKind) : Bool :=
  !kind.isParameter || program.userCount op == 0

/-- Lowers all torch operations to loops. -/
def toLoops : Lowering Bool :=
  exhaust isDueForLoops opToLoops

end Lowering

end TensorIR
