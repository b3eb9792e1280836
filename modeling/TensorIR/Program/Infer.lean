import TensorIR.Program.Fold

/-!
# Types that follow from the operands

The result of a tensor operation has a shape and an element type that follow, as far as they are
known, from its operands. Where a size or a bound is an operand itself, it counts if it is known
before the program runs.

## Main definitions

* `Program.inferInfo` — what follows about the result of a tensor operation
* `Program.inferTypes` — the types of the results of any operation, if they follow
* `Program.reducedDims`, `Program.transposedDims`, `Program.sliceParams` — the dimensions and bounds
  that operands tell
-/

namespace TensorIR

/-- A failure with a sentence of its own. -/
def failing {α : Type} (message : String) : Except Error α :=
  .error (.failure message)

/-- The result of an operation on shapes, or its fault as an error. -/
def ofShape {α : Type} : Except ShapeFault α → Except Error α
  | .ok result => .ok result
  | .error fault => .error (.shape fault)

namespace Program

variable (program : Program)

/-- Fails unless an operation has a given number of operands. -/
def expectOperands (op : OpId) (count : Nat) : Except Error Unit :=
  let actual := (program.operands op).length
  if actual = count then .ok () else failing s!"expected {count} operands, but got {actual}"

/-- What is known about an operand that must be a tensor with value semantics. -/
def tensorOperand (op : OpId) (index : Nat) : Except Error TensorInfo := do
  let value ← program.operand op index
  match program.torchTypeOf? value with
  | some (.vtensor info) => return info
  | some other => failing s!"operand #{index} must be a value tensor, but got {other.text}"
  | none => failing s!"operand #{index} must be a value tensor"

/-- Fails unless an operand has one of the given types. -/
def scalarOperand (op : OpId) (index : Nat) (allowed : List TorchType) : Except Error Unit := do
  let value ← program.operand op index
  let actual := (program.torchTypeOf? value).getD .any
  if allowed.any actual.isSubtype then return
  let names := String.intercalate " or " (allowed.map TorchType.text)
  failing s!"operand #{index} must be {names}, but got {actual.text}"

/-- The types of numbers. -/
def numberTypes : List TorchType := [.int, .float]

/-- The types of numbers that may be absent. -/
def optionalNumberTypes : List TorchType := [.optional .int, .optional .float]

/-- The type of lists of integers. -/
def intListType : TorchType := .list .int

/-- The elements of an operand that is a list, each known or not. -/
def listOperand (op : OpId) (index : Nat) : Except Error (Option (List (Option Int))) := do
  return program.listElements? (← program.operand op index)

/-- The element type of an elementwise result, if both element types are known. -/
def promoted (a b : Option Dtype) : Except Error (Option Dtype) :=
  match a, b with
  | some x, some y =>
    match x.promote? y with
    | some dtype => .ok (some dtype)
    | none => .error (.shape (.cannotPromote x y))
  | _, _ => .ok none

/-- The result of an operation on two tensors that are combined element by element. -/
def inferBinary (op : OpId) : Except Error TensorInfo := do
  let a ← program.tensorOperand op 0
  let b ← program.tensorOperand op 1
  ofShape (Shape.broadcastInfo a b)

/-- The result of a sum or difference, whose third operand scales the second. -/
def inferScaled (op : OpId) : Except Error TensorInfo := do
  program.expectOperands op 3
  program.scalarOperand op 2 numberTypes
  program.inferBinary op

/-- The result of a quotient. -/
def inferDiv (op : OpId) : Except Error TensorInfo := do
  program.expectOperands op 2
  let a ← program.tensorOperand op 0
  let b ← program.tensorOperand op 1
  let info ← ofShape (Shape.broadcastInfo a b)
  let dtype := do (← a.dtype).trueDivide? (← b.dtype)
  return { info with dtype }

/-- The result of an operation on each element. -/
def inferUnary (op : OpId) : Except Error TensorInfo := do
  program.expectOperands op 1
  let info ← program.tensorOperand op 0
  if (info.dtype.map Dtype.isQuantized).getD false then
    failing "expected a non-quantized tensor"
  return info

/-- The floating-point kind that elements are widened to. -/
def widened (dtype : Dtype) : Dtype := if dtype.isFloat then dtype else .f32

/-- The result of a function on each element that gives floating-point numbers. -/
def inferUnaryFloat (op : OpId) : Except Error TensorInfo := do
  let info ← program.inferUnary op
  return { info with dtype := info.dtype.map widened }

/-- The result of keeping elements between two bounds. -/
def inferClamp (op : OpId) : Except Error TensorInfo := do
  program.expectOperands op 3
  program.scalarOperand op 1 optionalNumberTypes
  program.scalarOperand op 2 optionalNumberTypes
  program.tensorOperand op 0

/-- Fails if a factor of a matrix product is known to be no matrix. -/
def expectMatrix (name : String) (info : TensorInfo) : Except Error Unit :=
  match info.rank? with
  | some rank =>
    if rank = 2 then .ok () else failing s!"{name} must have rank 2, but has rank {rank}"
  | none => .ok ()

/-- The size of a dimension, if known. -/
def sizeAt? (info : TensorInfo) (index : Nat) : Option Int :=
  info.sizes.bind fun sizes => (sizes[index]?).join

/-- The result of a matrix product. -/
def inferMm (op : OpId) : Except Error TensorInfo := do
  program.expectOperands op 2
  let a ← program.tensorOperand op 0
  let b ← program.tensorOperand op 1
  expectMatrix "lhs" a
  expectMatrix "rhs" b
  match sizeAt? a 1, sizeAt? b 0 with
  | some k, some l => if k ≠ l then failing s!"contracting dimensions differ: {k} and {l}"
  | _, _ => pure ()
  let dtype ← promoted a.dtype b.dtype
  return ⟨some [sizeAt? a 0, sizeAt? b 1], dtype⟩

/-- The positions of listed dimensions, without repetition, unless one of them is not known. -/
def positionsOf (rank : Nat) (seen : List Nat) : List (Option Int) →
    Except Error (Option (List Nat))
  | [] => .ok (some seen)
  | none :: _ => .ok none
  | some dim :: rest =>
    match Shape.normalizeDim? dim rank with
    | none => failing s!"dimension {dim} is out of range"
    | some position =>
      if seen.contains position then failing s!"dimension {position} is reduced twice"
      else positionsOf rank (seen ++ [position]) rest

/-- The dimensions that a sum runs over, in increasing order: all of them if none are listed. -/
def reducedDims (op : OpId) (rank : Nat) : Except Error (Option (List Nat)) := do
  if program.isNone (← program.operand op 1) then return some (List.range rank)
  match ← program.listOperand op 1 with
  | none => return none
  | some dims =>
    match ← positionsOf rank [] dims with
    | none => return none
    | some [] => return some (List.range rank)
    | some positions => return some (positions.mergeSort (· ≤ ·))

/-- The sizes after a sum over some dimensions, which stay with size one if they are kept. -/
def reducedSizes (dims : List Nat) (keep : Bool) (sizes : List (Option Int)) :
    List (Option Int) :=
  sizes.zipIdx.filterMap fun (size, index) =>
    if !dims.contains index then some size else if keep then some (some 1) else none

/-- The result of a sum. -/
def inferSum (op : OpId) : Except Error TensorInfo := do
  program.expectOperands op 4
  let info ← program.tensorOperand op 0
  program.scalarOperand op 1 [intListType, .none]
  program.scalarOperand op 2 [.bool]
  program.scalarOperand op 3 [.int, .none]
  let dtype ←
    match program.foldInt? (← program.operand op 3) with
    | some code =>
      match Dtype.ofCode? code with
      | some dtype => pure (some dtype)
      | none => failing s!"unknown dtype code {code}"
    | none => pure (info.dtype.map fun dtype => if dtype.isFloat then dtype else .si64)
  let sizes ←
    match info.sizes, program.foldBool? (← program.operand op 2) with
    | some sizes, some keep => do
      let dims ← program.reducedDims op sizes.length
      pure (dims.map fun dims => reducedSizes dims keep sizes)
    | _, _ => pure none
  return ⟨sizes, dtype⟩

/-- The positions of the two dimensions that a transposition exchanges, if known. -/
def transposedDims (op : OpId) (rank : Nat) : Except Error (Option (Nat × Nat)) := do
  match program.foldInt? (← program.operand op 1), program.foldInt? (← program.operand op 2) with
  | some first, some second =>
    match Shape.normalizeDim? first rank, Shape.normalizeDim? second rank with
    | some a, some b => return some (a, b)
    | _, _ => failing s!"dimensions {first} and {second} are out of range"
  | _, _ => return none

/-- A list with the items at two positions exchanged. -/
def exchanged {α : Type} (a b : Nat) (items : List α) : List α :=
  match items[a]?, items[b]? with
  | some x, some y => (items.set a y).set b x
  | _, _ => items

/-- The result of a transposition. -/
def inferTranspose (op : OpId) : Except Error TensorInfo := do
  program.expectOperands op 3
  program.scalarOperand op 1 [.int]
  program.scalarOperand op 2 [.int]
  let info ← program.tensorOperand op 0
  match info.sizes with
  | none => return ⟨none, info.dtype⟩
  | some sizes =>
    match ← program.transposedDims op sizes.length with
    | some (a, b) => return ⟨some (exchanged a b sizes), info.dtype⟩
    | none => return ⟨some (sizes.map fun _ => none), info.dtype⟩

/-- A size that is known and not left to be computed. -/
def plainSize? (size : Option Int) : Option Int :=
  size.filter (0 ≤ ·)

/-- The result of a view. -/
def inferView (op : OpId) : Except Error TensorInfo := do
  program.expectOperands op 2
  program.scalarOperand op 1 [intListType]
  let info ← program.tensorOperand op 0
  match ← program.listOperand op 1 with
  | none => return ⟨none, info.dtype⟩
  | some list =>
    match list.mapM id with
    | some sizes => return ⟨some (← ofShape (Shape.reshape info sizes)), info.dtype⟩
    | none => return ⟨some (list.map plainSize?), info.dtype⟩

/-- The bound of a slice: absent, known, or neither. -/
def sliceBound? (value : ValueId) : Option (Option Int) :=
  if program.isNone value then some none else (program.foldInt? value).map some

/-- The dimension, the first position, the number of positions and the step of a slice of a tensor
of a given shape, if they are known. -/
def sliceParams (op : OpId) (shape : List Int) :
    Except Error (Option (Nat × Int × Int × Int)) := do
  let some dim := program.foldInt? (← program.operand op 1) | return none
  let some position := Shape.normalizeDim? dim shape.length
    | failing s!"dimension {dim} is out of range"
  let start := program.sliceBound? (← program.operand op 2)
  let stop := program.sliceBound? (← program.operand op 3)
  match start, stop with
  | some start, some stop =>
    match program.foldInt? (← program.operand op 4) with
    | none => return none
    | some step =>
      if step ≤ 0 then failing s!"step must be positive, but got {step}"
      let (first, length) := Shape.sliceBounds (shape.getD position 0) start stop step
      return some (position, first, length, step)
  | _, _ => return none

/-- The result of a slice. -/
def inferSlice (op : OpId) : Except Error TensorInfo := do
  program.expectOperands op 5
  program.scalarOperand op 1 [.int]
  program.scalarOperand op 2 [.optional .int]
  program.scalarOperand op 3 [.optional .int]
  program.scalarOperand op 4 [.int]
  let info ← program.tensorOperand op 0
  match program.foldInt? (← program.operand op 4) with
  | some step => if step ≤ 0 then failing s!"step must be positive, but got {step}"
  | none => pure ()
  match info.sizes with
  | none => return ⟨none, info.dtype⟩
  | some sizes =>
    let dim := program.foldInt? (← program.operand op 1)
    match dim.bind fun dim => Shape.normalizeDim? dim sizes.length with
    | none => return ⟨some (sizes.map fun _ => none), info.dtype⟩
    | some position =>
      let params ← program.sliceParams op (sizes.map (·.getD (-1)))
      let size :=
        match (sizes[position]?).join, params with
        | some _, some (_, _, length, _) => some length
        | _, _ => none
      return ⟨some (sizes.set position size), info.dtype⟩

/-- The size of a dimension that is broadcast from a known, unknown or missing size. -/
def broadcastTarget (index offset : Nat) (input : Option Int) :
    Option Int → Except Error (Option Int)
  | none => .ok none
  | some size =>
    if size = -1 then
      if index < offset then failing s!"-1 is not allowed for new dimension {index}"
      else .ok input
    else
      match input with
      | some known =>
        if known ≠ 1 ∧ known ≠ size then
          failing s!"cannot broadcast dimension {index} of size {known} to {size}"
        else .ok (some size)
      | none => .ok (some size)

/-- The result of a broadcast to given sizes. -/
def inferBroadcastTo (op : OpId) : Except Error TensorInfo := do
  program.expectOperands op 2
  program.scalarOperand op 1 [intListType]
  let info ← program.tensorOperand op 0
  match ← program.listOperand op 1 with
  | none => return ⟨none, info.dtype⟩
  | some target =>
    match info.sizes with
    | none => return ⟨some (target.map plainSize?), info.dtype⟩
    | some sizes =>
      if sizes.length > target.length then
        failing s!"cannot broadcast rank {sizes.length} to rank {target.length}"
      let offset := target.length - sizes.length
      let result ← target.zipIdx.mapM fun (size, index) =>
        let input := if index < offset then none else (sizes[index - offset]?).join
        broadcastTarget index offset input size
      return ⟨some result, info.dtype⟩

/-- What is known about an operand that must not be known to hold plain numbers. -/
def quantizedOperand (op : OpId) : Except Error TensorInfo := do
  let info ← program.tensorOperand op 0
  match info.dtype with
  | some dtype =>
    if dtype.isQuantized then return info
    else failing s!"operand must be a quantized tensor, but has dtype {dtype.text}"
  | none => return info

/-- The result of quantizing a tensor. -/
def inferQuantize (op : OpId) : Except Error TensorInfo := do
  program.expectOperands op 4
  program.scalarOperand op 1 [.float]
  program.scalarOperand op 2 [.int]
  program.scalarOperand op 3 [.int]
  let info ← program.tensorOperand op 0
  match info.dtype with
  | some dtype =>
    if !dtype.isFloat then failing s!"can only quantize floats, but got {dtype.text}"
  | none => pure ()
  match program.foldInt? (← program.operand op 3) with
  | none => return ⟨info.sizes, none⟩
  | some code =>
    match (Dtype.ofCode? code).filter Dtype.isQuantized with
    | some dtype => return ⟨info.sizes, some dtype⟩
    | none => failing s!"dtype code {code} is not a quantized dtype"

/-- The result of turning a quantized tensor into plain numbers. -/
def inferDequantize (op : OpId) : Except Error TensorInfo := do
  program.expectOperands op 1
  let info ← program.quantizedOperand op
  return ⟨info.sizes, some .f32⟩

/-- The result of taking the stored integers of a quantized tensor. -/
def inferIntRepr (op : OpId) : Except Error TensorInfo := do
  program.expectOperands op 1
  let info ← program.quantizedOperand op
  return ⟨info.sizes, info.dtype.bind Dtype.intRepr?⟩

/-- The result of taking integers for those of a quantized tensor. -/
def inferAffineCreate (op : OpId) : Except Error TensorInfo := do
  program.expectOperands op 3
  program.scalarOperand op 1 [.float]
  program.scalarOperand op 2 [.int]
  let info ← program.tensorOperand op 0
  match info.dtype with
  | none => return ⟨info.sizes, none⟩
  | some dtype =>
    match dtype.quantized? with
    | some quantized => return ⟨info.sizes, some quantized⟩
    | none => failing s!"expected si8 or ui8 values, but got {dtype.text}"

/-- What follows about the result of a tensor operation of a given kind. -/
def inferKind (op : OpId) : TorchKind → Except Error (Option TensorInfo)
  | .addTensor | .subTensor => some <$> program.inferScaled op
  | .mulTensor | .maximum | .minimum => do
    program.expectOperands op 2
    some <$> program.inferBinary op
  | .divTensor => some <$> program.inferDiv op
  | .relu | .neg | .abs => some <$> program.inferUnary op
  | .exp | .tanh | .sigmoid => some <$> program.inferUnaryFloat op
  | .clamp => some <$> program.inferClamp op
  | .mm => some <$> program.inferMm op
  | .sumDimIntList => some <$> program.inferSum op
  | .transposeInt => some <$> program.inferTranspose op
  | .view | .reshape => some <$> program.inferView op
  | .sliceTensor => some <$> program.inferSlice op
  | .broadcastTo => some <$> program.inferBroadcastTo op
  | .quantizePerTensor => some <$> program.inferQuantize op
  | .dequantizeSelf => some <$> program.inferDequantize op
  | .intRepr => some <$> program.inferIntRepr op
  | .perTensorAffineCreate => some <$> program.inferAffineCreate op
  | _ => .ok none

/-- What follows about the result of an operation, if it is a tensor operation. -/
def inferInfo (op : OpId) : Except Error (Option TensorInfo) :=
  match program.kind op with
  | .torch kind => program.inferKind op kind
  | _ => .ok none

/-- The types of the results of an operation, if they follow from its operands. -/
def inferTypes (op : OpId) : Except Error (Option (List Ty)) := do
  return (← program.inferInfo op).map fun info => [.torch (.vtensor info)]

end Program

end TensorIR
