import TensorIR.Run.Machine

/-!
# Running single operations

What operations on scalars, buffers and whole tensors compute from the data of their operands.
Control flow is not among them.

## Main definitions

* `Run.scalarOp`, `Run.memrefOp`, `Run.tosaOp` — one operation of each sort
-/

namespace TensorIR

namespace Run

variable (program : Program) (op : OpId)

/-- An operand of the operation. -/
def operand (index : Nat) : Run ValueId :=
  monadLift (program.operand op index)

/-- The type of the elements of a value, or of the value itself. -/
def elementType (value : ValueId) : Run ScalarType :=
  monadLift <| do
    match ← program.typed value with
    | .scalar type => return type
    | .shaped type => return type.element
    | type => failing s!"unsupported type {type.text}"

/-- Fails because there is nothing that the operation computes. -/
def cannotEvaluate {α : Type} : Run α :=
  throw (.failure s!"cannot evaluate {program.opName op}")

/-- The first two integers among the operands. -/
def twoInts : Run (Int × Int) := do
  let values ← (program.operands op).mapM (readInt program)
  return (values.getD 0 0, values.getD 1 0)

/-- The first two floating-point numbers among the operands. -/
def twoFloats : Run (Float × Float) := do
  let values ← (program.operands op).mapM (readFloat program)
  return (values.getD 0 0.0, values.getD 1 0.0)

/-- The number that a constant of a type is. -/
def constantOp (type : ScalarType) : Run Slot :=
  match program.constantValue? op with
  | some (.int value) => return .scalar (Scalar.ofFloat type (Float.ofInt value))
  | some (.float value) => return .scalar (Scalar.ofFloat type value)
  | some (.bool value) => return .scalar (Scalar.ofBool value)
  | _ => throw (.failure "unsupported constant")

/-- What an operation computes from two floating-point numbers, if it does. -/
def onFloats? : ArithKind → Option (Float → Float → Float)
  | .addf => some (· + ·)
  | .subf => some (· - ·)
  | .mulf => some (· * ·)
  | .divf => some (· / ·)
  | .maximumf => some greater
  | .minimumf => some lesser
  | _ => none

/-- What an operation computes from one floating-point number. -/
def onFloat : MathKind → Float → Float
  | .absf => Float.abs
  | .exp => Float.exp
  | .tanh => Float.tanh
  | .roundeven => Number.roundToEven

/-- The number of a type that an operation computes from two integers. -/
def intOp (type : ScalarType) (compute : Int → Int → Option Int) : Run Slot := do
  let (a, b) ← twoInts program op
  match compute a b with
  | some value => return .scalar (.int (Number.wrapTo type value))
  | none => throw (.failure s!"{program.opName op} failed on {a} and {b}")

/-- The number of a type that an operation computes from two floating-point numbers. -/
def floatOp (type : ScalarType) (compute : Float → Float → Float) : Run Slot := do
  let (a, b) ← twoFloats program op
  return .scalar (.float (Number.roundTo type (compute a b)))

/-- The number of a type that an operation computes from one floating-point number. -/
def unaryOp (type : ScalarType) (compute : Float → Float) : Run Slot := do
  let (a, _) ← twoFloats program op
  return .scalar (.float (Number.roundTo type (compute a)))

/-- The truth value of a comparison. -/
def compareOp (kind : ArithKind) : Run Slot := do
  let predicate := program.stringOf op "predicate"
  let lhs ← operand program op 0
  if kind = .cmpi then
    let (a, b) ← twoInts program op
    let type ← elementType program lhs
    return .scalar (Scalar.ofBool (← compareInts predicate type a b))
  else
    let (a, b) ← twoFloats program op
    return .scalar (Scalar.ofBool (← compareFloats predicate a b))

/-- The data of the second or third operand. -/
def selectOp : Run Slot := do
  let condition ← operand program op 0
  let chosen ← readInt program condition
  let value ← operand program op (if chosen ≠ 0 then 1 else 2)
  read program value

/-- The number that an operand is converted to. -/
def convertOp (type : ScalarType) : Run Slot := do
  let value ← operand program op 0
  let source ← elementType program value
  let x ← readScalar program value
  match program.kind op with
  | .arith .uitofp =>
    return .scalar (.float (Number.roundTo type (Float.ofInt (unsignedOf source x.toInt))))
  | .arith .fptosi | .arith .fptoui =>
    return .scalar (.int (Number.wrapTo type (Number.truncateToInt x.toFloat)))
  | .arith .sitofp | .arith .extf | .arith .truncf | .arith .extsi | .arith .trunci
  | .arith .indexCast => return .scalar (x.cast source type)
  | _ => cannotEvaluate program op

/-- What an operation on scalars computes. -/
def scalarOp : Run Slot := do
  let result ← monadLift (program.result op 0)
  let type ← elementType program result
  match program.kind op with
  | .arith .constant => constantOp program op type
  | .arith .cmpi => compareOp program op .cmpi
  | .arith .cmpf => compareOp program op .cmpf
  | .arith .select => selectOp program op
  | .arith .negf => unaryOp program op type (- ·)
  | .math kind => unaryOp program op type (onFloat kind)
  | .arith kind =>
    match kind.onInts?, onFloats? kind with
    | some compute, _ => intOp program op type compute
    | none, some compute => floatOp program op type compute
    | none, none => convertOp program op type
  | _ => convertOp program op type

/-- The place in memory of the buffer that a value is. -/
def bufferOf (value : ValueId) : Run Nat := do
  match ← read program value with
  | .buffer place => return place
  | _ => throw (.failure s!"{program.opName op} expects a memref")

/-- What an operation on buffers does, with its results. -/
def memrefOp : MemrefKind → Run (List Slot)
  | .alloc => do
    let result ← monadLift (program.result op 0)
    match ← monadLift (program.typed result) with
    | .shaped ⟨.memref, shape, element⟩ => return [← allocate (Grid.filled shape element 0.0)]
    | _ => throw (.failure "memref.alloc expects a memref")
  | .load => do
    let position ← ((program.operands op).drop 1).mapM (readInt program)
    let place ← bufferOf program op (← operand program op 0)
    return [.scalar (← (← contents place).get position)]
  | .store => do
    let position ← ((program.operands op).drop 2).mapM (readInt program)
    let place ← bufferOf program op (← operand program op 1)
    let value ← readScalar program (← operand program op 0)
    storeAt place position value
    return []

/-- A list of integers that the operation must have as an attribute. -/
def arrayAttribute (name : String) : Run (List Int) :=
  match (program.attributes op).array? name with
  | some values => return values
  | none => throw (.failure s!"{program.opName op} is missing attribute '{name}'")

/-- A number with the opposite sign. -/
def negated (element : ScalarType) : Scalar → Scalar
  | .float value => .float (-value)
  | .int value => .int (Number.wrapInto element (-value))

/-- The absolute value of a number. -/
def absolute (element : ScalarType) : Scalar → Scalar
  | .float value => .float value.abs
  | .int value => .int (Number.wrapInto element value.natAbs)

/-- A number kept between the bounds that attributes state. -/
def clamped (attributes : Attributes) : Scalar → Scalar
  | .float value =>
    let raised := match attributes.float? "min_fp" with
      | some least => Number.maximum value least
      | none => Number.maximum value (-1.7976931348623157e308)
    .float <| match attributes.float? "max_fp" with
      | some most => Number.minimum raised most
      | none => Number.minimum raised 1.7976931348623157e308
  | .int value =>
    let least := (attributes.int? "min_int").getD Number.minInt64
    let most := (attributes.int? "max_int").getD Number.maxInt64
    .int (min (max value least) most)

/-- What an operation computes from two elements, if it does. -/
def onElements? (element : ScalarType) : TosaKind → Option (Scalar → Scalar → Scalar)
  | .add => some (Scalar.add element)
  | .sub => some (Scalar.arithmetic element (· - ·) (· - ·))
  | .mul => some (Scalar.mul element)
  | .maximum => some (Scalar.arithmetic element max Number.maximum)
  | .minimum => some (Scalar.arithmetic element min Number.minimum)
  | _ => none

/-- What an operation computes from one element of a type, if it does. -/
def onElement? (attributes : Attributes) (source element : ScalarType) :
    TosaKind → Option (Scalar → Scalar)
  | .reciprocal => some (Scalar.onFloat element (1.0 / ·))
  | .exp => some (Scalar.onFloat element Float.exp)
  | .tanh => some (Scalar.onFloat element Float.tanh)
  | .sigmoid => some (Scalar.onFloat element logistic)
  | .negate => some (negated element)
  | .abs => some (absolute element)
  | .clamp => some (clamped attributes)
  | .cast => some (Scalar.cast source element)
  | _ => none

/-- What an operation on whole tensors computes from its first operand. -/
def tensorOp (kind : TosaKind) (type : ShapedType) (x : Grid) : Run Grid := do
  let attributes := program.attributes op
  match onElements? type.element kind, onElement? attributes x.element type.element kind with
  | some compute, _ =>
    let y ← readGrid program (← operand program op 1)
    monadLift (x.combine y type.element compute)
  | none, some compute => monadLift (x.map type.element compute)
  | none, none =>
    match kind with
    | .reshape =>
      return { x with shape := ← arrayAttribute program op "new_shape", element := type.element }
    | .transpose => do
      let order ← arrayAttribute program op "perms"
      monadLift (x.transpose order type.shape)
    | .slice => do
      let start ← arrayAttribute program op "start"
      monadLift (x.slice start type.shape)
    | .tile => monadLift (x.tile type.shape)
    | .pad => do
      let padding ← arrayAttribute program op "padding"
      monadLift (x.pad padding type.shape type.element ((attributes.float? "pad_const").getD 0.0))
    | .matmul => do
      let y ← readGrid program (← operand program op 1)
      monadLift (x.matmul y type.shape type.element)
    | .reduceSum =>
      monadLift (x.reduceSum ((attributes.int? "axis").getD 0).toNat type.shape type.element)
    | _ => cannotEvaluate program op

/-- What an operation on whole tensors computes. -/
def tosaOp (kind : TosaKind) : Run Grid := do
  let result ← monadLift (program.result op 0)
  match ← monadLift (program.typed result) with
  | .shaped type =>
    if kind = .const then
      match (program.attributes op).dense? "value" with
      | none => throw (.failure "tosa.const without value")
      | some value =>
        monadLift (Grid.ofValues type.shape type.element (value.expand (Grid.count type.shape)))
    else tensorOp program op kind type (← readGrid program (← operand program op 0))
  | _ => throw (.failure s!"{program.opName op} expects a tensor result")

end Run

end TensorIR
