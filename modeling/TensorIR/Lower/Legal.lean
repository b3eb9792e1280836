import TensorIR.Lower.Target

/-!
# What can be lowered

Before anything is lowered, every torch operation is checked: its kind must have a lowering to the
target, and everything must be known about the tensors that it works on. Afterwards no torch
operation may be left.

## Main definitions

* `TorchKind.isParameter`, `TorchKind.isScalar`, `TorchKind.isLowerableTensor` — the three groups of
  operations that have a lowering
* `Program.ensureLegal` — everything in a program can be lowered
* `Program.ensureLowered` — everything has been lowered
-/

namespace TensorIR

namespace TorchKind

/-- The operation only provides a parameter, which other operations read before the program
runs. -/
def isParameter : TorchKind → Bool
  | constantNone | constantStr | constantDevice | listConstruct | derefine => true
  | _ => false

/-- The operation computes an integer, a floating-point number or a truth value. -/
def isScalar (kind : TorchKind) : Bool :=
  kind.isIntBinary ||
    match kind with
    | constantInt | constantFloat | constantBool | sizeInt => true
    | _ => false

/-- The operation computes a tensor and has a lowering. -/
def isLowerableTensor (kind : TorchKind) : Bool :=
  kind.isTensorOp || kind == tensorStaticInfoCast

end TorchKind

namespace Program

variable (program : Program)

/-- The first operand of the last operation in the body of a loop, if that tells whether the loop
continues. -/
def continues? (op : OpId) : Option ValueId := do
  let (_, body) ← program.entryOf? op
  let last ← body.last?
  if program.kind last = .torch .primLoopCondition then (program.operands last)[0]? else none

/-- The loop is known to run all its rounds. -/
def isForLike (op : OpId) : Bool :=
  (((program.operands op)[1]?).bind program.foldBool? == some true) &&
    ((program.continues? op).bind program.foldBool? == some true)

/-- An operation has a lowering to a target. -/
def isSupported (target : Target) (op : OpId) (kind : TorchKind) : Bool :=
  kind.isParameter || kind.isLowerableTensor ||
    match target, kind with
    | .loops, .primLoop => program.isForLike op
    | .loops, .primIf | .loops, .primIfYield | .loops, .primLoopCondition => true
    | .loops, kind => kind.isScalar
    | .tosa, kind => kind.isScalar && (program.fold? op).isSome

/-- A type of tensor, of either kind, of which not everything is known. -/
def isDynamic (type : Ty) : Bool :=
  (type.torch?.bind TorchType.tensorInfo?).any fun info => info.storage?.isNone

/-- Fails unless everything is known about the tensors that an operation works on. -/
def checkStatic (op : OpId) : Except Error Unit :=
  match ((program.operands op ++ program.results op).filterMap program.typeOf?).find? isDynamic with
  | some type =>
    .error (program.unsupported op s!"requires static shapes and dtypes, but got {type.text}")
  | none => .ok ()

/-- An operation that a lowering cannot take away. -/
def notLegalized (target : Target) (op : OpId) : Error :=
  .notLegalized (program.operation op).location (program.opName op) target.name

/-- Fails unless an operation can be lowered. -/
def checkLegal (target : Target) (op : OpId) : Except Error Unit :=
  match program.kind op with
  | .torch kind =>
    if program.isSupported target op kind then
      if kind.isLowerableTensor then program.checkStatic op else .ok ()
    else .error (program.notLegalized target op)
  | _ => .ok ()

/-- Fails at the first operation that cannot be lowered. -/
def ensureLegal (target : Target) : Except Error Unit :=
  program.tree.ops.forM (program.checkLegal target)

/-- Fails at the first operation that has not been lowered. -/
def ensureLowered (target : Target) : Except Error Unit :=
  match program.tree.ops.find? fun op => (program.kind op).isTorch with
  | some op => .error (program.notLegalized target op)
  | none => .ok ()

end Program

end TensorIR
