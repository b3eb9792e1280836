import TensorIR.Verify.Class
import TensorIR.Verify.Scalar
import TensorIR.Verify.Tensor

/-!
# Valid programs

A program is valid if every operand is a value that is visible where it is used, operations that end
a block stand last, and every operation keeps the rule of its kind. All violations are reported, in
the order in which the operations are met: those of an operation after those inside it, except for
its operands and its place.

## Main definitions

* `Program.verifyOp` — the rule that one operation keeps
* `Program.diagnostics` — all violations
* `Program.verify` — the program is valid, or all violations as an error
-/

namespace TensorIR

/-- The operation belongs to classes, objects or global slots. -/
def TorchKind.isObjectOp : TorchKind → Bool
  | attr | classType | globalSlot | globalSlotGet | globalSlotInit | globalSlotSet | method
  | nnModule | callMethod | getAttr | setAttr | slot => true
  | _ => false

/-- The operation belongs to control flow before lowering. -/
def TorchKind.isControlOp : TorchKind → Bool
  | primIf | primIfYield | primLoop | primLoopCondition => true
  | _ => false

namespace Program

variable (program : Program)

/-- The rule for operations of programs before lowering. -/
def verifyTorch (symbols : SymbolTable) (op : OpId) (kind : TorchKind) : Except Error Unit :=
  if kind.isObjectOp then program.verifyTorchObject symbols op kind
  else if kind.isControlOp then program.verifyTorchControl op kind
  else do
    match ← program.inferKind op kind with
    | some inferred => program.verifyInferred op inferred
    | none => program.verifyTorchValue op kind

/-- The rule that an operation keeps. -/
def verifyOp (symbols : SymbolTable) (op : OpId) : Except Error Unit :=
  match program.kind op with
  | .module => .ok ()
  | .arith kind => program.verifyArith op kind
  | .math _ => program.verifyMath op
  | .memref kind => program.verifyMemref op kind
  | .func kind => program.verifyFunc symbols op kind
  | .scf kind => program.verifyScf op kind
  | .tosa kind => program.verifyTosa op kind
  | .torch kind => program.verifyTorch symbols op kind

/-- The operands of an operation that are not visible. -/
def invisibleOperands (visible : List ValueId) (op : OpId) : List Diagnostic :=
  (program.operands op).zipIdx.filterMap fun (value, index) =>
    if visible.contains value then none
    else
      some (program.report op
        s!"operand #{index} ({program.nameOf value}) does not dominate this use")

/-- The violation of an operation that ends a block but does not stand last. -/
def misplacedTerminator (op : OpId) (rest : Body) : List Diagnostic :=
  if (program.kind op).isTerminator && !rest.isEmpty then
    [program.report op "terminator must be the last op in its block"]
  else []

/-- The violation of the rule of an operation. -/
def brokenRule (symbols : SymbolTable) (op : OpId) : List Diagnostic :=
  match program.verifyOp symbols op with
  | .ok _ => []
  | .error error => [program.report op error.detail]

end Program

mutual

/-- The violations in the operations of a block, and the values visible after them. -/
def Body.diagnostics (program : Program) (symbols : SymbolTable) (visible : List ValueId) :
    Body → List Diagnostic × List ValueId
  | .nil => ([], visible)
  | .cons op regions rest =>
    let own := program.invisibleOperands visible op ++ program.misplacedTerminator op rest
    let inner := Regions.diagnostics program symbols visible regions
    let (later, after) := Body.diagnostics program symbols (program.results op ++ visible) rest
    (own ++ inner ++ program.brokenRule symbols op ++ later, after)

/-- The violations in blocks. What a block introduces is visible in the blocks after it. -/
def Blocks.diagnostics (program : Program) (symbols : SymbolTable) (visible : List ValueId) :
    Blocks → List Diagnostic
  | .nil => []
  | .cons block body rest =>
    let (found, after) :=
      Body.diagnostics program symbols ((program.header block).arguments ++ visible) body
    found ++ Blocks.diagnostics program symbols after rest

/-- The violations in regions, each of which sees the same values. -/
def Regions.diagnostics (program : Program) (symbols : SymbolTable) (visible : List ValueId) :
    Regions → List Diagnostic
  | .nil => []
  | .cons blocks rest =>
    Blocks.diagnostics program symbols visible blocks ++
      Regions.diagnostics program symbols visible rest

end

namespace Program

/-- All violations of the rules for programs. Contradicting symbols are reported alone. -/
def diagnostics (program : Program) : List Diagnostic :=
  match program.symbolTable with
  | .error error => [program.report program.root error.detail]
  | .ok symbols => (program.tree.diagnostics program symbols []).1

/-- Fails with all violations unless the program is valid. -/
def verify (program : Program) : Except Error Unit :=
  match program.diagnostics with
  | [] => .ok ()
  | reports => .error (.diagnostics reports)

end Program

end TensorIR
