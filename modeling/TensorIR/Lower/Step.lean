import TensorIR.Lower.Legal
import TensorIR.Lower.Quantized
import TensorIR.Program.Rewrite

/-!
# Lowering one operation after the other

A lowering takes torch operations one at a time, in program order, and puts what is built for an
operation in its place. Some operations have to wait until others have been lowered, because those
read them before the program runs.

## Main definitions

* `Lowering` — a change of a program that keeps quantization parameters beside it
* `Lowering.exhaust` — lowers operations as long as one is due
* `Program.resultTensor` — what the result of a tensor operation is stored as
-/

namespace TensorIR

/-- A change of a program that keeps the parameters of quantized values beside it. -/
abbrev Lowering := StateT QuantTable Change

namespace Lowering

/-- Puts the value that is built for an operation in its place. -/
def supersede (op : OpId) (build : Build (ValueId × Option QuantParams)) : Lowering Unit := do
  let (value, params) ← Change.build op build
  match params with
  | some params => modify fun table => table.insert value params
  | none => pure ()
  Change.supersede op value

section Exhaustion

variable (isDue : Program → OpId → TorchKind → Bool) (lower : OpId → TorchKind → Lowering Unit)

/-- Lowers an operation if it is due. The answer is whether it is. -/
def attempt (op : OpId) : Lowering Bool := do
  let now ← Change.program
  match now.kind op with
  | .torch kind =>
    if isDue now op kind then
      lower op kind
      return true
    else return false
  | _ => return false

/-- Lowers the first operation that is due. The answer is whether there is one. -/
def lowerFirst : Lowering Bool := do
  let ops ← Change.ask fun program => program.tree.ops
  Rewrite.tryEach (attempt isDue lower) ops

/-- Lowers operations as long as one is due. The answer is whether there was one. -/
def exhaust : Lowering Bool :=
  Rewrite.untilStable (lowerFirst isDue lower)

end Exhaustion

end Lowering

/-- The shape, the stored type and the kind of element of the result of a tensor operation. -/
def Program.resultTensor (program : Program) (op : OpId) :
    Except Error (List Int × ScalarType × Option Dtype) := do
  let result ← program.result op 0
  match program.tensorInfoOf? result with
  | none => throw (program.unsupported op "expected a tensor result")
  | some info =>
    match info.storage? with
    | some (shape, element) => return (shape, element, info.dtype)
    | none => throw (program.unsupported op "requires a static result type")

end TensorIR
