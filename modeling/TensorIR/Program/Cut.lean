import TensorIR.Program.Infer

/-!
# The cuts that slices make

A slice cuts one dimension of a tensor. Where the dimension, the bounds and the step are all known,
the positions that are kept are computed from the size of the dimension. A bound is held between zero
and that size, so that there has to be a size, and it must not be negative.

## Main definitions

* `Cut` — the size, the bounds and the step that positions are computed from
* `Program.cut?` — the cut that a slice makes of a tensor of a given shape
* `Program.inferredCut?` — the cut that is made to infer the type of a slice
* `Program.isCuttable` — every cut made to infer a type is of a dimension that has a size
-/

namespace TensorIR

/-- What the positions that a slice keeps of a dimension are computed from. -/
structure Cut where
  size : Int
  start : Option Int
  stop : Option Int
  step : Int
  deriving DecidableEq, Repr

/-- A bound can be held between zero and the size. -/
def Cut.isPossible (cut : Cut) : Bool :=
  0 ≤ cut.size

/-- The first position and the number of positions that are kept. -/
def Cut.bounds (cut : Cut) : Int × Int :=
  Shape.sliceBounds cut.size cut.start cut.stop cut.step

namespace Program

variable (program : Program)

/-- The position of the dimension that a slice cuts, if it is known and there is one. -/
def cutDimension? (op : OpId) (rank : Nat) : Option Nat := do
  let dim ← program.foldInt? (← (program.operand op 1).toOption)
  Shape.normalizeDim? dim rank

/-- The cut that a slice makes of a tensor of a given shape, if all that it depends on is known. -/
def cut? (op : OpId) (shape : List Int) : Option Cut := do
  let position ← program.cutDimension? op shape.length
  let start ← program.sliceBound? (← (program.operand op 2).toOption)
  let stop ← program.sliceBound? (← (program.operand op 3).toOption)
  let step ← program.foldInt? (← (program.operand op 4).toOption)
  if 0 < step then some ⟨shape.getD position 0, start, stop, step⟩ else none

/-- The rule for the types of the operands of a slice. -/
def verifySliced (op : OpId) : Except Error TensorInfo := do
  program.expectOperands op 5
  program.scalarOperand op 1 [.int]
  program.scalarOperand op 2 [.optional .int]
  program.scalarOperand op 3 [.optional .int]
  program.scalarOperand op 4 [.int]
  program.tensorOperand op 0

/-- The cut that is made to infer the type of a slice. A size that is not known counts as `-1`. -/
def inferredCut? (op : OpId) : Option Cut :=
  if program.kind op = .torch .sliceTensor then do
    let info ← (program.verifySliced op).toOption
    program.cut? op ((← info.sizes).map (·.getD (-1)))
  else none

/-- Every cut that is made to infer the type of an operation is of a dimension that has a size. -/
def isCuttable : Bool :=
  program.tree.ops.all fun op => (program.inferredCut? op).all Cut.isPossible

end Program

end TensorIR
