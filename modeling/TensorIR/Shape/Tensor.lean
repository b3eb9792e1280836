import TensorIR.Shape

/-!
# Shapes of lowered tensor operations

The operations on whole tensors take fully known shapes of fixed rank. Each function gives the shape
of the result or says why the operands do not go together.

## Main definitions

* `Shape.ofBroadcast`, `Shape.ofTranspose`, `Shape.ofPad`, `Shape.ofTile`, `Shape.ofMatmul`,
  `Shape.ofReduce`, `Shape.ofSlice`
-/

namespace TensorIR

namespace Shape

/-- The common size of two dimensions, where a size of one stretches. -/
def stretched (a b : Int) : Except ShapeFault Int :=
  if a = 1 then .ok b
  else if b = 1 then .ok a
  else if a = b then .ok a
  else .error (.incompatibleSizes a b)

/-- The shape of an elementwise result of two tensors of one rank. -/
def ofBroadcast (a b : List Int) : Except ShapeFault (List Int) :=
  if a.length ≠ b.length then .error (.differentRanks a.length b.length)
  else (a.zip b).mapM fun pair => stretched pair.1 pair.2

/-- The sizes at the listed positions, each of which may be listed once. -/
def pickSizes? (shape : List Int) (seen : List Int) : List Int → Option (List Int)
  | [] => some []
  | position :: rest =>
    if position < 0 ∨ seen.contains position then none
    else
      match shape[position.toNat]? with
      | some size => (pickSizes? shape (position :: seen) rest).map (size :: ·)
      | none => none

/-- The shape with its dimensions in another order. -/
def ofTranspose (shape order : List Int) : Except ShapeFault (List Int) :=
  match pickSizes? shape [] order with
  | some sizes =>
    if sizes.length = shape.length then .ok sizes else .error (.notPermutation order)
  | none => .error (.notPermutation order)

/-- The sizes with two paddings for each. -/
def paddedSizes : List Int → List Int → List Int
  | size :: shape, before :: after :: padding =>
    (size + before + after) :: paddedSizes shape padding
  | _, _ => []

/-- The shape with elements added before and after along each dimension. -/
def ofPad (shape padding : List Int) : Except ShapeFault (List Int) :=
  if padding.length ≠ 2 * shape.length ∨ padding.any (· < 0) then
    .error (.badPadding (2 * shape.length) padding)
  else .ok (paddedSizes shape padding)

/-- The shape of a tensor repeated along each dimension. -/
def ofTile (shape multiples : List Int) : Except ShapeFault (List Int) :=
  if multiples.length ≠ shape.length ∨ multiples.any (· < 1) then
    .error (.badMultiples multiples)
  else .ok ((shape.zip multiples).map fun pair => pair.1 * pair.2)

/-- The shape of a batch of matrix products. -/
def ofMatmul (a b : List Int) : Except ShapeFault (List Int) :=
  match a, b with
  | [n, h, c], [m, k, w] =>
    if n = m ∧ c = k then .ok [n, h, w] else .error (.incompatibleMatrices a b)
  | _, _ => .error (.incompatibleMatrices a b)

/-- The shape with one dimension reduced to size one. -/
def ofReduce (shape : List Int) (axis : Int) : Except ShapeFault (List Int) :=
  if 0 ≤ axis ∧ axis < shape.length then .ok (shape.set axis.toNat 1)
  else .error (.axisOutOfRange axis shape.length)

/-- The first dimension from `index` on where a slice is out of bounds. -/
def sliceFault? (index : Nat) : List Int → List Int → List Int → Option ShapeFault
  | bound :: shape, start :: starts, size :: sizes =>
    if start < 0 ∨ size < 0 ∨ start + size > bound then
      some (.sliceOutOfBounds start (start + size) index bound)
    else sliceFault? (index + 1) shape starts sizes
  | _, _, _ => none

/-- The shape of a slice with given first positions and sizes. -/
def ofSlice (shape start size : List Int) : Except ShapeFault (List Int) :=
  if start.length ≠ shape.length ∨ size.length ≠ shape.length then
    .error (.sliceRank shape.length)
  else
    match sliceFault? 0 shape start size with
    | some fault => .error fault
    | none => .ok size

end Shape

end TensorIR
