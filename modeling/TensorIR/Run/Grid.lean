import TensorIR.Run.Scalar
import TensorIR.Shape.Tensor

/-!
# Arrays in a run

The contents of a tensor or buffer: a shape and the elements in row-major order, the last dimension
varying fastest.

## Main definitions

* `Grid` — an array
* `Grid.positions` — all positions of a shape in row-major order
* `Grid.offset`, `Grid.get` — where an element is stored, and the element
-/

namespace TensorIR

/-- An array of numbers in row-major order. -/
structure Grid where
  shape : List Int
  element : ScalarType
  data : Array Scalar
  deriving Inhabited

namespace Grid

/-- The number of elements of a shape as an unsigned 64-bit number. -/
def count (shape : List Int) : Nat :=
  (Shape.product shape % Nat.pow 2 64).toNat

/-- The array with the given elements, which must be as many as the shape says. -/
def ofValues (shape : List Int) (element : ScalarType) (values : List Float) :
    Except Error Grid :=
  if values.length = count shape then
    .ok ⟨shape, element, (values.map (Scalar.ofFloat element)).toArray⟩
  else
    failing
      s!"expected {count shape} values for shape {integersText shape}, but got {values.length}"

/-- The array of a shape with one value everywhere. -/
def filled (shape : List Int) (element : ScalarType) (value : Float) : Grid :=
  ⟨shape, element, Array.replicate (Shape.product shape).toNat (Scalar.ofFloat element value)⟩

/-- The elements as floating-point numbers. -/
def values (grid : Grid) : List Float :=
  grid.data.toList.map Scalar.toFloat

/-- Where the element at a position is stored, counted on from `start`, if the position is one of
the shape. -/
def offsetFrom? (start : Int) : List Int → List Int → Option Int
  | place :: position, size :: shape =>
    if place < 0 ∨ size ≤ place then none else offsetFrom? (start * size + place) position shape
  | _, _ => some start

/-- Where the element at a position is stored. -/
def offset (grid : Grid) (position : List Int) : Except Error Nat :=
  if position.length ≠ grid.shape.length then failing s!"expected {grid.shape.length} indices"
  else
    match offsetFrom? 0 position grid.shape with
    | some offset => .ok offset.toNat
    | none =>
      failing
        s!"index {integersText position} out of bounds for shape {integersText grid.shape}"

/-- The element at a position. -/
def get (grid : Grid) (position : List Int) : Except Error Scalar := do
  return grid.data.getD (← grid.offset position) default

/-- The array with another element at a position. -/
def set (grid : Grid) (position : List Int) (value : Scalar) : Except Error Grid := do
  let offset ← grid.offset position
  return { grid with data := grid.data.setIfInBounds offset value }

/-- The element that belongs to a position of a result. A dimension of size one repeats. -/
def getStretched (grid : Grid) (position : List Int) : Except Error Scalar :=
  grid.get ((position.zip grid.shape).map fun (place, size) => if size = 1 then 0 else place)

/-- The position with a given number in row-major order, and the number of times that the shape has
been passed. -/
def unravel (number : Int) : List Int → List Int × Int
  | [] => ([], number)
  | size :: shape =>
    let (position, passed) := unravel number shape
    (passed % size :: position, passed / size)

/-- All positions of a shape in row-major order. -/
def positions (shape : List Int) : List (List Int) :=
  (List.range (Shape.product shape).toNat).map fun (number : Nat) => (unravel number shape).1

/-- The array of a shape with a computed element at each position. -/
def build (shape : List Int) (element : ScalarType) (compute : List Int → Except Error Scalar) :
    Except Error Grid := do
  let data ← (positions shape).mapM compute
  return ⟨shape, element, data.toArray⟩

/-- The array of a shape with the element of another one at each position. -/
def gather (grid : Grid) (shape : List Int) (source : List Int → List Int) : Except Error Grid :=
  build shape grid.element fun position => grid.get (source position)

/-- The array with a function of each element. -/
def map (grid : Grid) (element : ScalarType) (compute : Scalar → Scalar) : Except Error Grid :=
  build grid.shape element fun position => do
    return compute (← grid.getStretched position)

/-- The array with a function of each two elements of arrays that fit together. -/
def combine (a b : Grid) (element : ScalarType) (compute : Scalar → Scalar → Scalar) :
    Except Error Grid := do
  let shape ← ofShape (Shape.ofBroadcast a.shape b.shape)
  build shape element fun position => do
    let x ← a.getStretched position
    let y ← b.getStretched position
    return compute x y

/-- The array with its dimensions in another order. -/
def transpose (grid : Grid) (order shape : List Int) : Except Error Grid :=
  grid.gather shape fun position =>
    (order.zip position).foldl (fun source (dim, place) => source.set dim.toNat place)
      (position.map fun _ => 0)

/-- The part of the array that begins at a position. -/
def slice (grid : Grid) (start shape : List Int) : Except Error Grid :=
  grid.gather shape fun position => (position.zip start).map fun (place, first) => place + first

/-- The array repeated along each dimension. -/
def tile (grid : Grid) (shape : List Int) : Except Error Grid :=
  grid.gather shape fun position => (position.zip grid.shape).map fun (place, size) => place % size

/-- The array inside a greater one that is filled with a value. -/
def pad (grid : Grid) (padding shape : List Int) (element : ScalarType) (value : Float) :
    Except Error Grid :=
  (positions grid.shape).foldlM
    (fun output position => do
      let target := position.zipIdx.map fun (place, index) => place + padding.getD (2 * index) 0
      let _ ← output.offset target
      output.set target (← grid.get position))
    (filled shape element value)

/-- One element of a batch of matrix products. -/
def product (a b : Grid) (element : ScalarType) (batch row column : Int) : Except Error Scalar :=
  (List.range (a.shape.getD 2 0).toNat).foldlM
    (fun sum (k : Nat) => do
      let x ← a.get [batch, row, k]
      let y ← b.get [batch, k, column]
      return Scalar.add element sum (Scalar.mul element x y))
    (Scalar.ofFloat element 0.0)

/-- A batch of matrix products. -/
def matmul (a b : Grid) (shape : List Int) (element : ScalarType) : Except Error Grid :=
  build shape element fun position =>
    a.product b element (position.getD 0 0) (position.getD 1 0) (position.getD 2 0)

/-- The array with its elements added up along a dimension. -/
def reduceSum (grid : Grid) (axis : Nat) (shape : List Int) (element : ScalarType) :
    Except Error Grid :=
  (positions grid.shape).foldlM
    (fun output position => do
      let target := position.set axis 0
      let sum ← output.get target
      output.set target (Scalar.add element sum (← grid.get position)))
    (filled shape element 0.0)

end Grid

end TensorIR
