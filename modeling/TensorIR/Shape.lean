import TensorIR.Type.TensorInfo

/-!
# Arithmetic on shapes

Broadcasting, reshaping, slicing and row-major strides. A shape that is known only in part lists a
size or nothing for each dimension.

## Main definitions

* `Shape.broadcast` — the common shape of two tensors that are combined element by element
* `Shape.reshape` — the sizes of a view, one of which may be left to be computed
* `Shape.sliceBounds` — the first position and the number of positions of a slice
* `Shape.strides` — how far apart neighbours along each dimension are stored
-/

namespace TensorIR

/-- Why an operation on shapes has no result. -/
inductive ShapeFault where
  | notBroadcastable (a b : List (Option Int))
  | cannotPromote (a b : Dtype)
  | severalInferred
  | invalidSize (size : Int)
  | cannotView (count : Int) (sizes : List Int)
  | differentRanks (a b : Nat)
  | incompatibleSizes (a b : Int)
  | notPermutation (positions : List Int)
  | badPadding (count : Nat) (padding : List Int)
  | badMultiples (multiples : List Int)
  | incompatibleMatrices (a b : List Int)
  | axisOutOfRange (axis : Int) (rank : Nat)
  | sliceRank (rank : Nat)
  | sliceOutOfBounds (start stop : Int) (dim : Nat) (size : Int)
  deriving DecidableEq, Repr

/-- The written form of a list of integers in messages. -/
def integersText (values : List Int) : String :=
  "[" ++ String.intercalate ", " (values.map toString) ++ "]"

/-- The sentence that reports why there is no result. -/
def ShapeFault.message : ShapeFault → String
  | notBroadcastable a b =>
    "shapes " ++ TensorInfo.sizesText a ++ " and " ++ TensorInfo.sizesText b ++
      " are not broadcast compatible"
  | cannotPromote a b => "cannot promote " ++ a.text ++ " and " ++ b.text
  | severalInferred => "only one dimension can be inferred"
  | invalidSize size => s!"invalid size {size}"
  | cannotView count sizes => s!"cannot view {count} elements as {integersText sizes}"
  | differentRanks a b => s!"operands must have the same rank, but got {a} and {b}"
  | incompatibleSizes a b => s!"dimensions {a} and {b} are not compatible"
  | notPermutation positions => s!"perms {integersText positions} is not a permutation"
  | badPadding count padding =>
    s!"expected {count} non-negative padding values, but got {integersText padding}"
  | badMultiples multiples => s!"invalid multiples {integersText multiples}"
  | incompatibleMatrices a b =>
    s!"incompatible matmul operands {integersText a} and {integersText b}"
  | axisOutOfRange axis rank => s!"axis {axis} out of range for rank {rank}"
  | sliceRank rank => s!"start and size must have rank {rank}"
  | sliceOutOfBounds start stop dim size =>
    s!"slice [{start}, {stop}) out of bounds for dimension {dim} of size {size}"

namespace Shape

/-- The sizes with ones in front, up to a given number of dimensions. -/
def padded (rank : Nat) (sizes : List (Option Int)) : List (Option Int) :=
  List.replicate (rank - sizes.length) (some 1) ++ sizes

/-- The common size of two dimensions: a size of one stretches, and an unknown size is taken to fit
a known one. -/
def broadcastSize? : Option Int → Option Int → Option (Option Int)
  | some 1, other => some other
  | other, some 1 => some other
  | some a, some b => if a = b then some (some a) else none
  | none, some n => some (some n)
  | some n, none => some (some n)
  | none, none => some none

/-- The common shape of two shapes, aligned at the last dimension. -/
def broadcast (a b : List (Option Int)) : Except ShapeFault (List (Option Int)) :=
  let rank := max a.length b.length
  match ((padded rank a).zip (padded rank b)).mapM fun pair => broadcastSize? pair.1 pair.2 with
  | some sizes => .ok sizes
  | none => .error (.notBroadcastable a b)

/-- The common shape of two known shapes. -/
def broadcastStatic (a b : List Int) : Except ShapeFault (List Int) :=
  (broadcast (a.map some) (b.map some)).map fun sizes => sizes.map (·.getD (-1))

/-- The common sizes and the promoted element type of two tensors. What is unknown about either
tensor is unknown about the result. -/
def broadcastInfo (a b : TensorInfo) : Except ShapeFault TensorInfo := do
  let sizes ←
    match a.sizes, b.sizes with
    | some x, some y => some <$> broadcast x y
    | _, _ => pure none
  let dtype ←
    match a.dtype, b.dtype with
    | some x, some y =>
      match x.promote? y with
      | some promoted => pure (some promoted)
      | none => throw (.cannotPromote x y)
    | _, _ => pure none
  return ⟨sizes, dtype⟩

/-- The position of a dimension, which may be counted from the end by a negative number. -/
def normalizeDim? (dim : Int) (rank : Nat) : Option Nat :=
  let position := if dim < 0 then dim + rank else dim
  if 0 ≤ position ∧ position < rank then some position.toNat else none

/-- The distance in storage between neighbours along each dimension, the last varying fastest. -/
def strides : List Int → List Int
  | [] => []
  | [_] => [1]
  | _ :: size :: rest =>
    let inner := strides (size :: rest)
    inner.head?.getD 1 * size :: inner

/-- The product of a list of sizes. -/
def product (sizes : List Int) : Int :=
  sizes.foldl (· * ·) 1

/-- The size that stands for `-1` in a view of `total` elements, if the other sizes leave exactly
one. -/
def inferredSize? (total known : Int) : Option Int :=
  if known ≠ 0 ∧ total.tmod known = 0 then some (total.tdiv known) else none

/-- The sizes of a view. One size may be `-1`; it is computed from the number of elements when that
is known. -/
def reshape (input : TensorInfo) (sizes : List Int) : Except ShapeFault (List (Option Int)) := do
  let inferred := sizes.count (-1)
  if inferred > 1 then throw .severalInferred
  match sizes.find? (· < -1) with
  | some size => throw (.invalidSize size)
  | none => pure ()
  let known := product (sizes.filter (· ≠ -1))
  let total := input.staticShape?.map product
  let result ← sizes.mapM fun size =>
    if size = -1 then
      match total with
      | none => pure none
      | some count =>
        match inferredSize? count known with
        | some value => pure (some value)
        | none => throw (.cannotView count sizes)
    else pure (some size)
  match total with
  | some count => if inferred = 0 ∧ count ≠ known then throw (.cannotView count sizes)
  | none => pure ()
  return result

/-- A bound of a slice as a position between `0` and the size; negative bounds count from the
end. -/
def clampIndex (size index : Int) : Int :=
  let shifted := if index < 0 then index + size else index
  max 0 (min shifted size)

/-- The first position and the number of positions of a slice. Missing bounds are the ends. -/
def sliceBounds (size : Int) (start stop : Option Int) (step : Int) : Int × Int :=
  let first := clampIndex size (start.getD 0)
  let last := clampIndex size (stop.getD size)
  (first, if last > first then (last - first + step - 1).tdiv step else 0)

end Shape

end TensorIR
