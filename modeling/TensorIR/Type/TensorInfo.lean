import TensorIR.Type.Dtype

/-!
# What is known about a tensor

The sizes and the element type of a tensor are known in part: the number of dimensions may be
unknown, single sizes may be unknown, and so may the element type. Less knowledge makes a larger
type. Two pieces of knowledge may be combined (`meet?`) or weakened to what they share (`join`).

## Main definitions

* `TensorInfo` — what is known
* `TensorInfo.isSubtype` — one knows at least as much as the other
* `TensorInfo.meet?`, `TensorInfo.join` — what both know together, and what both know each
-/

namespace TensorIR

/-- What is known about the sizes and the element type of a tensor. -/
structure TensorInfo where
  sizes : Option (List (Option Int)) := none
  dtype : Option Dtype := none
  deriving DecidableEq, Repr, Inhabited

namespace TensorInfo

section Knowledge

variable {α : Type} [DecidableEq α]

/-- The first item is known to be the second, if that is known at all. -/
def isSubtypeOption : Option α → Option α → Bool
  | _, none => true
  | none, some _ => false
  | some a, some b => a = b

/-- What two pieces of knowledge say together, unless they contradict each other. -/
def meetOption? : Option α → Option α → Option (Option α)
  | none, b => some b
  | a, none => some a
  | some a, some b => if a = b then some (some a) else none

/-- What two pieces of knowledge agree on. -/
def joinOption : Option α → Option α → Option α
  | some a, some b => if a = b then some a else none
  | _, _ => none

end Knowledge

/-- Everything is known about a tensor of this shape. -/
def ofShape (shape : List Int) (dtype : Dtype) : TensorInfo :=
  ⟨some (shape.map some), some dtype⟩

/-- Nothing is known. -/
def isUnknown (info : TensorInfo) : Bool :=
  info.sizes.isNone && info.dtype.isNone

/-- The number of dimensions, if known. -/
def rank? (info : TensorInfo) : Option Nat :=
  info.sizes.map List.length

/-- The shape, if every size is known. -/
def staticShape? (info : TensorInfo) : Option (List Int) :=
  info.sizes.bind fun sizes => sizes.mapM id

/-- One shape knows at least as much as another. -/
def isSubtypeSizes : Option (List (Option Int)) → Option (List (Option Int)) → Bool
  | _, none => true
  | none, some _ => false
  | some a, some b => a.length == b.length && (a.zip b).all fun pair => isSubtypeOption pair.1 pair.2

/-- The first knows at least as much as the second. -/
def isSubtype (a b : TensorInfo) : Bool :=
  isSubtypeSizes a.sizes b.sizes && isSubtypeOption a.dtype b.dtype

/-- What two shapes say together. -/
def meetSizes? : Option (List (Option Int)) → Option (List (Option Int)) →
    Option (Option (List (Option Int)))
  | none, b => some b
  | a, none => some a
  | some a, some b =>
    if a.length ≠ b.length then none
    else ((a.zip b).mapM fun pair => meetOption? pair.1 pair.2).map some

/-- What both say together, unless they contradict each other. -/
def meet? (a b : TensorInfo) : Option TensorInfo := do
  let sizes ← meetSizes? a.sizes b.sizes
  let dtype ← meetOption? a.dtype b.dtype
  return ⟨sizes, dtype⟩

/-- What two shapes agree on. -/
def joinSizes : Option (List (Option Int)) → Option (List (Option Int)) →
    Option (List (Option Int))
  | some a, some b =>
    if a.length = b.length then some ((a.zip b).map fun pair => joinOption pair.1 pair.2) else none
  | _, _ => none

/-- What both agree on. -/
def join (a b : TensorInfo) : TensorInfo :=
  ⟨joinSizes a.sizes b.sizes, joinOption a.dtype b.dtype⟩

/-- The written form of a size. -/
def sizeText : Option Int → String
  | some size => toString size
  | none => "?"

/-- The written form of a list of sizes. -/
def sizesText (sizes : List (Option Int)) : String :=
  "[" ++ String.intercalate "," (sizes.map sizeText) ++ "]"

/-- The written form of what is known. -/
def text (info : TensorInfo) : String :=
  (match info.sizes with
    | some sizes => sizesText sizes
    | none => "*") ++ "," ++
  match info.dtype with
  | some dtype => dtype.text
  | none => "unk"

/-- The size that a part between commas stands for. -/
def readSize (part : List Char) : Except TypeFault (Option Int) :=
  if part = ['?'] then .ok none
  else
    match Number.readInteger part with
    | .ok size => .ok (some size)
    | .error fault => .error (.integer fault)

/-- Reads the sizes in brackets, or the star of an unknown rank. Empty parts are passed over. -/
def readSizes (part : List Char) : Except TypeFault (Option (List (Option Int))) :=
  if part = ['*'] then .ok none
  else
    match (Text.afterPrefix? ['['] part).bind (Text.beforeLast? ']') with
    | none => .error (.notSizes (String.ofList part))
    | some inner => do
      let sizes ← ((Text.splitOn ',' inner).filter (!·.isEmpty)).mapM readSize
      return some sizes

/-- Reads the sizes and the element type between the angle brackets of a tensor type. -/
def read (arguments : List Char) : Except TypeFault TensorInfo :=
  match Text.splitTopLevel arguments with
  | [first, second] => do
    let sizes ← readSizes first
    let dtype ← if second = "unk".toList then pure none else some <$> Dtype.read second
    return ⟨sizes, dtype⟩
  | _ => .error (.notSizesAndDtype (String.ofList arguments))

end TensorInfo

end TensorIR
