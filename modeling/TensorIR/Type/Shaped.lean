import TensorIR.Text.Split
import TensorIR.Type.Scalar

/-!
# Shaped types

Tensors and buffers after lowering: a list of sizes and a type of element, such as
`tensor<3x?xf32>`. A tensor is a value; a buffer can be written to. An unknown size is stored as a
negative number and written as `?`.

## Main definitions

* `ShapedType` — a tensor or buffer type
* `ShapedType.text`, `ShapedType.read` — its written form and back
-/

namespace TensorIR

/-- Whether a shaped type is that of a value or that of a buffer. -/
inductive ShapedKind where
  | tensor
  | memref
  deriving DecidableEq, Repr

/-- The word that begins the text of a shaped type. -/
def ShapedKind.word : ShapedKind → String
  | tensor => "tensor"
  | memref => "memref"

/-- The type of a tensor or of a buffer. -/
structure ShapedType where
  kind : ShapedKind
  shape : List Int
  element : ScalarType
  deriving DecidableEq, Repr

namespace ShapedType

/-- The type of a tensor value. -/
def tensor (shape : List Int) (element : ScalarType) : ShapedType := ⟨.tensor, shape, element⟩

/-- The type of a buffer. -/
def memref (shape : List Int) (element : ScalarType) : ShapedType := ⟨.memref, shape, element⟩

/-- The number of dimensions. -/
def rank (type : ShapedType) : Nat := type.shape.length

/-- Every size is known. -/
def isStatic (type : ShapedType) : Bool := type.shape.all (0 ≤ ·)

/-- The product of the sizes. -/
def elementCount (type : ShapedType) : Int := type.shape.foldl (· * ·) 1

/-- The written form of one size, with the separator after it. -/
def sizeText (size : Int) : String :=
  (if size < 0 then "?" else toString size) ++ "x"

/-- The written form of a shaped type. -/
def text (type : ShapedType) : String :=
  type.kind.word ++ "<" ++ String.join (type.shape.map sizeText) ++ type.element.text ++ ">"

/-- The size that one part between separators stands for. -/
def readSize (whole part : List Char) : Except TypeFault Int :=
  if part = ['?'] then .ok (-1)
  else
    match Number.readInteger part with
    | .ok size => .ok size
    | .error _ => .error (.invalidDimension (String.ofList part) (String.ofList whole))

/-- Reads the text between the angle brackets, where `whole` is the text of the type. -/
def readBody (kind : ShapedKind) (whole rest : List Char) : Except TypeFault ShapedType := do
  let some body := Text.beforeLast? '>' rest | .error (.unterminatedShaped (String.ofList whole))
  let parts := Text.splitOn 'x' body
  let element ← ScalarType.read (String.ofList (parts.getLast?.getD []))
  let shape ← parts.dropLast.mapM (readSize whole)
  return ⟨kind, shape, element⟩

/-- Reads a shaped type. -/
def read (text : List Char) : Except TypeFault ShapedType :=
  match Text.afterPrefix? "tensor<".toList text with
  | some rest => readBody .tensor text rest
  | none =>
    match Text.afterPrefix? "memref<".toList text with
    | some rest => readBody .memref text rest
    | none => .error (.notShaped (String.ofList text))

end ShapedType

end TensorIR
