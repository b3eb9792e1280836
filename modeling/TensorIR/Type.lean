import TensorIR.Type.Shaped
import TensorIR.Type.Torch

/-!
# Types

Every value of a program has one of three sorts of type: a scalar, a tensor or buffer of scalars,
or a torch type. The beginning of a written type tells which.

## Main definitions

* `Ty` — a type of any sort
* `Ty.text`, `Ty.read` — the written form and back
* `Ty.same` — two types are written the same
-/

namespace TensorIR

/-- The type of a value. -/
inductive Ty where
  | scalar (type : ScalarType)
  | shaped (type : ShapedType)
  | torch (type : TorchType)
  deriving DecidableEq, Repr, Inhabited

namespace Ty

/-- The written form of a type. -/
def text : Ty → String
  | scalar type => type.text
  | shaped type => type.text
  | torch type => type.text

/-- Reads a type of which it is known whether it is a torch type. -/
def readAs (isTorch : Bool) (text : List Char) : Except TypeFault Ty :=
  if isTorch then torch <$> TorchType.read text
  else if (Text.afterPrefix? "tensor<".toList text).isSome ||
      (Text.afterPrefix? "memref<".toList text).isSome then
    shaped <$> ShapedType.read text
  else scalar <$> ScalarType.read (String.ofList text)

/-- Reads a type on its own: an exclamation mark begins a torch type. -/
def read (text : List Char) : Except TypeFault Ty :=
  readAs (text.head? == some '!') text

/-- Reads a type in a program: the dialect's full name begins a torch type. -/
def readInProgram (text : List Char) : Except TypeFault Ty :=
  readAs (Text.afterPrefix? "!torch.".toList text).isSome text

/-- Two types are the same when they are written the same. -/
def same (a b : Ty) : Bool :=
  a.text == b.text

/-- Two lists hold the same types in the same order. -/
def sameEach (a b : List Ty) : Bool :=
  a.map text == b.map text

/-- The torch type, if it is one. -/
def torch? : Ty → Option TorchType
  | torch type => some type
  | _ => none

/-- The scalar type, if it is one. -/
def scalar? : Ty → Option ScalarType
  | scalar type => some type
  | _ => none

/-- The shaped type, if it is one. -/
def shaped? : Ty → Option ShapedType
  | shaped type => some type
  | _ => none

/-- What is known about a tensor with value semantics. -/
def vtensorInfo? : Ty → Option TensorInfo
  | torch (.vtensor info) => some info
  | _ => none

theorem same_self (a : Ty) : same a a = true := by
  simp [same]

end Ty

end TensorIR
