import TensorIR.Op.Traits
import TensorIR.Program.Print

/-!
# Values known before the program runs

The value of a constant is known, and so is what an operation computes from known values. Integers
are those of 64 bits: sums, differences and products wrap around, and a quotient that is not one of
them is not known.

## Main definitions

* `ArithKind.onInts?` — what an operation computes from two integers
* `Program.fold?` — the known result of an operation
* `Program.foldValue?` — the known value of a value
-/

namespace TensorIR

/-- The quotient toward zero, if it is a signed 64-bit integer. -/
def quotient? (a b : Int) : Option Int :=
  if b = 0 ∨ (a = Number.minInt64 ∧ b = -1) then none else some (a.tdiv b)

/-- The remainder of the quotient toward zero, if that is a signed 64-bit integer. -/
def remainder? (a b : Int) : Option Int :=
  if b = 0 ∨ (a = Number.minInt64 ∧ b = -1) then none else some (a.tmod b)

/-- What an operation computes from two signed 64-bit integers, if it computes an integer from
integers. -/
def ArithKind.onInts? : ArithKind → Option (Int → Int → Option Int)
  | .addi => some fun a b => some (Number.wrapInt64 (a + b))
  | .subi => some fun a b => some (Number.wrapInt64 (a - b))
  | .muli => some fun a b => some (Number.wrapInt64 (a * b))
  | .divsi => some quotient?
  | .remsi => some remainder?
  | .maxsi => some fun a b => some (max a b)
  | .minsi => some fun a b => some (min a b)
  | _ => none

/-- What an operation of a program before lowering computes from two signed 64-bit integers. -/
def TorchKind.onInts? : TorchKind → Option (Int → Int → Literal)
  | .addInt => some fun a b => .int (Number.wrapInt64 (a + b))
  | .subInt => some fun a b => .int (Number.wrapInt64 (a - b))
  | .mulInt => some fun a b => .int (Number.wrapInt64 (a * b))
  | .ltInt => some fun a b => .bool (a < b)
  | .gtInt => some fun a b => .bool (a > b)
  | .eqInt => some fun a b => .bool (a = b)
  | .neInt => some fun a b => .bool (a ≠ b)
  | _ => none

/-- The integer that a literal is, if it is one. -/
def Literal.integer? : Literal → Option Int
  | .int value => some value
  | _ => Option.none

namespace Program

variable (program : Program)

/-- The value of a constant of a program before lowering. -/
def torchConstant? (op : OpId) : TorchKind → Option Literal
  | .constantNone => some .none
  | .constantBool => ((program.attributes op).bool? "value").map .bool
  | .constantInt => ((program.attributes op).int? "value").map .int
  | .constantFloat => ((program.attributes op).float? "value").map .float
  | .constantStr | .constantDevice => ((program.attributes op).str? "value").map .str
  | _ => none

/-- What is known about the sizes and elements of a tensor value of either kind. -/
def tensorInfoOf? (value : ValueId) : Option TensorInfo :=
  (program.torchTypeOf? value).bind TorchType.tensorInfo?

/-- The size of a dimension that the type of a tensor tells. -/
def knownSize? (tensor : ValueId) (dim : Int) : Option Int := do
  let info ← program.tensorInfoOf? tensor
  let sizes ← info.sizes
  let position ← Shape.normalizeDim? dim sizes.length
  (sizes[position]?).join

/-- The known result of an operation, following at most `fuel` operations back. -/
def foldWithin : Nat → OpId → Option Literal
  | 0, _ => none
  | fuel + 1, op =>
    let known (index : Nat) : Option Literal :=
      ((program.operands op)[index]?).bind fun value =>
        (program.definingOp? value).bind (foldWithin fuel)
    match program.kind op with
    | .arith .constant => program.constantValue? op
    | .arith .indexCast => ((known 0).bind Literal.integer?).map .int
    | .arith kind => do
      let compute ← kind.onInts?
      let a ← (known 0).bind Literal.integer?
      let b ← (known 1).bind Literal.integer?
      (compute a b).map .int
    | .torch .derefine => known 0
    | .torch .sizeInt => do
      let tensor ← (program.operands op)[0]?
      let dim ← (known 1).bind Literal.integer?
      (program.knownSize? tensor dim).map .int
    | .torch kind =>
      if kind.isConst then program.torchConstant? op kind
      else do
        let compute ← kind.onInts?
        let a ← (known 0).bind Literal.integer?
        let b ← (known 1).bind Literal.integer?
        return compute a b
    | _ => none

/-- The known result of an operation. -/
def fold? (op : OpId) : Option Literal :=
  program.foldWithin (program.operations.size + 1) op

/-- The known value of a value. -/
def foldValue? (value : ValueId) : Option Literal :=
  (program.definingOp? value).bind program.fold?

/-- The integer that a value is known to be. -/
def foldInt? (value : ValueId) : Option Int :=
  (program.foldValue? value).bind Literal.integer?

/-- The number that a value is known to be. -/
def foldFloat? (value : ValueId) : Option Float :=
  (program.foldValue? value).bind Literal.float?

/-- The truth value that a value is known to be. -/
def foldBool? (value : ValueId) : Option Bool :=
  (program.foldValue? value).bind Literal.bool?

/-- The value is known to be the absent one. -/
def isNone (value : ValueId) : Bool :=
  ((program.foldValue? value).map Literal.isNone).getD false

/-- The elements of the list that a value is known to be, each known or not. -/
def listElements? (value : ValueId) : Option (List (Option Int)) := do
  let op ← program.definingOp? value
  if program.kind op = .torch .listConstruct then
    some ((program.operands op).map program.foldInt?)
  else none

/-- The list of integers that a value is known to be. -/
def foldIntList? (value : ValueId) : Option (List Int) :=
  (program.listElements? value).bind fun elements => elements.mapM id

end Program

end TensorIR
