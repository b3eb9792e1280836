import TensorIR.Program.Edit
import TensorIR.Program.Symbols

/-!
# Lowering targets

A program is lowered to one of two representations: loops over buffers, or operations on whole
tensors. Tensors and scalars have a counterpart in both. Other torch types have none; their values
are parameters that must be known before the program runs.

## Main definitions

* `Target` — the two representations
* `Target.lowered?` — the counterpart of a type
* `Program.convertSignatures` — functions and calls with the counterparts of their types
-/

namespace TensorIR

/-- The representation that a program is lowered to. -/
inductive Target where
  /-- Loops over buffers. -/
  | loops
  /-- Operations on whole tensors. -/
  | tosa
  deriving DecidableEq, Repr, Inhabited

/-- The shape and the type of the stored elements, if everything is known about a tensor. -/
def TensorInfo.storage? (info : TensorInfo) : Option (List Int × ScalarType) := do
  let shape ← info.staticShape?
  let dtype ← info.dtype
  return (shape, dtype.storage)

namespace Target

/-- The name of a lowering in messages. -/
def name : Target → String
  | loops => "torch-to-loops"
  | tosa => "torch-to-tosa"

/-- The type of a tensor of a given shape. -/
def ofShape (target : Target) (shape : List Int) (element : ScalarType) : Ty :=
  .shaped <|
    match target with
    | loops => .memref shape element
    | tosa => .tensor shape element

/-- The type of a single number: a scalar among loops, a tensor without dimensions otherwise. -/
def ofScalar (target : Target) (type : ScalarType) : Ty :=
  match target with
  | loops => .scalar type
  | tosa => .shaped (.tensor [] type)

/-- The counterpart of a type, if there is one. Types of lowered programs are their own
counterparts. Everything must be known about a tensor. -/
def lowered? (target : Target) : Ty → Except Error (Option Ty)
  | .torch .int => .ok (some (target.ofScalar .i64))
  | .torch .float => .ok (some (target.ofScalar .f64))
  | .torch .bool => .ok (some (target.ofScalar .i1))
  | .torch (.vtensor info) =>
    match info.storage? with
    | some (shape, element) => .ok (some (target.ofShape shape element))
    | none =>
      failing s!"cannot lower {(TorchType.vtensor info).text}; the shape and dtype have to be static"
  | .torch _ => .ok none
  | type => .ok (some type)

/-- The counterpart of a type that must have one. -/
def counterpart (target : Target) (type : Ty) : Except Error Ty := do
  match ← target.lowered? type with
  | some lowered => return lowered
  | none => failing s!"type {type.text} has no counterpart in the {target.name} pipeline"

end Target

namespace Program

variable (program : Program)

/-- The counterparts of the types of the arguments and results of a function. -/
def loweredSignature (target : Target) (op : OpId) :
    Except Error (Except Error (List Ty) × Except Error (List Ty)) := do
  let (block, _) ← program.functionBody op
  let inputs ← (program.header block).arguments.mapM program.typed
  let outputs ← program.typedResults op
  return (inputs.mapM target.counterpart, outputs.mapM target.counterpart)

/-- The program with values that state the given types as the results of a function. -/
def withOutputs (op : OpId) (outputs : List Ty) : Program :=
  let (changed, results) := outputs.foldl
    (fun (now, results) type =>
      let (id, next) := now.addValue ⟨none, some type, .signature⟩
      (next, results ++ [id]))
    (program, [])
  changed.modifyOperation op fun operation => { operation with results }

end Program

namespace Change

/-- Gives a function the counterparts of its types. The arguments stay the same values. -/
def convertFunction (target : Target) (op : OpId) : Change Unit := do
  let now ← program
  match ← askFor fun program => program.loweredSignature target op with
  | (.ok inputs, .ok outputs) =>
    let (block, _) ← askFor fun program => program.functionBody op
    for (argument, type) in (now.header block).arguments.zip inputs do
      modify fun program => program.setType argument type
    modify fun program => program.withOutputs op outputs
  | (.error error, _) | (.ok _, .error error) => throw (now.unsupported op error.message)

/-- Gives the results of a call the counterparts of their types. -/
def convertCall (target : Target) (op : OpId) : Change Unit := do
  for result in ← ask fun program => program.results op do
    let now ← program
    match now.typed result >>= target.counterpart with
    | .ok type => modify fun program => program.setType result type
    | .error error => throw (now.unsupported op error.message)

/-- Gives a function or a call the counterparts of its types. -/
def convertOp (target : Target) (op : OpId) : Change Unit := do
  match ← ask fun program => program.kind op with
  | .func .func => convertFunction target op
  | .func .call => convertCall target op
  | _ => return

/-- Gives functions and calls among the given operations the counterparts of their types. -/
def convertEach (target : Target) : List OpId → Change Unit
  | [] => return
  | op :: ops => do
    convertOp target op
    convertEach target ops

/-- Gives all functions and calls the counterparts of their types. -/
def convertSignatures (target : Target) : Change Unit := do
  convertEach target (← ask fun program => program.tree.ops)

end Change

end TensorIR
