import TensorIR.Program.Infer
import TensorIR.Program.Rewrite

/-!
# More precise types

Where the type of a result follows from the operands and is more precise than the declared one, it
becomes the type of the result. Users that cannot take the more precise type keep the declared one,
through a cast.

## Main definitions

* `Program.refinements` — the results of an operation whose type can be made more precise
* `Change.refineTypes` — makes all types as precise as they follow
-/

namespace TensorIR

/-- A result of an operation with its declared type and a more precise one. -/
structure Refinement where
  result : ValueId
  declared : TorchType
  refined : TorchType

namespace Program

variable (program : Program)

/-- The more precise type of one result, if there is one. -/
def refinement? (op : OpId) (inferred : Ty) (index : Nat) : Except Error (Option Refinement) := do
  let result ← program.result op index
  match ← program.typed result, inferred with
  | .torch declared, .torch inferred =>
    match declared.meet? inferred with
    | some refined =>
      return if refined = declared then none else some ⟨result, declared, refined⟩
    | none =>
      throw (.refinementConflict (program.operation op).location declared.text inferred.text)
  | _, _ => return none

/-- The results of an operation whose type can be made more precise. -/
def refinements (op : OpId) : Except Error (List Refinement) :=
  if (program.kind op).allowsRefinement then
    match program.inferTypes op with
    | .error error => .error (program.violation op error.message)
    | .ok none => .ok []
    | .ok (some types) => do
      let found ← types.zipIdx.mapM fun (type, index) => program.refinement? op type index
      return found.filterMap id
  else .ok []

end Program

namespace Rewrite

/-- Gives a result its more precise type. Users that cannot take it get a cast back to the declared
type. -/
def refineResult (op : OpId) (refinement : Refinement) : Change Unit := do
  let now ← Change.program
  let fixed := (now.usesOf refinement.result).filter fun use =>
    !(now.kind use.op).allowsRefinement
  unless fixed.isEmpty do
    let cast ← Change.build op
      (Build.value (.torch .tensorStaticInfoCast) [refinement.result] (.torch refinement.declared))
      .after
    for use in fixed do
      modify fun program => program.setUse use cast
  modify fun program => program.setType refinement.result (.torch refinement.refined)

/-- Makes the types of the results of an operation more precise. -/
def refine : Rewrite := fun op => do
  match ← Change.askFor fun program => program.refinements op with
  | [] => return false
  | found =>
    for refinement in found do
      refineResult op refinement
    return true

end Rewrite

namespace Change

/-- Makes the types of all results as precise as they follow. The answer is whether any type was
changed. -/
def refineTypes : Change Bool :=
  Rewrite.exhaust [Rewrite.refine]

end Change

end TensorIR
