import TensorIR.Program.Rewrite

/-!
# Canonical programs

Canonicalization applies three rewrites as often as possible: redundant casts, copies, branches and
loops are taken away, results that are known become constants, and operations without effects whose
results are not used are dropped.

## Main definitions

* `Rewrite.simplify` — casts, copies, branches and loops that can be decided
* `Rewrite.foldConstant` — a known result as a constant
* `Rewrite.dropDead` — an unused operation without effects
* `Change.canonicalize` — all three
-/

namespace TensorIR

namespace Rewrite

/-- A cast to the type that the operand has, or that a cast behind it started from. -/
def simplifyCast : Rewrite := fun op => do
  let operand ← Change.askFor fun program => program.operand op 0
  let result ← Change.askFor fun program => program.result op 0
  let type ← Change.askFor fun program => program.typed result
  let operandType ← Change.askFor fun program => program.typed operand
  if operandType.same type then
    Change.supersede op operand
    return true
  let now ← Change.program
  match now.definingOp? operand with
  | none => return false
  | some producer =>
    if now.kind producer ≠ .torch .tensorStaticInfoCast then return false
    let source ← Change.askFor fun program => program.operand producer 0
    let sourceType ← Change.askFor fun program => program.typed source
    if sourceType.same type then
      Change.supersede op source
      return true
    return false

/-- A copy with value semantics of a copy that is not used elsewhere. -/
def simplifyCopy : Rewrite := fun op => do
  let operand ← Change.askFor fun program => program.operand op 0
  let now ← Change.program
  match now.definingOp? operand with
  | none => return false
  | some producer =>
    if now.kind producer ≠ .torch .copyToTensor ∨ (now.usesOf operand).length ≠ 1 then return false
    let source ← Change.askFor fun program => program.operand producer 0
    Change.supersede op source
    Change.erase producer
    return true

/-- A branch with a known condition: the operations of the side that is taken come in its place. -/
def simplifyBranch : Rewrite := fun op => do
  let condition ← Change.askFor fun program => program.operand op 0
  let now ← Change.program
  match now.foldBool? condition with
  | none => return false
  | some taken =>
    let side := if taken then 0 else 1
    match (now.regionsOf op).get? side with
    | none => return false
    | some blocks =>
      let some (_, body) := blocks.entryBlock? | throw (.failure "expected a region with a block")
      let some (front, last, inside) := body.splitLast?
        | throw (.failure "expected a terminator")
      Change.expectPlace op "insert_before"
      -- Only the end of the side stays behind in the branch.
      let emptied := Blocks.withEntryBody (.single last inside)
      modify fun program => program.alterAt op fun regions rest =>
        front.append (.cons op (regions.modify side emptied) rest)
      Change.supersedeAll op (now.operands last)
      return true

/-- A loop whose body is known not to run: its results are the initial values. -/
def simplifyLoop : Rewrite := fun op => do
  let now ← Change.program
  let operands := now.operands op
  let rounds := (operands[0]?).bind now.foldInt?
  let initial := (operands[1]?).bind now.foldBool?
  if rounds.any (· ≤ 0) || initial == some false then
    Change.supersedeAll op (operands.drop 2)
    return true
  return false

/-- Takes away casts, copies, branches and loops that can be decided. -/
def simplify : Rewrite := fun op => do
  match ← Change.ask fun program => program.kind op with
  | .torch .tensorStaticInfoCast => simplifyCast op
  | .torch .copyToVtensor => simplifyCopy op
  | .torch .primIf => simplifyBranch op
  | .torch .primLoop => simplifyLoop op
  | _ => return false

/-- The operation is no constant, has no effect and has one result, which is known. -/
def knownResult? (program : Program) (op : OpId) : Option Literal :=
  let kind := program.kind op
  if kind.isPure && !kind.isConst && (program.results op).length == 1 then program.fold? op
  else none

/-- A constant in place of an operation without effects whose one result is known. -/
def foldConstant : Rewrite := fun op => do
  match ← Change.ask fun program => knownResult? program op with
  | none => return false
  | some literal =>
    let result ← Change.askFor fun program => program.result op 0
    let type ← Change.askFor fun program => program.typed result
    match ← Change.build op (Build.literal literal type) with
    | none => return false
    | some constant =>
      Change.supersede op constant
      return true

/-- The operation has no effect, and it has results, none of which is used. -/
def isDead (program : Program) (op : OpId) : Bool :=
  (program.kind op).isPure && (program.usersOf? op).any List.isEmpty

/-- Drops an operation without effects whose results are not used. -/
def dropDead : Rewrite := fun op => do
  if ← Change.ask fun program => isDead program op then
    Change.erase op
    return true
  return false

end Rewrite

namespace Change

/-- Brings a program into canonical form. The answer is whether it was changed. -/
def canonicalize : Change Bool :=
  Rewrite.exhaust [Rewrite.simplify, Rewrite.foldConstant, Rewrite.dropDead]

/-- Drops operations without effects whose results are not used. -/
def dropDead : Change Bool :=
  Rewrite.exhaust [Rewrite.dropDead]

end Change

end TensorIR
