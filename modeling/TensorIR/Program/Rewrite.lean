import TensorIR.Program.Build

/-!
# Rewriting programs

A rewrite looks at one operation and either changes the program around it or leaves it alone. A list
of rewrites is applied until none of them changes anything: each is tried on all operations in
program order, and after the first change everything starts over.

## Main definitions

* `Rewrite` — one way to change a program at an operation
* `Rewrite.exhaust` — a list of rewrites, applied as often as possible
-/

namespace TensorIR

/-- One way to change a program at an operation. The answer is whether it was changed. -/
abbrev Rewrite := OpId → Change Bool

namespace Rewrite

section Repetition

variable {m : Type → Type} [Monad m]

/-- Tries a rewrite on operations until it changes something. -/
def tryEach (rewrite : OpId → m Bool) : List OpId → m Bool
  | [] => return false
  | op :: ops => do
    if ← rewrite op then return true
    tryEach rewrite ops

/-- Takes a step until it changes nothing, at most `fuel` times. The answer is whether anything was
changed. -/
def repeatWithin (step : m Bool) : Nat → m Bool
  | 0 => return false
  | fuel + 1 => do
    if ← step then
      -- Something has been changed, whatever the later steps do.
      let _ ← repeatWithin step fuel
      return true
    else return false

/-- The number of changes after which rewriting stops. -/
def limit : Nat := 10240

/-- Takes a step until it changes nothing. The answer is whether anything was changed. -/
def untilStable (step : m Bool) : m Bool :=
  repeatWithin step limit

end Repetition

/-- Tries rewrites, each on all operations in program order, until one changes something. -/
def tryAll : List Rewrite → Change Bool
  | [] => return false
  | rewrite :: rewrites => do
    if ← tryEach rewrite (← Change.ask fun program => program.tree.ops) then return true
    tryAll rewrites

/-- Applies rewrites until none of them changes anything. The answer is whether anything was
changed. -/
def exhaust (rewrites : List Rewrite) : Change Bool :=
  untilStable (tryAll rewrites)

end Rewrite

namespace Change

/-- Puts a value in place of the only result of an operation and takes the operation away. -/
def supersede (op : OpId) (value : ValueId) : Change Unit := do
  let result ← askFor fun program => program.result op 0
  modify fun program => program.replaceUses result value
  erase op

/-- Puts values in place of the results of an operation, as far as there are both, and takes the
operation away. -/
def supersedeAll (op : OpId) (values : List ValueId) : Change Unit := do
  let results ← ask fun program => program.results op
  for (result, value) in results.zip values do
    modify fun program => program.replaceUses result value
  erase op

end Change

end TensorIR
