import TensorIR.Program.Basic

/-!
# Uses of values

A result can be used by the operations that follow the one that computes it in its block, and by
everything inside them; an argument by everything inside its block. A use is an operand that is the
value.

## Main definitions

* `Program.scopeOf` — the operations that can see a value
* `Program.usesOf` — its uses, in program order
* `Program.replaceUses` — another value in place of it
-/

namespace TensorIR

/-- An operand: an operation and a position. -/
structure Use where
  op : OpId
  index : Nat
  deriving DecidableEq, Repr, Inhabited

namespace Program

variable (program : Program)

/-- The operations that can see a value, in program order. -/
def scopeOf (value : ValueId) : List OpId :=
  match (program.value value).origin with
  | .result op => ((program.visit? op).map fun visit => visit.rest.ops).getD []
  | .argument (some block) => ((program.bodyOf? block).map Body.ops).getD []
  | .argument none | .signature => []

/-- The operands of an operation that are a given value. -/
def usesIn (value : ValueId) (op : OpId) : List Use :=
  (program.operands op).zipIdx.filterMap fun (operand, index) =>
    if operand = value then some ⟨op, index⟩ else none

/-- The uses of a value, in program order. -/
def usesOf (value : ValueId) : List Use :=
  (program.scopeOf value).flatMap (program.usesIn value)

/-- The value has a use. -/
def hasUses (value : ValueId) : Bool :=
  !(program.usesOf value).isEmpty

/-- The uses of all results of an operation, or nothing if it has no results. -/
def usersOf? (op : OpId) : Option (List Use) :=
  let results := program.results op
  if results.isEmpty then none else some (results.flatMap program.usesOf)

/-- The number of uses of the results of an operation. -/
def userCount (op : OpId) : Nat :=
  ((program.usersOf? op).map List.length).getD 0

/-- The program with another value at a use. -/
def setUse (use : Use) (value : ValueId) : Program :=
  program.setOperand use.op use.index value

/-- The program with another value at each use of a value. -/
def replaceUses (old new : ValueId) : Program :=
  (program.usesOf old).foldl (fun changed use => changed.setUse use new) program

/-- The values that an operation introduces: its results, and the arguments of its blocks. -/
def introducedBy (visit : Visit) : List ValueId :=
  program.results visit.op ++
    (visit.regions.toList.flatMap Blocks.names).flatMap fun block => (program.header block).arguments

/-- All values, in the order in which operations introduce them. -/
def listedValues : List ValueId :=
  program.visits.flatMap program.introducedBy

/-- The first value with a given name. -/
def valueNamed? (name : String) : Option ValueId :=
  program.listedValues.find? fun value => (program.value value).name == some name

end Program

end TensorIR
