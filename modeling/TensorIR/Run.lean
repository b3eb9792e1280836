import TensorIR.Program.Symbols
import TensorIR.Run.Operation

/-!
# Running lowered programs

A function of a lowered program is run on data. Operations are run one after the other; one that
returns or passes on values ends its block. Loops and branches run the entry blocks of their
regions, and a call runs the body of another function with data of its own.

## Main definitions

* `Body.run` — the operations of a block
* `Program.callWithin` — a function, with calls nested to a given depth
* `Program.run` — a function on data
-/

namespace TensorIR

/-- How a function is called by name. -/
abbrev Caller := String → List Slot → Run (List Slot)

namespace Run

/-- Sets the arguments of a block. -/
def enter (program : Program) (block : BlockId) (arguments : List Slot) : Run Unit := do
  let parameters := (program.header block).arguments
  if parameters.length ≠ arguments.length then
    throw (.failure s!"expected {parameters.length} arguments, but got {arguments.length}")
  for (parameter, argument) in parameters.zip arguments do
    write parameter argument

/-- The lower bound, the upper bound and the step of a loop, and the values that it starts with. -/
def bounds (program : Program) (op : OpId) : Run (Int × Int × Int × List Slot) := do
  match program.operands op with
  | lower :: upper :: step :: initial =>
    let first ← readInt program lower
    let last ← readInt program upper
    let width ← readInt program step
    if width ≤ 0 then throw (.failure "scf.for step must be positive")
    return (first, last, width, ← initial.mapM (read program))
  | _ => throw (.failure "scf.for expects bounds")

/-- The number of rounds of a loop. -/
def rounds (first last width : Int) : Nat :=
  ((last - first + width - 1) / width).toNat

/-- Runs a body a number of times, each round with the next position and the values that the last
round has passed on. -/
def repeated (body : List Slot → Run (List Slot)) (width : Int) :
    Nat → Int → List Slot → Run (List Slot)
  | 0, _, carried => return carried
  | count + 1, position, carried => do
    let next ← body (.scalar (.int position) :: carried)
    repeated body width count (position + width) next

/-- The side of a branch that is taken. -/
def side (program : Program) (op : OpId) : Run Nat := do
  let condition ← operand program op 0
  return if (← readInt program condition) ≠ 0 then 0 else 1

/-- Calls the function that an operation names. -/
def callOp (program : Program) (call : Caller) (op : OpId) : Run (List Slot) := do
  match (program.attributes op).symbol? "callee" with
  | none => throw (.failure "call without callee")
  | some callee =>
    let arguments ← (program.operands op).mapM (read program)
    call (String.ofList (callee.toList.dropWhile (· = '@'))) arguments

/-- Runs an operation without control flow. -/
def plainOp (program : Program) (op : OpId) : Run (List Slot) := do
  match program.kind op with
  | .tosa kind => return [.tensor (← tosaOp program op kind)]
  | .memref kind => memrefOp program op kind
  | _ => return [← scalarOp program op]

/-- Fails because a region that has to be run is missing. -/
def noRegion {α : Type} (program : Program) (op : OpId) (index : Nat) : Run α :=
  throw (.failure s!"{program.opName op} has no region #{index}")

end Run

mutual

/-- Runs the operations of a block. The result is what the operation that ends the block passes
on. -/
def Body.run (program : Program) (call : Caller) : Body → Run (List Slot)
  | .nil => return []
  | .cons op regions rest => do
    match program.kind op with
    | .func .ret | .scf .yield => (program.operands op).mapM (Run.read program)
    | kind =>
      let slots ←
        match kind with
        | .scf .forLoop => do
          let (first, last, width, initial) ← Run.bounds program op
          Run.repeated (fun arguments => Regions.run program call op 0 0 arguments regions) width
            (Run.rounds first last width) first initial
        | .scf .ifElse => do
          let side ← Run.side program op
          Regions.run program call op side side [] regions
        | .func .call => Run.callOp program call op
        | _ => Run.plainOp program op
      for (result, slot) in (program.results op).zip slots do
        Run.write result slot
      Body.run program call rest

/-- Runs the entry block of a region of an operation. -/
def Blocks.run (program : Program) (call : Caller) (op : OpId) (index : Nat)
    (arguments : List Slot) : Blocks → Run (List Slot)
  | .nil => Run.noRegion program op index
  | .cons block body _ => do
    Run.enter program block arguments
    Body.run program call body

/-- Runs the region of an operation that is found after passing over `skipped` regions. -/
def Regions.run (program : Program) (call : Caller) (op : OpId) (index skipped : Nat)
    (arguments : List Slot) : Regions → Run (List Slot)
  | .nil => Run.noRegion program op index
  | .cons blocks rest =>
    match skipped with
    | 0 => Blocks.run program call op index arguments blocks
    | skipped + 1 => Regions.run program call op index skipped arguments rest

end

namespace Program

variable (program : Program)

/-- The function with a given name; of several the last. -/
def function? (name : String) : Option OpId :=
  program.topLevel.reverse.find? fun op =>
    program.kind op = .func .func && program.functionName? op == some name

/-- Calls a function in a frame of its own, with calls nested at most `depth` deep. -/
def callWithin : Nat → Caller
  | 0, name, _ => throw (.failure s!"calls nested too deeply at @{name}")
  | depth + 1, name, arguments => do
    match program.function? name with
    | none => throw (.failure s!"unknown function @{name}")
    | some function =>
      let (block, body) ← monadLift (program.functionBody function)
      -- The frame of the caller comes back afterwards; what was stored in buffers stays.
      let frame := (← get).frame
      modify fun machine => { machine with frame := Array.replicate program.values.size none }
      Run.enter program block arguments
      let results ← Body.run program (callWithin depth) body
      modify fun machine => { machine with frame }
      return results

/-- How deep calls can be nested. -/
def callDepth : Nat := 100000

/-- Runs a function on data. The answer is what it returns, and what its arguments are afterwards. -/
def run (name : String) (arguments : List Data) : Except Error (List Data × List Data) := do
  let step : Run (List Data × List Data) := do
    let slots ← arguments.mapM Run.load
    let results ← program.callWithin callDepth name slots
    return (← results.mapM Run.snapshot, ← slots.mapM Run.snapshot)
  return (← step.run {}).1

end Program

end TensorIR
