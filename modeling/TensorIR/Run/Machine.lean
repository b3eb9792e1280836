import TensorIR.Run.Grid

/-!
# The state of a run

Every call has a frame with the data of its values. Buffers live in a memory that all calls share,
so that what is stored in a buffer is seen wherever it is known.

## Main definitions

* `Data` — what goes into a function and comes out of it
* `Slot` — what a value is during a run
* `Machine`, `Run` — the state of a run, and a step that may fail
-/

namespace TensorIR

/-- An argument or result of a function: a number, a tensor, or a buffer with its contents. -/
inductive Data where
  | scalar (value : Scalar)
  | tensor (contents : Grid)
  | memref (contents : Grid)
  deriving Inhabited

namespace Data

/-- The number. -/
def scalar? : Data → Except Error Scalar
  | scalar value => .ok value
  | _ => failing "expected a scalar, but got an array"

/-- The contents of a tensor or buffer. -/
def array? : Data → Except Error Grid
  | tensor contents | memref contents => .ok contents
  | scalar _ => failing "expected an array, but got a scalar"

/-- The numbers as floating-point numbers. -/
def values : Data → List Float
  | scalar value => [value.toFloat]
  | tensor contents | memref contents => contents.values

end Data

/-- What a value is during a run. A buffer is known by its place in memory. -/
inductive Slot where
  | scalar (value : Scalar)
  | tensor (contents : Grid)
  | buffer (place : Nat)
  deriving Inhabited

/-- The data of the values of a call, and the contents of all buffers. -/
structure Machine where
  frame : Array (Option Slot) := #[]
  memory : Array Grid := #[]

/-- A step of a run, which may fail. -/
abbrev Run := StateT Machine (Except Error)

namespace Run

/-- The data of a value. -/
def read (program : Program) (value : ValueId) : Run Slot := do
  match (← get).frame.getD value.index none with
  | some slot => return slot
  | none => throw (.failure s!"value {program.nameOf value} is not defined")

/-- Sets the data of a value. -/
def write (value : ValueId) (slot : Slot) : Run Unit :=
  modify fun machine => { machine with frame := machine.frame.setIfInBounds value.index (some slot) }

/-- The number that a value is. -/
def readScalar (program : Program) (value : ValueId) : Run Scalar := do
  match ← read program value with
  | .scalar value => return value
  | _ => throw (.failure "expected a scalar, but got an array")

/-- The integer that a value is. -/
def readInt (program : Program) (value : ValueId) : Run Int := do
  return (← readScalar program value).toInt

/-- The floating-point number that a value is. -/
def readFloat (program : Program) (value : ValueId) : Run Float := do
  return (← readScalar program value).toFloat

/-- The contents of a buffer. -/
def contents (place : Nat) : Run Grid := do
  return (← get).memory.getD place default

/-- The array that a value is. -/
def readGrid (program : Program) (value : ValueId) : Run Grid := do
  match ← read program value with
  | .tensor grid => return grid
  | .buffer place => contents place
  | .scalar _ => throw (.failure "expected an array, but got a scalar")

/-- A new buffer. -/
def allocate (grid : Grid) : Run Slot := do
  let machine ← get
  set { machine with memory := machine.memory.push grid }
  return .buffer machine.memory.size

/-- Changes an element of a buffer. -/
def storeAt (place : Nat) (position : List Int) (value : Scalar) : Run Unit := do
  let offset ← (← contents place).offset position
  modify fun machine =>
    { machine with
      memory := machine.memory.modify place fun grid =>
        { grid with data := grid.data.setIfInBounds offset value } }

/-- Data as it goes into a call. A buffer gets a place in memory. -/
def load : Data → Run Slot
  | .scalar value => return .scalar value
  | .tensor grid => return .tensor grid
  | .memref grid => allocate grid

/-- Data as it is now. -/
def snapshot : Slot → Run Data
  | .scalar value => return .scalar value
  | .tensor grid => return .tensor grid
  | .buffer place => return .memref (← contents place)

end Run

end TensorIR
