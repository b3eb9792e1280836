import TensorIR.Program.Uses

/-!
# Changing programs

A change runs on a program and may fail on the way; what it has changed until then stays changed.
Operations are taken out of the tree together with what is inside them and are put back before or
after an anchor, or in place of another operation, whose results they then compute. What is inside
an operation keeps its nesting also while the operation is in no block.

## Main definitions

* `Change` — a change of a program that may fail
* `Change.erase`, `Change.insertBefore`, `Change.insertAfter`, `Change.replace` — the changes of
  the tree
-/

namespace TensorIR

/-- A change of a program. When it fails the program stays as it was at that point. -/
abbrev Change := ExceptT Error (StateM Program)

namespace Change

/-- The program as it is now. -/
def program : Change Program := get

/-- What a function makes of the program as it is now. -/
def ask {α : Type} (question : Program → α) : Change α := do
  return question (← get)

/-- What a function that may fail makes of the program as it is now. -/
def askFor {α : Type} (question : Program → Except Error α) : Change α := do
  match question (← get) with
  | .ok answer => return answer
  | .error error => throw error

/-- A new entry of one of the tables. -/
def add {α : Type} (addition : Program → α × Program) : Change α := do
  let (id, changed) := addition (← get)
  set changed
  return id

/-- Fails unless an operation can be found in its block. -/
def expectPlace (op : OpId) (action : String) : Change Unit := do
  let now ← program
  if op = now.root then throw (.failure s!"{now.opName op} has no parent block")
  if (now.visit? op).isNone then
    throw (.failure s!"could not find {now.opName op} in its parent block during {action}")

/-- Takes an operation out of its block. What is inside it stays together. -/
def erase (op : OpId) : Change Unit := do
  expectPlace op "remove"
  modify fun now => (now.alterAt op fun _ rest => rest).keep op (now.regionsOf op)

/-- The regions that an operation which has left the tree brings along to an anchor. If the anchor is
inside the operation, they stay where they are. -/
def bringAlong (op anchor : OpId) : Change Regions := do
  let now ← program
  match now.removed.lookup op with
  | none => return .nil
  | some inside =>
    if inside.ops.contains anchor then return .nil
    set { now with removed := now.removed.filter (·.1 ≠ op) }
    return inside

/-- Puts an operation that is in no block before an anchor in the anchor's block. -/
def insertBefore (anchor op : OpId) : Change Unit := do
  expectPlace anchor "insert_before"
  let inside ← bringAlong op anchor
  modify fun now => now.alterAt anchor fun regions rest =>
    .cons op inside (.cons anchor regions rest)

/-- Puts an operation that is in no block after an anchor in the anchor's block. -/
def insertAfter (anchor op : OpId) : Change Unit := do
  expectPlace anchor "insert_after"
  let inside ← bringAlong op anchor
  modify fun now => now.alterAt anchor fun regions rest =>
    .cons anchor regions (.cons op inside rest)

/-- Makes an operation compute the results of another one. -/
def takeResults (old new : OpId) : Change Unit := do
  let results ← ask fun now => now.results old
  for result in results do
    modify fun now => now.setDefiningOp result new
  modify fun now => now.modifyOperation new fun operation => { operation with results }

/-- Puts an operation that is in no block in place of another one, whose results it computes from
then on. -/
def replace (old new : OpId) : Change Unit := do
  takeResults old new
  if old ≠ (← program).root then
    expectPlace old "replace"
    let inside ← bringAlong new old
    modify fun now => (now.alterAt old fun _ rest => .cons new inside rest).keep old (now.regionsOf old)

/-- Moves an operation to the place before an anchor. -/
def moveBefore (op anchor : OpId) : Change Unit := do
  erase op
  insertBefore anchor op

/-- Moves an operation to the place after an anchor. -/
def moveAfter (op anchor : OpId) : Change Unit := do
  erase op
  insertAfter anchor op

/-- Moves an operation to the place of another one. -/
def substitute (old new : OpId) : Change Unit := do
  erase new
  replace old new

end Change

end TensorIR
