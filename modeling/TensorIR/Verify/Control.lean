import TensorIR.Program.Symbols

/-!
# Rules for functions and control flow

The values that leave a region have to fit what is declared around it. Before lowering a value may
have a more precise type than declared; after lowering the types are equal.

## Main definitions

* `Program.verifyFunc`, `Program.verifyScf`, `Program.verifyTorchControl` — the rule for each kind
-/

namespace TensorIR

/-- A value of the first type can stand where one of the second is expected. -/
def Ty.isAssignable : Ty → Ty → Bool
  | .torch actual, .torch expected => actual.isSubtype expected
  | actual, expected => actual.same expected

/-- Fails unless the types of values fit the expected ones. -/
def checkAssignable (what : String) (actual expected : List Ty) : Except Error Unit := do
  if actual.length ≠ expected.length then
    failing s!"{what}: expected {expected.length} values, but got {actual.length}"
  for ((type, wanted), index) in (actual.zip expected).zipIdx do
    unless type.isAssignable wanted do
      failing s!"{what}: type of #{index} is {type.text}, but {wanted.text} is expected"

/-- Fails unless the types of values are the expected ones. -/
def checkSameTypes (what : String) (actual expected : List Ty) : Except Error Unit := do
  unless Ty.sameEach actual expected do
    failing s!"{what} types ({typesText actual}) do not match ({typesText expected})"

namespace Program

variable (program : Program)

/-- The last operation of the entry block of a region, if it has a given kind. -/
def terminatorOf? (region : Option Blocks) (kind : OpKind) : Option OpId := do
  let (_, body) ← (← region).entryBlock?
  let last ← body.last?
  if program.kind last = kind then some last else none

/-- Fails unless an operation lies directly in one of the given kinds. -/
def expectParent (op : OpId) (allowed : List OpKind) (names : String) : Except Error Unit :=
  match (program.parent? op).map program.kind with
  | some kind => if allowed.contains kind then .ok () else failing s!"expects parent op {names}"
  | none => failing s!"expects parent op {names}"

/-- Fails unless values that are passed on fit the expected types. -/
def checkForwarded (what : String) (values : List ValueId) (expected : List Ty) :
    Except Error Unit := do
  if values.length ≠ expected.length then
    failing s!"{what} passes {values.length} values, but {expected.length} are expected"
  for ((value, wanted), index) in (values.zip expected).zipIdx do
    let actual ← program.typed value
    unless actual.isAssignable wanted do
      failing s!"{what} value #{index} has type {actual.text}, but {wanted.text} is expected"

/-- The rule for functions, their calls and their ends. -/
def verifyFunc (symbols : SymbolTable) (op : OpId) : FuncKind → Except Error Unit
  | .func => do
    let _ ← program.functionBody op
    let some last := program.terminatorOf? ((program.regionsOf op).get? 0) (.func .ret)
      | failing "body must end with 'return'"
    checkAssignable "return" (← program.typedOperands last) (← program.typedResults op)
  | .ret => program.expectParent op [.func .func] "'func.func'"
  | .call => do
    let some callee := (program.attributes op).symbol? "callee" | failing "missing callee"
    let some signature := symbols.function? callee | failing s!"unknown function @{callee}"
    checkAssignable "arguments" (← program.typedOperands op) signature.inputs
    checkAssignable "results" signature.outputs (← program.typedResults op)

/-- The types of the values that leave a region. -/
def yieldedTypes (region : Blocks) : Except Error (List Ty) :=
  match program.terminatorOf? (some region) (.scf .yield) with
  | some last => program.typedOperands last
  | none => failing "region must end with 'scf.yield'"

/-- The rule for counted loops. -/
def verifyFor (op : OpId) : Except Error Unit := do
  let operands ← program.typedOperands op
  if operands.length < 3 then failing "expected lower bound, upper bound and step"
  if (operands.take 3).any (· ≠ .scalar .index) then
    failing "bounds and step must be of type index"
  let results ← program.typedResults op
  checkSameTypes "iter_args" (operands.drop 3) results
  let some region := (program.regionsOf op).get? 0 | failing "Expected scf.for to have a body"
  let some (block, _) := region.entryBlock? | failing "Expected scf.for to have a body"
  let arguments ← (program.header block).arguments.mapM program.typed
  if arguments.head? ≠ some (.scalar .index) then
    failing "induction variable must be of type index"
  checkSameTypes "region argument" (arguments.drop 1) results
  checkSameTypes "yield" (← program.yieldedTypes region) results

/-- The rule for choices between two regions. -/
def verifyChoice (op : OpId) : Except Error Unit := do
  if (← program.typedOperands op) ≠ [.scalar .i1] then failing "condition must be a single i1"
  let regions := (program.regionsOf op).toList
  if regions.length ≠ 2 then failing "requires a then and an else region"
  let results ← program.typedResults op
  for region in regions do
    unless (Regions.heads.blockHeads region).isEmpty && results.isEmpty do
      checkSameTypes "yield" (← program.yieldedTypes region) results

/-- The rule for control flow after lowering. -/
def verifyScf (op : OpId) : ScfKind → Except Error Unit
  | .forLoop => program.verifyFor op
  | .ifElse => program.verifyChoice op
  | .yield => program.expectParent op [.scf .forLoop, .scf .ifElse] "'scf.for' or 'scf.if'"

/-- The torch type of an operand. -/
def operandType (op : OpId) (index : Nat) : Except Error TorchType := do
  match program.torchTypeOf? (← program.operand op index) with
  | some type => return type
  | none => failing s!"expected operand #{index} to have a torch type"

/-- The torch type of a result. -/
def resultType (op : OpId) (index : Nat) : Except Error TorchType := do
  match program.torchTypeOf? (← program.result op index) with
  | some type => return type
  | none => failing s!"expected result #{index} to have a torch type"

/-- The rule for branches before lowering. -/
def verifyBranch (op : OpId) : Except Error Unit := do
  let condition ← program.operandType op 0
  if condition ≠ .bool then failing s!"condition must be !torch.bool, but got {condition.text}"
  let regions := (program.regionsOf op).toList
  if regions.length ≠ 2 then
    failing s!"requires a then and an else region, but has {regions.length} regions"
  let results ← program.typedResults op
  for (what, region) in ["then", "else"].zip regions do
    let some last := program.terminatorOf? (some region) (.torch .primIfYield)
      | failing s!"{what} region must end with 'torch.prim.If.yield'"
    program.checkForwarded s!"{what} branch" (program.operands last) results

/-- The rule for loops before lowering. -/
def verifyLoop (op : OpId) : Except Error Unit := do
  let trips ← program.operandType op 0
  let initial ← program.operandType op 1
  if trips ≠ .int ∨ initial ≠ .bool then
    failing <|
      "expects a !torch.int trip count and a !torch.bool condition, but got " ++
        trips.text ++ " and " ++ initial.text
  let results ← program.typedResults op
  program.checkForwarded "init" ((program.operands op).drop 2) results
  let some region := (program.regionsOf op).get? 0 | failing "requires a body block"
  let some (block, _) := region.entryBlock? | failing "requires a body block"
  let arguments := (program.header block).arguments
  if arguments.length ≠ results.length + 1 then
    failing s!"body must take the iteration number and {results.length} loop-carried values"
  if (arguments.head?).bind program.torchTypeOf? ≠ some .int then
    failing "iteration number must be !torch.int"
  for ((argument, expected), index) in ((arguments.drop 1).zip results).zipIdx do
    let actual ← program.typed argument
    unless actual.same expected do
      failing <|
        s!"loop-carried argument #{index} has type {actual.text}, but the result has type " ++
          expected.text
  let some last := program.terminatorOf? (some region) (.torch .primLoopCondition)
    | failing "body must end with 'torch.prim.Loop.condition'"
  let operands := program.operands last
  if (operands.head?).bind program.torchTypeOf? ≠ some .bool then
    failing "condition must be !torch.bool"
  program.checkForwarded "condition" (operands.drop 1) results

/-- The rule for control flow before lowering. -/
def verifyTorchControl (op : OpId) : TorchKind → Except Error Unit
  | .primIf => program.verifyBranch op
  | .primIfYield => program.expectParent op [.torch .primIf] "'torch.prim.If'"
  | .primLoop => program.verifyLoop op
  | .primLoopCondition => program.expectParent op [.torch .primLoop] "'torch.prim.Loop'"
  | _ => .ok ()

end Program

end TensorIR
