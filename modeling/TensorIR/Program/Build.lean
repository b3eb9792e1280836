import TensorIR.Program.Edit
import TensorIR.Program.Fold
import TensorIR.Program.Names

/-!
# Building operations

New operations are built for a place next to one operation, the anchor. They are gathered in a body
of their own, which is put into the tree at once when the building ends, also when it fails on the
way. Loops and branches gather their operations in bodies inside.

Names come from one supply for the whole function. Constant positions are shared: each is built once
and stands in front of everything else that is built before the anchor, so that it is visible in
every loop.

## Main definitions

* `Draft`, `Build` — what has been built so far, and a step of building
* `Build.value`, `Build.index`, `Build.literal` — operations with one result
* `Build.forLoop`, `Build.ifElse`, `Build.loopNest` — loops and branches
* `Change.build` — building next to an anchor
-/

namespace TensorIR

/-- The side of the anchor on which operations are put. -/
inductive Placement where
  | before
  | after
  deriving DecidableEq, Repr

/-- What has been built so far. -/
structure Draft where
  program : Program
  anchor : OpId
  placement : Placement
  namer : Namer
  /-- The constant positions that have been built. -/
  indices : List (Int × ValueId) := []
  /-- Something stands directly before the anchor already. -/
  started : Bool := false
  /-- The constant position that was built before anything else. -/
  lead : Body := .nil
  /-- The other constant positions. -/
  hoisted : Body := .nil
  /-- The operations of the body that is being built. -/
  code : Body := .nil

/-- A step of building, which may fail. What has been built until then is kept. -/
abbrev Build := ExceptT Error (StateM Draft)

namespace Build

/-- What a function makes of the program as it is now. -/
def ask {α : Type} (question : Program → α) : Build α := do
  return question (← get).program

/-- The result of a function that may fail, on the program as it is now. -/
def askFor {α : Type} (question : Program → Except Error α) : Build α := do
  match question (← get).program with
  | .ok answer => return answer
  | .error error => throw error

/-- A new entry of one of the tables. -/
def add {α : Type} (addition : Program → α × Program) : Build α := do
  let draft ← get
  let (id, program) := addition draft.program
  set { draft with program }
  return id

/-- A new name from the supply. -/
def named (supply : Namer → String × Namer) : Build String := do
  let draft ← get
  let (name, namer) := supply draft.namer
  set { draft with namer }
  return name

/-- A new numbered name. -/
def fresh : Build String := named Namer.fresh

/-- A new name made from a word. -/
def freshNamed (base : String) : Build String := named (·.freshNamed base)

/-- Fails if nothing can be put next to the anchor. -/
def expectPlace : Build Unit := do
  let draft ← get
  if draft.anchor = draft.program.root then
    throw (.failure s!"{draft.program.opName draft.anchor} has no parent block")

/-- A new operation with named results, which is not part of a body yet. It takes the place in the
source text from the anchor. -/
def define (kind : OpKind) (operands : List ValueId) (results : List (String × Ty))
    (attributes : Attributes := .empty) : Build OpId := do
  let location ← do
    let draft ← get
    pure (draft.program.operation draft.anchor).location
  let op ← add (·.addOperation { kind, operands, attributes, location })
  let ids ← results.mapM fun (name, type) =>
    add (·.addValue ⟨some name, some type, .result op⟩)
  modify fun draft =>
    { draft with
      program := draft.program.modifyOperation op fun operation => { operation with results := ids } }
  expectPlace
  return op

/-- A new operation with results of the given types under numbered names. -/
def allocate (kind : OpKind) (operands : List ValueId) (types : List Ty)
    (attributes : Attributes := .empty) : Build OpId := do
  let results ← types.mapM fun type => return (← fresh, type)
  let op ← define kind operands results attributes
  modify fun draft => { draft with started := draft.started || draft.placement == .before }
  return op

/-- Puts an operation at the end of the body. -/
def append (op : OpId) (inside : Regions := .nil) : Build Unit :=
  modify fun draft => { draft with code := draft.code.append (.single op inside) }

/-- A new operation at the end of the body. -/
def create (kind : OpKind) (operands : List ValueId) (types : List Ty)
    (attributes : Attributes := .empty) : Build OpId := do
  let op ← allocate kind operands types attributes
  append op
  return op

/-- The result of a new operation. -/
def value (kind : OpKind) (operands : List ValueId) (type : Ty)
    (attributes : Attributes := .empty) : Build ValueId := do
  let op ← create kind operands [type] attributes
  askFor fun program => program.result op 0

/-- A new operation without results. -/
def emit (kind : OpKind) (operands : List ValueId) : Build Unit := do
  let _ ← create kind operands []

/-- The attributes of a constant. -/
def constantAttributes : Option Attribute → Attributes
  | some value => Attributes.empty.insert "value" value
  | none => .empty

/-- A new constant under a given name. -/
def constant (kind : OpKind) (name : String) (value : Option Attribute) (type : Ty) :
    Build ValueId := do
  let op ← define kind [] [(name, type)] (constantAttributes value)
  modify fun draft => { draft with started := draft.started || draft.placement == .before }
  append op
  askFor fun program => program.result op 0

/-- Puts a constant in front of everything else that is built. -/
def hoist (op : OpId) : Build Unit :=
  modify fun draft =>
    if draft.started then { draft with hoisted := draft.hoisted.append (.single op .nil) }
    else { draft with started := true, lead := .single op .nil }

/-- A constant position. -/
def index (position : Int) : Build ValueId := do
  match (← get).indices.lookup position with
  | some known => return known
  | none =>
    let name ← if position ≥ 0 then freshNamed s!"c{position}" else fresh
    let op ← define (.arith .constant) [] [(name, .scalar .index)]
      (constantAttributes (some (.int position)))
    hoist op
    let id ← askFor fun program => program.result op 0
    modify fun draft => { draft with indices := (position, id) :: draft.indices }
    return id

/-- A constant integer. -/
def int (value : Int) (type : ScalarType) : Build ValueId := do
  let name ← freshNamed s!"c{value.natAbs}_{type.text}"
  constant (.arith .constant) name (some (.int value)) (.scalar type)

/-- A constant floating-point number. -/
def float (value : Float) (type : ScalarType) : Build ValueId := do
  let name ← freshNamed "cst"
  constant (.arith .constant) name (some (.float value)) (.scalar type)

/-- A constant scalar; for an integer type the number is cut to an integer. -/
def scalar (value : Float) (type : ScalarType) : Build ValueId :=
  if type.isFloat then float value type else int (Number.truncateToInt value) type

/-- A literal as a constant of a scalar type, unless it cannot have the type. -/
def scalarLiteral (literal : Literal) (type : ScalarType) : Build (Option ValueId) :=
  match literal, type.isFloat with
  | .float value, true => some <$> float value type
  | .int value, true => some <$> float (Float.ofInt value) type
  | .int value, false => some <$> int value type
  | .bool value, false => some <$> int (if value then 1 else 0) type
  | _, _ => pure none

/-- The word from which the name of a constant integer is made. -/
def intWord (value : Int) : String :=
  if value ≥ 0 then s!"int{value}" else s!"int_{value.natAbs}"

/-- A literal as a constant of a torch type, unless it cannot have the type. -/
def torchLiteral (literal : Literal) (type : TorchType) : Build (Option ValueId) :=
  let build (kind : TorchKind) (word : String) (value : Option Attribute) :
      Build (Option ValueId) := do
    some <$> constant (.torch kind) (← freshNamed word) value (.torch type)
  match literal, type with
  | .int value, .int => build .constantInt (intWord value) (some (.int value))
  | .float value, .float => build .constantFloat "float" (some (.float value))
  | .bool value, .bool =>
    build .constantBool (if value then "true" else "false") (some (.bool value))
  | .str value, .str => build .constantStr "str" (some (.str value))
  | .none, .none => build .constantNone "none" none
  | _, _ => pure none

/-- A literal as a constant of a type, unless it cannot have the type. -/
def literal (literal : Literal) (type : Ty) : Build (Option ValueId) :=
  match type with
  | .scalar type => scalarLiteral literal type
  | .torch type => torchLiteral literal type
  | .shaped _ => pure none

/-- Runs a step with the operations that it builds gathered in a body of their own. The body is
given also if the step fails. -/
def gather {α : Type} (step : Build α) : Build (Except Error α × Body) := fun draft =>
  let (outcome, inner) := step.run { draft with code := .nil }
  (.ok (outcome, inner.code), { inner with code := draft.code })

/-- The result of a step that has been run. -/
def settle {α : Type} : Except Error α → Build α
  | .ok result => return result
  | .error error => throw error

/-- A step that ends a body by passing on values. -/
def yielding (step : Build (List ValueId)) : Build Unit := do
  emit (.scf .yield) (← step)

/-- A block with arguments of the given types under numbered names. -/
def block (types : List Ty) : Build (BlockId × List ValueId) := do
  let block ← add (·.addBlock {})
  let arguments ← types.mapM fun type => do
    let name ← fresh
    add (·.addValue ⟨some name, some type, .argument (some block)⟩)
  modify fun draft =>
    { draft with
      program := draft.program.modifyHeader block fun header => { header with arguments } }
  return (block, arguments)

/-- A loop that counts from `lower` up to below `upper` and carries values from each round to the
next. The body gets the position and the carried values and gives those of the next round. -/
def forLoop (lower upper step : ValueId) (initial : List ValueId)
    (body : ValueId → List ValueId → Build (List ValueId)) : Build (List ValueId) := do
  let types ← askFor fun program => initial.mapM program.typed
  let op ← allocate (.scf .forLoop) ([lower, upper, step] ++ initial) types
  let (block, arguments) ← block (.scalar .index :: types)
  match arguments with
  | [] => throw (.failure "scf.for without a body")
  | position :: carried =>
    let (outcome, inside) ← gather (yielding (body position carried))
    append op (.single block inside)
    settle outcome
    ask fun program => program.results op

/-- A branch with results of the given types, each side of which gives their values. -/
def ifElse (condition : ValueId) (types : List Ty) (thenBody elseBody : Build (List ValueId)) :
    Build (List ValueId) := do
  let op ← allocate (.scf .ifElse) [condition] types
  let (thenBlock, _) ← block []
  let (elseBlock, _) ← block []
  let (thenOutcome, thenInside) ← gather (yielding thenBody)
  let (elseOutcome, elseInside) ←
    match thenOutcome with
    | .ok _ => gather (yielding elseBody)
    | .error error => pure (.error error, .nil)
  append op (.cons (.cons thenBlock thenInside .nil) (.single elseBlock elseInside))
  settle elseOutcome
  ask fun program => program.results op

/-- Loops over all positions of a shape, one inside the other. The body gets a position for each
dimension after those given. -/
def loopNestFrom (positions : List ValueId) (body : List ValueId → Build Unit) :
    List Int → Build Unit
  | [] => body positions
  | size :: sizes => do
    let lower ← index 0
    let upper ← index size
    let step ← index 1
    let _ ← forLoop lower upper step [] fun position _ => do
      loopNestFrom (positions ++ [position]) body sizes
      return []

/-- Loops over all positions of a shape. The body gets a position for each dimension. -/
def loopNest (shape : List Int) (body : List ValueId → Build Unit) : Build Unit :=
  loopNestFrom [] body shape

end Build

namespace Body

/-- The operations in the opposite order. -/
def reverseOnto : Body → Body → Body
  | .nil, later => later
  | .cons op regions rest, later => reverseOnto rest (.cons op regions later)

end Body

namespace Draft

/-- The program with what has been built put next to the anchor. Operations behind the anchor end up
in the opposite order, each directly behind the anchor. -/
def finished (draft : Draft) : Program :=
  let constants := draft.hoisted.append draft.lead
  draft.program.alterAt draft.anchor fun regions rest =>
    match draft.placement with
    | .before => constants.append (draft.code.append (.cons draft.anchor regions rest))
    | .after => constants.append (.cons draft.anchor regions (draft.code.reverseOnto rest))

end Draft

/-- Builds operations next to an anchor. -/
def Change.build {α : Type} (anchor : OpId) (step : Build α) (placement : Placement := .before) :
    Change α := do
  let now ← Change.program
  let (outcome, draft) := step.run { program := now, anchor, placement, namer := now.namerAround anchor }
  set draft.finished
  match outcome with
  | .ok result => return result
  | .error error => throw error

end TensorIR
