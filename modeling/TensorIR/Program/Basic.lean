import TensorIR.Error
import TensorIR.Op.Kind
import TensorIR.Program.Tree

/-!
# Programs

A program consists of operations that compute values from values. Its nesting is a tree of names;
three tables say what the named values, operations and blocks are. An operation that has left the
tree keeps its entry, so that values it computed can still be understood, and what is inside it
keeps its nesting beside the tree.

## Main definitions

* `Value`, `Operation`, `BlockHeader` — the entries of the tables
* `Program` — the tables and the tree
* `Program.visits` — every operation with its surroundings, in program order
-/

namespace TensorIR

/-- Where a value comes from. -/
inductive Origin where
  /-- It is computed by an operation. -/
  | result (op : OpId)
  /-- It is an argument of a block, which may not have been placed yet. -/
  | argument (block : Option BlockId)
  /-- It only states a type that a function returns. -/
  | signature
  deriving DecidableEq, Repr, Inhabited

/-- A value: its name, its type if one has been given, and where it comes from. -/
structure Value where
  name : Option String
  type : Option Ty
  origin : Origin
  deriving Inhabited

/-- An operation without its regions. -/
structure Operation where
  kind : OpKind
  operands : List ValueId := []
  attributes : Attributes := ⟨[]⟩
  results : List ValueId := []
  location : Option Location := none
  deriving Inhabited

/-- The label and the arguments of a block. -/
structure BlockHeader where
  label : Option String := none
  arguments : List ValueId := []
  deriving Inhabited

/-- A program: what its values, operations and blocks are, and how the operations nest. -/
structure Program where
  values : Array Value := #[]
  operations : Array Operation := #[]
  headers : Array BlockHeader := #[]
  /-- The outermost operation. -/
  root : OpId := ⟨0⟩
  /-- The regions of the outermost operation. -/
  regions : Regions := .nil
  /-- The regions of operations that have left the tree, as far as they have any. -/
  removed : List (OpId × Regions) := []
  deriving Inhabited

/-- What stands for the name of a value that has none. -/
def unnamed : String := "<unnamed>"

namespace Program

variable (program : Program)

/-- What a value is. -/
def value (id : ValueId) : Value :=
  program.values.getD id.index default

/-- What an operation is. -/
def operation (id : OpId) : Operation :=
  program.operations.getD id.index default

/-- The label and the arguments of a block. -/
def header (id : BlockId) : BlockHeader :=
  program.headers.getD id.index default

/-- The type of a value, if it has been given one. -/
def typeOf? (id : ValueId) : Option Ty :=
  (program.value id).type

/-- The type of a value that has been given one. -/
def typeOf (id : ValueId) : Ty :=
  (program.typeOf? id).getD default

/-- The type of a value, which may not have been given yet. -/
def typed (id : ValueId) : Except Error Ty :=
  match program.value id with
  | ⟨_, some type, _⟩ => .ok type
  | ⟨name, none, _⟩ => .error (.failure s!"type of {name.getD unnamed} was not set")

/-- The torch type of a value, if it has one. -/
def torchTypeOf? (id : ValueId) : Option TorchType :=
  (program.typeOf? id).bind Ty.torch?

/-- The name of a value in messages. -/
def nameOf (id : ValueId) : String :=
  (program.value id).name.getD ""

/-- The kind of an operation. -/
def kind (id : OpId) : OpKind :=
  (program.operation id).kind

/-- The name of an operation's kind. -/
def opName (id : OpId) : String :=
  (program.kind id).name

/-- The operation that computes a value. -/
def definingOp? (id : ValueId) : Option OpId :=
  match (program.value id).origin with
  | .result op => some op
  | _ => none

/-- The kind of the operation that computes a value. -/
def definingKind? (id : ValueId) : Option OpKind :=
  (program.definingOp? id).map program.kind

/-- The attributes of an operation. -/
def attributes (id : OpId) : Attributes :=
  (program.operation id).attributes

/-- The operands of an operation. -/
def operands (id : OpId) : List ValueId :=
  (program.operation id).operands

/-- The results of an operation. -/
def results (id : OpId) : List ValueId :=
  (program.operation id).results

/-- The types of the operands of an operation. -/
def operandTypes (id : OpId) : List Ty :=
  (program.operands id).map program.typeOf

/-- The types of the results of an operation. -/
def resultTypes (id : OpId) : List Ty :=
  (program.results id).map program.typeOf

/-- The types of the operands of an operation, all of which must have been given. -/
def typedOperands (id : OpId) : Except Error (List Ty) :=
  (program.operands id).mapM program.typed

/-- The types of the results of an operation, all of which must have been given. -/
def typedResults (id : OpId) : Except Error (List Ty) :=
  (program.results id).mapM program.typed

/-- The type of the result at a position, if there is one. -/
def resultType? (id : OpId) (index : Nat) : Option Ty :=
  ((program.results id)[index]?).bind program.typeOf?

/-- The operand at a position. -/
def operand (id : OpId) (index : Nat) : Except Error ValueId :=
  match (program.operands id)[index]? with
  | some operand => .ok operand
  | none => .error (.failure s!"{program.opName id} has no operand {index}")

/-- The result at a position. -/
def result (id : OpId) (index : Nat) : Except Error ValueId :=
  match (program.results id)[index]? with
  | some result => .ok result
  | none => .error (.failure s!"{program.opName id} has no result {index}")

/-- The operations of the program as a block of its outermost operation. -/
def tree : Body :=
  .cons program.root program.regions .nil

/-- Every operation with its surroundings, in program order. -/
def visits : List Visit :=
  program.tree.visits none none 0

/-- Every operation inside operations that have left the tree. -/
def removedVisits : List Visit :=
  program.removed.flatMap fun (op, regions) => regions.visits op 1

/-- The surroundings of an operation that lies in a block, in the tree or beside it. -/
def visit? (id : OpId) : Option Visit :=
  (program.visits.find? (·.op = id)).or (program.removedVisits.find? (·.op = id))

/-- The regions of an operation. -/
def regionsOf (id : OpId) : Regions :=
  if id = program.root then program.regions
  else (((program.visit? id).map Visit.regions).or (program.removed.lookup id)).getD .nil

/-- The operation around a given one. -/
def parent? (id : OpId) : Option OpId :=
  (program.visit? id).bind Visit.parent

/-- The operations directly inside the outermost one. -/
def topLevel : List OpId :=
  program.regions.heads

/-- The operations of a block, in the tree or beside it. -/
def bodyOf? (block : BlockId) : Option Body :=
  (program.regions.blockBodies.lookup block).or
    ((program.removed.flatMap fun (_, regions) => regions.blockBodies).lookup block)

/-- A report that an operation violates a rule. -/
def report (id : OpId) (message : String) : Diagnostic :=
  ⟨(program.operation id).location, program.opName id, message⟩

/-- An error that says which rule an operation violates. -/
def violation (id : OpId) (message : String) : Error :=
  .verification (program.report id message)

/-- An error that says why an operation has no lowering. -/
def unsupported (id : OpId) (message : String) : Error :=
  .legalization (program.report id message)

/-- The program with another value, and the name of that value. -/
def addValue (value : Value) : ValueId × Program :=
  (⟨program.values.size⟩, { program with values := program.values.push value })

/-- The program with another operation, which is not part of the tree yet, and its name. -/
def addOperation (operation : Operation) : OpId × Program :=
  (⟨program.operations.size⟩,
    { program with operations := program.operations.push operation })

/-- The program with another block, which is not part of the tree yet, and its name. -/
def addBlock (header : BlockHeader) : BlockId × Program :=
  (⟨program.headers.size⟩, { program with headers := program.headers.push header })

/-- The program with a value changed. -/
def modifyValue (id : ValueId) (change : Value → Value) : Program :=
  { program with values := program.values.modify id.index change }

/-- The program with an operation changed. -/
def modifyOperation (id : OpId) (change : Operation → Operation) : Program :=
  { program with operations := program.operations.modify id.index change }

/-- The program with a block's label or arguments changed. -/
def modifyHeader (id : BlockId) (change : BlockHeader → BlockHeader) : Program :=
  { program with headers := program.headers.modify id.index change }

/-- The program with another type of a value. -/
def setType (id : ValueId) (type : Ty) : Program :=
  program.modifyValue id fun value => { value with type := some type }

/-- The program with a value computed by another operation. Other values are left alone. -/
def setDefiningOp (id : ValueId) (op : OpId) : Program :=
  program.modifyValue id fun value =>
    match value.origin with
    | .result _ => { value with origin := .result op }
    | _ => value

/-- The program with another name of a value. Values of a signature have no name. -/
def setName (id : ValueId) (name : String) : Program :=
  program.modifyValue id fun value =>
    match value.origin with
    | .signature => value
    | _ => { value with name := some name }

/-- The program with other operands of an operation. -/
def setOperands (id : OpId) (operands : List ValueId) : Program :=
  program.modifyOperation id fun operation => { operation with operands }

/-- The program with another operand of an operation at a position. -/
def setOperand (id : OpId) (index : Nat) (value : ValueId) : Program :=
  program.modifyOperation id fun operation =>
    { operation with operands := operation.operands.set index value }

/-- The program with other attributes of an operation. -/
def setAttributes (id : OpId) (attributes : Attributes) : Program :=
  program.modifyOperation id fun operation => { operation with attributes }

/-- The program with a change at one operation, in the tree or beside it. -/
def alterAt (id : OpId) (change : Regions → Body → Body) : Program :=
  { program with
    regions := program.regions.alterAt id change
    removed := program.removed.map fun (op, regions) => (op, regions.alterAt id change) }

/-- The program with the regions of an operation that has left the tree kept beside it. -/
def keep (id : OpId) : Regions → Program
  | .nil => program
  | regions => { program with removed := (id, regions) :: program.removed }

/-- The program with other regions of an operation. -/
def setRegions (id : OpId) (regions : Regions) : Program :=
  if id = program.root then { program with regions }
  else program.alterAt id fun _ rest => .cons id regions rest

end Program

end TensorIR
