import TensorIR.Op.Traits
import TensorIR.Program.Print
import TensorIR.Program.Reader

/-!
# From text to programs

A program is read operation by operation. The word after the results tells the kind of an operation,
and the kind tells the form of what follows; operations without a form of their own share one.
Operations that stand alone are put into a module.

## Main definitions

* `Reading.operation` — an operation with its regions
* `Program.read` — the program that a text stands for
-/

namespace TensorIR

namespace Reading

/-- The token that names the coming operation: the one after the equals sign, if results stand in
front of it. -/
def nameToken : List Token → Option Token
  | [] => none
  | token :: rest =>
    match token.kind with
    | .percentIdentifier | .comma => nameToken rest
    | .equal => some (rest.head?.getD token)
    | _ => some token

/-- Reads an operation in the shared form. -/
def genericOperation (kind : OpKind) : Reading OpId := do
  let names ← resultNames
  let location ← operationName
  let operands ← operands
  let attributes ← if ← check .leftBrace then attributes else pure .empty
  let mut types : Option (List Ty) := none
  if ← accept .colon then
    unless ← check .arrow do checkTypes operands (← Reading.types)
    if ← accept .arrow then
      let list ← resultTypes
      if names.length ≠ list.length then
        throw (.failure s!"expected {names.length} types, but got {list.length}")
      types := some list
  else if !operands.isEmpty then failHere .missingOperandTypes
  if !names.isEmpty && types.isNone then failHere .missingResultTypes
  addOperation { kind, operands, attributes, location } names types

/-- Reads a scalar constant: a number and its type. -/
def scalarConstant : Reading OpId := do
  let names ← resultNames
  let location ← operationName
  let token ← peek
  let isInteger ←
    if token.kind = .minus then pure ((← kindAfterNext) == some .integer)
    else pure (token.kind == .integer)
  let literal ← if isInteger then Literal.int <$> integer else Literal.float <$> float
  let _ ← expect .colon
  let type ← Reading.type
  let value ←
    match type, literal with
    | .scalar scalar, literal =>
      if scalar.isFloat then pure (Attribute.float (literal.float?.getD 0.0))
      else
        match literal with
        | .int value => pure (Attribute.int value)
        | _ => failBefore (.other "Expected a matching scalar type")
    | _, _ => failBefore (.other "Expected a matching scalar type")
  let attributes := Attributes.empty.insert "value" value
  addOperation { kind := .arith .constant, attributes, location } names (some [type])

/-- Reads the value of a constant of a program before lowering, if its kind has one. -/
def torchLiteral : TorchKind → Reading (Option Attribute)
  | .constantBool => return some (.bool (← boolean))
  | .constantInt => return some (.int (← integer))
  | .constantFloat => return some (.float (← float))
  | .constantStr | .constantDevice => return some (.str (← string))
  | _ => return none

/-- The type of a constant of a program before lowering. -/
def torchConstantType : TorchKind → TorchType
  | .constantBool => .bool
  | .constantInt => .int
  | .constantFloat => .float
  | .constantStr => .str
  | .constantDevice => .device
  | _ => .none

/-- Reads a constant of a program before lowering. -/
def torchConstant (kind : TorchKind) : Reading OpId := do
  let names ← resultNames
  let location ← operationName
  let attributes :=
    match ← torchLiteral kind with
    | some value => Attributes.empty.insert "value" value
    | none => .empty
  addOperation { kind := .torch kind, attributes, location } names
    (some [.torch (torchConstantType kind)])

/-- Reads a constant tensor. -/
def tensorConstant : Reading OpId := do
  let names ← resultNames
  let location ← operationName
  unless ← checkKeyword "dense" do failHere (.other "Expected dense elements")
  let value ← attributeValue
  let attributes := Attributes.empty.insert "value" value
  let _ ← expect .colon
  let type ← Reading.type
  addOperation { kind := .tosa .const, attributes, location } names (some [type])

/-- Reads values with their types, in parentheses behind a word. -/
def operandGroup (word : String) : Reading (List ValueId) := do
  keyword word
  let _ ← expect .leftParen
  let operands ← operands
  unless operands.isEmpty do
    let _ ← expect .colon
    checkTypes operands (← types)
  let _ ← expect .rightParen
  return operands

/-- Reads the construction of a dictionary. -/
def dictConstruct : Reading OpId := do
  let names ← resultNames
  let location ← operationName
  let keys ← operandGroup "keys"
  let values ← operandGroup "values"
  let attributes := Attributes.empty.insert "num_keys" (.int keys.length)
  let _ ← expect .arrow
  let types ← resultTypes
  addOperation { kind := .torch .dictConstruct, operands := keys ++ values, attributes, location }
    names (some types)

/-- Reads the end of a loop body: whether to go on, and the values to go on with. -/
def loopCondition : Reading OpId := do
  let names ← resultNames
  let location ← operationName
  let condition ← operand
  let _ ← expect .comma
  let values ← operandGroup "iter"
  addOperation
    { kind := .torch .primLoopCondition, operands := condition :: values, location } names none

/-- Reads the mark of what is private. -/
def privateMark (attributes : Attributes) : Reading Attributes := do
  if ← checkKeyword "private" then
    let _ ← advance
    return attributes.insert "private" (.bool true)
  return attributes

/-- Reads the declaration of an attribute of a class. -/
def attributeDeclaration : Reading OpId := do
  let location ← operationName
  let attributes ← privateMark .empty
  let name ← string
  let _ ← expect .colon
  let type ← Reading.type
  let attributes := (attributes.insert "name" (.str name)).insert "type" (.type type)
  addOperation { kind := .torch .attr, attributes, location } [] none

/-- Reads the declaration of a method of a class. -/
def methodDeclaration : Reading OpId := do
  let location ← operationName
  let attributes ← privateMark .empty
  let name ← string
  let _ ← expect .comma
  let function ← symbol
  let attributes := (attributes.insert "name" (.str name)).insert "function" (.ofSymbol function)
  addOperation { kind := .torch .method, attributes, location } [] none

/-- Reads a slot of an object. -/
def slot : Reading OpId := do
  let location ← operationName
  let name ← string
  let attributes := Attributes.empty.insert "name" (.str name)
  let _ ← expect .comma
  let value ← operand
  let _ ← expect .colon
  checkTypes [value] (← types)
  addOperation { kind := .torch .slot, operands := [value], attributes, location } [] none

/-- Reads the reading of a global slot. -/
def globalSlotGet : Reading OpId := do
  let names ← resultNames
  let location ← operationName
  let name ← symbol
  let attributes := Attributes.empty.insert "slot" (.ofSymbol name)
  let _ ← expect .colon
  let type ← Reading.type
  addOperation { kind := .torch .globalSlotGet, attributes, location } names (some [type])

/-- Reads the writing of a global slot. -/
def globalSlotSet : Reading OpId := do
  let location ← operationName
  let name ← symbol
  let attributes := Attributes.empty.insert "slot" (.ofSymbol name)
  let _ ← expect .equal
  let value ← operand
  let _ ← expect .colon
  checkTypes [value] (← types)
  addOperation { kind := .torch .globalSlotSet, operands := [value], attributes, location } [] none

/-- Reads an object and the name of one of its members. -/
def member : Reading (ValueId × Attributes) := do
  let receiver ← operand
  let _ ← expect .leftBracket
  let name ← string
  let _ ← expect .rightBracket
  return (receiver, Attributes.empty.insert "name" (.str name))

/-- Reads the reading of an attribute of an object. -/
def getAttr : Reading OpId := do
  let names ← resultNames
  let location ← operationName
  let (receiver, attributes) ← member
  let _ ← expect .colon
  checkTypes [receiver] [← Reading.type]
  let _ ← expect .arrow
  let type ← Reading.type
  addOperation { kind := .torch .getAttr, operands := [receiver], attributes, location } names
    (some [type])

/-- Reads the writing of an attribute of an object. -/
def setAttr : Reading OpId := do
  let location ← operationName
  let (receiver, attributes) ← member
  let _ ← expect .equal
  let value ← operand
  let _ ← expect .colon
  checkTypes [receiver, value] (← types)
  addOperation
    { kind := .torch .setAttr, operands := [receiver, value], attributes, location } [] none

/-- Reads the call of a method of an object. -/
def callMethod : Reading OpId := do
  let names ← resultNames
  let location ← operationName
  let (receiver, attributes) ← member
  let _ ← expect .leftParen
  let arguments ← operands
  let _ ← expect .rightParen
  let operands := receiver :: arguments
  let _ ← expect .colon
  let receiverType ← Reading.type
  let _ ← expect .comma
  checkTypes operands (receiverType :: (← typesInParens))
  let _ ← expect .arrow
  let types ← resultTypes
  addOperation { kind := .torch .callMethod, operands, attributes, location } names (some types)

/-- Reads the call of a function. -/
def call : Reading OpId := do
  let names ← resultNames
  let location ← operationName
  let callee ← symbol
  let attributes := Attributes.empty.insert "callee" (.ofSymbol callee)
  let _ ← expect .leftParen
  let operands ← operands
  let _ ← expect .rightParen
  let _ ← expect .colon
  checkTypes operands (← typesInParens)
  let _ ← expect .arrow
  let types ← resultTypes
  addOperation { kind := .func .call, operands, attributes, location } names (some types)

/-- Reads the allocation of a buffer. -/
def alloc : Reading OpId := do
  let names ← resultNames
  let location ← operationName
  let _ ← expect .leftParen
  let _ ← expect .rightParen
  let _ ← expect .colon
  let type ← Reading.type
  addOperation { kind := .memref .alloc, location } names (some [type])

/-- Reads a buffer, the positions in brackets, and the type of the buffer. -/
def access : Reading (List ValueId) := do
  let buffer ← operand
  let _ ← expect .leftBracket
  let indices ← operands
  let _ ← expect .rightBracket
  let _ ← expect .colon
  let used ← Reading.type
  let declared ← (← get).program.typed buffer
  unless declared.same used do
    failBefore <| .other <|
      s!"Type mismatch: memref declared as {declared.text} but used as {used.text}"
  return buffer :: indices

/-- Reads the load of an element of a buffer. -/
def load : Reading OpId := do
  let names ← resultNames
  let location ← operationName
  let operands ← access
  let types ← operands.mapM fun value => do (← get).program.typed value
  match types.head? with
  | some (.shaped ⟨.memref, _, element⟩) =>
    addOperation { kind := .memref .load, operands, location } names (some [.scalar element])
  | other => throw (.failure s!"expected a memref, but got {(other.getD default).text}")

/-- Reads the store of an element into a buffer. -/
def store : Reading OpId := do
  let names ← resultNames
  let location ← operationName
  let value ← operand
  let _ ← expect .comma
  let rest ← access
  addOperation { kind := .memref .store, operands := value :: rest, location } names none

/-- Reads the argument of a function or a block with its type. -/
def blockArgument : Reading ValueId := do
  let name ← expect .percentIdentifier
  let _ ← expect .colon
  let type ← Reading.type
  build fun program => program.addValue ⟨some name.lexeme, some type, .argument none⟩

/-- Reads arguments in parentheses. -/
def blockArguments : Reading (List ValueId) := do
  let _ ← expect .leftParen
  let values ← commaList (return !(← check .rightParen)) blockArgument
  let _ ← expect .rightParen
  return values

/-- Adds a block to the program and makes its arguments visible. -/
def addBlock (label : Option String) (arguments : List ValueId) : Reading BlockId := do
  let block ← build fun program => program.addBlock ⟨label, arguments⟩
  for argument in arguments do
    build fun program => ((), program.modifyValue argument fun value =>
      { value with origin := .argument (some block) })
  return block

/-- Reads one value that a loop carries: the name inside the loop and the first value. -/
def carriedValue : Reading (String × ValueId) := do
  let name ← advance
  let _ ← expect .equal
  return (name.lexeme, ← operand)

/-- Reads the values that a counted loop carries, with their types. -/
def carriedValues : Reading (List (String × ValueId) × Option (List Ty)) := do
  unless ← checkKeyword "iter_args" do return ([], none)
  let _ ← advance
  let _ ← expect .leftParen
  let pairs ← commaList (check .percentIdentifier) carriedValue
  let _ ← expect .rightParen
  let _ ← expect .arrow
  let types ← resultTypes
  if types.length ≠ pairs.length then failBefore (.other "Expected a type per iter_arg")
  return (pairs, some types)

/-- Reads the head of a counted loop and gives the arguments of its body. -/
def forHead : Reading (OpId × List ValueId) := do
  let names ← resultNames
  let location ← operationName
  let counter ← expect .percentIdentifier
  let _ ← expect .equal
  let lower ← operand
  keyword "to"
  let upper ← operand
  keyword "step"
  let step ← operand
  let (pairs, types) ← carriedValues
  if let some types := types then
    if names.length ≠ types.length then
      throw (.failure s!"expected {names.length} types, but got {types.length}")
  let operands := lower :: upper :: step :: pairs.map Prod.snd
  let actual ← operands.mapM fun value => do (← get).program.typed value
  let declared := types.getD []
  unless Ty.sameEach (actual.drop 3) declared do
    throw (.failure
      s!"iter_args types ({typesText (actual.drop 3)}) do not match ({typesText declared})")
  let counterId ← build fun program =>
    program.addValue ⟨some counter.lexeme, some (.scalar .index), .argument none⟩
  let carried ← (pairs.zip declared).mapM fun (pair, type) =>
    build fun program => program.addValue ⟨some pair.1, some type, .argument none⟩
  let op ← addOperation { kind := .scf .forLoop, operands, location } names types
  return (op, counterId :: carried)

/-- Reads the head of a choice between two regions. -/
def choiceHead : Reading OpId := do
  let names ← resultNames
  let location ← operationName
  let condition ← operand
  let types ← if ← accept .arrow then some <$> typesInParens else pure none
  addOperation { kind := .scf .ifElse, operands := [condition], location } names types

/-- Reads the head of a branch of a program before lowering. -/
def branchHead : Reading OpId := do
  let names ← resultNames
  let location ← operationName
  let condition ← operand
  let _ ← expect .arrow
  let types ← typesInParens
  addOperation { kind := .torch .primIf, operands := [condition], location } names (some types)

/-- Reads the head of a loop of a program before lowering. -/
def loopHead : Reading OpId := do
  let names ← resultNames
  let location ← operationName
  let trips ← operand
  let _ ← expect .comma
  let condition ← operand
  let _ ← expect .comma
  keyword "init"
  let _ ← expect .leftParen
  let values ← operands
  let _ ← expect .rightParen
  addOperation
    { kind := .torch .primLoop, operands := trips :: condition :: values, location } names none

/-- Reads the types behind the body of a loop of a program before lowering. -/
def loopTypes (op : OpId) : Reading Unit := do
  let _ ← expect .colon
  let operandTypes ← typesInParens
  checkTypes (← ask fun program => program.operands op) operandTypes
  let _ ← expect .arrow
  setResultTypes op (← typesInParens)

/-- Reads the head of a function and gives its arguments. -/
def functionHead : Reading (OpId × List ValueId) := do
  let location ← operationName
  let attributes ←
    if ← checkKeyword "private" then do
      let _ ← advance
      pure (Attributes.empty.insert "sym_visibility" (.str "private"))
    else pure .empty
  let name ← symbol
  let attributes := attributes.insert "sym_name" (.ofSymbol name)
  let arguments ← blockArguments
  let types ← if ← accept .arrow then resultTypes else pure []
  let results ← types.mapM fun type =>
    build fun program => program.addValue ⟨none, some type, .signature⟩
  let op ← build fun program =>
    program.addOperation { kind := .func .func, attributes, results, location }
  return (op, arguments)

/-- Reads the head of a class. -/
def classHead : Reading OpId := do
  let location ← operationName
  let name ← symbol
  let attributes := Attributes.empty.insert "sym_name" (.ofSymbol name)
  addOperation { kind := .torch .classType, attributes, location } [] none

/-- Reads the head of a global slot. -/
def globalSlotHead : Reading OpId := do
  let location ← operationName
  let attributes ← privateMark .empty
  let name ← symbol
  let attributes := attributes.insert "sym_name" (.ofSymbol name)
  let _ ← expect .colon
  let type ← Reading.type
  let attributes := attributes.insert "type" (.type type)
  addOperation { kind := .torch .globalSlot, attributes, location } [] none

/-- Reads an operation without regions. -/
def flatOperation : OpKind → Reading OpId
  | .arith .constant => scalarConstant
  | .tosa .const => tensorConstant
  | .func .call => call
  | .memref .alloc => alloc
  | .memref .load => load
  | .memref .store => store
  | .torch .dictConstruct => dictConstruct
  | .torch .primLoopCondition => loopCondition
  | .torch .attr => attributeDeclaration
  | .torch .method => methodDeclaration
  | .torch .slot => slot
  | .torch .globalSlotGet => globalSlotGet
  | .torch .globalSlotSet => globalSlotSet
  | .torch .getAttr => getAttr
  | .torch .setAttr => setAttr
  | .torch .callMethod => callMethod
  | .torch kind => if kind.isConst then torchConstant kind else genericOperation (.torch kind)
  | kind => genericOperation kind

mutual

/-- Reads an operation with its regions, at most as many nested and following ones as the fuel. -/
def operation : Nat → Reading (OpId × Regions)
  | 0 => throw (.failure "the program is nested too deeply")
  | fuel + 1 => do
    let some name := nameToken (← get).rest | failHere (.unknownOperation "")
    match OpKind.ofName? name.lexeme with
    | none => failAt name (.unknownOperation name.lexeme)
    | some .module => do
      let location ← operationName
      let op ← addOperation { kind := .module, location } [] none
      return (op, .cons (← region fuel []) .nil)
    | some (.func .func) => do
      let (op, arguments) ← functionHead
      return (op, .cons (← region fuel arguments) .nil)
    | some (.scf .forLoop) => do
      let (op, arguments) ← forHead
      return (op, .cons (← region fuel arguments) .nil)
    | some (.scf .ifElse) => do
      let op ← choiceHead
      let first ← region fuel []
      let second ←
        if ← checkKeyword "else" then do
          let _ ← advance
          region fuel []
        else do
          let block ← addBlock none []
          pure (.cons block .nil .nil)
      return (op, .cons first (.cons second .nil))
    | some (.torch .primIf) => do
      let op ← branchHead
      let first ← region fuel []
      keyword "else"
      let second ← region fuel []
      return (op, .cons first (.cons second .nil))
    | some (.torch .primLoop) => do
      let op ← loopHead
      let body ← region fuel []
      loopTypes op
      return (op, .cons body .nil)
    | some (.torch .classType) => do
      let op ← classHead
      return (op, .cons (← region fuel []) .nil)
    | some (.torch .globalSlot) => do
      let op ← globalSlotHead
      return (op, .cons (← region fuel []) .nil)
    | some (.torch .nnModule) => do
      let names ← resultNames
      let location ← operationName
      let op ← addOperation { kind := .torch .nnModule, location } names none
      let body ← region fuel []
      let _ ← expect .colon
      setResultTypes op [← Reading.type]
      return (op, .cons body .nil)
    | some kind => return (← flatOperation kind, .nil)

/-- Reads a region in braces. Its entry block has the given arguments unless it names its own. -/
def region : Nat → List ValueId → Reading Blocks
  | 0, _ => throw (.failure "the program is nested too deeply")
  | fuel + 1, arguments => do
    let _ ← expect .leftBrace
    openScope
    let read ←
      if ← check .rightBrace then do
        let block ← addBlock none arguments
        pure (.cons block .nil .nil)
      else blocks fuel arguments
    let _ ← expect .rightBrace
    closeScope
    return read

/-- Reads the blocks of a region up to the closing brace. -/
def blocks : Nat → List ValueId → Reading Blocks
  | 0, _ => throw (.failure "the program is nested too deeply")
  | fuel + 1, arguments => do
    if ← check .rightBrace then return .nil
    if ← atEnd then failHere .unclosedRegion
    let label ← check .caretIdentifier
    let (label, arguments) ←
      if label then do
        let label := (← advance).lexeme
        let arguments ← if ← check .leftParen then blockArguments else pure arguments
        let _ ← expect .colon
        pure (some label, arguments)
      else pure (none, arguments)
    let block ← addBlock label arguments
    for argument in arguments do define argument
    let body ← body fuel
    return .cons block body (← blocks fuel [])

/-- Reads the operations of a block up to the closing brace or the next label. -/
def body : Nat → Reading Body
  | 0 => throw (.failure "the program is nested too deeply")
  | fuel + 1 => do
    if (← check .rightBrace) || (← check .caretIdentifier) then return .nil
    if ← atEnd then failHere .unclosedRegion
    let (op, regions) ← operation fuel
    for result in (← ask fun program => program.results op) do define result
    return .cons op regions (← body fuel)

end

/-- Reads the operations that stand alone up to the end of the text. -/
def topLevel : Nat → Reading Body
  | 0 => throw (.failure "the program is nested too deeply")
  | fuel + 1 => do
    if ← atEnd then return .nil
    let (op, regions) ← operation fuel
    for result in (← ask fun program => program.results op) do define result
    return .cons op regions (← topLevel fuel)

/-- Reads a program: a module, or operations that are put into one. -/
def program : Reading Program := do
  let fuel := 4 * (← get).rest.length + 8
  let wrap (body : Body) : Reading Program := do
    let root ← addOperation { kind := .module } [] none
    let block ← addBlock none []
    return { (← get).program with root, regions := .single block body }
  if ← atEnd then wrap .nil
  else
    let (op, regions) ← operation fuel
    if (← ask fun program => program.kind op) = .module then
      unless ← atEnd do failHere .afterModule
      return { (← get).program with root := op, regions }
    for result in (← ask fun program => program.results op) do define result
    wrap (.cons op regions (← topLevel fuel))

end Reading

/-- The program that a source text stands for. -/
def Program.read (source : String) : Except Error Program :=
  match Scan.tokens source with
  | .error fault => .error (.scan source fault)
  | .ok tokens =>
    (Reading.program.run ⟨source, tokens.head?.getD default, tokens, [[]], {}⟩).map Prod.fst

end TensorIR
