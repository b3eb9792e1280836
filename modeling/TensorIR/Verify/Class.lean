import TensorIR.Program.Parse
import TensorIR.Verify.Control

/-!
# Rules for values, containers and classes

Constants have the type of their kind, containers hold subtypes of their element types, and members
of objects are looked up in the layout of the class. Private members are open to the methods of the
class only.

## Main definitions

* `Program.verifyTorchValue` — the rule for constants, copies and containers
* `Program.verifyTorchObject` — the rule for classes, objects and global slots
-/

namespace TensorIR

namespace Program

variable (program : Program)

/-- Fails unless operands and results have subtypes of the given types. -/
def expectSignature (op : OpId) (operands results : List TorchType) : Except Error Unit := do
  let operandCount := (program.operands op).length
  if operandCount ≠ operands.length then
    failing s!"expected {operands.length} operands, but got {operandCount}"
  let resultCount := (program.results op).length
  if resultCount ≠ results.length then
    failing s!"expected {results.length} results, but got {resultCount}"
  for (expected, index) in operands.zipIdx do
    let actual ← program.operandType op index
    unless actual.isSubtype expected do
      failing s!"operand #{index} must be {expected.text}, but got {actual.text}"
  for (expected, index) in results.zipIdx do
    let actual ← program.resultType op index
    unless actual.isSubtype expected do
      failing s!"result #{index} must be {expected.text}, but got {actual.text}"

/-- The rule for copies, which switch between tensors with and without value semantics and leave
everything else. -/
def verifyCopy (op : OpId) (toValue : Bool) : Except Error Unit := do
  let operand ← program.operandType op 0
  let result ← program.resultType op 0
  let infos : Option (TensorInfo × TensorInfo) :=
    match operand, result with
    | .tensor a, .vtensor b => if toValue then some (a, b) else none
    | .vtensor a, .tensor b => if toValue then none else some (a, b)
    | _, _ => none
  match infos with
  | none =>
    failing <|
      s!"cannot copy from {operand.text} to {result.text}; the copy has to switch tensor kinds"
  | some (a, b) =>
    if a ≠ b then
      failing s!"operand {operand.text} and result {result.text} must have the same shape and dtype"

/-- The rule for changing what is known about a tensor. -/
def verifyStaticCast (op : OpId) : Except Error Unit := do
  if (program.operands op).length ≠ 1 ∨ (program.results op).length ≠ 1 then
    failing "expected one operand and one result"
  let operand ← program.operandType op 0
  let result ← program.resultType op 0
  let compatible :=
    match operand, result with
    | .vtensor a, .vtensor b => (a.meet? b).isSome
    | .tensor a, .tensor b => (a.meet? b).isSome
    | _, _ => false
  unless compatible do failing s!"cannot cast {operand.text} to {result.text}"

/-- Fails unless an operand has a subtype of the element type. -/
def checkElement (op : OpId) (index : Nat) (element : TorchType) : Except Error Unit := do
  let operand ← program.operandType op index
  unless operand.isSubtype element do
    failing s!"element #{index} of type {operand.text} is not a subtype of {element.text}"

/-- The rule for the construction of lists. -/
def verifyList (op : OpId) : Except Error Unit := do
  match ← program.resultType op 0 with
  | .list element =>
    for index in List.range (program.operands op).length do
      program.checkElement op index element
  | other => failing s!"expected a list result, but got {other.text}"

/-- The rule for the construction of tuples. -/
def verifyTuple (op : OpId) : Except Error Unit := do
  match ← program.resultType op 0 with
  | .tuple elements =>
    let count := (program.operands op).length
    if elements.length ≠ count then
      failing s!"expected {elements.length} elements, but got {count}"
    for (element, index) in elements.zipIdx do
      program.checkElement op index element
  | other => failing s!"expected a tuple result, but got {other.text}"

/-- The rule for the construction of dictionaries. -/
def verifyDict (op : OpId) : Except Error Unit := do
  match ← program.resultType op 0 with
  | .dict keyType valueType =>
    let operands := program.operands op
    let count := (((program.attributes op).int? "num_keys").getD 0).toNat
    let keys := operands.take count
    let values := operands.drop count
    if keys.length ≠ values.length then
      failing <|
        s!"got {keys.length} keys, but {values.length} values; " ++
          "keys and values must have the same length"
    for (expected, group) in [(keyType, keys), (valueType, values)] do
      for value in group do
        let actual := (program.torchTypeOf? value).getD .any
        unless actual.isSubtype expected do
          failing s!"{actual.text} is not a subtype of {expected.text}"
  | other => failing s!"expected a dict result, but got {other.text}"

/-- The rule for constants, copies, containers and operations on integers. -/
def verifyTorchValue (op : OpId) : TorchKind → Except Error Unit
  | .copyToVtensor => program.verifyCopy op true
  | .copyToTensor => program.verifyCopy op false
  | .tensorStaticInfoCast => program.verifyStaticCast op
  | .derefine => do
    let operand ← program.operandType op 0
    let result ← program.resultType op 0
    unless operand.isSubtype result do
      failing s!"{operand.text} is not a subtype of {result.text}"
  | .listConstruct => program.verifyList op
  | .tupleConstruct => program.verifyTuple op
  | .dictConstruct => program.verifyDict op
  | .addInt | .subInt | .mulInt => program.expectSignature op [.int, .int] [.int]
  | .ltInt | .gtInt | .eqInt | .neInt => program.expectSignature op [.int, .int] [.bool]
  | .sizeInt => program.expectSignature op [.vtensor ⟨none, none⟩, .int] [.int]
  | kind => do
    if kind.isConst then
      program.expectSignature op [] [Reading.torchConstantType kind]
      if (program.fold? op).isNone then failing "requires a literal value"

/-- Fails if a member is private and the operation is not inside a method of the class. -/
def checkVisible (symbols : SymbolTable) (op : OpId) (className memberName : String)
    (isPrivate : Bool) : Except Error Unit := do
  if isPrivate then
    let allowed :=
      match program.enclosingFunction? op with
      | some function => symbols.isMethodOf function className
      | none => false
    unless allowed do
      failing <|
        s!"cannot access private member \"{memberName}\" of class \"{className}\" " ++
          "outside of its methods"

/-- The layout of the class of the object that an operation is about. -/
def receiverClass (symbols : SymbolTable) (op : OpId) : Except Error ClassLayout := do
  match ← program.operandType op 0 with
  | .nnModule className =>
    match symbols.class? className with
    | some layout => return layout
    | none => failing s!"unknown class \"{className}\""
  | other => failing s!"receiver must be a !torch.nn.Module, but got {other.text}"

/-- The declaration of the attribute that an operation is about. -/
def receiverAttribute (symbols : SymbolTable) (op : OpId) : Except Error AttributeDeclaration := do
  let layout ← program.receiverClass symbols op
  let name := program.stringOf op "name"
  match layout.attribute? name with
  | some declared =>
    program.checkVisible symbols op layout.name name declared.isPrivate
    return declared
  | none => failing s!"class \"{layout.name}\" has no attribute \"{name}\""

/-- The rule for classes. -/
def verifyClass (symbols : SymbolTable) (op : OpId) : Except Error Unit := do
  for inner in program.membersOf op do
    let kind := program.kind inner
    unless kind == .torch .attr || kind == .torch .method do
      failing <|
        "body may only contain 'torch.attr' and 'torch.method', but contains '" ++
          program.opName inner ++ "'"
  let layout ← program.classLayout op
  for (name, method) in layout.methods do
    if (symbols.function? method.function).isNone then
      failing s!"method \"{name}\" refers to unknown function @{method.function}"

/-- The rule for objects: one slot for each attribute of the class, in order. -/
def verifyObject (symbols : SymbolTable) (op : OpId) : Except Error Unit := do
  let className ←
    match ← program.resultType op 0 with
    | .nnModule className => pure className
    | other => failing s!"result must be a !torch.nn.Module, but got {other.text}"
  let some layout := symbols.class? className | failing s!"unknown class \"{className}\""
  for inner in program.membersOf op do
    unless program.kind inner == .torch .slot do
      failing s!"body may only contain 'torch.slot', but contains '{program.opName inner}'"
  let slots ← (program.membersOf op).mapM fun inner => do
    return (program.stringOf inner "name", ← program.operandType inner 0)
  if slots.length ≠ layout.attributes.length then
    failing <|
      s!"has {slots.length} slots, but class \"{className}\" declares " ++
        s!"{layout.attributes.length} attributes"
  for (((name, type), declared), index) in (slots.zip layout.attributes).zipIdx do
    if name ≠ declared.name then
      failing <|
        s!"slot #{index} is \"{name}\", but class \"{className}\" declares " ++
          s!"\"{declared.name}\" at that position"
    unless type.isSubtype declared.type do
      failing <|
        s!"slot \"{name}\" has type {type.text}, which is not a subtype of " ++ declared.type.text

/-- The rule for global slots. -/
def verifyGlobalSlot (op : OpId) : Except Error Unit := do
  let declared ← program.declaredType op
  let some region := (program.regionsOf op).get? 0 | failing "requires an initializer region"
  let some last := program.terminatorOf? (some region) (.torch .globalSlotInit)
    | failing "initializer must end with 'torch.global_slot.init'"
  let initial ← program.operandType last 0
  unless initial.isSubtype declared do
    failing s!"initial value of type {initial.text} is not a subtype of {declared.text}"

/-- The name and the type of the global slot that an operation is about. -/
def slotType (symbols : SymbolTable) (op : OpId) : Except Error (String × TorchType) :=
  let name := program.symbolOf op "slot"
  match symbols.globalSlot? name with
  | some type => .ok (name, type)
  | none => failing s!"unknown global slot @{name}"

/-- The rule for calls of methods. -/
def verifyCallMethod (symbols : SymbolTable) (op : OpId) : Except Error Unit := do
  let layout ← program.receiverClass symbols op
  let name := program.stringOf op "name"
  let some method := layout.method? name
    | failing s!"class \"{layout.name}\" has no method \"{name}\""
  program.checkVisible symbols op layout.name name method.isPrivate
  let some signature := symbols.function? method.function
    | failing s!"unknown function @{method.function}"
  let operands ← program.typedOperands op
  if operands.length ≠ signature.inputs.length then
    failing <|
      s!"@{method.function} expects {signature.inputs.length} arguments including the receiver, " ++
        s!"but got {operands.length}"
  for ((actual, expected), index) in (operands.zip signature.inputs).zipIdx.drop 1 do
    unless actual.isAssignable expected do
      failing <|
        s!"argument #{index} has type {actual.text}, but @{method.function} expects " ++
          expected.text
  let results ← program.typedResults op
  if typesText results ≠ typesText signature.outputs then
    failing s!"results ({typesText results}) differ from the results of @{method.function}"

/-- The rule for classes, objects and global slots. -/
def verifyTorchObject (symbols : SymbolTable) (op : OpId) : TorchKind → Except Error Unit
  | .classType => program.verifyClass symbols op
  | .attr => do
    program.expectParent op [.torch .classType] "'torch.class_type'"
    let _ ← program.declaredType op
  | .method => program.expectParent op [.torch .classType] "'torch.class_type'"
  | .nnModule => program.verifyObject symbols op
  | .slot => program.expectParent op [.torch .nnModule] "'torch.nn_module'"
  | .globalSlot => program.verifyGlobalSlot op
  | .globalSlotInit => do
    program.expectParent op [.torch .globalSlot] "'torch.global_slot'"
    if (program.operands op).length ≠ 1 then failing "expected exactly one initial value"
  | .globalSlotGet => do
    let (name, declared) ← program.slotType symbols op
    let result ← program.resultType op 0
    unless declared.isSubtype result do
      failing s!"global slot @{name} of type {declared.text} cannot be read as {result.text}"
  | .globalSlotSet => do
    let (name, declared) ← program.slotType symbols op
    let value ← program.operandType op 0
    unless value.isSubtype declared do
      failing s!"cannot store {value.text} into global slot @{name} of type {declared.text}"
  | .getAttr => do
    let declared ← program.receiverAttribute symbols op
    let result ← program.resultType op 0
    unless declared.type.isSubtype result do
      failing <|
        s!"attribute \"{declared.name}\" of type {declared.type.text} cannot be read as " ++
          result.text
  | .setAttr => do
    let declared ← program.receiverAttribute symbols op
    let value ← program.operandType op 1
    unless value.isSubtype declared.type do
      failing <|
        s!"cannot store {value.text} into attribute \"{declared.name}\" of type " ++
          declared.type.text
  | .callMethod => program.verifyCallMethod symbols op
  | _ => .ok ()

end Program

end TensorIR
