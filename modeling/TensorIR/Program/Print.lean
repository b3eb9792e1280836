import TensorIR.Program.Basic

/-!
# Programs as text

Every operation is written on a line of its own, indented by what is around it; its regions follow
in braces. Most operations share one form: results, name, operands, attributes and types. Functions,
control flow, buffers and classes have forms of their own.

## Main definitions

* `Program.opText` — an operation, given the texts of its regions
* `Program.text` — a program
-/

namespace TensorIR

/-- The spaces in front of a line. -/
def indentation (depth : Nat) : String :=
  String.ofList (List.replicate (2 * depth) ' ')

/-- The written form of a list of types. -/
def typesText (types : List Ty) : String :=
  String.intercalate ", " (types.map Ty.text)

/-- The written form of the types of results, in parentheses unless there is exactly one. -/
def resultTypesText (types : List Ty) : String :=
  match types with
  | [type] => type.text
  | _ => "(" ++ typesText types ++ ")"

namespace Program

variable (program : Program)

/-- A value where it is introduced: a result by its name, an argument by name and type. -/
def valueText (id : ValueId) : String :=
  let value := program.value id
  match value.origin with
  | .result _ => value.name.getD unnamed
  | .argument _ =>
    match value.name with
    | some name => name ++ " : " ++ (program.typeOf id).text
    | none => (program.typeOf id).text
  | .signature => (program.typeOf id).text

/-- A value where it is used. -/
def operandText (id : ValueId) : String :=
  (program.value id).name.getD unnamed

/-- Values where they are used. -/
def operandsText (ids : List ValueId) : String :=
  String.intercalate ", " (ids.map program.operandText)

/-- The results in front of an operation. -/
def resultsText (id : OpId) : String :=
  let results := program.results id
  if results.isEmpty then ""
  else String.intercalate ", " (results.map program.valueText) ++ " = "

/-- The types of operands and results behind an operation. -/
def signatureText (id : OpId) : String :=
  let operands := program.operandTypes id
  let results := program.resultTypes id
  if operands.isEmpty && results.isEmpty then ""
  else
    " :" ++ (if operands.isEmpty then "" else " " ++ typesText operands) ++
      if results.isEmpty then "" else " -> " ++ resultTypesText results

/-- The form that most operations share. -/
def genericText (id : OpId) (regions : List String) : String :=
  let operands := program.operands id
  program.resultsText id ++ program.opName id ++
    (if operands.isEmpty then "" else " " ++ program.operandsText operands) ++
    (program.attributes id).text ++ program.signatureText id ++ String.join regions

/-- An argument in the header of a labelled block. -/
def headerArgumentText (id : ValueId) : String :=
  match (program.value id).origin with
  | .argument _ => program.nameOf id ++ ": " ++ (program.typeOf id).text
  | _ => program.valueText id

/-- The line that introduces a labelled block; a block without a label has none. -/
def headerText (indent : Nat) (id : BlockId) : String :=
  let header := program.header id
  match header.label with
  | none => ""
  | some label =>
    indentation (indent - 1) ++ label ++
      (if header.arguments.isEmpty then ""
       else "(" ++ String.intercalate ", " (header.arguments.map program.headerArgumentText) ++
        ")") ++ ":\n"

/-- The access to an element of a buffer: the buffer, the positions in brackets, and its type. -/
def accessText (operands : List ValueId) : String :=
  match operands with
  | [] => ""
  | buffer :: indices =>
    program.nameOf buffer ++ "[" ++ String.intercalate ", " (indices.map program.nameOf) ++
      "] : " ++ (program.typeOf buffer).text

/-- Values with their types behind a word, in parentheses. -/
def groupText (word : String) (values : List ValueId) : String :=
  " " ++ word ++ "(" ++
    (if values.isEmpty then ""
     else program.operandsText values ++ " : " ++ typesText (values.map program.typeOf)) ++ ")"

/-- The text of an attribute, or nothing. -/
def stringOf (id : OpId) (key : String) : String :=
  ((program.attributes id).str? key).getD ""

/-- The symbol in an attribute, or nothing. -/
def symbolOf (id : OpId) (key : String) : String :=
  ((program.attributes id).symbol? key).getD ""

/-- The operation is marked as private. -/
def isPrivate (id : OpId) : Bool :=
  ((program.attributes id).bool? "private").getD false

/-- The word in front of what is private. -/
def privateText (id : OpId) : String :=
  if program.isPrivate id then "private " else ""

/-- The type that an operation declares. -/
def declaredText (id : OpId) : String :=
  (((program.attributes id).type? "type").map Ty.text).getD ""

/-- The member of an object that an operation is about. -/
def memberText (id : OpId) : String :=
  program.opName id ++ " " ++ (((program.operands id).head?).map program.operandText).getD "" ++
    "[\"" ++ program.stringOf id "name" ++ "\"]"

/-- The value of a scalar constant. Values of one bit are truth values. -/
def constantValue? (id : OpId) : Option Literal :=
  let attributes := program.attributes id
  match attributes.int? "value" with
  | some value =>
    if program.resultType? id 0 = some (.scalar .i1) then some (.bool (value ≠ 0))
    else some (.int value)
  | none => (attributes.float? "value").map .float

/-- A scalar constant. -/
def constantText (id : OpId) : String :=
  program.resultsText id ++ program.opName id ++ " " ++
    (match program.constantValue? id with
     | some (.bool value) => if value then "1" else "0"
     | some literal => literal.text
     | none => "<none>") ++ " : " ++ typesText (program.resultTypes id)

/-- The arguments of the entry block of an operation. -/
def entryArguments (regions : Regions) : List ValueId :=
  match regions.entryBlock? with
  | some (block, _) => (program.header block).arguments
  | none => []

/-- The name of the function that an operation defines. -/
def functionName? (id : OpId) : Option String :=
  (program.attributes id).symbol? "sym_name"

/-- The head of a function. -/
def functionText (id : OpId) (regions : Regions) : String :=
  let results := program.resultTypes id
  program.opName id ++ " " ++
    (if (program.attributes id).str? "sym_visibility" = some "private" then "private " else "") ++
    "@" ++ (program.functionName? id).getD "" ++ "(" ++
    String.intercalate ", " ((program.entryArguments regions).map program.valueText) ++ ")" ++
    if results.isEmpty then "" else " -> " ++ resultTypesText results

/-- The head of a counted loop. -/
def forText (id : OpId) (regions : Regions) : String :=
  let operands := program.operands id
  let arguments := program.entryArguments regions
  let name (index : Nat) : String := ((operands[index]?).map program.nameOf).getD ""
  let pairs := ((arguments.drop 1).zip (operands.drop 3)).map fun pair =>
    program.nameOf pair.1 ++ " = " ++ program.nameOf pair.2
  program.resultsText id ++ program.opName id ++ " " ++
    ((arguments.head?).map program.nameOf).getD "" ++ " = " ++ name 0 ++ " to " ++ name 1 ++
    " step " ++ name 2 ++
    if arguments.length ≤ 1 then ""
    else
      " iter_args(" ++ String.intercalate ", " pairs ++ ") -> (" ++
        typesText (program.resultTypes id) ++ ")"

/-- A choice between two regions; a second region without any operations is left out when the
choice has no results. -/
def choiceText (id : OpId) (regions : Regions) (texts : List String) : String :=
  let results := program.resultTypes id
  let omitted := results.isEmpty && (((regions.get? 1).map fun r =>
    (Regions.heads.blockHeads r).isEmpty).getD true)
  program.resultsText id ++ program.opName id ++ " " ++ program.operandsText (program.operands id) ++
    (if results.isEmpty then "" else " -> (" ++ typesText results ++ ")") ++
    texts[0]?.getD "" ++ if omitted then "" else " else" ++ texts[1]?.getD ""

/-- A branch of a program before lowering, with both regions. -/
def branchText (id : OpId) (texts : List String) : String :=
  program.resultsText id ++ program.opName id ++ " " ++ program.operandsText (program.operands id) ++
    " -> (" ++ typesText (program.resultTypes id) ++ ")" ++ texts[0]?.getD "" ++
    match texts[1]? with
    | some text => " else" ++ text
    | none => ""

/-- A loop of a program before lowering. -/
def loopText (id : OpId) (texts : List String) : String :=
  let operands := program.operands id
  program.resultsText id ++ program.opName id ++ " " ++ program.operandsText (operands.take 2) ++
    ", init(" ++ program.operandsText (operands.drop 2) ++ ")" ++ texts[0]?.getD "" ++ " : (" ++
    typesText (program.operandTypes id) ++ ") -> (" ++ typesText (program.resultTypes id) ++ ")"

/-- An operation of the programs before lowering. -/
def torchText (id : OpId) (texts : List String) : TorchKind → String
  | .constantBool | .constantDevice | .constantFloat | .constantInt | .constantNone
  | .constantStr =>
    program.resultsText id ++ program.opName id ++
      match (program.attributes id).get? "value" with
      | some value => " " ++ value.text
      | none => ""
  | .dictConstruct =>
    let operands := program.operands id
    let keys := (((program.attributes id).int? "num_keys").getD 0).toNat
    program.resultsText id ++ program.opName id ++ program.groupText "keys" (operands.take keys) ++
      program.groupText "values" (operands.drop keys) ++ " -> " ++
      typesText (program.resultTypes id)
  | .primIf => program.branchText id texts
  | .primLoop => program.loopText id texts
  | .primLoopCondition =>
    let operands := program.operands id
    program.opName id ++ " " ++ program.operandsText (operands.take 1) ++ "," ++
      program.groupText "iter" (operands.drop 1)
  | .classType =>
    program.opName id ++ " @" ++ program.symbolOf id "sym_name" ++ texts[0]?.getD " \x7b\n\x7d"
  | .attr =>
    program.opName id ++ " " ++ program.privateText id ++ "\"" ++ program.stringOf id "name" ++
      "\" : " ++ program.declaredText id
  | .method =>
    program.opName id ++ " " ++ program.privateText id ++ "\"" ++ program.stringOf id "name" ++
      "\", @" ++ program.symbolOf id "function"
  | .nnModule =>
    program.resultsText id ++ program.opName id ++ texts[0]?.getD "" ++ " : " ++
      typesText (program.resultTypes id)
  | .slot =>
    program.opName id ++ " \"" ++ program.stringOf id "name" ++ "\", " ++
      program.operandsText (program.operands id) ++ " : " ++ typesText (program.operandTypes id)
  | .globalSlot =>
    program.opName id ++ " " ++ program.privateText id ++ "@" ++ program.symbolOf id "sym_name" ++
      " : " ++ program.declaredText id ++ texts[0]?.getD ""
  | .globalSlotGet =>
    program.resultsText id ++ program.opName id ++ " @" ++ program.symbolOf id "slot" ++ " : " ++
      typesText (program.resultTypes id)
  | .globalSlotSet =>
    program.opName id ++ " @" ++ program.symbolOf id "slot" ++ " = " ++
      program.operandsText (program.operands id) ++ " : " ++ typesText (program.operandTypes id)
  | .getAttr =>
    program.resultsText id ++ program.memberText id ++ " : " ++
      typesText (program.operandTypes id) ++ " -> " ++ typesText (program.resultTypes id)
  | .setAttr =>
    program.memberText id ++ " = " ++ (((program.operands id)[1]?).map program.operandText).getD "" ++
      " : " ++ typesText (program.operandTypes id)
  | .callMethod =>
    let types := program.operandTypes id
    program.resultsText id ++ program.memberText id ++ " (" ++
      program.operandsText ((program.operands id).drop 1) ++ ") : " ++ typesText (types.take 1) ++
      ", (" ++ typesText (types.drop 1) ++ ") -> " ++ resultTypesText (program.resultTypes id)
  | _ => program.genericText id texts

/-- An operation, given its regions and their texts. -/
def opText (id : OpId) (regions : Regions) (texts : List String) : String :=
  match program.kind id with
  | .module => "module" ++ texts[0]?.getD " \x7b\n\x7d"
  | .func .func => program.functionText id regions ++ texts[0]?.getD ""
  | .func .call =>
    program.resultsText id ++ program.opName id ++ " @" ++ program.symbolOf id "callee" ++ "(" ++
      program.operandsText (program.operands id) ++ ") : (" ++
      typesText (program.operandTypes id) ++ ") -> " ++ resultTypesText (program.resultTypes id)
  | .arith .constant => program.constantText id
  | .memref .alloc =>
    program.resultsText id ++ program.opName id ++ "() : " ++
      typesText ((program.resultTypes id).take 1)
  | .memref .load =>
    program.resultsText id ++ program.opName id ++ " " ++ program.accessText (program.operands id)
  | .memref .store =>
    program.opName id ++ " " ++ (((program.operands id).head?).map program.nameOf).getD "" ++ ", " ++
      program.accessText ((program.operands id).drop 1)
  | .scf .forLoop => program.forText id regions ++ texts[0]?.getD ""
  | .scf .ifElse => program.choiceText id regions texts
  | .tosa .const =>
    program.resultsText id ++ program.opName id ++ " " ++
      (((program.attributes id).dense? "value").map DenseData.text).getD "" ++ " : " ++
      typesText ((program.resultTypes id).take 1)
  | .torch kind => program.torchText id texts kind
  | _ => program.genericText id texts

end Program

mutual

/-- The lines of the operations of a block. -/
def Body.text (program : Program) (indent : Nat) : Body → String
  | .nil => ""
  | .cons op regions rest =>
    indentation indent ++ program.opText op regions (Regions.texts program indent regions) ++ "\n" ++
      Body.text program indent rest

/-- The lines of blocks. -/
def Blocks.text (program : Program) (indent : Nat) : Blocks → String
  | .nil => ""
  | .cons block body rest =>
    program.headerText indent block ++ Body.text program indent body ++
      Blocks.text program indent rest

/-- Each region in braces. -/
def Regions.texts (program : Program) (indent : Nat) : Regions → List String
  | .nil => []
  | .cons blocks rest =>
    (" \x7b\n" ++ Blocks.text program (indent + 1) blocks ++ indentation indent ++ "\x7d") ::
      Regions.texts program indent rest

end

/-- The text of a program. -/
def Program.text (program : Program) : String :=
  program.opText program.root program.regions (program.regions.texts program 0)

end TensorIR
