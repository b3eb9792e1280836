import TensorIR.Program.Basic

/-!
# Reading tokens

A reader walks through the tokens of a source text, remembers which names stand for which values,
and builds a program on the way. This module has the parts that all operations share: names,
numbers, texts, types, attributes and lists.

## Main definitions

* `Reader`, `Reading` — the state of a reader and what runs on it
* `Reading.commaList` — a list of things between commas
* `Reading.type`, `Reading.attributes` — types and attributes
-/

namespace TensorIR

/-- The state of a reader. -/
structure Reader where
  source : String
  /-- The token that was read last. -/
  previous : Token
  /-- The tokens to come; the last one marks the end. -/
  rest : List Token
  /-- The values by name, for each region around the current place, innermost first. -/
  scopes : List (List (String × ValueId))
  program : Program

/-- What runs on a reader and may fail. -/
abbrev Reading := StateT Reader (Except Error)

namespace Reading

/-- The next token. -/
def peek : Reading Token := do
  let reader ← get
  return reader.rest.head?.getD ⟨.eof, "", reader.previous.location⟩

/-- The kind of the token after the next one. -/
def kindAfterNext : Reading (Option TokenKind) := do
  return ((← get).rest[1]?).map Token.kind

/-- All tokens have been read. -/
def atEnd : Reading Bool := do
  return (← peek).kind = .eof

/-- Reads one token, unless all have been read. -/
def advance : Reading Token := do
  let reader ← get
  match reader.rest with
  | token :: rest =>
    if token.kind = .eof then return reader.previous
    set { reader with previous := token, rest }
    return token
  | [] => return reader.previous

/-- The next token has a given kind. -/
def check (kind : TokenKind) : Reading Bool := do
  let token ← peek
  return token.kind ≠ .eof && token.kind = kind

/-- The next token is a given word. -/
def checkKeyword (keyword : String) : Reading Bool := do
  return (← check .bareIdentifier) && (← peek).lexeme = keyword

/-- Reads the next token if it has a given kind, and says whether it has. -/
def accept (kind : TokenKind) : Reading Bool := do
  if ← check kind then
    let _ ← advance
    return true
  return false

/-- Fails at a token. -/
def failAt {α : Type} (token : Token) (cause : ParseCause) : Reading α := do
  throw (.parse (← get).source token.location cause)

/-- Fails at the next token. -/
def failHere {α : Type} (cause : ParseCause) : Reading α := do
  failAt (← peek) cause

/-- Fails at the token that was read last. -/
def failBefore {α : Type} (cause : ParseCause) : Reading α := do
  failAt (← get).previous cause

/-- Reads a token of a given kind. -/
def expect (kind : TokenKind) : Reading Token := do
  if ← check kind then advance
  else
    let token ← peek
    failAt token (.expectedToken kind token.kind token.lexeme)

/-- Reads a given word. -/
def keyword (word : String) : Reading Unit := do
  let token ← expect .bareIdentifier
  if token.lexeme ≠ word then failAt token (.expectedKeyword word)

/-- Reads things between commas, as long as there are more to come and at most as many as the
fuel. -/
def commaListWithin {α : Type} (more : Reading Bool) (item : Reading α) : Nat → Reading (List α)
  | 0 => return []
  | fuel + 1 => do
    unless ← more do return []
    let first ← item
    if ← accept .comma then return first :: (← commaListWithin more item fuel)
    return [first]

/-- Reads things between commas, as long as there are more to come. -/
def commaList {α : Type} (more : Reading Bool) (item : Reading α) : Reading (List α) := do
  commaListWithin more item ((← get).rest.length + 1)

/-- The value with a given name, if it is visible. -/
def lookup? (name : String) : Reading (Option ValueId) := do
  return (← get).scopes.findSome? (·.lookup name)

/-- Makes a value visible. -/
def define (id : ValueId) : Reading Unit := do
  let reader ← get
  match (reader.program.value id).name, reader.scopes with
  | none, _ => return
  | some name, [] => throw (.failure s!"No scope to define {name} in")
  | some name, scope :: scopes =>
    if (scope.lookup name).isSome then failBefore (.redefinition name)
    set { reader with scopes := ((name, id) :: scope) :: scopes }

/-- Begins a region. -/
def openScope : Reading Unit :=
  modify fun reader => { reader with scopes := [] :: reader.scopes }

/-- Ends a region. -/
def closeScope : Reading Unit :=
  modify fun reader => { reader with scopes := reader.scopes.drop 1 }

/-- Changes the program that is being built. -/
def build {α : Type} (change : Program → α × Program) : Reading α := do
  let reader ← get
  let (result, program) := change reader.program
  set { reader with program }
  return result

/-- What a function makes of the program that is being built. -/
def ask {α : Type} (question : Program → α) : Reading α := do
  return question (← get).program

/-- Reads an integer, which may have a minus sign. -/
def integer : Reading Int := do
  let negative ← accept .minus
  let token ← expect .integer
  match Number.readInteger token.lexeme.toList with
  | .ok value => return if negative then -value else value
  | .error fault => failAt token (.badInteger fault)

/-- The number that a token stands for, if it stands for one. -/
def floatOf? (token : Token) : Option Float :=
  match token.kind with
  | .floatLiteral | .integer => some (Number.readFloat token.lexeme.toList)
  | .bareIdentifier =>
    if token.lexeme = "inf" then some (1.0 / 0.0)
    else if token.lexeme = "NaN" then some (0.0 / 0.0)
    else none
  | _ => none

/-- Reads a floating-point number, which may be written as an integer. -/
def float : Reading Float := do
  let negative ← accept .minus
  let token ← peek
  match floatOf? token with
  | some value =>
    let _ ← advance
    return if negative then -value else value
  | none => failAt token (.badFloat token.lexeme)

/-- Reads a text in quotes. -/
def string : Reading String := do
  let token ← expect .string
  return String.ofList (Text.Quoted.unescape (token.lexeme.toList.drop 1).dropLast)

/-- Reads a symbol and gives it without its sign. -/
def symbol : Reading String := do
  let token ← expect .atIdentifier
  return String.ofList (token.lexeme.toList.dropWhile (· = '@'))

/-- Reads a truth value. -/
def boolean : Reading Bool := do
  let token ← expect .bareIdentifier
  if token.lexeme = "true" then return true
  if token.lexeme = "false" then return false
  failAt token (.badBoolean token.lexeme)

/-- Reads integers in brackets. -/
def integerList : Reading (List Int) := do
  let _ ← expect .leftBracket
  let values ← commaList (return !(← check .rightBracket)) integer
  let _ ← expect .rightBracket
  return values

/-- Reads a number of element data, and says whether it is written as a floating-point number. -/
def denseNumber : Reading (Float × Bool) := do
  let token ← peek
  let isFloat ←
    if token.kind = .minus then pure ((← kindAfterNext) == some .floatLiteral)
    else pure (token.kind == .floatLiteral)
  return (← float, isFloat)

/-- Reads element data. One number written as floating-point makes all of them so. -/
def dense : Reading DenseData := do
  keyword "dense"
  let _ ← expect .less
  let data ←
    if ← accept .leftBracket then do
      let numbers ← commaList (return !(← check .rightBracket)) denseNumber
      let _ ← expect .rightBracket
      pure (DenseData.ofList (numbers.map Prod.fst) (numbers.any Prod.snd))
    else do
      let (value, isFloat) ← denseNumber
      pure (DenseData.splat value isFloat)
  let _ ← expect .greater
  return data

/-- Reads the value of an attribute. -/
def attributeValue : Reading Attribute := do
  let token ← peek
  match token.kind with
  | .minus =>
    if (← kindAfterNext) = some .floatLiteral then return .float (← float)
    return .int (← integer)
  | .integer => return .int (← integer)
  | .floatLiteral => return .float (← float)
  | .string => return .str (← string)
  | .atIdentifier => return .ofSymbol (← symbol)
  | .leftBracket => return .array (← integerList)
  | .bareIdentifier =>
    if token.lexeme = "true" ∨ token.lexeme = "false" then return .bool (← boolean)
    if token.lexeme = "dense" then return .dense (← dense)
    if token.lexeme = "inf" ∨ token.lexeme = "NaN" then return .float (← float)
    failAt token (.badAttribute token.lexeme)
  | _ => failAt token (.badAttribute token.lexeme)

/-- Reads one named attribute. -/
def attributeEntry : Reading (String × Attribute) := do
  let name ← expect .bareIdentifier
  let _ ← expect .equal
  return (name.lexeme, ← attributeValue)

/-- Reads attributes in braces. -/
def attributes : Reading Attributes := do
  let _ ← expect .leftBrace
  let entries ← commaList (return !(← check .rightBrace)) attributeEntry
  let _ ← expect .rightBrace
  return entries.foldl (fun all entry => all.insert entry.1 entry.2) .empty

/-- Reads tokens up to the bracket that closes the open ones, at most as many as the fuel, and gives
their text. -/
def bracketText : Nat → Int → Reading String
  | 0, _ => failHere .unclosedType
  | fuel + 1, depth => do
    if ← atEnd then failHere .unclosedType
    let token ← advance
    let depth :=
      match token.kind with
      | .less => depth + 1
      | .greater => depth - 1
      | _ => depth
    if depth = 0 then return token.lexeme
    return token.lexeme ++ (← bracketText fuel depth)

/-- Reads the text of a type: perhaps an exclamation mark, a word, and perhaps what follows in angle
brackets. -/
def typeText : Reading String := do
  let mark := if ← accept .exclamation then "!" else ""
  let name ← if ← check .intType then advance else expect .bareIdentifier
  if ← check .less then
    return mark ++ name.lexeme ++ (← bracketText (← get).rest.length 0)
  return mark ++ name.lexeme

/-- Reads a type. -/
def type : Reading Ty := do
  let start ← peek
  if ← check .intType then
    let token ← advance
    match ScalarType.read token.lexeme with
    | .ok type => return .scalar type
    | .error fault => failAt token (.badType fault)
  let text ← typeText
  match Ty.readInProgram text.toList with
  | .ok type => return type
  | .error fault => failAt start (.badType fault)

/-- Reads one or more types between commas. -/
def types : Reading (List Ty) :=
  commaList (return true) type

/-- Reads types in parentheses, of which there may be none. -/
def typesInParens : Reading (List Ty) := do
  let _ ← expect .leftParen
  if ← accept .rightParen then return []
  let list ← types
  let _ ← expect .rightParen
  return list

/-- Reads the types of results: a single one, or any number in parentheses. -/
def resultTypes : Reading (List Ty) := do
  if ← check .leftParen then typesInParens else return [← type]

/-- Reads the name of a value that is visible. -/
def operand : Reading ValueId := do
  let token ← expect .percentIdentifier
  match ← lookup? token.lexeme with
  | some value => return value
  | none => failAt token (.useBeforeAssignment token.lexeme)

/-- Reads values between commas, of which there may be none. -/
def operands : Reading (List ValueId) :=
  commaList (check .percentIdentifier) operand

/-- Fails unless values have the types written behind them. -/
def checkTypes (values : List ValueId) (types : List Ty) : Reading Unit := do
  if values.length ≠ types.length then failBefore (.operandCount values.length types.length)
  for (value, used) in values.zip types do
    let declared ← (← get).program.typed value
    unless declared.same used do
      let name ← ask fun program => (program.value value).name.getD unnamed
      failBefore (.operandType name declared.text used.text)

/-- Reads the names in front of an operation, and the equals sign behind them if there are any. -/
def resultNames : Reading (List String) := do
  let names ← commaList (check .percentIdentifier) (Token.lexeme <$> advance)
  unless names.isEmpty do
    let _ ← expect .equal
  return names

/-- Reads the name of an operation and gives its place. -/
def operationName : Reading Location := do
  let location := (← peek).location
  let _ ← expect .bareIdentifier
  return location

/-- Adds an operation to the program. The types of its results may be left out. -/
def addOperation (operation : Operation) (names : List String) (types : Option (List Ty)) :
    Reading OpId := do
  if let some types := types then
    if names.length ≠ types.length then
      throw (.failure s!"expected {names.length} types, but got {types.length}")
  let id ← build fun program => program.addOperation operation
  let mut results : List ValueId := []
  for (name, index) in names.zipIdx do
    let type := types.bind fun types => types[index]?
    let value ← build fun program => program.addValue ⟨some name, type, .result id⟩
    results := results ++ [value]
  build fun program =>
    ((), program.modifyOperation id fun operation => { operation with results })
  return id

/-- Gives the results of an operation their types. -/
def setResultTypes (op : OpId) (types : List Ty) : Reading Unit := do
  let results ← ask fun program => program.results op
  if results.length ≠ types.length then
    throw (.failure s!"expected {results.length} types, but got {types.length}")
  for (value, type) in results.zip types do
    build fun program => ((), program.setType value type)

end Reading

end TensorIR
