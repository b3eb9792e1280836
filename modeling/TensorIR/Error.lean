import TensorIR.Attribute
import TensorIR.Source.Scan

/-!
# Errors

What can go wrong when a program is read, checked, refined, lowered or run. An error keeps its
cause; the wording is in one place.

## Main definitions

* `Diagnostic` — one violated rule and the operation that violates it
* `Error`, `Error.message` — everything that can be reported, and how it reads
-/

namespace TensorIR

/-- A violated rule and the operation that violates it. -/
structure Diagnostic where
  location : Option Location
  operation : String
  message : String
  deriving DecidableEq, Repr, Inhabited

/-- The written form of a report about an operation. -/
def Diagnostic.text (diagnostic : Diagnostic) : String :=
  Location.textOf diagnostic.location ++ ": '" ++ diagnostic.operation ++ "' op " ++
    diagnostic.message

/-- Why a sequence of tokens is no program. -/
inductive ParseCause where
  | expectedToken (expected found : TokenKind) (lexeme : String)
  | expectedKeyword (keyword : String)
  | expectedOperation (expected found : String)
  | unknownOperation (name : String)
  | redefinition (name : String)
  | useBeforeAssignment (name : String)
  | operandCount (expected found : Nat)
  | operandType (name declared used : String)
  | missingOperandTypes
  | missingResultTypes
  | unclosedRegion
  | unclosedType
  | afterModule
  | badInteger (fault : Number.IntegerFault)
  | badFloat (lexeme : String)
  | badBoolean (lexeme : String)
  | badAttribute (lexeme : String)
  | badType (fault : TypeFault)
  | other (message : String)

/-- The sentence that reports why a sequence of tokens is no program. -/
def ParseCause.message : ParseCause → String
  | expectedToken expected found lexeme =>
    s!"Expected {expected.name}, but got `{lexeme}` of kind {found.name}"
  | expectedKeyword keyword => s!"Expected keyword: {keyword}"
  | expectedOperation expected found => s!"Expected {expected}, but got {found}"
  | unknownOperation name => s!"Unknown operation: {name}"
  | redefinition name => s!"Redefinition of {name}"
  | useBeforeAssignment name => s!"Expected assignment before use of {name}"
  | operandCount expected found => s!"Expected {expected} operand types, but got {found}"
  | operandType name declared used =>
    s!"Type mismatch for {name}: declared as {declared} but used as {used}"
  | missingOperandTypes => "Expected `:` followed by the operand types"
  | missingResultTypes => "Expected `->` followed by the result types"
  | unclosedRegion => "Expected `\x7d` at end of region"
  | unclosedType => "Unterminated type, expected `>`"
  | afterModule => "Expected end of input after module"
  | badInteger fault => fault.message
  | badFloat lexeme => s!"Expected float, but got `{lexeme}`"
  | badBoolean lexeme => s!"Expected `true` or `false`, but got `{lexeme}`"
  | badAttribute lexeme => s!"Expected attribute value, but got `{lexeme}`"
  | badType fault => fault.message
  | other message => message

/-- Anything that can be reported. -/
inductive Error where
  /-- A rule that an operation violates. -/
  | verification (report : Diagnostic)
  /-- A construct that has no lowering. -/
  | legalization (report : Diagnostic)
  /-- A constant outside the range of its type. -/
  | attributeRange (report : Diagnostic)
  /-- A type that contradicts what is already known. -/
  | refinementConflict (location : Option Location) (known found : String)
  /-- An operation that a lowering left behind. -/
  | notLegalized (location : Option Location) (operation pipeline : String)
  /-- All rules that a program violates. -/
  | diagnostics (reports : List Diagnostic)
  /-- A source text that is no sequence of tokens. -/
  | scan (source : String) (fault : ScanFault)
  /-- A sequence of tokens that is no program. -/
  | parse (source : String) (location : Location) (cause : ParseCause)
  /-- A text that is no type. -/
  | type (fault : TypeFault)
  /-- Shapes that do not go together. -/
  | shape (fault : ShapeFault)
  /-- Anything else. -/
  | failure (message : String)
  deriving Inhabited

namespace Error

/-- The sentence that reports an error. -/
def message : Error → String
  | verification report | legalization report => report.text
  | attributeRange report =>
    Diagnostic.text { report with message := "attribute out of range: " ++ report.message }
  | refinementConflict location known found =>
    Location.textOf location ++ ": cannot refine type " ++ known ++ " to " ++ found
  | notLegalized location operation pipeline =>
    Location.textOf location ++ ": failed to legalize operation '" ++ operation ++ "' for the " ++
      pipeline ++ " pipeline"
  | diagnostics reports => String.intercalate "\n" (reports.map Diagnostic.text)
  | scan source fault => fault.location.snippet source fault.cause.message
  | parse source location cause => "\n\n" ++ location.snippet source cause.message ++ "\n"
  | type fault => fault.message
  | shape fault => fault.message
  | failure message => message

/-- What a report about an operation says when an error arises while it is checked. -/
def detail : Error → String
  | verification report | legalization report => report.message
  | attributeRange report => "attribute out of range: " ++ report.message
  | error => error.message

end Error

end TensorIR
