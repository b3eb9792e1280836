import TensorIR.Source.Token
import TensorIR.Text.Letter

/-!
# From source text to tokens

Tokens are read from left to right, each as long as its rule allows. Between them stand spaces,
tabs, carriage returns, line feeds and comments, which begin with two slashes and end with their
line.

## Main definitions

* `Scan.step` — what stands at the beginning of a text
* `Scan.tokens` — the tokens of a source text, closed by an end mark
-/

namespace TensorIR

/-- Why a text is no sequence of tokens. -/
inductive ScanCause where
  | expectedIdentifier
  | unterminatedString
  | unexpected (c : Char)
  deriving DecidableEq, Repr

/-- The sentence that reports a cause. -/
def ScanCause.message : ScanCause → String
  | expectedIdentifier => "Expected identifier"
  | unterminatedString => "Unterminated string"
  | unexpected c => s!"Scanning failed starting at: {c}"

/-- A cause and the place of the token that could not be read. -/
structure ScanFault where
  location : Location
  cause : ScanCause
  deriving DecidableEq, Repr

namespace Scan

/-- The character may begin an identifier. -/
def beginsIdentifier (c : Char) : Bool :=
  Text.isLetter c || c == '_' || c == '@' || c == '%' || c == '^'

/-- The character may stand inside an identifier. -/
def continuesIdentifier (c : Char) : Bool :=
  Text.isLetterOrNumeral c || c == '_' || c == '.' || c == '$'

/-- The words that are read as integer types. -/
def integerTypes : List String := ["i1", "i4", "i8", "i16", "i32", "i64", "i128"]

/-- The kind of an identifier that begins with a character. -/
def identifierKind : Char → TokenKind
  | '@' => .atIdentifier
  | '%' => .percentIdentifier
  | '^' => .caretIdentifier
  | _ => .bareIdentifier

/-- The number of digits at the beginning of a text. -/
def digitsLength (text : List Char) : Nat :=
  (text.takeWhile Char.isDigit).length

/-- The length of a fraction at the beginning of a text: a point and at least one digit. -/
def fractionLength : List Char → Nat
  | '.' :: rest => if digitsLength rest = 0 then 0 else digitsLength rest + 1
  | _ => 0

/-- The length of an exponent at the beginning of a text: a letter, perhaps a sign, and at least
one digit. -/
def exponentLength : List Char → Nat
  | e :: rest =>
    if e ≠ 'e' ∧ e ≠ 'E' then 0
    else
      match rest with
      | sign :: digits =>
        if sign = '+' ∨ sign = '-' then
          if digitsLength digits = 0 then 0 else digitsLength digits + 2
        else if digitsLength rest = 0 then 0
        else digitsLength rest + 1
      | [] => 0
  | [] => 0

/-- The length of the rest of a string up to its closing quote, if it is closed on its line. A
backslash takes the next character with it. -/
def stringLength? : List Char → Option Nat
  | [] => none
  | '"' :: _ => some 1
  | '\n' :: _ => none
  | ['\\'] => none
  | '\\' :: '\n' :: _ => none
  | '\\' :: _ :: rest => (stringLength? rest).map (· + 2)
  | _ :: rest => (stringLength? rest).map (· + 1)

/-- What stands at the beginning of a text, with the number of characters it takes after its
first. -/
inductive Step where
  | blank
  | newline
  | comment (extra : Nat)
  | token (kind : TokenKind) (extra : Nat)
  deriving DecidableEq, Repr

/-- Reads a number after its first digit. -/
def number (rest : List Char) : Step :=
  let whole := digitsLength rest
  let fraction := fractionLength (rest.drop whole)
  let exponent := exponentLength (rest.drop (whole + fraction))
  .token (if fraction + exponent = 0 then .integer else .floatLiteral) (whole + fraction + exponent)

/-- Reads a word or a name after its first character. -/
def identifier (c : Char) (word : List Char) : Except ScanCause Step :=
  if word.isEmpty ∧ (c = '@' ∨ c = '%' ∨ c = '^') then .error .expectedIdentifier
  else .ok (.token (identifierKind c) word.length)

/-- What stands at the beginning of the text `c :: rest`. -/
def step (c : Char) (rest : List Char) : Except ScanCause Step :=
  match TokenKind.sign? c with
  | some kind => .ok (.token kind 0)
  | none =>
    if c = ' ' ∨ c = '\r' ∨ c = '\t' then .ok .blank
    else if c = '\n' then .ok .newline
    else if c = '/' ∧ rest.head? = some '/' then .ok (.comment (rest.takeWhile (· ≠ '\n')).length)
    else if c = '-' then
      .ok (if rest.head? = some '>' then .token .arrow 1 else .token .minus 0)
    else if c = '"' then
      match stringLength? rest with
      | some extra => .ok (.token .string extra)
      | none => .error .unterminatedString
    else
      let word := rest.takeWhile continuesIdentifier
      if integerTypes.contains (String.ofList (c :: word)) then .ok (.token .intType word.length)
      else if c.isDigit then .ok (number rest)
      else if beginsIdentifier c then identifier c word
      else .error (.unexpected c)

/-- The tokens of a text that begins at a given place. -/
def tokensFrom (location : Location) : List Char → Except ScanFault (List Token)
  | [] => .ok [⟨.eof, "", location⟩]
  | c :: rest =>
    match step c rest with
    | .error cause => .error ⟨location, cause⟩
    | .ok .blank => tokensFrom ⟨location.line, location.column + 1⟩ rest
    | .ok .newline => tokensFrom ⟨location.line + 1, 0⟩ rest
    | .ok (.comment extra) =>
      tokensFrom ⟨location.line, location.column + 1 + extra⟩ (rest.drop extra)
    | .ok (.token kind extra) => do
      let token : Token := ⟨kind, String.ofList (c :: rest.take extra), location⟩
      let others ← tokensFrom ⟨location.line, location.column + 1 + extra⟩ (rest.drop extra)
      return token :: others
termination_by text => text.length

/-- The tokens of a source text. -/
def tokens (source : String) : Except ScanFault (List Token) :=
  tokensFrom ⟨0, 0⟩ source.toList

end Scan

end TensorIR
