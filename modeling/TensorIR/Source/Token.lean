import TensorIR.Source.Location

/-!
# Tokens

The words, numbers and signs of which a source text is made.

## Main definitions

* `TokenKind`, `Token` — a token and its kind
* `TokenKind.sign?` — the kind of a sign of one character
-/

namespace TensorIR

/-- The kind of a token. -/
inductive TokenKind where
  | eof
  | bareIdentifier
  | atIdentifier
  | percentIdentifier
  | caretIdentifier
  | floatLiteral
  | integer
  | string
  | intType
  | arrow
  | colon
  | comma
  | equal
  | leftParen
  | rightParen
  | leftBrace
  | rightBrace
  | leftBracket
  | rightBracket
  | minus
  | exclamation
  | question
  | star
  | greater
  | less
  deriving DecidableEq, Repr, Inhabited

namespace TokenKind

/-- The name of a kind in messages. -/
def name : TokenKind → String
  | eof => "Eof"
  | bareIdentifier => "BareIdentifier"
  | atIdentifier => "AtIdentifier"
  | percentIdentifier => "PercentIdentifier"
  | caretIdentifier => "CaretIdentifier"
  | floatLiteral => "FloatLiteral"
  | integer => "Integer"
  | string => "String"
  | intType => "IntType"
  | arrow => "Arrow"
  | colon => "Colon"
  | comma => "Comma"
  | equal => "Equal"
  | leftParen => "LParen"
  | rightParen => "RParen"
  | leftBrace => "LBrace"
  | rightBrace => "RBrace"
  | leftBracket => "LBracket"
  | rightBracket => "RBracket"
  | minus => "Minus"
  | exclamation => "Exclamation"
  | question => "Question"
  | star => "Star"
  | greater => "Greater"
  | less => "Less"

/-- The kind of a token that is a single sign. The minus sign is left out, since it may begin an
arrow. -/
def sign? : Char → Option TokenKind
  | '(' => some leftParen
  | ')' => some rightParen
  | '\x7b' => some leftBrace
  | '\x7d' => some rightBrace
  | '[' => some leftBracket
  | ']' => some rightBracket
  | ':' => some colon
  | ',' => some comma
  | '=' => some equal
  | '!' => some exclamation
  | '?' => some question
  | '*' => some star
  | '>' => some greater
  | '<' => some less
  | _ => none

end TokenKind

/-- A token with its text in the source and the place of its first character. -/
structure Token where
  kind : TokenKind
  lexeme : String
  location : Location
  deriving DecidableEq, Repr, Inhabited

/-- The written form of a token, for listings. -/
def Token.text (token : Token) : String :=
  s!"{token.kind.name} \"{token.lexeme}\" at {token.location.text}"

end TensorIR
