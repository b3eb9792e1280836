/-!
# The inside of a quoted string

Between double quotes three characters are written with a backslash: the backslash itself, the
double quote, and the line feed (as `\n`). Reading takes a backslash together with the character
that follows it; a backslash before any other character stands for that character, and one at the
very end stands for itself.

## Main definitions

* `Quoted.escape` — the written form of a text
* `Quoted.unescape` — the text that a written form stands for

## Main results

* `Quoted.unescape_escape` — reading inverts writing
-/

namespace TensorIR

namespace Text

namespace Quoted

/-- The written form of one character. -/
def escapeChar : Char → List Char
  | '\\' => ['\\', '\\']
  | '"' => ['\\', '"']
  | '\n' => ['\\', 'n']
  | c => [c]

/-- The written form of a text. -/
def escape (text : List Char) : List Char :=
  text.flatMap escapeChar

/-- The text that a written form stands for. -/
def unescape : List Char → List Char
  | [] => []
  | '\\' :: 'n' :: rest => '\n' :: unescape rest
  | '\\' :: c :: rest => c :: unescape rest
  | c :: rest => c :: unescape rest

/-- Reading inverts writing. -/
theorem unescape_escape (text : List Char) : unescape (escape text) = text := by
  induction text with
  | nil => rfl
  | cons c rest ih =>
    simp only [escape, List.flatMap_cons] at ih ⊢
    by_cases backslash : c = '\\'
    · subst backslash; simp [escapeChar, unescape, ih]
    by_cases quote : c = '"'
    · subst quote; simp [escapeChar, unescape, ih]
    by_cases newline : c = '\n'
    · subst newline; simp [escapeChar, unescape, ih]
    have plain : escapeChar c = [c] := by unfold escapeChar; split <;> simp_all
    simp [plain, unescape, ih, backslash]

end Quoted

/-- The written form of a text, without its quotes. -/
def escape (text : String) : String :=
  String.ofList (Quoted.escape text.toList)

/-- The text that a written form without quotes stands for. -/
def unescape (text : String) : String :=
  String.ofList (Quoted.unescape text.toList)

end Text

end TensorIR
