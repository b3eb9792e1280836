import TensorIR.Proofs.Reading.Quiet
import TensorIR.Program.Reader

/-!
# Texts in quotes

Any text can be written between quotes: it is scanned as one token, up to the quote behind it, and read back as it
was. Writing makes pairs, each of a backslash and another character, of the characters that would end the token or
break its line, and of the backslash itself; scanning takes the second character of a pair along without looking
at it, and reading takes the pairs apart. The pairs can be made character by character or in three rounds, if the
backslash comes first.

## Main definitions

* `Text.Quoted.replaced` — the text with one character replaced everywhere
* `Scan.literal` — the written form of a text, between quotes

## Main results

* `Text.Quoted.escape_eq_replaced` — the written form in three rounds
* `Scan.step_quoted` — a quote begins a token that ends with the quote behind the text
* `Scan.tokens_literal`, `Scan.run_string_literal` — a text between quotes is one token, and is read back
* `Scan.tokens_quoted` — writing, scanning and reading together
-/

namespace TensorIR

namespace Text.Quoted

/-- The text with one character replaced everywhere. -/
def replaced (c : Char) (form text : List Char) : List Char :=
  text.flatMap fun d => if d = c then form else [d]

/-- A character is written as a pair, which does not break the line, or stands for itself. -/
theorem escapeChar_cases (c : Char) : (∃ d, d ≠ '\n' ∧ escapeChar c = ['\\', d]) ∨
    (escapeChar c = [c] ∧ c ≠ '\\' ∧ c ≠ '"' ∧ c ≠ '\n') := by
  unfold escapeChar
  split
  case h_1 | h_2 | h_3 => exact .inl ⟨_, by decide, rfl⟩
  case h_4 notBackslash notQuote notNewline => exact .inr ⟨rfl, notBackslash, notQuote, notNewline⟩

/-- The written form in three rounds. Backslashes come first: later rounds bring in others, which are not to be
replaced. -/
theorem escape_eq_replaced (text : List Char) :
    escape text = replaced '\n' ['\\', 'n'] (replaced '"' ['\\', '"'] (replaced '\\' ['\\', '\\'] text)) := by
  unfold escape replaced
  rw [List.flatMap_assoc, List.flatMap_assoc]
  refine List.flatMap_congr fun c _ => ?_
  by_cases backslash : c = '\\'
  · rw [backslash]
    rfl
  by_cases quote : c = '"'
  · rw [quote]
    rfl
  by_cases newline : c = '\n'
  · rw [newline]
    rfl
  simp [escapeChar, backslash, quote, newline]

end Text.Quoted

namespace Scan

open Text.Quoted (escape escapeChar_cases replaced)

/-- A string ends with the quote behind the written form of its text, whatever follows. -/
theorem stringLength_escape (text rest : List Char) :
    stringLength? (escape text ++ '"' :: rest) = some ((escape text).length + 1) := by
  induction text with
  | nil => simp [escape, stringLength?]
  | cons c text ih =>
    have written : escape (c :: text) = Text.Quoted.escapeChar c ++ escape text := List.flatMap_cons
    -- The second character of a pair may be a quote, but is not looked at.
    rcases escapeChar_cases c with ⟨d, notNewline, pair⟩ | ⟨plain, notBackslash, notQuote, notNewline⟩
    · simp [written, pair, stringLength?, ih]
    · simp [written, plain, stringLength?, notBackslash, ih]

theorem step_quoted (text rest : List Char) :
    step '"' (escape text ++ '"' :: rest) = .ok (.token .string ((escape text).length + 1)) := by
  simp [step, TokenKind.sign?, stringLength_escape]

/-- The written form of a text, between quotes. -/
def literal (text : String) : String :=
  "\"" ++ Text.escape text ++ "\""

theorem toList_literal (text : String) : (literal text).toList = '"' :: (escape text.toList ++ ['"']) := by
  simp [literal, Text.escape]

/-- A text between quotes is one token. -/
theorem tokens_literal (text : String) : tokens (literal text) =
    .ok [⟨.string, literal text, ⟨0, 0⟩⟩, ⟨.eof, "", ⟨0, (literal text).length⟩⟩] := by
  have all : (escape text.toList ++ ['"']).length = (escape text.toList).length + 1 := List.length_append
  have lexeme_eq : String.ofList ('"' :: (escape text.toList ++ ['"'])) = literal text := by
    rw [← toList_literal, String.ofList_toList]
  have width : (literal text).length = 0 + 1 + ((escape text.toList).length + 1) := by
    rw [← String.length_toList, toList_literal, List.length_cons, all, Nat.zero_add, Nat.add_comm]
  rw [tokens, toList_literal, tokensFrom, step_quoted]
  dsimp only
  rw [← all, List.take_length, List.drop_length, tokensFrom, lexeme_eq, width, all]
  rfl

/-- A reader takes the text out of the token. -/
theorem run_string_literal (text : String) (location : Location) (reader : Reader) (rest : List Token) :
    let token : Token := ⟨.string, literal text, location⟩
    Reading.string.run { reader with rest := token :: rest } = .ok (text, { reader with previous := token, rest }) := by
  intro token
  have isString : (Reading.expect .string).run { reader with rest := token :: rest } =
      .ok (token, { reader with previous := token, rest }) := rfl
  have inside : (token.lexeme.toList.drop 1).dropLast = escape text.toList := by
    rw [toList_literal, List.drop_one, List.tail_cons, List.dropLast_concat]
  rw [Reading.string, Reading.run_bind_of_ok isString, inside, Text.Quoted.unescape_escape, String.ofList_toList]
  rfl

/-- A text that is written in three rounds and put between quotes is one token, which a reader reads back, wherever it
stands and whatever comes behind it. -/
theorem tokens_quoted (text : String) :
    (Text.escape text).toList =
      replaced '\n' ['\\', 'n'] (replaced '"' ['\\', '"'] (replaced '\\' ['\\', '\\'] text.toList)) ∧
    tokens (literal text) = .ok [⟨.string, literal text, ⟨0, 0⟩⟩, ⟨.eof, "", ⟨0, (literal text).length⟩⟩] ∧
    ∀ (location : Location) (reader : Reader) (rest : List Token),
      let token : Token := ⟨.string, literal text, location⟩
      Reading.string.run { reader with rest := token :: rest } =
        .ok (text, { reader with previous := token, rest }) := by
  refine ⟨?_, tokens_literal text, run_string_literal text⟩
  rw [Text.escape, String.toList_ofList, Text.Quoted.escape_eq_replaced]

end Scan

end TensorIR
