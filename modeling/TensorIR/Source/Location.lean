import TensorIR.Text.Split

/-!
# Places in a source text

A place is a line and a column, both counted from zero in characters and shown counted from one. A
message about a place is shown below the line it is about.

## Main definitions

* `Location` — a line and a column
* `Location.snippet` — a message below the line it is about
-/

namespace TensorIR

/-- A line and a column, counted from zero. -/
structure Location where
  line : Nat
  column : Nat
  deriving DecidableEq, Repr, Inhabited

namespace Location

/-- The written form of a place, counted from one. -/
def text (location : Location) : String :=
  s!"loc({location.line + 1}:{location.column + 1})"

/-- The written form of a place that may be unknown. -/
def textOf : Option Location → String
  | some location => location.text
  | none => "loc(unknown)"

/-- The lines of a source text. -/
def lines (source : String) : List (List Char) :=
  Text.splitOn '\n' source.toList

/-- A message below the line it is about, with the line before it. A place after the last line is
shown at the last line. -/
def snippet (location : Location) (source message : String) : String :=
  let all := lines source
  let n := min location.line (all.length - 1)
  let lineAt (i : Nat) : String := s!"\n{i}  | {String.ofList (all.getD i [])}"
  let before := if n = 0 then "" else lineAt (n - 1)
  let indent := location.column + 4 + (toString n).length
  "```" ++ before ++ lineAt n ++ "\n" ++ String.ofList (List.replicate indent ' ') ++ "^ " ++
    message ++ "\n```"

end Location

end TensorIR
