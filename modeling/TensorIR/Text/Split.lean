/-!
# Cutting text at a separator

Text is cut either at every occurrence of a character, or only at the commas that stand outside all
brackets and quotes.

## Main definitions

* `Text.splitOn` — the parts between the occurrences of a character
* `Text.splitTopLevel` — the parts between the commas outside brackets and quotes
* `Text.afterPrefix?`, `Text.beforeLast?` — the text without a given beginning or end
-/

namespace TensorIR

namespace Text

/-- The parts of a text between the occurrences of `separator`. There is always at least one. -/
def splitOn (separator : Char) : List Char → List (List Char)
  | [] => [[]]
  | c :: rest =>
    if c = separator then [] :: splitOn separator rest
    else
      match splitOn separator rest with
      | [] => [[c]]
      | part :: parts => (c :: part) :: parts

/-- The parts of a text between the commas outside `<>`, `[]` and quotes, where `current` is the
part read so far, last character first. A final part that is empty is left out. -/
def splitTopLevelFrom (depth : Int) (quoted : Bool) (current : List Char) :
    List Char → List (List Char)
  | [] => if current.isEmpty then [] else [current.reverse]
  | c :: rest =>
    if c = ',' ∧ depth = 0 ∧ !quoted then
      current.reverse :: splitTopLevelFrom depth quoted [] rest
    else
      let quoted' := if c = '"' then !quoted else quoted
      let depth' :=
        if quoted then depth
        else if c = '<' ∨ c = '[' then depth + 1
        else if c = '>' ∨ c = ']' then depth - 1
        else depth
      splitTopLevelFrom depth' quoted' (c :: current) rest

/-- The parts of a text between the commas outside `<>`, `[]` and quotes. -/
def splitTopLevel (text : List Char) : List (List Char) :=
  splitTopLevelFrom 0 false [] text

/-- The text after a given beginning, if it begins so. -/
def afterPrefix? : List Char → List Char → Option (List Char)
  | [], text => some text
  | c :: expected, d :: text => if c = d then afterPrefix? expected text else none
  | _ :: _, [] => none

/-- The text before a given last character, if it ends so. -/
def beforeLast? (last : Char) (text : List Char) : Option (List Char) :=
  if text.getLast? = some last then some text.dropLast else none

@[simp]
theorem afterPrefix?_append (expected text : List Char) :
    afterPrefix? expected (expected ++ text) = some text := by
  induction expected with
  | nil => rfl
  | cons c rest ih => simp [afterPrefix?, ih]

@[simp]
theorem beforeLast?_concat (last : Char) (text : List Char) :
    beforeLast? last (text ++ [last]) = some text := by
  simp [beforeLast?]

theorem splitOn_ne_nil (separator : Char) (text : List Char) : splitOn separator text ≠ [] := by
  cases text with
  | nil => simp [splitOn]
  | cons c rest =>
    simp only [splitOn]
    split
    · simp
    · split <;> simp

end Text

end TensorIR
