import TensorIR.Number.Shortest
import TensorIR.Number.Integer

/-!
# Floating-point numbers as text

Two layouts of the shortest digits. In a program a number is written so that it reads back as a
floating-point number: with a point or an exponent, positionally from `1e-4` up to `1e16`. In a
message it is written plainly: always positionally, and without a point where it has no fraction.

## Main definitions

* `Layout` — the decisions that tell the two apart
* `programText`, `plainText` — the two texts of a number
* `readFloat` — the number that the text of a literal stands for
-/

namespace TensorIR

namespace Number

/-- How the digits of a number are laid out. -/
structure Layout where
  /-- The range of powers of ten of the first digit that are written positionally, if limited. -/
  positional : Option (Int × Int)
  /-- Whether a number without a fraction is written with `.0`. -/
  keepPoint : Bool

/-- The layout of numbers in a program: positional from `1e-4` to below `1e16`, always with a point
or an exponent. -/
def programLayout : Layout := ⟨some (-4, 15), true⟩

/-- The layout of numbers in messages: positional throughout, a point only before a fraction. -/
def plainLayout : Layout := ⟨none, false⟩

namespace Layout

/-- The digits with the point after the place of the power zero. -/
def positionalText (layout : Layout) (digits : List Char) (leading : Int) : String :=
  if leading < 0 then
    "0." ++ String.ofList (List.replicate (-leading - 1).toNat '0' ++ digits)
  else
    let whole := leading.toNat + 1
    if digits.length ≤ whole then
      String.ofList (digits ++ List.replicate (whole - digits.length) '0') ++
        if layout.keepPoint then ".0" else ""
    else
      String.ofList (digits.take whole) ++ "." ++ String.ofList (digits.drop whole)

/-- The first digit, the others after a point, and the power of ten of the first. -/
def scientificText (digits : List Char) (leading : Int) : String :=
  let fraction := digits.drop 1
  String.ofList (digits.take 1) ++
    (if fraction.isEmpty then "" else "." ++ String.ofList fraction) ++ "e" ++ toString leading

/-- The text of a positive decimal. -/
def decimalText (layout : Layout) (decimal : Decimal) : String :=
  let (digits, leading) := decimal.significant
  match layout.positional with
  | none => layout.positionalText digits leading
  | some (least, most) =>
    if least ≤ leading && leading ≤ most then layout.positionalText digits leading
    else scientificText digits leading

/-- The text of a floating-point number. A number that is none has no sign. -/
def text (layout : Layout) (x : Float) : String :=
  let sign := if isNegative x then "-" else ""
  match magnitude x with
  | .nan => "NaN"
  | .infinite => sign ++ "inf"
  | .zero => sign ++ (if layout.keepPoint then "0.0" else "0")
  | .finite value => sign ++ layout.decimalText value.shortest

end Layout

/-- The text of a number in a program. -/
def programText (x : Float) : String := programLayout.text x

/-- The text of a number in a message. -/
def plainText (x : Float) : String := plainLayout.text x

/-- The value of a run of digits. -/
def naturalOf (digits : List Char) : Nat :=
  digits.foldl (fun value c => value * 10 + digitValue c) 0

/-- The exponent after the letter of a literal, with its sign. -/
def readExponent : List Char → Int
  | '-' :: digits => -(naturalOf digits : Int)
  | '+' :: digits => naturalOf digits
  | digits => naturalOf digits

/-- The number that a literal stands for: digits, perhaps a fraction, perhaps an exponent. -/
def readFloat (literal : List Char) : Float :=
  let whole := literal.takeWhile Char.isDigit
  let afterWhole := literal.drop whole.length
  let fraction :=
    match afterWhole with
    | '.' :: rest => rest.takeWhile Char.isDigit
    | _ => []
  let afterFraction := if fraction.isEmpty then afterWhole else afterWhole.drop (fraction.length + 1)
  let exponent :=
    match afterFraction with
    | [] => 0
    | _ :: rest => readExponent rest
  Decimal.toFloat ⟨naturalOf (whole ++ fraction), exponent - fraction.length⟩

end Number

end TensorIR
