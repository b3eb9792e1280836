import TensorIR.Number.FloatText
import TensorIR.Number.Rounding
import TensorIR.Shape
import TensorIR.Text.Quoted
import TensorIR.Type

/-!
# Attributes

An operation carries named constants: numbers, texts, symbols, lists of integers, element data of
constant tensors, and types. They are kept and written in the order of their names.

## Main definitions

* `Attribute`, `Attribute.text` — a constant and its written form
* `Attributes` — constants by name
* `Literal` — a scalar known before the program runs
-/

namespace TensorIR

/-- A scalar known before the program runs. -/
inductive Literal where
  | none
  | bool (value : Bool)
  | int (value : Int)
  | float (value : Float)
  | str (value : String)
  deriving Inhabited

namespace Literal

/-- The value as an integer; truth values count as one and zero. -/
def int? : Literal → Option Int
  | int value => some value
  | bool value => some (if value then 1 else 0)
  | _ => Option.none

/-- The value as a floating-point number; integers are widened. -/
def float? : Literal → Option Float
  | float value => some value
  | int value => some (Float.ofInt value)
  | _ => Option.none

/-- The value as a truth value. -/
def bool? : Literal → Option Bool
  | bool value => some value
  | _ => Option.none

/-- The value is the absent one. -/
def isNone : Literal → Bool
  | none => true
  | _ => false

/-- The written form of a literal. A text is written as it is. -/
def text : Literal → String
  | none => "none"
  | bool value => toString value
  | int value => toString value
  | float value => Number.programText value
  | str value => "\"" ++ value ++ "\""

end Literal

/-- The elements of a constant tensor. A single value fills the tensor. -/
structure DenseData where
  values : List Float
  isFloat : Bool
  isSplat : Bool
  deriving Inhabited

namespace DenseData

/-- One value for all elements. -/
def splat (value : Float) (isFloat : Bool) : DenseData := ⟨[value], isFloat, true⟩

/-- A value for each element. -/
def ofList (values : List Float) (isFloat : Bool) : DenseData := ⟨values, isFloat, false⟩

/-- The values of a given number of elements. -/
def expand (data : DenseData) (count : Nat) : List Float :=
  if data.isSplat then List.replicate count (data.values.head?.getD 0.0) else data.values

/-- The written form of an element. -/
def elementText (data : DenseData) (value : Float) : String :=
  if data.isFloat then Number.programText value else toString (Number.truncateToInt value)

/-- The written form of the elements. -/
def text (data : DenseData) : String :=
  if data.isSplat then "dense<" ++ data.elementText (data.values.head?.getD 0.0) ++ ">"
  else "dense<[" ++ String.intercalate ", " (data.values.map data.elementText) ++ "]>"

end DenseData

/-- A constant that belongs to an operation. -/
inductive Attribute where
  | int (value : Int)
  | float (value : Float)
  | bool (value : Bool)
  | str (value : String)
  | symbol (name : String)
  | array (values : List Int)
  | dense (data : DenseData)
  | type (type : Ty)
  deriving Inhabited

namespace Attribute

/-- A symbol of which the name may be given with its sign. -/
def ofSymbol (name : String) : Attribute :=
  symbol (String.ofList (name.toList.dropWhile (· = '@')))

/-- The written form of a constant. -/
def text : Attribute → String
  | int value => toString value
  | float value => Number.programText value
  | bool value => toString value
  | str value => "\"" ++ Text.escape value ++ "\""
  | symbol name => "@" ++ name
  | array values => integersText values
  | dense data => data.text
  | type value => value.text

end Attribute

/-- Constants by name, in the order of the names. -/
structure Attributes where
  entries : List (String × Attribute) := []
  deriving Inhabited

namespace Attributes

/-- No constants. -/
def empty : Attributes := ⟨[]⟩

/-- The entries with one of them set, at the place its name has in the order. -/
def insertInto (name : String) (value : Attribute) :
    List (String × Attribute) → List (String × Attribute)
  | [] => [(name, value)]
  | (other, old) :: rest =>
    if name = other then (name, value) :: rest
    else if name < other then (name, value) :: (other, old) :: rest
    else (other, old) :: insertInto name value rest

/-- The constants with one of them set. -/
def insert (attributes : Attributes) (name : String) (value : Attribute) : Attributes :=
  ⟨insertInto name value attributes.entries⟩

/-- The constants with one of them taken away. -/
def erase (attributes : Attributes) (name : String) : Attributes :=
  ⟨attributes.entries.filter (·.1 ≠ name)⟩

/-- The constant with a given name. -/
def get? (attributes : Attributes) (name : String) : Option Attribute :=
  attributes.entries.lookup name

/-- There are no constants. -/
def isEmpty (attributes : Attributes) : Bool :=
  attributes.entries.isEmpty

/-- The integer with a given name. -/
def int? (attributes : Attributes) (name : String) : Option Int :=
  match attributes.get? name with
  | some (.int value) => some value
  | _ => none

/-- The number with a given name; integers are widened. -/
def float? (attributes : Attributes) (name : String) : Option Float :=
  match attributes.get? name with
  | some (.float value) => some value
  | some (.int value) => some (Float.ofInt value)
  | _ => none

/-- The truth value with a given name. -/
def bool? (attributes : Attributes) (name : String) : Option Bool :=
  match attributes.get? name with
  | some (.bool value) => some value
  | _ => none

/-- The text with a given name. -/
def str? (attributes : Attributes) (name : String) : Option String :=
  match attributes.get? name with
  | some (.str value) => some value
  | _ => none

/-- The symbol with a given name, without its sign. -/
def symbol? (attributes : Attributes) (name : String) : Option String :=
  match attributes.get? name with
  | some (.symbol value) => some value
  | _ => none

/-- The list of integers with a given name. -/
def array? (attributes : Attributes) (name : String) : Option (List Int) :=
  match attributes.get? name with
  | some (.array values) => some values
  | _ => none

/-- The type with a given name. -/
def type? (attributes : Attributes) (name : String) : Option Ty :=
  match attributes.get? name with
  | some (.type type) => some type
  | _ => none

/-- The element data with a given name. -/
def dense? (attributes : Attributes) (name : String) : Option DenseData :=
  match attributes.get? name with
  | some (.dense data) => some data
  | _ => none

/-- The written form in braces, after a space; nothing when there are no constants. -/
def text (attributes : Attributes) : String :=
  if attributes.isEmpty then ""
  else
    " \x7b" ++ String.intercalate ", "
      (attributes.entries.map fun entry => entry.1 ++ " = " ++ entry.2.text) ++ "\x7d"

end Attributes

end TensorIR
