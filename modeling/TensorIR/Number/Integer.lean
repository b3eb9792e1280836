/-!
# Reading integers

Integers are written in decimal with an optional sign. They are read digit by digit, and the first
thing wrong decides what is reported: a character that is no digit, or a digit that takes the value
out of the range of 64-bit signed integers.

## Main definitions

* `IntegerFault` — what is wrong with the text of an integer
* `readInteger` — a signed 64-bit integer
* `readCount` — an unsigned 64-bit integer
-/

namespace TensorIR

namespace Number

/-- The least signed 64-bit integer. -/
def minInt64 : Int := -9223372036854775808

/-- The greatest signed 64-bit integer. -/
def maxInt64 : Int := 9223372036854775807

/-- The greatest unsigned 64-bit integer. -/
def maxCount : Int := 18446744073709551615

/-- What is wrong with the text of an integer. -/
inductive IntegerFault where
  | empty
  | invalidDigit
  | tooLarge
  | tooSmall
  deriving DecidableEq, Repr

/-- The sentence that reports a fault. -/
def IntegerFault.message : IntegerFault → String
  | empty => "cannot parse integer from empty string"
  | invalidDigit => "invalid digit found in string"
  | tooLarge => "number too large to fit in target type"
  | tooSmall => "number too small to fit in target type"

/-- The value of a decimal digit. -/
def digitValue (c : Char) : Nat := c.toNat - '0'.toNat

/-- Reads digits onto a value that starts at `value` and may not exceed `most`. -/
def readUpward (most : Int) (value : Int) : List Char → Except IntegerFault Int
  | [] => .ok value
  | c :: rest =>
    if !c.isDigit then .error .invalidDigit
    else
      let next := value * 10 + digitValue c
      if next > most then .error .tooLarge else readUpward most next rest

/-- Reads digits onto a value that starts at `value` and may not fall below `least`. -/
def readDownward (least : Int) (value : Int) : List Char → Except IntegerFault Int
  | [] => .ok value
  | c :: rest =>
    if !c.isDigit then .error .invalidDigit
    else
      let next := value * 10 - digitValue c
      if next < least then .error .tooSmall else readDownward least next rest

/-- Reads a signed 64-bit integer with an optional sign. -/
def readInteger : List Char → Except IntegerFault Int
  | [] => .error .empty
  | ['+'] | ['-'] => .error .invalidDigit
  | '+' :: digits => readUpward maxInt64 0 digits
  | '-' :: digits => readDownward minInt64 0 digits
  | digits => readUpward maxInt64 0 digits

/-- Reads an unsigned 64-bit integer, which may have a plus sign. -/
def readCount : List Char → Except IntegerFault Int
  | [] => .error .empty
  | ['+'] => .error .invalidDigit
  | '+' :: digits => readUpward maxCount 0 digits
  | digits => readUpward maxCount 0 digits

/-- A value read upward stays within the bound it was read under. -/
theorem le_of_readUpward {most value result : Int} {digits : List Char} (start : value ≤ most)
    (read : readUpward most value digits = .ok result) : result ≤ most := by
  induction digits generalizing value with
  | nil => simp only [readUpward, Except.ok.injEq] at read; omega
  | cons c rest ih =>
    simp only [readUpward] at read
    split at read
    · exact absurd read (by simp)
    · split at read
      · exact absurd read (by simp)
      · exact ih (by omega) read

end Number

end TensorIR
