import Mathlib
import TensorIR.Number.Integer

/-!
# Integers are read back

The decimal digits of an integer are read to that integer again, upward for an integer that is not negative and
downward for one behind a minus sign. As the digits are read, the value only moves away from zero, so that no part of
them is refused if the integer lies within the bounds.

## Main results

* `Number.readUpward_eq_ok`, `Number.readDownward_eq_ok` — the value of digits within a bound
* `Number.readInteger_toString` — the text of a 64-bit integer is read to that integer
-/

namespace TensorIR

namespace Number

variable {value : Nat} {digits : List Char}

theorem le_ofDigitChars (value : Nat) (digits : List Char) : value ≤ Nat.ofDigitChars 10 digits value := by
  rw [Nat.ofDigitChars_eq_ofDigitChars_zero]
  calc value
    _ ≤ 10 ^ digits.length * value := Nat.le_mul_of_pos_left value (by positivity)
    _ ≤ 10 ^ digits.length * value + Nat.ofDigitChars 10 digits 0 := Nat.le_add_right _ _

theorem ofDigitChars_cons_digitValue (value : Nat) (c : Char) (rest : List Char) :
    Nat.ofDigitChars 10 (c :: rest) value = Nat.ofDigitChars 10 rest (value * 10 + digitValue c) := by
  rw [Nat.ofDigitChars_cons, digitValue, Nat.mul_comm]

/-- Digits are read to the number that they are the digits of, if it is not too large. -/
theorem readUpward_eq_ok {most : Int} (areDigits : ∀ c ∈ digits, c.isDigit = true)
    (within : (Nat.ofDigitChars 10 digits value : Int) ≤ most) :
    readUpward most value digits = .ok (Nat.ofDigitChars 10 digits value : Int) := by
  induction digits generalizing value with
  | nil => rfl
  | cons c rest ih =>
    rw [ofDigitChars_cons_digitValue] at within ⊢
    have next : (value : Int) * 10 + digitValue c = (value * 10 + digitValue c : Nat) := by push_cast; rfl
    -- The digits that follow only add to the value, so that it is within the bound here if it is in the end.
    have least := le_ofDigitChars (value * 10 + digitValue c) rest
    rw [readUpward, areDigits c List.mem_cons_self, next, Bool.not_true, if_neg Bool.false_ne_true,
      if_neg (by omega)]
    exact ih (fun d member => areDigits d (List.mem_cons_of_mem c member)) within

/-- Digits behind a minus sign are read to the opposite of their number, if it is not too small. -/
theorem readDownward_eq_ok {least : Int} (areDigits : ∀ c ∈ digits, c.isDigit = true)
    (within : least ≤ -(Nat.ofDigitChars 10 digits value : Int)) :
    readDownward least (-value) digits = .ok (-(Nat.ofDigitChars 10 digits value : Int)) := by
  induction digits generalizing value with
  | nil => rfl
  | cons c rest ih =>
    rw [ofDigitChars_cons_digitValue] at within ⊢
    have next : -(value : Int) * 10 - digitValue c = -(value * 10 + digitValue c : Nat) := by push_cast; ring
    have most := le_ofDigitChars (value * 10 + digitValue c) rest
    rw [readDownward, areDigits c List.mem_cons_self, next, Bool.not_true, if_neg Bool.false_ne_true,
      if_neg (by omega)]
    exact ih (fun d member => areDigits d (List.mem_cons_of_mem c member)) within

theorem isDigit_of_mem_repr {c : Char} {number : Nat} (member : c ∈ number.repr.toList) : c.isDigit = true := by
  rw [Nat.toList_repr] at member
  exact Nat.isDigit_of_mem_toDigits (by decide) (by decide) member

theorem repr_ne_nil (number : Nat) : number.repr.toList ≠ [] := by
  simp [Nat.toList_repr]

theorem ofDigitChars_repr (number : Nat) : Nat.ofDigitChars 10 number.repr.toList 0 = number := by
  rw [Nat.toList_repr, Nat.ofDigitChars_ten_toDigits]

theorem readInteger_repr {number : Nat} (most : (number : Int) ≤ maxInt64) :
    readInteger number.repr.toList = .ok (number : Int) := by
  have areDigits : ∀ c ∈ number.repr.toList, c.isDigit = true := fun c => isDigit_of_mem_repr
  have unsigned : readInteger number.repr.toList = readUpward maxInt64 0 number.repr.toList := by
    obtain ⟨c, rest, digits_eq⟩ := List.exists_cons_of_ne_nil (repr_ne_nil number)
    rw [digits_eq] at areDigits ⊢
    have digit := areDigits c List.mem_cons_self
    -- A sign is no digit.
    unfold readInteger
    split <;> simp_all
  rw [← ofDigitChars_repr number] at most
  have read := readUpward_eq_ok areDigits most
  rw [ofDigitChars_repr] at read
  exact unsigned.trans read

theorem readInteger_minus_repr {number : Nat} (least : minInt64 ≤ -(number : Int)) :
    readInteger ('-' :: number.repr.toList) = .ok (-(number : Int)) := by
  have signed : readInteger ('-' :: number.repr.toList) = readDownward minInt64 0 number.repr.toList := by
    obtain ⟨c, rest, digits_eq⟩ := List.exists_cons_of_ne_nil (repr_ne_nil number)
    rw [digits_eq]
    rfl
  rw [← ofDigitChars_repr number] at least
  have read := readDownward_eq_ok (fun c => isDigit_of_mem_repr) least
  rw [ofDigitChars_repr] at read
  exact signed.trans read

/-- The text of a 64-bit integer is read to that integer. -/
theorem readInteger_toString {number : Int} (least : minInt64 ≤ number) (most : number ≤ maxInt64) :
    readInteger (toString number).toList = .ok number := by
  rw [Int.toString_eq_repr, Int.repr_eq_if]
  split
  case isTrue nonneg =>
    have atMost : (number.toNat : Int) ≤ maxInt64 := by omega
    have read := readInteger_repr atMost
    rwa [Int.toNat_of_nonneg nonneg] at read
  case isFalse negative =>
    have atLeast : minInt64 ≤ -((-number).toNat : Int) := by omega
    have read := readInteger_minus_repr atLeast
    rw [Int.toNat_of_nonneg (by omega), neg_neg] at read
    rw [String.toList_append]
    exact read

end Number

end TensorIR
