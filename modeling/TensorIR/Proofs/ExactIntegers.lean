import Mathlib
import TensorIR.Number.Rounding

/-!
# Integers as floating-point numbers

Integers of at most 53 bits are exact in double precision: cutting off what stands behind the point
gives them back. Such a number has 53 binary digits, which are those of the integer with zeros behind
them, and the place of the last digit as exponent.

## Main definitions

* `Number.IsStored` — a mantissa of 53 binary digits and an exponent that can be stored

## Main results

* `Number.toModel_ofNat` — a natural number in double precision
* `Number.truncateToInt_ofInt`, `Number.roundToEven_ofInt` — an integer in double precision is cut and rounded to itself
-/

namespace TensorIR

namespace Number

open Float.Model Float.Model.UnpackedFloat

/-- The mantissa has 53 binary digits, and the exponent is one of a normal number. -/
structure IsStored (mantissa : Nat) (exponent : Int) : Prop where
  positive : 0 < mantissa
  digits : mantissa.log2 = 52
  least : -1074 ≤ exponent
  most : exponent ≤ 971

variable {sign : Sign} {mantissa : Nat} {exponent : Int}

theorem IsStored.range (stored : IsStored mantissa exponent) :
    2 ^ 52 ≤ mantissa ∧ mantissa < 2 ^ 53 :=
  (Nat.log2_eq_iff stored.positive.ne').mp stored.digits

/-! ### Rounding that drops nothing -/

theorem log2_mul_pow (positive : 0 < mantissa) (count : Nat) :
    (mantissa * 2 ^ count).log2 = mantissa.log2 + count := by
  have nonzero : mantissa ≠ 0 := positive.ne'
  refine (Nat.log2_eq_iff (Nat.mul_ne_zero nonzero (Nat.two_pow_pos count).ne')).mpr ⟨?_, ?_⟩
  · rw [pow_add]
    exact Nat.mul_le_mul_right _ (Nat.log2_self_le nonzero)
  · rw [Nat.add_right_comm, pow_add]
    exact Nat.mul_lt_mul_of_pos_right Nat.lt_log2_self (Nat.two_pow_pos count)

theorem shiftRight_exact (mantissa count : Nat) :
    (⟨mantissa * 2 ^ count, false, false⟩ : ExtendedMantissa) >>> count = ⟨mantissa, false, false⟩ := by
  change count.repeat ExtendedMantissa.shiftRightOne ⟨mantissa * 2 ^ count, false, false⟩ = _
  induction count generalizing mantissa with
  | zero => simp [Nat.repeat]
  | succ count ih =>
    have split : mantissa * 2 ^ (count + 1) = 2 * mantissa * 2 ^ count := by ring
    rw [Nat.repeat, split, ih]
    simp [ExtendedMantissa.shiftRightOne]

/-- Taking zeros away from behind the digits is exact. -/
theorem IsStored.shiftToTargetExponent_eq (stored : IsStored mantissa exponent) (zeros : Nat) :
    shiftToTargetExponent Format.binary64 (mantissa * 2 ^ zeros) (exponent - zeros) .exact =
      (⟨mantissa, false, false⟩, exponent) := by
  have least := stored.least
  have target : Format.binary64.targetExponent
      (totalExponent (mantissa * 2 ^ zeros) (exponent - zeros)) = exponent := by
    simp only [Format.targetExponent, totalExponent, log2_mul_pow stored.positive, stored.digits,
      Format.mantissaBits, Format.minExponent]
    push_cast
    omega
  have shift : (exponent - (exponent - zeros)).toNat = zeros := by omega
  simp only [shiftToTargetExponent, shiftToExponent, target, shift,
    ExtendedMantissa.ofMantissaAndAccuracy, shiftRight_exact, sub_add_cancel]

/-- A number that can be stored stays what it is, also with zeros behind its digits. -/
theorem IsStored.roundWithAccuracy_eq (stored : IsStored mantissa exponent) (sign : Sign)
    (zeros : Nat) :
    roundWithAccuracy Format.binary64 sign (mantissa * 2 ^ zeros) (exponent - zeros) .exact =
      .finite sign mantissa exponent stored.positive := by
  have again := stored.shiftToTargetExponent_eq 0
  simp only [pow_zero, mul_one, Nat.cast_zero, sub_zero] at again
  simp only [roundWithAccuracy, stored.shiftToTargetExponent_eq, ExtendedMantissa.roundedMantissa,
    ExtendedMantissa.accuracy, Accuracy.roundToNearestEven, again, dif_neg stored.positive.ne']

/-! ### Bits -/

theorem toNat_append {high low : Nat} (x : BitVec high) (y : BitVec low) :
    (x ++ y).toNat = x.toNat * 2 ^ low + y.toNat := by
  rw [BitVec.toNat_append, ← Nat.shiftLeft_add_eq_or_of_lt y.isLt, Nat.shiftLeft_eq]

theorem unpackSign_packComponents {format : Format} (sign : Sign) (exponent mantissa) :
    unpackSign (packComponents format sign exponent mantissa) = sign.toBitVec := by
  ext index below
  obtain rfl : index = 0 := by omega
  simp [unpackSign, packComponents, BitVec.getLsbD_append, BitVec.getElem_append]

theorem IsStored.pack_eq (stored : IsStored mantissa exponent) (sign : Sign) :
    UnpackedFloat.pack Format.binary64 (.finite sign mantissa exponent stored.positive) =
      packComponents Format.binary64 sign (BitVec.ofNat 11 (exponent + 1075).toNat)
        (BitVec.ofNat 52 mantissa) := by
  have most := stored.most
  have bias : exponent + Format.binary64.exponentBias + Format.binary64.mantissaBitsWithoutImplicit =
      exponent + 1075 := by
    change exponent + 1023 + 52 = exponent + 1075
    omega
  have finite : ¬2 ^ Format.binary64.exponentBits ≤ (exponent + 1075).toNat + 1 := by
    change ¬2048 ≤ (exponent + 1075).toNat + 1
    omega
  have normal : mantissa.log2 + 1 = Format.binary64.mantissaBits := by
    rw [stored.digits]
    rfl
  simp only [UnpackedFloat.pack, bias, if_neg finite, if_pos normal]

theorem IsStored.exponent_bits (stored : IsStored mantissa exponent) :
    BitVec.ofNat 11 (exponent + 1075).toNat ≠ -1#11 ∧ BitVec.ofNat 11 (exponent + 1075).toNat ≠ 0#11 ∧
      (BitVec.ofNat 11 (exponent + 1075).toNat).toNat = (exponent + 1075).toNat := by
  obtain ⟨-, -, least, most⟩ := stored
  have same : (BitVec.ofNat 11 (exponent + 1075).toNat).toNat = (exponent + 1075).toNat := by
    rw [BitVec.toNat_ofNat]
    exact Nat.mod_eq_of_lt (by omega)
  refine ⟨fun equal => ?_, fun equal => ?_, same⟩
  · rw [equal] at same
    change 2047 = _ at same
    omega
  · rw [equal] at same
    change 0 = _ at same
    omega

/-- The bits of a number that can be stored: the sign, the exponent, and all digits but the first. -/
theorem IsStored.toBits_pack (stored : IsStored mantissa exponent) (sign : Sign) :
    (Float.Model.pack (.finite sign mantissa exponent stored.positive)).toBits.toNat =
      (sign.toBitVec.toNat * 2 ^ 11 + (exponent + 1075).toNat) * 2 ^ 52 + (mantissa - 2 ^ 52) := by
  obtain ⟨low, high⟩ := stored.range
  have bits : (Float.Model.pack (.finite sign mantissa exponent stored.positive)).toBits.toNat =
      (packComponents Format.binary64 sign (BitVec.ofNat 11 (exponent + 1075).toNat)
        (BitVec.ofNat 52 mantissa)).toNat := by
    rw [← stored.pack_eq]
    rfl
  have isMantissa : (BitVec.ofNat 52 mantissa).toNat = mantissa - 2 ^ 52 := by
    rw [BitVec.toNat_ofNat]
    omega
  rw [bits, packComponents, toNat_append, toNat_append, stored.exponent_bits.2.2, isMantissa]

/-- Storing a number and reading it gives it back. -/
theorem IsStored.unpack_pack (stored : IsStored mantissa exponent) (sign : Sign) :
    (Float.Model.pack (.finite sign mantissa exponent stored.positive)).unpack =
      .finite sign mantissa exponent stored.positive := by
  obtain ⟨low, high⟩ := stored.range
  obtain ⟨notMost, notLeast, isExponent⟩ := stored.exponent_bits
  have isMantissa : (1#1 ++ BitVec.ofNat 52 mantissa).toNat = mantissa := by
    rw [toNat_append, BitVec.toNat_ofNat]
    change 1 * 2 ^ 52 + mantissa % 2 ^ 52 = mantissa
    omega
  have isSign : Sign.ofBitVec sign.toBitVec = sign := by cases sign <;> rfl
  have isPlace : ((exponent + 1075).toNat : Int) -
      (Format.binary64.exponentBias + Format.binary64.mantissaBitsWithoutImplicit) = exponent := by
    have least := stored.least
    change ((exponent + 1075).toNat : Int) - (1023 + 52) = exponent
    omega
  change UnpackedFloat.unpack Format.binary64 (UnpackedFloat.pack Format.binary64
    (.finite sign mantissa exponent stored.positive)) = _
  rw [stored.pack_eq]
  simp only [UnpackedFloat.unpack, unpackMantissa_packComponents, unpackExponent_packComponents,
    unpackSign_packComponents, if_neg notMost, if_neg notLeast, isExponent, isPlace, isSign,
    isMantissa]

/-- What the bits say about the absolute value. -/
theorem IsStored.magnitude_pack (stored : IsStored mantissa exponent) (sign : Sign) :
    ∃ closer, magnitude (.ofModel (.pack (.finite sign mantissa exponent stored.positive))) =
      .finite ⟨mantissa, exponent, closer⟩ := by
  obtain ⟨low, high⟩ := stored.range
  have least := stored.least
  have most := stored.most
  have bits := stored.toBits_pack sign
  generalize sign.toBitVec.toNat = signBit at bits
  have fraction : (Float.Model.pack (.finite sign mantissa exponent stored.positive)).toBits.toNat %
      2 ^ 52 = mantissa - 2 ^ 52 := by omega
  have biased : (Float.Model.pack (.finite sign mantissa exponent stored.positive)).toBits.toNat /
      2 ^ 52 % 2 ^ 11 = (exponent + 1075).toNat := by omega
  have notMost : ((exponent + 1075).toNat == 2047) = false := by
    rw [beq_eq_false_iff_ne]
    omega
  have notLeast : ((exponent + 1075).toNat == 0) = false := by
    rw [beq_eq_false_iff_ne]
    omega
  have isMantissa : 2 ^ 52 + (mantissa - 2 ^ 52) = mantissa := by omega
  have isExponent : ((exponent + 1075).toNat : Int) - 1075 = exponent := by omega
  refine ⟨mantissa - 2 ^ 52 == 0 && (exponent + 1075).toNat != 1, ?_⟩
  simp only [magnitude, Float.toBits, Nat.pow_eq, fraction, biased, notMost, notLeast, Bool.false_eq_true,
    if_false, isMantissa, isExponent]

/-- What the bits say about the sign. -/
theorem IsStored.isNegative_pack (stored : IsStored mantissa exponent) (sign : Sign) :
    isNegative (.ofModel (.pack (.finite sign mantissa exponent stored.positive))) =
      (sign == .negative) := by
  obtain ⟨low, high⟩ := stored.range
  have least := stored.least
  have most := stored.most
  have bits := stored.toBits_pack sign
  rw [isNegative, Float.toBits, Bool.eq_iff_iff, beq_iff_eq, ← UInt64.toNat_inj,
    UInt64.toNat_shiftRight, bits, Nat.shiftRight_eq_div_pow]
  change _ / 2 ^ 63 = 1 ↔ _
  cases sign with
  | negative =>
    refine iff_of_true ?_ rfl
    change ((1 * 2 ^ 11 + (exponent + 1075).toNat) * 2 ^ 52 + (mantissa - 2 ^ 52)) / 2 ^ 63 = 1
    omega
  | positive =>
    refine iff_of_false ?_ nofun
    change ¬((0 * 2 ^ 11 + (exponent + 1075).toNat) * 2 ^ 52 + (mantissa - 2 ^ 52)) / 2 ^ 63 = 1
    omega

/-! ### Natural numbers -/

section Natural

variable {value : Nat}

/-- The digits of a number, with zeros behind them so that there are 53. -/
def digitsOf (value : Nat) : Nat := value * 2 ^ (52 - value.log2)

/-- The place of the last of these digits. -/
def placeOf (value : Nat) : Int := value.log2 - 52

theorem isStored_digitsOf (positive : 0 < value) (small : value < 2 ^ 53) :
    IsStored (digitsOf value) (placeOf value) := by
  have digits : value.log2 < 53 := (Nat.log2_lt positive.ne').mpr small
  refine ⟨Nat.mul_pos positive (Nat.two_pow_pos _), ?_, ?_, ?_⟩
  · rw [digitsOf, log2_mul_pow positive]
    omega
  all_goals
    rw [placeOf]
    omega

theorem unpacked_ofNat (positive : 0 < value) (small : value < 2 ^ 53) :
    UnpackedFloat.ofNat Format.binary64 value =
      .finite .positive (digitsOf value) (placeOf value) (isStored_digitsOf positive small).positive := by
  have digits : value.log2 < 53 := (Nat.log2_lt positive.ne').mpr small
  have compared : compare (value : Int) 0 = .gt := by
    rw [Int.compare_eq_gt]
    omega
  have target : Format.binary64.targetExponent (totalExponent value 0) = placeOf value := by
    simp only [Format.targetExponent, totalExponent, Format.mantissaBits, Format.minExponent, placeOf]
    push_cast
    omega
  have shift : (0 - placeOf value).toNat = 52 - value.log2 := by
    rw [placeOf]
    omega
  have place : (0 : Int) - (52 - value.log2 : Nat) = placeOf value := by
    rw [placeOf]
    omega
  have exact := (isStored_digitsOf positive small).roundWithAccuracy_eq .positive 0
  simp only [pow_zero, mul_one, Nat.cast_zero, sub_zero] at exact
  simp only [UnpackedFloat.ofNat, UnpackedFloat.ofInt, UnpackedFloat.normalize, compared,
    UnpackedFloat.round, target, decreaseExponent, Int.toNat_natCast, shift, place, Nat.shiftLeft_eq]
  exact exact

/-- A natural number in double precision. -/
theorem toModel_ofNat (positive : 0 < value) (small : value < 2 ^ 53) :
    (Float.ofNat value).toModel = .pack (.finite .positive (digitsOf value) (placeOf value)
      (isStored_digitsOf positive small).positive) := by
  have stored := isStored_digitsOf positive small
  have converted : Float.ofNat value = value.toUInt64.toFloat * Float.ofBits 0x3FF0000000000000 := by
    change Float.ofScientific value false 0 = _
    rw [Float.ofScientific, dif_pos ⟨small, Nat.zero_le _⟩]
    rfl
  have isWord : value.toUInt64.toNat = value := by
    rw [Nat.toUInt64_eq, UInt64.toNat_ofNat']
    omega
  have isConverted : value.toUInt64.toFloat.toModel = .pack (.finite .positive (digitsOf value)
      (placeOf value) stored.positive) := by
    change Float.Model.pack (UnpackedFloat.ofNat Format.binary64 value.toUInt64.toNat) = _
    rw [isWord, unpacked_ofNat positive small]
  have one : (Float.ofBits 0x3FF0000000000000).toModel.unpack =
      .finite .positive (2 ^ 52) (-52) (Nat.two_pow_pos 52) := by
    rfl
  rw [converted]
  change Float.Model.pack (UnpackedFloat.mul Format.binary64 value.toUInt64.toFloat.toModel.unpack
    (Float.ofBits 0x3FF0000000000000).toModel.unpack) = _
  rw [isConverted, stored.unpack_pack, one]
  exact congrArg Float.Model.pack (stored.roundWithAccuracy_eq .positive 52)

end Natural

/-! ### Integers -/

/-- An integer of at most 53 bits in double precision. -/
theorem ofInt_apply {value : Nat} (positive : 0 < value) (small : value < 2 ^ 53) (sign : Sign) :
    Float.ofInt (sign.apply value) = .ofModel (.pack (.finite sign (digitsOf value) (placeOf value)
      (isStored_digitsOf positive small).positive)) := by
  cases sign with
  | positive => exact congrArg Float.ofModel (toModel_ofNat positive small)
  | negative =>
    obtain ⟨count, rfl⟩ := Nat.exists_eq_add_one.mpr positive
    change Float.ofModel (Float.Model.pack (Float.ofNat (count + 1)).toModel.unpack.neg) = _
    rw [toModel_ofNat positive small, (isStored_digitsOf positive small).unpack_pack]
    rfl

/-- What holds of zero, of the two greatest integers of at most 53 bits, and of the integers between them holds of all
integers of at most 53 bits. -/
@[elab_as_elim]
theorem smallInt_cases {motive : Int → Prop} (value : Int) (small : value.natAbs ≤ 2 ^ 53) (zero : motive 0)
    (most : motive (2 ^ 53)) (least : motive (-2 ^ 53))
    (between : ∀ (value : Nat) (sign : Sign), 0 < value → value < 2 ^ 53 → motive (sign.apply value)) :
    motive value := by
  rcases small.eq_or_lt with edge | small
  · rcases Int.natAbs_eq value with same | same <;> rw [same, edge] <;> assumption
  rcases value.natAbs.eq_zero_or_pos with none | positive
  · rwa [Int.natAbs_eq_zero.mp none]
  rcases Int.natAbs_eq value with same | same
  · rw [same]
    exact between value.natAbs .positive positive small
  · rw [same]
    exact between value.natAbs .negative positive small

/-- The integer part of a number whose digits are those of an integer. -/
theorem truncateToInt_pack {value : Nat} (positive : 0 < value) (small : value < 2 ^ 53) (sign : Sign) :
    truncateToInt (.ofModel (.pack (.finite sign (digitsOf value) (placeOf value)
      (isStored_digitsOf positive small).positive))) = sign.apply value := by
  have stored := isStored_digitsOf positive small
  have digits : value.log2 < 53 := (Nat.log2_lt positive.ne').mpr small
  obtain ⟨closer, isMagnitude⟩ := stored.magnitude_pack sign
  have near : ¬placeOf value > 64 := by
    rw [placeOf]
    omega
  have whole (closer : Bool) : Binary.floor ⟨digitsOf value, placeOf value, closer⟩ = value := by
    have above : (placeOf value).toNat = 0 := by
      rw [placeOf]
      omega
    have behind : (-placeOf value).toNat = 52 - value.log2 := by
      rw [placeOf]
      omega
    rw [Binary.floor, above, behind, digitsOf, Nat.pow_eq, Nat.pow_eq, pow_zero, mul_one]
    exact Nat.mul_div_cancel _ (Nat.two_pow_pos _)
  simp only [truncateToInt, isMagnitude, if_neg near, whole, stored.isNegative_pack]
  cases sign with
  | negative =>
    change max minInt64 (-(value : Int)) = -(value : Int)
    simp only [minInt64]
    omega
  | positive =>
    change min maxInt64 (value : Int) = value
    simp only [maxInt64]
    omega

/-- An integer in double precision has the integer as its integer part. -/
theorem truncateToInt_ofInt {value : Int} (small : value.natAbs ≤ 2 ^ 53) :
    truncateToInt (Float.ofInt value) = value := by
  refine smallInt_cases value small (by decide +kernel) (by decide +kernel) (by decide +kernel)
    fun value sign positive small => ?_
  rw [ofInt_apply positive small]
  exact truncateToInt_pack positive small sign

theorem isNaN_ofInt {value : Int} (small : value.natAbs ≤ 2 ^ 53) : (Float.ofInt value).isNaN = false := by
  refine smallInt_cases value small (by decide +kernel) (by decide +kernel) (by decide +kernel)
    fun value sign positive small => ?_
  rw [ofInt_apply positive small, Float.isNaN, Float.Model.isNaN, (isStored_digitsOf positive small).unpack_pack]
  rfl

theorem shiftToEven_exact (value shift : Nat) : shiftToEven (value * 2 ^ shift) shift = value := by
  have positive := Nat.two_pow_pos shift
  simp [shiftToEven, Nat.mul_div_cancel _ positive, positive.ne]

/-- An integer in double precision is the nearest integer to itself. -/
theorem roundToEven_ofInt {value : Int} (small : value.natAbs ≤ 2 ^ 53) :
    roundToEven (Float.ofInt value) = Float.ofInt value := by
  refine smallInt_cases value small (by decide +kernel) (by decide +kernel) (by decide +kernel)
    fun value sign positive small => ?_
  have stored := isStored_digitsOf positive small
  obtain ⟨closer, isMagnitude⟩ := stored.magnitude_pack sign
  have isNumber := ofInt_apply positive small sign
  have behind : (-placeOf value).toNat = 52 - value.log2 := by
    rw [placeOf]
    omega
  rw [roundToEven, isNumber, isMagnitude]
  dsimp only
  split
  case isTrue => rfl
  case isFalse =>
    -- Behind the point there are only zeros, so nothing is rounded.
    have whole : shiftToEven (digitsOf value) (52 - value.log2) = value := shiftToEven_exact _ _
    rw [behind, whole, withSignOf, stored.isNegative_pack, ← isNumber]
    cases sign with
    | positive => rfl
    | negative =>
      obtain ⟨count, rfl⟩ := Nat.exists_eq_add_one.mpr positive
      rfl

end Number

end TensorIR
