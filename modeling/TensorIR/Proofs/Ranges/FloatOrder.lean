import Mathlib
import TensorIR.Proofs.ExactIntegers
import TensorIR.Run.Scalar

/-!
# The order of floating-point numbers and of their integer parts

Floating-point numbers are compared by sign, exponent and digits. The digits of a number fill the mantissa,
unless its exponent is the least one, so the comparison is that of the numbers, and the integer part of the
lesser of two numbers is the lesser one. Therefore a number that is kept between the bounds of an integer type
becomes an integer of that type.

## Main definitions

* `Number.IsFilled` — a mantissa and an exponent as they are read from the bits of a number
* `Number.Describes` — the parts of a number tell its absolute value and its sign
* `Number.integerPart` — the integer part of a number that is given by its parts

## Main results

* `Number.truncateToInt_le_of_lt`, `Number.lt_of_truncateToInt_lt` — cutting off keeps the order
* `Scalar.saturate_mem_range`, `Scalar.saturate_ofInt` — saturated integers belong to their type, and integers of the
  type stay what they are
-/

namespace TensorIR

namespace Number

open Float.Model Float.Model.UnpackedFloat

/-! ### The parts of a number -/

section Parts

variable (x : Float)

theorem toNat_unpackMantissa :
    (@unpackMantissa Format.binary64 x.toModel.toBits.toBitVec).toNat = x.toBits.toNat % 2 ^ 52 := by
  simp [unpackMantissa, Float.toBits]

theorem toNat_unpackExponent :
    (@unpackExponent Format.binary64 x.toModel.toBits.toBitVec).toNat =
      x.toBits.toNat / 2 ^ 52 % 2 ^ 11 := by
  simp [unpackExponent, Float.toBits, Nat.shiftRight_eq_div_pow]

theorem toNat_unpackSign :
    (@unpackSign Format.binary64 x.toModel.toBits.toBitVec).toNat = x.toBits.toNat / 2 ^ 63 := by
  have below := x.toBits.toNat_lt
  simp [unpackSign, Float.toBits, Nat.shiftRight_eq_div_pow] at below ⊢
  omega

end Parts

/-- A mantissa and an exponent as they are read from the bits of a number: the mantissa has 53 digits, unless
the exponent is the least one. -/
structure IsFilled (mantissa : Nat) (exponent : Int) : Prop where
  below : mantissa < 2 ^ 53
  least : -1074 ≤ exponent
  filled : 2 ^ 52 ≤ mantissa ∨ exponent = -1074

/-- The integer part of a number, kept within the signed 64-bit integers. -/
def integerPart : UnpackedFloat → Int
  | .notANumber | .zero _ => 0
  | .infinity .negative => minInt64
  | .infinity .positive => maxInt64
  | .finite sign mantissa exponent _ =>
    max minInt64 (min maxInt64 (sign.apply (Binary.floor ⟨mantissa, exponent, false⟩)))

/-- What the parts of a number say about its absolute value and its sign. -/
inductive Describes (x : Float) : UnpackedFloat → Prop
  | notANumber : magnitude x = .nan → Describes x .notANumber
  | infinity (sign : Sign) : magnitude x = .infinite → isNegative x = (sign == .negative) →
      Describes x (.infinity sign)
  | zero (sign : Sign) : magnitude x = .zero → Describes x (.zero sign)
  | finite (sign : Sign) (mantissa : Nat) (exponent : Int) (positive : 0 < mantissa) (closer : Bool) :
      magnitude x = .finite ⟨mantissa, exponent, closer⟩ → isNegative x = (sign == .negative) →
        IsFilled mantissa exponent → Describes x (.finite sign mantissa exponent positive)

theorem isNegative_eq (x : Float) : isNegative x =
    (Sign.ofBitVec (@unpackSign Format.binary64 x.toModel.toBits.toBitVec) == .negative) := by
  have isSign := toNat_unpackSign x
  have isWord : (x.toBits >>> 63).toNat = x.toBits.toNat / 2 ^ 63 := by
    rw [UInt64.toNat_shiftRight, Nat.shiftRight_eq_div_pow]
    rfl
  have below := x.toBits.toNat_lt
  rw [isNegative, Sign.ofBitVec]
  by_cases clear : x.toBits.toNat / 2 ^ 63 = 0
  · have noSign : @unpackSign Format.binary64 x.toModel.toBits.toBitVec = 0#1 := by
      rw [← BitVec.toNat_inj, isSign, clear]
      rfl
    have notOne : x.toBits >>> 63 ≠ 1 := by
      rw [ne_eq, ← UInt64.toNat_inj, isWord, clear]
      decide
    rw [if_pos noSign, beq_eq_false_iff_ne.mpr notOne]
    rfl
  · have hasSign : @unpackSign Format.binary64 x.toModel.toBits.toBitVec ≠ 0#1 := by
      rw [ne_eq, ← BitVec.toNat_inj, isSign]
      exact clear
    have isOne : x.toBits >>> 63 = 1 := by
      rw [← UInt64.toNat_inj, isWord]
      change _ = 1
      omega
    rw [if_neg hasSign, isOne]
    rfl

/-- The parts of a number are those that its bits show. -/
theorem describes_unpack (x : Float) : Describes x x.toModel.unpack := by
  have isMantissa := toNat_unpackMantissa x
  have isExponent := toNat_unpackExponent x
  have isSign := isNegative_eq x
  have isMagnitude : magnitude x = _ := magnitude.eq_def x
  have low : x.toBits.toNat % 2 ^ 52 < 2 ^ 52 := Nat.mod_lt _ (Nat.two_pow_pos 52)
  simp only [Nat.pow_eq, beq_iff_eq] at isMagnitude
  generalize x.toBits.toNat % 2 ^ 52 = fraction at isMantissa isMagnitude low
  generalize x.toBits.toNat / 2 ^ 52 % 2 ^ 11 = biased at isExponent isMagnitude
  change Describes x (UnpackedFloat.unpack Format.binary64 x.toModel.toBits.toBitVec)
  unfold UnpackedFloat.unpack
  extract_lets mantissaVec exponentVec exponent signVec sign
  have isMost : exponentVec = -1#_ ↔ biased = 2047 := by
    rw [← BitVec.toNat_inj, isExponent]
    rfl
  have isLeast : exponentVec = 0#_ ↔ biased = 0 := by
    rw [← BitVec.toNat_inj, isExponent]
    rfl
  have isEmpty : mantissaVec = 0#_ ↔ fraction = 0 := by
    rw [← BitVec.toNat_inj, isMantissa]
    rfl
  have isPlace : exponent = biased - 1075 := by
    change (exponentVec.toNat : Int) - (1023 + 52) = _
    rw [isExponent]
    omega
  have joined : (1#1 ++ mantissaVec).toNat = 2 ^ 52 + fraction := by
    rw [toNat_append, isMantissa]
    change 1 * 2 ^ 52 + _ = _
    omega
  -- The largest exponent is for infinities and for what is no number, the smallest for zero and subnormal
  -- numbers.
  split_ifs with most none least none
  · rw [if_pos (isMost.mp most), if_pos (isEmpty.mp none)] at isMagnitude
    exact .infinity _ isMagnitude isSign
  · rw [if_pos (isMost.mp most), if_neg (mt isEmpty.mpr none)] at isMagnitude
    exact .notANumber isMagnitude
  · rw [if_neg (mt isMost.mpr most), if_pos (isLeast.mp least), if_pos (isEmpty.mp none)] at isMagnitude
    exact .zero _ isMagnitude
  · rw [if_neg (mt isMost.mpr most), if_pos (isLeast.mp least), if_neg (mt isEmpty.mpr none)] at isMagnitude
    have place : exponent + 1 = -1074 := by
      have := isLeast.mp least
      omega
    refine .finite _ _ _ _ false ?_ isSign ⟨?_, place.ge, .inr place⟩
    · rw [place]
      exact isMantissa ▸ isMagnitude
    · exact isMantissa.trans_lt (by omega)
  · rw [if_neg (mt isMost.mpr most), if_neg (mt isLeast.mpr least)] at isMagnitude
    have positive : biased ≠ 0 := mt isLeast.mpr least
    refine .finite _ _ _ _ (fraction == 0 && biased != 1) ?_ isSign ⟨?_, ?_, .inl ?_⟩
    · rw [joined, isPlace]
      exact isMagnitude
    all_goals omega


/-! ### The order of numbers -/

/-- All numbers are multiples of the least one. -/
theorem IsFilled.floor_eq {mantissa : Nat} {exponent : Int} (filled : IsFilled mantissa exponent) :
    Binary.floor ⟨mantissa, exponent, false⟩ = mantissa * 2 ^ (exponent + 1074).toNat / 2 ^ 1074 := by
  obtain ⟨-, least, -⟩ := filled
  rw [Binary.floor, Nat.pow_eq, Nat.pow_eq]
  dsimp only
  rcases le_total 0 exponent with nonneg | nonpos
  · have above : (exponent + 1074).toNat = exponent.toNat + 1074 := by omega
    have behind : (-exponent).toNat = 0 := by omega
    rw [above, behind, pow_add, ← mul_assoc, Nat.mul_div_cancel _ (Nat.two_pow_pos 1074), pow_zero,
      Nat.div_one]
  · have above : exponent.toNat = 0 := by omega
    have total : (-exponent).toNat + (exponent + 1074).toNat = 1074 := by omega
    rw [above, pow_zero, mul_one, ← total, pow_add, Nat.mul_div_mul_right _ _ (Nat.two_pow_pos _)]


/-- The number with the lesser exponent, or with the lesser mantissa, has the lesser integer part. -/
theorem IsFilled.floor_le {mantissa other : Nat} {exponent place : Int} (filled : IsFilled mantissa exponent)
    (otherFilled : IsFilled other place) (less : exponent < place ∨ exponent = place ∧ mantissa < other) :
    Binary.floor ⟨mantissa, exponent, false⟩ ≤ Binary.floor ⟨other, place, false⟩ := by
  rw [filled.floor_eq, otherFilled.floor_eq]
  apply Nat.div_le_div_right
  obtain ⟨below, least, -⟩ := filled
  rcases less with less | ⟨rfl, less⟩
  · -- A mantissa above the least exponent is filled, so its first digit is worth more than all others before.
    have full : 2 ^ 52 ≤ other := by
      have := otherFilled.filled
      omega
    calc mantissa * 2 ^ (exponent + 1074).toNat
        ≤ (2 ^ 52 * 2) * 2 ^ (exponent + 1074).toNat := Nat.mul_le_mul_right _ (by omega)
      _ = 2 ^ 52 * 2 ^ ((exponent + 1074).toNat + 1) := by ring
      _ ≤ other * 2 ^ (place + 1074).toNat :=
        Nat.mul_le_mul full (Nat.pow_le_pow_right Nat.two_pos (by omega))
  · exact Nat.mul_le_mul_right _ less.le

/-- A number beyond the least 64 binary digits is beyond the signed 64-bit integers. -/
theorem le_floor_of_far {mantissa : Nat} {exponent : Int} (positive : 0 < mantissa) (far : exponent > 64) :
    2 ^ 64 ≤ Binary.floor ⟨mantissa, exponent, false⟩ := by
  have behind : (-exponent).toNat = 0 := by omega
  rw [Binary.floor, behind, Nat.pow_eq, Nat.pow_eq, pow_zero, Nat.div_one]
  calc 2 ^ 64 ≤ 2 ^ exponent.toNat := Nat.pow_le_pow_right Nat.two_pos (by omega)
    _ ≤ mantissa * 2 ^ exponent.toNat := Nat.le_mul_of_pos_left _ positive

theorem truncateToInt_eq (x : Float) : truncateToInt x = integerPart x.toModel.unpack := by
  unfold truncateToInt
  have described := describes_unpack x
  generalize x.toModel.unpack = parts at described
  cases described with
  | notANumber isMagnitude => simp only [isMagnitude, integerPart]
  | zero sign isMagnitude => simp only [isMagnitude, integerPart]
  | infinity sign isMagnitude isSign =>
    simp only [isMagnitude, isSign]
    cases sign <;> rfl
  | finite sign mantissa exponent positive closer isMagnitude isSign filled =>
    have whole : Binary.floor ⟨mantissa, exponent, closer⟩ = Binary.floor ⟨mantissa, exponent, false⟩ := rfl
    have distant (far : exponent > 64) := le_floor_of_far positive far
    simp only [isMagnitude, isSign, whole, integerPart]
    generalize Binary.floor ⟨mantissa, exponent, false⟩ = floor at distant
    cases sign with
    | negative =>
      simp only [beq_self_eq_true, if_true, UnpackedFloat.Sign.apply, minInt64, maxInt64]
      split <;> omega
    | positive =>
      have positive : (Sign.positive == Sign.negative) = false := rfl
      simp only [positive, Bool.false_eq_true, if_false, UnpackedFloat.Sign.apply, minInt64, maxInt64]
      split <;> omega

theorem integerPart_mem_range (parts : UnpackedFloat) :
    minInt64 ≤ integerPart parts ∧ integerPart parts ≤ maxInt64 := by
  unfold integerPart minInt64 maxInt64
  split <;> omega

/-- Positive numbers are in the order of their exponents, and then of their mantissas. -/
theorem positive_lt_iff {a b : Nat} {c d : Int} {first : 0 < a} {second : 0 < b} :
    (finite .positive a c first).lt (finite .positive b d second) = true ↔ c < d ∨ c = d ∧ a < b := by
  rw [UnpackedFloat.lt, beq_iff_eq, UnpackedFloat.compare]
  simp only [Option.some.injEq]
  rw [Ordering.then_eq_lt, Int.compare_eq_lt, Int.compare_eq_eq, Nat.compare_eq_lt]

theorem negative_lt_iff {a b : Nat} {c d : Int} {first : 0 < a} {second : 0 < b} :
    (finite .negative a c first).lt (finite .negative b d second) = true ↔ d < c ∨ c = d ∧ b < a := by
  rw [UnpackedFloat.lt, beq_iff_eq, UnpackedFloat.compare]
  simp only [Option.some.injEq]
  rw [Ordering.swap_eq_lt, Ordering.then_eq_gt, Int.compare_eq_gt, Int.compare_eq_eq, Nat.compare_eq_gt]

/-- Of two finite numbers of the same sign the lesser one has the lesser integer part. -/
theorem integerPart_finite_le {mantissa other : Nat} {exponent place : Int} {positive : 0 < mantissa}
    {otherPositive : 0 < other} (sign : Sign) (filled : IsFilled mantissa exponent)
    (otherFilled : IsFilled other place)
    (less : (finite sign mantissa exponent positive).lt (finite sign other place otherPositive) = true) :
    integerPart (finite sign mantissa exponent positive) ≤
      integerPart (finite sign other place otherPositive) := by
  simp only [integerPart, minInt64, maxInt64]
  cases sign with
  | negative =>
    have floors := otherFilled.floor_le filled ((negative_lt_iff.mp less).imp_right (And.imp_left Eq.symm))
    simp only [UnpackedFloat.Sign.apply]
    omega
  | positive =>
    have floors := filled.floor_le otherFilled (positive_lt_iff.mp less)
    simp only [UnpackedFloat.Sign.apply]
    omega

/-- The integer part of the lesser of two numbers is the lesser one. -/
theorem integerPart_le_of_lt {first second : UnpackedFloat} {x y : Float} (isFirst : Describes x first)
    (isSecond : Describes y second) (less : first.lt second = true) :
    integerPart first ≤ integerPart second := by
  have least := (integerPart_mem_range second).1
  have most := (integerPart_mem_range first).2
  -- Magnitudes matter only between two finite numbers of one sign. The signs settle the other cases.
  cases isFirst with
  | notANumber => cases less
  | infinity sign =>
    cases sign with
    | negative => exact least
    | positive =>
      cases isSecond with
      | infinity sign => cases sign <;> cases less
      | _ => cases less
  | zero =>
    cases isSecond with
    | infinity sign =>
      cases sign with
      | negative => cases less
      | positive => exact most
    | finite sign =>
      cases sign with
      | negative => cases less
      | positive =>
        simp only [integerPart, UnpackedFloat.Sign.apply, minInt64, maxInt64]
        omega
    | _ => cases less
  | finite sign _ _ _ _ _ _ filled =>
    cases isSecond with
    | notANumber => cases sign <;> cases less
    | infinity other => cases sign <;> cases other <;> first | exact most | cases less
    | zero =>
      cases sign with
      | negative =>
        simp only [integerPart, UnpackedFloat.Sign.apply, minInt64, maxInt64]
        omega
      | positive => cases less
    | finite other _ _ _ _ _ _ otherFilled =>
      cases sign <;> cases other
      case negative.positive =>
        simp only [integerPart, UnpackedFloat.Sign.apply, minInt64, maxInt64]
        omega
      case positive.negative => cases less
      all_goals exact integerPart_finite_le _ filled otherFilled less

/-- Cutting off what stands behind the point keeps the order. -/
theorem truncateToInt_le_of_lt {x y : Float} (less : x < y) : truncateToInt x ≤ truncateToInt y := by
  rw [truncateToInt_eq, truncateToInt_eq]
  exact integerPart_le_of_lt (describes_unpack x) (describes_unpack y) (of_decide_eq_true less)

/-- Numbers are cut to signed 64-bit integers. -/
theorem truncateToInt_mem_range (x : Float) : minInt64 ≤ truncateToInt x ∧ truncateToInt x ≤ maxInt64 := by
  rw [truncateToInt_eq]
  exact integerPart_mem_range _

/-- Of two finite numbers of the same sign one is the lesser, or they are the same. -/
theorem finite_lt_total {mantissa other : Nat} {exponent place : Int} {positive : 0 < mantissa}
    {otherPositive : 0 < other} (sign : Sign) :
    (finite sign mantissa exponent positive).lt (finite sign other place otherPositive) = true ∨
      (finite sign other place otherPositive).lt (finite sign mantissa exponent positive) = true ∨
        mantissa = other ∧ exponent = place := by
  -- Exponents are compared first; of two negative numbers the one with the greater digits is the lesser.
  have order : exponent < place ∨ place < exponent ∨ exponent = place ∧ (mantissa < other ∨ other < mantissa ∨
      mantissa = other) := by omega
  cases sign with
  | positive =>
    rcases order with lower | lower | ⟨same, lower | lower | equal⟩
    · exact .inl (positive_lt_iff.mpr (.inl lower))
    · exact .inr (.inl (positive_lt_iff.mpr (.inl lower)))
    · exact .inl (positive_lt_iff.mpr (.inr ⟨same, lower⟩))
    · exact .inr (.inl (positive_lt_iff.mpr (.inr ⟨same.symm, lower⟩)))
    · exact .inr (.inr ⟨equal, same⟩)
  | negative =>
    rcases order with lower | lower | ⟨same, lower | lower | equal⟩
    · exact .inr (.inl (negative_lt_iff.mpr (.inl lower)))
    · exact .inl (negative_lt_iff.mpr (.inl lower))
    · exact .inr (.inl (negative_lt_iff.mpr (.inr ⟨same.symm, lower⟩)))
    · exact .inl (negative_lt_iff.mpr (.inr ⟨same, lower⟩))
    · exact .inr (.inr ⟨equal, same⟩)

/-- Of two numbers one is the lesser, or their integer parts are the same. -/
theorem lt_total {first second : UnpackedFloat} (isFirst : first.isNaN = false) (isSecond : second.isNaN = false) :
    first.lt second = true ∨ second.lt first = true ∨ integerPart first = integerPart second := by
  cases first with
  | notANumber => cases isFirst
  | infinity sign =>
    cases sign <;> cases second with
    | notANumber => cases isSecond
    | infinity other => cases other <;> first | exact .inl rfl | exact .inr (.inl rfl) | exact .inr (.inr rfl)
    | _ => first | exact .inl rfl | exact .inr (.inl rfl)
  | zero =>
    cases second with
    | notANumber => cases isSecond
    | zero => exact .inr (.inr rfl)
    | infinity other | finite other => cases other <;> first | exact .inl rfl | exact .inr (.inl rfl)
  | finite sign =>
    cases second with
    | notANumber => cases isSecond
    | zero => cases sign <;> first | exact .inl rfl | exact .inr (.inl rfl)
    | infinity other => cases sign <;> cases other <;> first | exact .inl rfl | exact .inr (.inl rfl)
    | finite other =>
      cases sign <;> cases other
      case negative.positive => exact .inl rfl
      case positive.negative => exact .inr (.inl rfl)
      -- Only here the digits decide.
      all_goals
        refine (finite_lt_total _).imp_right (Or.imp_right ?_)
        rintro ⟨rfl, rfl⟩
        rfl

theorem lt_of_truncateToInt_lt {x y : Float} (isFirst : x.isNaN = false) (isSecond : y.isNaN = false)
    (less : truncateToInt x < truncateToInt y) : x < y := by
  have reverse (greater : y < x) : False := not_le.mpr less (truncateToInt_le_of_lt greater)
  rw [truncateToInt_eq, truncateToInt_eq] at less
  rcases lt_total isFirst isSecond with lower | greater | same
  · exact decide_eq_true lower
  · exact (reverse (decide_eq_true greater)).elim
  · exact absurd same less.ne

theorem isNaN_maximum {x y : Float} (isFirst : x.isNaN = false) (isSecond : y.isNaN = false) :
    (maximum x y).isNaN = false := by
  rw [maximum, isSecond]
  simp only [Bool.false_eq_true, if_false]
  split <;> assumption

/-- The greater of two numbers has the greater integer part. -/
theorem truncateToInt_maximum {x y : Float} (isFirst : x.isNaN = false) (isSecond : y.isNaN = false)
    (above : truncateToInt y ≤ truncateToInt x) : truncateToInt (maximum x y) = truncateToInt x := by
  rw [maximum, isSecond]
  simp only [Bool.false_eq_true, if_false]
  split
  case isTrue => rfl
  case isFalse notAbove =>
    exact above.antisymm (not_lt.mp fun less => notAbove (lt_of_truncateToInt_lt isSecond isFirst less))

/-- The lesser of two numbers has the lesser integer part. -/
theorem truncateToInt_minimum {x y : Float} (isFirst : x.isNaN = false) (isSecond : y.isNaN = false)
    (below : truncateToInt x ≤ truncateToInt y) : truncateToInt (minimum x y) = truncateToInt x := by
  rw [minimum, isSecond]
  simp only [Bool.false_eq_true, if_false]
  split
  case isTrue => rfl
  case isFalse notBelow =>
    exact (below.antisymm (not_lt.mp fun less => notBelow (lt_of_truncateToInt_lt isFirst isSecond less))).symm

theorem le_truncateToInt_maximum {least : Int} (x : Float) (small : least.natAbs ≤ 2 ^ 53)
    (isNumber : (Float.ofInt least).isNaN = false) :
    least ≤ truncateToInt (maximum x (Float.ofInt least)) := by
  rw [maximum, isNumber]
  simp only [Bool.false_eq_true, if_false]
  split
  case isTrue above =>
    rw [← truncateToInt_ofInt small]
    exact truncateToInt_le_of_lt above
  case isFalse => exact (truncateToInt_ofInt small).ge

theorem truncateToInt_minimum_mem {least most : Int} {x : Float} (above : least ≤ truncateToInt x)
    (ordered : least ≤ most) (small : most.natAbs ≤ 2 ^ 53) (isNumber : (Float.ofInt most).isNaN = false) :
    least ≤ truncateToInt (minimum x (Float.ofInt most)) ∧
      truncateToInt (minimum x (Float.ofInt most)) ≤ most := by
  rw [minimum, isNumber]
  simp only [Bool.false_eq_true, if_false]
  split
  case isTrue below =>
    refine ⟨above, ?_⟩
    conv_rhs => rw [← truncateToInt_ofInt small]
    exact truncateToInt_le_of_lt below
  case isFalse =>
    rw [truncateToInt_ofInt small]
    exact ⟨ordered, le_rfl⟩

end Number

/-- A number that is rounded and kept within the range of an integer type belongs to it. -/
theorem Scalar.saturate_mem_range {type : ScalarType} {low high : Int}
    (range : type.intRange? = some (low, high)) (value : Float) :
    low ≤ saturate type value ∧ saturate type value ≤ high := by
  unfold saturate
  extract_lets rounded
  rw [range]
  dsimp only
  have whole := Number.truncateToInt_mem_range
    (Number.minimum (Number.maximum rounded (Float.ofInt low)) (Float.ofInt high))
  cases type <;> simp only [ScalarType.intRange?, Option.some.injEq,
    Prod.mk.injEq, reduceCtorEq] at range <;> obtain ⟨rfl, rfl⟩ := range
  case i64 | index => exact whole
  all_goals
    exact Number.truncateToInt_minimum_mem
      (Number.le_truncateToInt_maximum _ (by decide) (by decide +kernel)) (by decide) (by decide)
      (by decide +kernel)

/-- An integer of a type is rounded to itself. -/
theorem Scalar.saturate_ofInt {type : ScalarType} {value : Int} (small : value.natAbs ≤ 2 ^ 53)
    (inside : ∀ low high, type.intRange? = some (low, high) → low ≤ value ∧ value ≤ high) :
    saturate type (Float.ofInt value) = value := by
  have isNumber := Number.isNaN_ofInt small
  unfold saturate
  rw [Number.roundToEven_ofInt small]
  cases range : type.intRange? with
  | none => exact Number.truncateToInt_ofInt small
  | some ends =>
    obtain ⟨low, high⟩ := ends
    obtain ⟨above, below⟩ := inside low high range
    -- The greatest 64-bit integer is rounded up in double precision, but it is cut to itself.
    have bound : ((Float.ofInt low).isNaN = false ∧ Number.truncateToInt (Float.ofInt low) = low) ∧
        (Float.ofInt high).isNaN = false ∧ Number.truncateToInt (Float.ofInt high) = high := by
      cases type <;> cases range <;> decide +kernel
    obtain ⟨⟨isLow, atLow⟩, isHigh, atHigh⟩ := bound
    have raised := Number.truncateToInt_maximum isNumber isLow
      ((atLow.trans_le above).trans_eq (Number.truncateToInt_ofInt small).symm)
    rw [Number.truncateToInt_ofInt small] at raised
    exact (Number.truncateToInt_minimum (Number.isNaN_maximum isNumber isLow) isHigh
      ((raised.trans_le below).trans_eq atHigh.symm)).trans raised

end TensorIR
