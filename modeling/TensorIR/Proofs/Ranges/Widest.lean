import TensorIR.Lower.Tosa
import TensorIR.Proofs.Ranges.FloatOrder

/-!
# The widest range of elements

A bound that is absent is stated as the greatest finite number of a type, or as its opposite. The digits of a finite
number are at most those of the greatest one, so finite numbers lie within this range and stay what they are when they
are kept between its ends. Infinity lies outside, and becomes the end that is next to it.

## Main definitions

* `Number.Within` — a number lies between another one and its opposite
* `Number.inRange` — a number with infinity taken for an end of the range

## Main results

* `Number.digits_of_roundSingle` — the digits of numbers in single precision
* `Number.within_elementRange` — finite numbers of a type lie within the range of its elements
* `Number.minimum_maximum_eq`, `Number.minimum_maximum_zero_eq` — what is kept between the ends of the range, or
  between zero and the greater one
* `Number.inRange_eq_iff` — only infinity is changed
-/

namespace TensorIR

namespace Number

open Float.Model Float.Model.UnpackedFloat

variable {x most : Float} {mantissa digits : Nat} {exponent place : Int}

/-! ### Numbers and their parts -/

theorem eq_of_unpack_eq {x y : Float} (same : x.toModel.unpack = y.toModel.unpack) : x = y := by
  refine Float.toBits_inj.mp (UInt64.toBitVec_inj.mp ?_)
  exact (unpack_inj_of_valid x.toModel.valid y.toModel.valid).mp same

theorem lt_of_unpack_lt {x y : Float} (less : x.toModel.unpack.lt y.toModel.unpack = true) : x < y :=
  decide_eq_true less

/-- The exponent field of a number has eleven bits, and all ones do not stand for a finite number. -/
theorem exponent_le_of_magnitude {value : Binary} (isMagnitude : magnitude x = .finite value) :
    value.exponent ≤ 971 := by
  rw [magnitude.eq_def] at isMagnitude
  simp only [beq_iff_eq] at isMagnitude
  have field : x.toBits.toNat / Nat.pow 2 52 % Nat.pow 2 11 < 2048 := Nat.mod_lt _ (by decide)
  split at isMagnitude
  · split at isMagnitude <;> cases isMagnitude
  · split at isMagnitude
    · split at isMagnitude
      · cases isMagnitude
      · cases isMagnitude
        dsimp only
        omega
    · cases isMagnitude
      dsimp only
      omega

/-! ### The widest finite numbers -/

/-- A number and its opposite have the given digits and the given exponent. -/
structure IsWidest (most : Float) (mantissa : Nat) (exponent : Int) : Prop where
  positive : 0 < mantissa
  isMost : most.toModel.unpack = .finite .positive mantissa exponent positive
  isLeast : (-most).toModel.unpack = .finite .negative mantissa exponent positive

theorem isWidest_mostFinite : IsWidest Tosa.mostFinite (2 ^ 53 - 1) 971 where
  positive := by decide
  isMost := by
    have isWord : Tosa.mostFinite = Float.ofBits 0x7FEFFFFFFFFFFFFF := Float.toBits_inj.mp (by decide +kernel)
    rw [isWord]
    rfl
  isLeast := by
    have isWord : -Tosa.mostFinite = Float.ofBits 0xFFEFFFFFFFFFFFFF := Float.toBits_inj.mp (by decide +kernel)
    rw [isWord]
    rfl

theorem isWidest_mostSingle : IsWidest Tosa.mostSingle ((2 ^ 24 - 1) * 2 ^ 29) 75 where
  positive := by decide
  isMost := rfl
  isLeast := rfl

/-- A number lies between another one and its opposite. -/
def Within (most x : Float) : Prop := (x < most ∨ x = most) ∧ (-most < x ∨ -most = x)

theorem IsWidest.within_zero {sign : Sign} (widest : IsWidest most mantissa exponent)
    (isZero : x.toModel.unpack = .zero sign) : Within most x := by
  refine ⟨.inl (lt_of_unpack_lt ?_), .inl (lt_of_unpack_lt ?_)⟩
  · rw [isZero, widest.isMost]
    rfl
  · rw [isZero, widest.isLeast]
    rfl

/-- Digits are compared behind exponents. -/
theorem IsWidest.within_finite {sign : Sign} {positive : 0 < digits} (widest : IsWidest most mantissa exponent)
    (isFinite : x.toModel.unpack = .finite sign digits place positive)
    (below : place < exponent ∨ place = exponent ∧ digits ≤ mantissa) : Within most x := by
  obtain ⟨positiveMost, isMost, isLeast⟩ := widest
  have order : (place < exponent ∨ place = exponent ∧ digits < mantissa) ∨ digits = mantissa ∧ place = exponent := by
    omega
  cases sign with
  | positive =>
    refine ⟨?_, .inl (lt_of_unpack_lt ?_)⟩
    · rcases order with lower | ⟨rfl, rfl⟩
      · refine .inl (lt_of_unpack_lt ?_)
        rw [isFinite, isMost]
        exact positive_lt_iff.mpr lower
      · exact .inr (eq_of_unpack_eq (isFinite.trans isMost.symm))
    · rw [isFinite, isLeast]
      rfl
  | negative =>
    refine ⟨.inl (lt_of_unpack_lt ?_), ?_⟩
    · rw [isFinite, isMost]
      rfl
    · rcases order with lower | ⟨rfl, rfl⟩
      · refine .inl (lt_of_unpack_lt ?_)
        rw [isFinite, isLeast]
        exact negative_lt_iff.mpr (by omega)
      · exact .inr (eq_of_unpack_eq (isLeast.trans isFinite.symm))

/-! ### Single precision -/

theorem magnitude_withSignOf (x value : Float) :
    magnitude (withSignOf x value) = if isNegative x then magnitude (-value) else magnitude value := by
  rw [withSignOf]
  split <;> rfl

/-- The digits of a number in single precision are at most those of the greatest one: others are rounded to infinity,
or to the greatest one itself. -/
theorem digits_of_roundSingle {closer : Bool} (isSingle : roundSingle x = x)
    (isMagnitude : magnitude x = .finite ⟨digits, place, closer⟩) (filled : IsFilled digits place) :
    place < 75 ∨ place = 75 ∧ digits ≤ (2 ^ 24 - 1) * 2 ^ 29 := by
  by_contra beyond
  obtain ⟨below, least, isFilled⟩ := filled
  -- The digits are filled, so 24 of them are kept, and the number is rounded to a multiple of `2 ^ (place + 29)`.
  have full : 2 ^ 52 ≤ digits := by omega
  have size : Nat.log2 digits = 52 := (Nat.log2_eq_iff (by omega)).mpr ⟨full, below⟩
  have isPlace : max (place + ((52 : Nat) + 1 : Int) - 24) (-149) = place + 29 := by omega
  have shift : (place + 29 - place).toNat = 29 := by omega
  rw [roundSingle, isMagnitude] at isSingle
  simp only [size, isPlace, shift, if_neg (show ¬place + 29 ≤ place by omega)] at isSingle
  have kept : shiftToEven digits 29 = digits / 2 ^ 29 ∨ shiftToEven digits 29 = digits / 2 ^ 29 + 1 := by
    rw [shiftToEven]
    split
    · exact .inr rfl
    · exact .inl rfl
  have infinite (isInfinite : withSignOf x (1.0 / 0.0) = x) : False := by
    rw [← isInfinite, magnitude_withSignOf] at isMagnitude
    split at isMagnitude <;> cases isMagnitude
  -- From here on only what the digits are rounded to matters, not how.
  generalize shiftToEven digits 29 = rounded at isSingle kept
  split at isSingle
  case isTrue => exact infinite isSingle
  case isFalse fits =>
    -- What is rounded is not too great, so it is the greatest number in single precision.
    have most : Nat.log2 rounded + 1 ≤ 99 - place := by omega
    have positive : rounded ≠ 0 := by omega
    have wide : 2 ^ 23 ≤ rounded := by omega
    have bits : 23 ≤ Nat.log2 rounded := (Nat.le_log2 positive).mpr wide
    obtain rfl : place = 75 := by omega
    have narrow : rounded < 2 ^ 24 := (Nat.log2_lt positive).mp (by omega)
    obtain rfl : rounded = 2 ^ 24 - 1 := by omega
    rw [← isSingle, magnitude_withSignOf] at isMagnitude
    have isDigits : digits = (2 ^ 24 - 1) * 2 ^ 29 := by
      split at isMagnitude <;>
        · cases isMagnitude
          rfl
    omega

/-! ### The range of the elements of a type -/

theorem unpack_of_isInf (isInf : x.isInf = true) : ∃ sign, x.toModel.unpack = .infinity sign := by
  change x.toModel.unpack.isInf = true at isInf
  generalize x.toModel.unpack = parts at isInf
  cases parts with
  | infinity sign => exact ⟨sign, rfl⟩
  | notANumber | zero | finite => cases isInf

theorem isInf_cases (isInf : x.isInf = true) : x = 1.0 / 0.0 ∨ x = -(1.0 / 0.0) := by
  obtain ⟨sign, isParts⟩ := unpack_of_isInf isInf
  cases sign with
  | positive => exact .inl (eq_of_unpack_eq isParts)
  | negative => exact .inr (eq_of_unpack_eq isParts)

variable {type : ScalarType}

/-- The numbers of a type lie within the range of its elements if they are finite. -/
theorem within_elementRange (isFloat : type.isFloat = true) (isNumber : x.isNaN = false) (isFinite : x.isInf = false)
    (isRounded : roundTo type x = x) : Within (Tosa.elementRange type).2 x := by
  have described := describes_unpack x
  change x.toModel.unpack.isNaN = false at isNumber
  change x.toModel.unpack.isInf = false at isFinite
  generalize isParts : x.toModel.unpack = parts at described isNumber isFinite
  -- Single precision is also what is taken for half precision.
  have widest : IsWidest (Tosa.elementRange type).2 (2 ^ 53 - 1) 971 ∧ type = .f64 ∨
      IsWidest (Tosa.elementRange type).2 ((2 ^ 24 - 1) * 2 ^ 29) 75 ∧ roundSingle x = x := by
    cases type with
    | f16 | f32 => exact .inr ⟨isWidest_mostSingle, isRounded⟩
    | f64 => exact .inl ⟨isWidest_mostFinite, rfl⟩
    | _ => cases isFloat
  cases described with
  | notANumber => cases isNumber
  | infinity => cases isFinite
  | zero =>
    rcases widest with ⟨widest, -⟩ | ⟨widest, -⟩
    · exact widest.within_zero isParts
    · exact widest.within_zero isParts
  | finite sign digits place positive closer isMagnitude _ filled =>
    rcases widest with ⟨widest, -⟩ | ⟨widest, isSingle⟩
    · -- In double precision all digits and all exponents are within the range.
      have most : place ≤ 971 := exponent_le_of_magnitude isMagnitude
      have below := filled.below
      exact widest.within_finite isParts (by omega)
    · exact widest.within_finite isParts (digits_of_roundSingle isSingle isMagnitude filled)

theorem elementRange_of_isFloat (isFloat : type.isFloat = true) :
    (Tosa.elementRange type).1 = -(Tosa.elementRange type).2 ∧ (Tosa.elementRange type).1.isNaN = false ∧
      (Tosa.elementRange type).2.isNaN = false := by
  cases type with
  | f16 | f32 => exact ⟨rfl, rfl, rfl⟩
  | f64 => exact ⟨rfl, by decide +kernel, by decide +kernel⟩
  | _ => cases isFloat

/-- A number with infinity taken for the nearest end of the range of a type. -/
def inRange (type : ScalarType) (x : Float) : Float :=
  if x.isInf then if x < 0.0 then (Tosa.elementRange type).1 else (Tosa.elementRange type).2 else x

/-- Only infinity is changed. -/
theorem inRange_eq_iff (isFloat : type.isFloat = true) : inRange type x = x ↔ x.isInf = false := by
  rw [inRange]
  split
  case isTrue isInf =>
    refine iff_of_false (fun same => ?_) (Bool.not_eq_false _ ▸ isInf)
    -- The ends of the range are finite.
    rw [← same] at isInf
    cases type with
    | f16 | f32 | f64 =>
      split at isInf
      all_goals exact absurd isInf (by decide +kernel)
    | _ => cases isFloat
  case isFalse notInf => exact iff_of_true rfl (Bool.not_eq_true _ ▸ notInf)

theorem maximum_least (isFloat : type.isFloat = true) (isNumber : x.isNaN = false) (isRounded : roundTo type x = x)
    (notLeast : x ≠ -(1.0 / 0.0)) : maximum x (Tosa.elementRange type).1 = x := by
  obtain ⟨opposite, isLeast, -⟩ := elementRange_of_isFloat isFloat
  rw [maximum, isLeast, if_neg Bool.false_ne_true]
  cases isInf : x.isInf with
  | true =>
    obtain rfl := (isInf_cases isInf).resolve_right notLeast
    cases type with
    | f16 | f32 | f64 => exact if_pos (by decide +kernel)
    | _ => cases isFloat
  | false =>
    obtain ⟨-, above⟩ := within_elementRange isFloat isNumber isInf isRounded
    rw [opposite]
    rcases above with above | above
    · exact if_pos above
    · rw [above, ite_self]

theorem minimum_most (isFloat : type.isFloat = true) (isNumber : x.isNaN = false) (isRounded : roundTo type x = x)
    (notLeast : x ≠ -(1.0 / 0.0)) : minimum x (Tosa.elementRange type).2 = inRange type x := by
  obtain ⟨-, -, isMost⟩ := elementRange_of_isFloat isFloat
  rw [minimum, isMost, if_neg Bool.false_ne_true, inRange]
  cases isInf : x.isInf with
  | true =>
    obtain rfl := (isInf_cases isInf).resolve_right notLeast
    have notNegative : ¬(1.0 / 0.0 : Float) < 0.0 := by decide +kernel
    rw [if_pos rfl, if_neg notNegative]
    cases type with
    | f16 | f32 | f64 => exact if_neg (by decide +kernel)
    | _ => cases isFloat
  | false =>
    obtain ⟨below, -⟩ := within_elementRange isFloat isNumber isInf isRounded
    rw [if_neg Bool.false_ne_true]
    rcases below with below | below
    · exact if_pos below
    · rw [← below, ite_self]

/-- Between the ends of the range of a type finite numbers stay what they are. -/
theorem minimum_maximum_eq (isFloat : type.isFloat = true) (isNumber : x.isNaN = false)
    (isRounded : roundTo type x = x) :
    minimum (maximum x (Tosa.elementRange type).1) (Tosa.elementRange type).2 = inRange type x := by
  -- The negative infinity is the only number below the range: the first bound already replaces it.
  by_cases isLeast : x = -(1.0 / 0.0)
  · subst isLeast
    cases type with
    | f16 | f32 | f64 => exact Float.toBits_inj.mp (by decide +kernel)
    | _ => cases isFloat
  · rw [maximum_least isFloat isNumber isRounded isLeast, minimum_most isFloat isNumber isRounded isLeast]

/-- The positive part of a number is as precise as the number. -/
theorem roundTo_maximum_zero (isRounded : roundTo type x = x) : roundTo type (maximum x 0.0) = maximum x 0.0 := by
  have isZero : roundTo type 0.0 = 0.0 := by cases type <;> rfl
  have notNaN : (0.0 : Float).isNaN = false := rfl
  rw [maximum, notNaN, if_neg Bool.false_ne_true]
  split
  · exact isRounded
  · exact isZero

/-- Between zero and the end of the range the positive parts of finite numbers stay what they are. -/
theorem minimum_maximum_zero_eq (isFloat : type.isFloat = true) (isNumber : x.isNaN = false)
    (isRounded : roundTo type x = x) :
    minimum (maximum x 0.0) (Tosa.elementRange type).2 = inRange type (maximum x 0.0) := by
  have notNaN : (0.0 : Float).isNaN = false := rfl
  refine minimum_most isFloat (isNaN_maximum isNumber notNaN) (roundTo_maximum_zero isRounded) ?_
  rw [maximum, notNaN, if_neg Bool.false_ne_true]
  split
  case isTrue above =>
    rintro rfl
    exact absurd above (by decide +kernel)
  case isFalse => exact fun same => absurd (congrArg Float.isInf same) (by decide +kernel)

end Number

end TensorIR
