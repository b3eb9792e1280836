import Mathlib.Algebra.Order.Round
import Mathlib.Data.Rat.Floor
import Mathlib.Tactic.FieldSimp
import Mathlib.Tactic.Linarith
import TensorIR.Lower
import TensorIR.Proofs.Tensors.Sums

/-!
# Quantizing in exact arithmetic

Both lowerings of quantizing compute the stored integer of a number by a chain of operations, and so does the lowering
of the way back. The chains are the same in every arithmetic. In the arithmetic of a run all numbers are rounded; here
the chains are looked at where they are not, so that only rounding to an integer loses something.

Among loops the number is rounded before the zero point is added, and among operations on whole tensors afterwards. Of
two equally near integers the even one is taken, and an odd zero point turns even integers into odd ones. So the two
lowerings store different integers half way between two integers, and nowhere else.

## Main definitions

* `Arithmetic` — numbers with the operations that quantizing is made of
* `Arithmetic.exact` — rational numbers
* `Target.quantized`, `dequantized` — the stored integer of a number, and the number that it stands for
* `nearestEven` — the nearest integer; of two equally near the even one

## Main results

* `Target.quantized_mem_bounds` — what is stored is one of the stored integers
* `Target.quantized_eq`, `Target.quantized_of_isSplit` — when both lowerings store the same integer
* `Target.abs_dequantized_sub_le` — the way back ends near the number
-/

namespace TensorIR

/-- Numbers with the operations that quantizing is made of. -/
structure Arithmetic (α : Type) where
  /-- An integer as a number, while an operation is lowered. -/
  ofInt : Int → α
  /-- One divided by a number, while an operation is lowered. -/
  reciprocal : α → α
  /-- A number as a constant of the lowered program. -/
  constant : α → α
  add : α → α → α
  sub : α → α → α
  mul : α → α → α
  div : α → α → α
  greater : α → α → α
  lesser : α → α → α
  /-- The integer nearest to a number; of two equally near the even one. -/
  roundEven : α → α
  /-- A number kept between a least and a greatest one. -/
  clamp : α → α → α → α
  /-- A number as a stored integer; what stands behind the point is cut off. -/
  truncate : α → Int
  /-- The stored integer nearest to a number; of two equally near the even one. -/
  saturate : α → Int
  /-- A stored integer as a number. -/
  widen : Int → α

/-- The stored integer of a number. Among loops the number is divided by the scale, rounded, shifted by the zero point
and kept between the least and the greatest stored integer. Among operations on whole tensors it is multiplied by the
reciprocal of the scale, shifted, kept between the two, and rounded. -/
def Target.quantized {α : Type} (target : Target) (arithmetic : Arithmetic α) (bounds : Int × Int) (scale : α)
    (zeroPoint : Int) (x : α) : Int :=
  let shift := arithmetic.constant (arithmetic.ofInt zeroPoint)
  match target with
  | .loops =>
    let rounded := arithmetic.roundEven (arithmetic.div x (arithmetic.constant scale))
    let raised := arithmetic.greater (arithmetic.add rounded shift) (arithmetic.constant (arithmetic.ofInt bounds.1))
    arithmetic.truncate (arithmetic.lesser raised (arithmetic.constant (arithmetic.ofInt bounds.2)))
  | .tosa =>
    let scaled := arithmetic.mul x (arithmetic.constant (arithmetic.reciprocal scale))
    arithmetic.saturate (arithmetic.clamp (arithmetic.ofInt bounds.1) (arithmetic.ofInt bounds.2)
      (arithmetic.add scaled shift))

/-- The number that a stored integer stands for. -/
def dequantized {α : Type} (arithmetic : Arithmetic α) (scale : α) (zeroPoint stored : Int) : α :=
  arithmetic.mul (arithmetic.sub (arithmetic.widen stored) (arithmetic.constant (arithmetic.ofInt zeroPoint)))
    (arithmetic.constant scale)

/-! ### Rounding to integers -/

/-- The integer nearest to a rational number; of two equally near the even one. -/
def nearestEven (x : ℚ) : ℤ := if Int.fract x = 1 / 2 ∧ Even ⌊x⌋ then ⌊x⌋ else round x

section Rounding

variable {x y : ℚ} {n : ℤ}

theorem abs_nearestEven_sub_le (x : ℚ) : |(nearestEven x : ℚ) - x| ≤ 1 / 2 := by
  rw [nearestEven]
  split
  case isTrue tie =>
    have below : (⌊x⌋ : ℚ) - x = -(1 / 2) := by
      rw [← tie.1, Int.fract]
      ring
    rw [below, abs_neg, abs_of_pos one_half_pos]
  case isFalse =>
    rw [abs_sub_comm]
    exact abs_sub_round x

/-- Half way between two integers the even one is taken. -/
theorem even_nearestEven (tie : Int.fract x = 1 / 2) : Even (nearestEven x) := by
  rw [nearestEven]
  split
  case isTrue below => exact below.2
  case isFalse odd =>
    have isOdd : Odd ⌊x⌋ := Int.not_even_iff_odd.mp fun even => odd ⟨tie, even⟩
    rw [round_eq, ← Int.floor_add_fract x, tie, add_assoc, add_halves, ← Int.cast_one (R := ℚ), ← Int.cast_add,
      Int.floor_intCast]
    exact isOdd.add_one

theorem nearestEven_mono : Monotone nearestEven := by
  intro x y le
  by_contra less
  have above := abs_le.mp (abs_nearestEven_sub_le x)
  have below := abs_le.mp (abs_nearestEven_sub_le y)
  have apart : (nearestEven y : ℚ) + 1 ≤ nearestEven x := by exact_mod_cast not_le.mp less
  -- The two numbers lie half way between the two integers, so they are the same.
  have same : x = y := le_antisymm le (by linarith [above.2, below.1])
  exact less (same ▸ le_rfl)

/-- An integer that is less than half way off is the nearest one. -/
theorem nearestEven_eq (near : |(n : ℚ) - x| < 1 / 2) : nearestEven x = n := by
  have close : |((nearestEven x - n : ℤ) : ℚ)| < 1 := by
    rw [Int.cast_sub, ← sub_sub_sub_cancel_right _ _ x]
    calc |(nearestEven x : ℚ) - x - (n - x)| ≤ |(nearestEven x : ℚ) - x| + |(n : ℚ) - x| := abs_sub _ _
      _ < 1 / 2 + 1 / 2 := add_lt_add_of_le_of_lt (abs_nearestEven_sub_le x) near
      _ = 1 := add_halves 1
  exact sub_eq_zero.mp (Int.abs_lt_one_iff.mp (by exact_mod_cast close))

@[simp]
theorem nearestEven_intCast (n : ℤ) : nearestEven n = n :=
  nearestEven_eq (by simp)

theorem floor_le_nearestEven (x : ℚ) : ⌊x⌋ ≤ nearestEven x := by
  simpa using nearestEven_mono (Int.floor_le x)

theorem nearestEven_le_floor_add_one (x : ℚ) : nearestEven x ≤ ⌊x⌋ + 1 := by
  have le : x ≤ ((⌊x⌋ + 1 : ℤ) : ℚ) := by
    push_cast
    exact (Int.lt_floor_add_one x).le
  simpa only [nearestEven_intCast] using nearestEven_mono le

/-- An integer that is added before rounding may be added afterwards, except that an odd one turns the even of two
equally near integers into an odd one. -/
theorem nearestEven_add_intCast (settled : Int.fract x = 1 / 2 → Even n) :
    nearestEven (x + n) = nearestEven x + n := by
  rw [nearestEven, nearestEven, Int.fract_add_intCast, Int.floor_add_intCast, round_add_intCast]
  by_cases tie : Int.fract x = 1 / 2
  · have parity : Even (⌊x⌋ + n) ↔ Even ⌊x⌋ := by
      rw [Int.even_add]
      exact iff_true_right (settled tie)
    simp only [parity, tie, true_and]
    split <;> rfl
  · rw [if_neg fun both => tie both.1, if_neg fun both => tie both.1]

end Rounding

/-! ### Exact arithmetic -/

/-- The arithmetic of rational numbers, where stored integers are of a given type. Cutting off and rounding keep to the
range of the type in the way that they do in a run. -/
def Arithmetic.exact (stored : ScalarType) : Arithmetic ℚ where
  ofInt := Int.cast
  reciprocal x := 1 / x
  constant := id
  add := (· + ·)
  sub := (· - ·)
  mul := (· * ·)
  div := (· / ·)
  greater := max
  lesser := min
  roundEven x := nearestEven x
  clamp least most x := min (max x least) most
  truncate x := Number.wrapTo stored (max Number.minInt64 (min Number.maxInt64 (x.num.tdiv x.den)))
  saturate x := min (max (nearestEven x) stored.bounds.1) stored.bounds.2
  widen := Int.cast

namespace ScalarType

variable {stored : ScalarType} {n : ℤ}

theorem bounds_fst_le_snd (type : ScalarType) : type.bounds.1 ≤ type.bounds.2 := by
  cases type <;> decide

/-- A number that is kept within the range of a type belongs to the type. -/
theorem holds_kept (type : ScalarType) (n : ℤ) : type.Holds (.int (min (max n type.bounds.1) type.bounds.2)) :=
  ⟨le_min (le_max_right _ _) type.bounds_fst_le_snd, min_le_right _ _⟩

theorem truncate_intCast (holds : stored.Holds (.int n)) : (Arithmetic.exact stored).truncate n = n := by
  obtain ⟨least, most⟩ := holds.toInt_mem_range
  change Number.minInt64 ≤ n at least
  change n ≤ Number.maxInt64 at most
  change Number.wrapTo stored (max _ (min _ (Int.tdiv (n : ℚ).num (n : ℚ).den))) = n
  rw [Rat.num_intCast, Rat.den_intCast, Nat.cast_one, Int.tdiv_one, min_eq_right most, max_eq_right least,
    wrapTo_of_holds holds]

end ScalarType

namespace Target

variable (stored : ScalarType) (scale x : ℚ) (zeroPoint : ℤ)

/-- Among loops rounding comes first. -/
theorem quantized_loops : Target.loops.quantized (.exact stored) stored.bounds scale zeroPoint x =
    min (max (nearestEven (x / scale) + zeroPoint) stored.bounds.1) stored.bounds.2 := by
  refine Eq.trans ?_ (ScalarType.truncate_intCast (stored.holds_kept (nearestEven (x / scale) + zeroPoint)))
  change (Arithmetic.exact stored).truncate
    (min (max ((nearestEven (x / scale) : ℚ) + zeroPoint) stored.bounds.1) stored.bounds.2) = _
  push_cast
  rfl

/-- Among operations on whole tensors the zero point is added first. -/
theorem quantized_tosa : Target.tosa.quantized (.exact stored) stored.bounds scale zeroPoint x =
    min (max (nearestEven (x / scale + zeroPoint)) stored.bounds.1) stored.bounds.2 := by
  change min (max (nearestEven (min (max (x * (1 / scale) + zeroPoint) stored.bounds.1) stored.bounds.2))
    stored.bounds.1) stored.bounds.2 = _
  rw [nearestEven_mono.map_min, nearestEven_mono.map_max, nearestEven_intCast, nearestEven_intCast, mul_one_div]
  have holds := stored.holds_kept (nearestEven (x / scale + zeroPoint))
  rw [max_eq_left holds.1, min_eq_left holds.2]

/-- What is stored is one of the stored integers. -/
theorem quantized_mem_bounds (target : Target) :
    stored.Holds (.int (target.quantized (.exact stored) stored.bounds scale zeroPoint x)) := by
  cases target with
  | loops => exact quantized_loops stored .. ▸ stored.holds_kept _
  | tosa => exact quantized_tosa stored .. ▸ stored.holds_kept _

/-- A number is half way between two stored integers, and an odd zero point tells whether the even one is taken. -/
def IsSplit (bounds : Int × Int) (scale x : ℚ) (zeroPoint : Int) : Prop :=
  Odd zeroPoint ∧ Int.fract (x / scale) = 1 / 2 ∧
    bounds.1 ≤ ⌊x / scale⌋ + zeroPoint ∧ ⌊x / scale⌋ + zeroPoint < bounds.2

/-- Both lowerings store the same integer, except half way between two of them when the zero point is odd. -/
theorem quantized_eq (whole : ¬IsSplit stored.bounds scale x zeroPoint) :
    Target.loops.quantized (.exact stored) stored.bounds scale zeroPoint x =
      Target.tosa.quantized (.exact stored) stored.bounds scale zeroPoint x := by
  rw [quantized_loops, quantized_tosa]
  by_cases settled : Int.fract (x / scale) = 1 / 2 → Even zeroPoint
  · rw [nearestEven_add_intCast settled]
  · -- The two integers are neighbours, and one end of the range is nearest to both.
    obtain ⟨tie, odd⟩ := Classical.not_imp.mp settled
    have outside : ¬(stored.bounds.1 ≤ ⌊x / scale⌋ + zeroPoint ∧ ⌊x / scale⌋ + zeroPoint < stored.bounds.2) :=
      fun inside => whole ⟨Int.not_even_iff_odd.mp odd, tie, inside⟩
    have first := floor_le_nearestEven (x / scale)
    have second := nearestEven_le_floor_add_one (x / scale)
    have third := floor_le_nearestEven (x / scale + zeroPoint)
    have fourth := nearestEven_le_floor_add_one (x / scale + zeroPoint)
    rw [Int.floor_add_intCast] at third fourth
    omega

/-- Half way between two stored integers the lowerings part if the zero point is odd. -/
theorem quantized_of_isSplit (split : IsSplit stored.bounds scale x zeroPoint) :
    let among := Target.loops.quantized (.exact stored) stored.bounds scale zeroPoint x
    let whole := Target.tosa.quantized (.exact stored) stored.bounds scale zeroPoint x
    Odd among ∧ Even whole ∧ |among - whole| = 1 := by
  obtain ⟨odd, tie, least, most⟩ := split
  have inside {n : ℤ} (above : ⌊x / scale⌋ + zeroPoint ≤ n) (below : n ≤ ⌊x / scale⌋ + zeroPoint + 1) :
      min (max n stored.bounds.1) stored.bounds.2 = n := by omega
  have first := floor_le_nearestEven (x / scale)
  have second := nearestEven_le_floor_add_one (x / scale)
  have third := floor_le_nearestEven (x / scale + zeroPoint)
  have fourth := nearestEven_le_floor_add_one (x / scale + zeroPoint)
  rw [Int.floor_add_intCast] at third fourth
  rw [quantized_loops, quantized_tosa, inside (by omega) (by omega), inside third fourth]
  have isOdd : Odd (nearestEven (x / scale) + zeroPoint) := (even_nearestEven tie).add_odd odd
  have isEven : Even (nearestEven (x / scale + zeroPoint)) :=
    even_nearestEven ((Int.fract_add_intCast _ _).trans tie)
  refine ⟨isOdd, isEven, ?_⟩
  have different : nearestEven (x / scale) + zeroPoint ≠ nearestEven (x / scale + zeroPoint) := fun same =>
    Int.not_even_iff_odd.mpr isOdd (same ▸ isEven)
  rw [abs_eq one_pos.le]
  omega

/-! ### The way back -/

/-- Either lowering rounds the shifted quotient to an integer, of two equally near ones to one or the other, and keeps
it within the stored integers. -/
theorem exists_quantized_eq (target : Target) : ∃ n : ℤ,
    target.quantized (.exact stored) stored.bounds scale zeroPoint x = min (max n stored.bounds.1) stored.bounds.2 ∧
      |(n : ℚ) - (x / scale + zeroPoint)| ≤ 1 / 2 := by
  cases target with
  | loops =>
    refine ⟨_, quantized_loops stored scale x zeroPoint, ?_⟩
    rw [Int.cast_add, add_sub_add_right_eq_sub]
    exact abs_nearestEven_sub_le _
  | tosa => exact ⟨_, quantized_tosa stored scale x zeroPoint, abs_nearestEven_sub_le _⟩

variable {scale x zeroPoint}

/-- The way back from the stored integer ends within half a scale of a number in the range. -/
theorem abs_dequantized_sub_le (target : Target) (positive : 0 < scale)
    (least : (stored.bounds.1 - zeroPoint) * scale ≤ x) (most : x ≤ (stored.bounds.2 - zeroPoint) * scale) :
    |dequantized (.exact stored) scale zeroPoint
      (target.quantized (.exact stored) stored.bounds scale zeroPoint x) - x| ≤ scale / 2 := by
  obtain ⟨n, isKept, near⟩ := exists_quantized_eq stored scale x zeroPoint target
  obtain ⟨below, above⟩ := abs_le.mp near
  rw [← le_div_iff₀ positive] at least
  rw [← div_le_iff₀ positive] at most
  -- An integer that is at most half way beyond the range is not beyond it.
  have inside : stored.bounds.1 ≤ n ∧ n ≤ stored.bounds.2 := by
    have lower : (stored.bounds.1 : ℚ) < n + 1 := by linarith
    have upper : (n : ℚ) < stored.bounds.2 + 1 := by linarith
    exact ⟨Int.lt_add_one_iff.mp (by exact_mod_cast lower), Int.lt_add_one_iff.mp (by exact_mod_cast upper)⟩
  rw [isKept, max_eq_left inside.1, min_eq_left inside.2]
  change |((n : ℚ) - zeroPoint) * scale - x| ≤ scale / 2
  have scaled : ((n : ℚ) - zeroPoint) * scale - x = (n - (x / scale + zeroPoint)) * scale := by
    field_simp
    ring
  calc |((n : ℚ) - zeroPoint) * scale - x| = |(n : ℚ) - (x / scale + zeroPoint)| * scale := by
        rw [scaled, abs_mul, abs_of_pos positive]
    _ ≤ 1 / 2 * scale := mul_le_mul_of_nonneg_right near positive.le
    _ = scale / 2 := one_div_mul_eq_div 2 scale

end Target

end TensorIR
