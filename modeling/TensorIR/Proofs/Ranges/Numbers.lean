import TensorIR.Proofs.Ranges.FloatOrder
import TensorIR.Proofs.Verified
import TensorIR.Run.Operation

/-!
# Numbers of a type

A number belongs to an integer type if it is an integer in the range of the type. Whatever an operation on
numbers computes is brought back into this range: it wraps, saturates, or is a truth value. Only clamping
keeps to bounds of its own, which need not be those of the type.

## Main definitions

* `ScalarType.Holds` — a number belongs to a type
* `Grid.Holds` — all elements of an array belong to a type

## Main results

* `ScalarType.holds_ofFloat`, `ScalarType.holds_cast`, `ScalarType.holds_arithmetic` — what is computed
* `ScalarType.holds_clamped`, `ScalarType.meets_of_holds_clamped` — clamping stays in the range of the type if
  and only if the bounds meet the range
* `Grid.Holds.get`, `Grid.holds_of_build` — arrays are read and computed element by element
-/

namespace TensorIR

namespace ScalarType

/-- The least and the greatest integer that a number of the type can be. -/
def bounds (type : ScalarType) : Int × Int :=
  type.intRange?.getD (Number.minInt64, Number.maxInt64)

/-- A number belongs to the type: an integer is in the range of the type, and what is no integer belongs to
floating-point types only. -/
def Holds (type : ScalarType) : Scalar → Prop
  | .int value => type.bounds.1 ≤ value ∧ value ≤ type.bounds.2
  | .float _ => type.isFloat = true

instance (type : ScalarType) : DecidablePred type.Holds
  | .int value => inferInstanceAs (Decidable (type.bounds.1 ≤ value ∧ value ≤ type.bounds.2))
  | .float _ => inferInstanceAs (Decidable (type.isFloat = true))

section Numbers

variable {type source : ScalarType} {value a b : Int} {x y : Scalar}

theorem isFloat_iff_intRange? : type.isFloat = true ↔ type.intRange? = none := by
  cases type <;> decide

/-- The numbers of an integer type are the integers in its range. -/
theorem holds_iff {low high : Int} (range : type.intRange? = some (low, high)) :
    type.Holds x ↔ ∃ value, x = .int value ∧ low ≤ value ∧ value ≤ high := by
  cases x with
  | int value => simp [Holds, bounds, range]
  | float value =>
    refine iff_of_false (fun isFloat => ?_) (by simp)
    rw [isFloat_iff_intRange?.mp isFloat] at range
    cases range

theorem bounds_mem_range (type : ScalarType) :
    Number.minInt64 ≤ type.bounds.1 ∧ type.bounds.2 ≤ Number.maxInt64 := by
  cases type <;> decide

/-- Every number is cut to a signed 64-bit integer. -/
theorem Holds.toInt_mem_range (holds : type.Holds x) :
    Number.minInt64 ≤ x.toInt ∧ x.toInt ≤ Number.maxInt64 := by
  cases x with
  | float value => exact Number.truncateToInt_mem_range value
  | int value =>
    obtain ⟨least, most⟩ := type.bounds_mem_range
    exact ⟨least.trans holds.1, holds.2.trans most⟩

theorem holds_wrapTo (inside : Number.minInt64 ≤ value ∧ value ≤ Number.maxInt64) :
    type.Holds (.int (Number.wrapTo type value)) := by
  cases range : type.intRange? with
  | none =>
    have same : Number.wrapTo type value = value := by
      cases type <;> first | rfl | cases range
    simpa only [Holds, bounds, range, same, Option.getD_none] using inside
  | some ends =>
    simpa only [Holds, bounds, range, Option.getD_some] using Number.wrapTo_mem_range range inside

theorem wrapInt64_mem_range (value : Int) :
    Number.minInt64 ≤ Number.wrapInt64 value ∧ Number.wrapInt64 value ≤ Number.maxInt64 := by
  simp only [Number.wrapInt64, Number.minInt64, Number.maxInt64, Nat.pow_eq, Int.bmod_def]
  omega

theorem holds_wrapInto (value : Int) : type.Holds (.int (Number.wrapInto type value)) :=
  holds_wrapTo (wrapInt64_mem_range value)

theorem holds_zero (type : ScalarType) : type.Holds (.int 0) := by
  cases type <;> exact ⟨by decide, by decide⟩

theorem holds_ofBool (type : ScalarType) (value : Bool) : type.Holds (Scalar.ofBool value) := by
  cases value <;> cases type <;> exact ⟨by decide, by decide⟩

theorem holds_ofFloat (type : ScalarType) (value : Float) : type.Holds (Scalar.ofFloat type value) := by
  unfold Scalar.ofFloat
  split
  case isTrue isFloat => exact isFloat
  case isFalse => exact holds_wrapTo (Number.truncateToInt_mem_range value)

theorem holds_saturate (notFloat : ¬type.isFloat = true) (value : Float) :
    type.Holds (.int (Scalar.saturate type value)) := by
  cases range : type.intRange? with
  | none => exact absurd (isFloat_iff_intRange?.mpr range) notFloat
  | some ends =>
    simpa only [Holds, bounds, range, Option.getD_some] using Scalar.saturate_mem_range range value

theorem holds_cast {holder : ScalarType} (holds : holder.Holds x) :
    type.Holds (Scalar.cast source type x) := by
  unfold Scalar.cast
  split
  case isTrue isFloat => exact isFloat
  split
  · split
    · exact holds_ofBool type _
    · exact holds_saturate ‹_› _
  split
  · exact holds_ofBool type _
  · exact holds_wrapTo holds.toInt_mem_range

theorem holds_arithmetic (onInts : Int → Int → Int) (onFloats : Float → Float → Float) :
    type.Holds (Scalar.arithmetic type onInts onFloats x y) := by
  unfold Scalar.arithmetic
  split
  case isTrue isFloat => exact isFloat
  case isFalse => exact holds_wrapInto _

theorem holds_negated (holds : type.Holds x) : type.Holds (Run.negated type x) := by
  cases x with
  | float => exact holds
  | int value => exact holds_wrapInto _

theorem holds_absolute (holds : type.Holds x) : type.Holds (Run.absolute type x) := by
  cases x with
  | float => exact holds
  | int value => exact holds_wrapInto _

/-- The bounds that are stated for integers meet the range of the type. -/
def Meets (type : ScalarType) (attributes : Attributes) : Prop :=
  (attributes.int? "min_int").getD Number.minInt64 ≤ type.bounds.2 ∧
    type.bounds.1 ≤ (attributes.int? "max_int").getD Number.maxInt64

instance (type : ScalarType) (attributes : Attributes) : Decidable (type.Meets attributes) :=
  inferInstanceAs (Decidable (_ ∧ _))

/-- Clamping keeps a number within its type if the bounds meet the range of the type. -/
theorem holds_clamped {attributes : Attributes} (meets : type.Meets attributes) (holds : type.Holds x) :
    type.Holds (Run.clamped attributes x) := by
  cases x with
  | float => exact holds
  | int value =>
    obtain ⟨least, most⟩ := meets
    obtain ⟨above, below⟩ := holds
    exact ⟨le_min (above.trans (le_max_left _ _)) most, (min_le_left _ _).trans (max_le below least)⟩

/-- Bounds that miss the range of the type take every integer out of it. -/
theorem meets_of_holds_clamped {attributes : Attributes}
    (ordered : (attributes.int? "min_int").getD Number.minInt64 ≤
      (attributes.int? "max_int").getD Number.maxInt64)
    (holds : type.Holds (Run.clamped attributes (.int value))) : type.Meets attributes := by
  obtain ⟨above, below⟩ := holds
  constructor
  · calc _ ≤ min (max value _) _ := le_min (le_max_right _ _) ordered
      _ ≤ type.bounds.2 := below
  · calc type.bounds.1 ≤ min (max value _) _ := above
      _ ≤ _ := min_le_right _ _

/-! ### Operations on two integers -/

/-- The quotient toward zero is a signed 64-bit integer, but for one. -/
theorem tdiv_mem_range (first : Number.minInt64 ≤ a ∧ a ≤ Number.maxInt64)
    (other : ¬(b = 0 ∨ (a = Number.minInt64 ∧ b = -1))) :
    Number.minInt64 ≤ a.tdiv b ∧ a.tdiv b ≤ Number.maxInt64 := by
  have size : (a.tdiv b).natAbs = a.natAbs / b.natAbs := Int.natAbs_tdiv a b
  have less := Nat.div_le_self a.natAbs b.natAbs
  simp only [Number.minInt64, Number.maxInt64] at first other ⊢
  by_cases edge : a = -9223372036854775808
  · -- The least integer is divided by one, or by a number that makes it at least half as great.
    rcases eq_or_ne b 1 with rfl | notOne
    · rw [Int.tdiv_one]
      exact first
    · have half : a.natAbs / b.natAbs ≤ a.natAbs / 2 := Nat.div_le_div_left (by omega) Nat.two_pos
      omega
  · omega

theorem tmod_mem_range (second : Number.minInt64 ≤ b ∧ b ≤ Number.maxInt64) (nonzero : b ≠ 0) :
    Number.minInt64 ≤ a.tmod b ∧ a.tmod b ≤ Number.maxInt64 := by
  have size := Int.natAbs_tmod a b
  have less := Nat.mod_lt a.natAbs (Int.natAbs_pos.mpr nonzero)
  simp only [Number.minInt64, Number.maxInt64] at second ⊢
  omega

/-- What is computed from two signed 64-bit integers is one. -/
theorem mem_range_of_onInts? {kind : ArithKind} {compute : Int → Int → Option Int}
    (isCompute : kind.onInts? = some compute) (first : Number.minInt64 ≤ a ∧ a ≤ Number.maxInt64)
    (second : Number.minInt64 ≤ b ∧ b ≤ Number.maxInt64) (computed : compute a b = some value) :
    Number.minInt64 ≤ value ∧ value ≤ Number.maxInt64 := by
  cases kind with
  | addi | subi | muli =>
    cases isCompute
    cases computed
    exact wrapInt64_mem_range _
  | maxsi | minsi =>
    cases isCompute
    cases computed
    omega
  | divsi =>
    cases isCompute
    rw [quotient?] at computed
    split at computed
    case isTrue => cases computed
    case isFalse other =>
      cases computed
      exact tdiv_mem_range first other
  | remsi =>
    cases isCompute
    rw [remainder?] at computed
    split at computed
    case isTrue => cases computed
    case isFalse other =>
      cases computed
      exact tmod_mem_range second (not_or.mp other).1
  | _ => cases isCompute

end Numbers

end ScalarType

/-! ### Arrays -/

namespace Grid

/-- All elements of the array belong to the type. -/
def Holds (grid : Grid) (type : ScalarType) : Prop :=
  ∀ value ∈ grid.data, type.Holds value

instance (grid : Grid) (type : ScalarType) : Decidable (grid.Holds type) :=
  inferInstanceAs (Decidable (∀ value ∈ grid.data, type.Holds value))

section Arrays

variable {grid other result : Grid} {type : ScalarType} {shape position : List Int} {value : Scalar}

theorem Holds.getD (holds : grid.Holds type) (offset : Nat) : type.Holds (grid.data.getD offset default) := by
  rw [Array.getD_eq_getD_getElem?]
  by_cases below : offset < grid.data.size
  · rw [Array.getElem?_eq_getElem below]
    exact holds _ (Array.getElem_mem below)
  · rw [Array.getElem?_eq_none (Nat.le_of_not_lt below)]
    exact type.holds_zero

/-- What is read from an array belongs to the type of its elements. -/
theorem Holds.get (holds : grid.Holds type) (read : grid.get position = .ok value) : type.Holds value := by
  obtain ⟨offset, -, read⟩ := of_bind_eq_ok read
  cases read
  exact holds.getD offset

theorem Holds.setIfInBounds (holds : grid.Holds type) (belongs : type.Holds value) (offset : Nat) :
    Holds { grid with data := grid.data.setIfInBounds offset value } type := by
  intro element member
  rcases Array.mem_or_eq_of_mem_setIfInBounds member with before | rfl
  · exact holds element before
  · exact belongs

theorem Holds.set (holds : grid.Holds type) (belongs : type.Holds value)
    (written : grid.set position value = .ok result) : result.Holds type := by
  obtain ⟨offset, -, written⟩ := of_bind_eq_ok written
  cases written
  exact holds.setIfInBounds belongs offset

theorem filled_holds (shape : List Int) (type : ScalarType) (value : Float) :
    (filled shape type value).Holds type := by
  intro element member
  rw [filled, Array.mem_replicate] at member
  rw [member.2]
  exact type.holds_ofFloat value

theorem holds_of_ofValues {values : List Float} (made : ofValues shape type values = .ok result) :
    result.Holds type := by
  unfold ofValues at made
  split at made
  case isFalse => cases made
  case isTrue =>
    cases made
    intro element member
    obtain ⟨value, -, rfl⟩ := List.mem_map.mp (List.mem_toArray.mp member)
    exact type.holds_ofFloat value

/-- An array that is computed holds what is computed for its positions. -/
theorem holds_of_build {element : ScalarType} {compute : List Int → Except Error Scalar}
    (built : build shape element compute = .ok result)
    (each : ∀ position value, compute position = .ok value → type.Holds value) : result.Holds type := by
  obtain ⟨values, computed, built⟩ := of_bind_eq_ok built
  cases built
  intro value member
  obtain ⟨position, -, isValue⟩ :=
    forall₂_mem_right (forall₂_of_mapM_eq_ok computed) (List.mem_toArray.mp member)
  exact each position value isValue

/-- Operations that only move elements keep their type. -/
theorem Holds.gather {source : List Int → List Int} (holds : grid.Holds type)
    (moved : grid.gather shape source = .ok result) : result.Holds type :=
  holds_of_build moved fun _ _ => holds.get

theorem Holds.map {source element : ScalarType} {compute : Scalar → Scalar} (holds : grid.Holds source)
    (mapped : grid.map element compute = .ok result)
    (each : ∀ value, source.Holds value → type.Holds (compute value)) : result.Holds type := by
  refine holds_of_build mapped fun position value computed => ?_
  obtain ⟨value, read, computed⟩ := of_bind_eq_ok computed
  cases computed
  exact each value (holds.get read)

theorem holds_of_combine {element : ScalarType} {compute : Scalar → Scalar → Scalar}
    (combined : grid.combine other element compute = .ok result)
    (each : ∀ x y, type.Holds (compute x y)) : result.Holds type := by
  obtain ⟨shape, -, combined⟩ := of_bind_eq_ok combined
  refine holds_of_build combined fun position value computed => ?_
  obtain ⟨x, -, computed⟩ := of_bind_eq_ok computed
  obtain ⟨y, -, computed⟩ := of_bind_eq_ok computed
  cases computed
  exact each x y

theorem Holds.pad {padding : List Int} {fill : Float} (holds : grid.Holds type)
    (padded : grid.pad padding shape type fill = .ok result) : result.Holds type := by
  refine holds_of_foldlM_eq_ok (·.Holds type) padded (filled_holds shape type fill)
    fun before position _ after step holding => ?_
  obtain ⟨_, -, step⟩ := of_bind_eq_ok step
  obtain ⟨value, read, written⟩ := of_bind_eq_ok step
  exact holding.set (holds.get read) written

theorem holds_of_reduceSum {axis : Nat} (reduced : grid.reduceSum axis shape type = .ok result) :
    result.Holds type := by
  refine holds_of_foldlM_eq_ok (·.Holds type) reduced (filled_holds shape type 0.0)
    fun before position _ after step holding => ?_
  obtain ⟨sum, -, step⟩ := of_bind_eq_ok step
  obtain ⟨value, -, written⟩ := of_bind_eq_ok step
  exact holding.set (ScalarType.holds_arithmetic _ _) written

theorem holds_of_product {batch row column : Int}
    (computed : grid.product other type batch row column = .ok value) : type.Holds value := by
  refine holds_of_foldlM_eq_ok (type.Holds ·) computed (type.holds_ofFloat 0.0) fun sum step _ next isNext _ => ?_
  obtain ⟨x, -, isNext⟩ := of_bind_eq_ok isNext
  obtain ⟨y, -, isNext⟩ := of_bind_eq_ok isNext
  cases isNext
  exact ScalarType.holds_arithmetic _ _

theorem holds_of_matmul (computed : grid.matmul other shape type = .ok result) : result.Holds type :=
  holds_of_build computed fun _ _ => holds_of_product

end Arrays

end Grid

end TensorIR
