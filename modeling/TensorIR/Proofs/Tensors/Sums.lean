import Mathlib.Algebra.BigOperators.Group.Finset.Basic
import Mathlib.Algebra.BigOperators.Group.Finset.Sigma
import TensorIR.Proofs.Ranges.Numbers
import TensorIR.Proofs.Tensors.Contents

/-!
# Integers in arrays, and their sums

Integers are kept within the width of their type. This may be done after every addition or at the end, so the
elements that are added up along some dimensions, one dimension after the other or all at once, give the same sum.

## Main definitions

* `ScalarType.convert` — an integer as one of another type
* `Shape.every` — the positions of a shape as a set
* `Grid.SumsUp`, `Grid.sums` — an array of sums over positions

## Main results

* `Number.wrapInto_add_wrapInto`, `Number.wrapInto_sum` — wrapping may wait until the end
* `Grid.foldl_add` — integers that are added up in the array of their sums
* `Grid.SumsUp.reduceSum` — sums along one dimension after the other
* `Grid.SumsUp.reshape` — sums in another shape
-/

namespace TensorIR

/-! ### Wrapping -/

namespace Number

theorem wrapInto_add_wrapInto (type : ScalarType) (a b : Int) :
    wrapInto type (wrapInto type a + b) = wrapInto type (a + b) := by
  cases type <;> simp only [wrapInto, wrapTo, wrapInt64, Nat.pow_eq, Int.bmod_def] <;> norm_num <;> omega

theorem wrapInt64_of_mem_range {value : Int} (inside : minInt64 ≤ value ∧ value ≤ maxInt64) :
    wrapInt64 value = value := by
  simp only [minInt64, maxInt64] at inside
  simp only [wrapInt64, Nat.pow_eq, Int.bmod_def]
  omega

theorem wrapInto_of_holds {type : ScalarType} {value : Int} (holds : type.Holds (.int value)) :
    wrapInto type value = value := by
  obtain ⟨least, most⟩ := holds
  revert least most
  cases type <;> simp only [ScalarType.bounds, ScalarType.intRange?, Option.getD_some, Option.getD_none, minInt64,
    maxInt64, wrapInto, wrapTo, wrapInt64, Nat.pow_eq, Int.bmod_def] <;> norm_num <;> omega

/-- Each term of a sum may be wrapped, or only the sum. -/
theorem wrapInto_sum (type : ScalarType) {α : Type} [DecidableEq α] (items : Finset α) (values : α → Int) :
    wrapInto type (∑ item ∈ items, wrapInto type (values item)) = wrapInto type (∑ item ∈ items, values item) := by
  induction items using Finset.induction_on with
  | empty => rfl
  | insert item items outside ih =>
    rw [Finset.sum_insert outside, Finset.sum_insert outside, wrapInto_add_wrapInto, Int.add_comm,
      ← wrapInto_add_wrapInto, ih, wrapInto_add_wrapInto, Int.add_comm]

end Number

namespace ScalarType

variable {type source : ScalarType} {value : Int}

/-- An integer as one of the type: among truth values, everything but zero is true, and otherwise the integer is
taken modulo the width. -/
def convert (type : ScalarType) (value : Int) : Int :=
  if type = .i1 then if value ≠ 0 then 1 else 0 else Number.wrapTo type value

theorem wrapTo_of_holds (holds : type.Holds (.int value)) : Number.wrapTo type value = value := by
  have whole := Number.wrapInto_of_holds holds
  have inside : Number.minInt64 ≤ value ∧ value ≤ Number.maxInt64 := holds.toInt_mem_range
  rwa [Number.wrapInto, Number.wrapInt64_of_mem_range inside] at whole

/-- The sum of two integers of the type. -/
theorem add_int (notFloat : type.isFloat = false) (a b : Int) :
    Scalar.add type (.int a) (.int b) = .int (Number.wrapInto type (a + b)) := by
  simp [Scalar.add, Scalar.arithmetic, notFloat, Scalar.toInt]

theorem ofFloat_zero (notFloat : type.isFloat = false) : Scalar.ofFloat type 0.0 = .int 0 := by
  have none : Number.truncateToInt 0.0 = 0 := by decide
  rw [Scalar.ofFloat, notFloat, none, wrapTo_of_holds type.holds_zero]
  rfl

end ScalarType

/-! ### Sums over positions -/

namespace Shape

variable {shape position : List Int}

/-- All positions of a shape, as a set. -/
def every (shape : List Int) : Finset (List Int) := (Grid.positions shape).toFinset

theorem mem_every (static : Static shape) : position ∈ every shape ↔ Inside position shape := by
  rw [every, List.mem_toFinset, mem_positions static]

end Shape

namespace Grid

open Shape

variable {grid : Grid} {shape source next : List Int} {element other : ScalarType}
  {target image : List Int → List Int} {values : List Int → Int}

/-- The integer at a position of an array of integers. -/
def integer (grid : Grid) (position : List Int) : Int := (grid.entry position).toInt

/-- An array of a type of integers holds integers of this type. -/
theorem Holds.entry_eq (holds : grid.Holds element) (notFloat : element.isFloat = false) (position : List Int) :
    grid.entry position = .int (grid.integer position) ∧ element.Holds (.int (grid.integer position)) := by
  have belongs : element.Holds (grid.entry position) := holds.getD _
  cases isEntry : grid.entry position with
  | int value =>
    rw [isEntry] at belongs
    rw [integer, isEntry]
    exact ⟨rfl, belongs⟩
  | float value =>
    rw [isEntry] at belongs
    exact absurd belongs (by simp [ScalarType.Holds, notFloat])

theorem tabulate_holds {compute : List Int → Scalar} (each : ∀ position, element.Holds (compute position)) :
    (tabulate shape element compute).Holds element := by
  intro value member
  obtain ⟨position, -, rfl⟩ := List.mem_map.mp (List.mem_toArray.mp member)
  exact each position

/-- The array with a given integer at each position. -/
def ofInts (shape : List Int) (element : ScalarType) (values : List Int → Int) : Grid :=
  tabulate shape element fun position => .int (values position)

theorem ofInts_fits (static : Static shape) (element : ScalarType) (values : List Int → Int) :
    (ofInts shape element values).Fits shape element :=
  tabulate_fits static element _

theorem entry_ofInts {position : List Int} (inside : Inside position shape) :
    (ofInts shape element values).entry position = .int (values position) :=
  entry_tabulate inside _

theorem ofInts_congr {others : List Int → Int} (static : Static shape)
    (same : ∀ position, Inside position shape → values position = others position) :
    ofInts shape element values = ofInts shape element others :=
  tabulate_congr static fun position inside => by rw [same position inside]

/-- An array of integers is known by them. -/
theorem Fits.eq_ofInts (fits : grid.Fits shape element) (static : Static shape)
    (entries : ∀ position, Inside position shape → grid.entry position = .int (values position)) :
    grid = ofInts shape element values :=
  (fits.eq_tabulate static).trans (tabulate_congr static entries)

/-- The array has a shape, and every element is the sum of the values at the positions of another shape that have
the place of the element as their target. -/
structure SumsUp (grid : Grid) (shape : List Int) (element : ScalarType) (source : List Int)
    (target : List Int → List Int) (values : List Int → Int) : Prop where
  fits : grid.Fits shape element
  entry_eq : ∀ position, Inside position shape → grid.entry position =
    .int (Number.wrapInto element (∑ item ∈ every source with target item = position, values item))

/-- The array of the sums of values at the positions of another shape, each in the place that is its target. -/
def sums (shape : List Int) (element : ScalarType) (source : List Int) (target : List Int → List Int)
    (values : List Int → Int) : Grid :=
  ofInts shape element fun position =>
    Number.wrapInto element (∑ item ∈ every source with target item = position, values item)

/-- An array of sums is known by what is added up where. -/
theorem SumsUp.eq_sums (sumsUp : grid.SumsUp shape element source target values) (static : Static shape) :
    grid = sums shape element source target values :=
  sumsUp.fits.eq_ofInts static sumsUp.entry_eq

theorem sums_congr (sourceStatic : Static source) (same : ∀ item, Inside item source → target item = image item) :
    sums shape element source target values = sums shape element source image values := by
  have filtered (position : List Int) :
      (every source).filter (fun item => target item = position) =
        (every source).filter fun item => image item = position :=
    Finset.filter_congr fun item member => by rw [same item ((mem_every sourceStatic).mp member)]
  simp only [sums, filtered]

theorem get_sums (static : Static shape) {position : List Int} (inside : Inside position shape) :
    (sums shape element source target values).get position =
      .ok (.int (Number.wrapInto element (∑ item ∈ every source with target item = position, values item))) := by
  rw [sums, (ofInts_fits static element _).get_eq inside, entry_ofInts inside]

/-- Integers that are added to a number of their type one after the other. -/
theorem foldl_add_int (notFloat : element.isFloat = false) (items : List (List Int)) (start : Int) :
    items.foldl (fun sum item => Scalar.add element sum (.int (values item)))
        (.int (Number.wrapInto element start)) =
      .int (Number.wrapInto element (start + (items.map values).sum)) := by
  induction items generalizing start with
  | nil => simp
  | cons item items ih =>
    rw [List.foldl_cons, ScalarType.add_int notFloat, Number.wrapInto_add_wrapInto, ih, List.map_cons, List.sum_cons,
      Int.add_assoc]

theorem sum_filter_positions (static : Static source) (position : List Int) :
    (((positions source).filter fun item => target item = position).map values).sum =
      ∑ item ∈ every source with target item = position, values item := by
  rw [every, ← List.sum_toFinset values ((nodup_positions static).filter _), List.toFinset_filter]
  simp only [decide_eq_true_eq]

/-- Integers that are added up, each in the place that is its target, in an array that holds zeros at first. -/
theorem foldl_add (values : List Int → Int) (target : List Int → List Int) (fits : grid.Fits shape element)
    (static : Static source) (notFloat : element.isFloat = false)
    (zero : ∀ position, Inside position shape → grid.entry position = .int 0)
    (inside : ∀ item, Inside item source → Inside (target item) shape) :
    ((positions source).foldl (fun output item =>
      output.put (target item) (Scalar.add element (output.entry (target item)) (.int (values item)))) grid).SumsUp
        shape element source target values := by
  obtain ⟨resultFits, entries⟩ := foldl_gather target (fun sum item => Scalar.add element sum (.int (values item))) fits
    fun item member => inside item (inside_of_mem_positions static member)
  refine ⟨resultFits, fun position within => (entries position within).trans ?_⟩
  have start : Number.wrapInto element 0 = 0 := Number.wrapInto_of_holds element.holds_zero
  rw [zero position within, ← start, foldl_add_int notFloat, zero_add, sum_filter_positions static]

theorem entry_filled (static : Static shape) (notFloat : element.isFloat = false) {position : List Int}
    (inside : Inside position shape) : (filled shape element 0.0).entry position = .int 0 := by
  have below := (filled_fits static element 0.0).number_lt inside
  have sameShape : (filled shape element 0.0).shape = shape := rfl
  rw [entry, sameShape, Array.getD_eq_getD_getElem?, Array.getElem?_eq_getElem below]
  simpa [filled] using ScalarType.ofFloat_zero notFloat

/-- The values themselves are sums of one value each. -/
theorem SumsUp.of_entries (fits : grid.Fits shape element) (static : Static shape)
    (entries : ∀ position, Inside position shape → grid.entry position = .int (values position) ∧
      element.Holds (.int (values position))) : grid.SumsUp shape element shape id values := by
  refine ⟨fits, fun position inside => ?_⟩
  obtain ⟨isValue, holds⟩ := entries position inside
  rw [isValue, ← sum_filter_positions static]
  simp only [id_eq, filter_positions inside, List.map_singleton, List.sum_singleton,
    Number.wrapInto_of_holds holds]

/-- Sums of sums are sums over everything that the inner ones run over. -/
theorem sum_sum_every (image : List Int → List Int) (inside : ∀ item ∈ every source, target item ∈ every shape)
    (position : List Int) :
    ∑ place ∈ every shape with image place = position, ∑ item ∈ every source with target item = place, values item =
      ∑ item ∈ every source with image (target item) = position, values item := by
  rw [← Finset.sum_fiberwise_of_maps_to (s := every source |>.filter fun item => image (target item) = position)
    (t := every shape |>.filter fun place => image place = position) (g := target)]
  · refine Finset.sum_congr rfl fun place member => ?_
    obtain ⟨-, isImage⟩ := Finset.mem_filter.mp member
    rw [Finset.filter_filter]
    refine Finset.sum_congr (Finset.filter_congr fun item _ => ?_) fun _ _ => rfl
    constructor
    · rintro rfl
      exact ⟨isImage, rfl⟩
    · exact And.right
  · intro item member
    obtain ⟨isItem, isImage⟩ := Finset.mem_filter.mp member
    exact Finset.mem_filter.mpr ⟨inside item isItem, isImage⟩

/-- The elements of an array of sums are added up along a further dimension. -/
theorem SumsUp.reduceSum {axis : Int} (sums : grid.SumsUp shape element source target values)
    (static : Static shape) (notFloat : element.isFloat = false) (rule : ofReduce shape axis = .ok next)
    (nextStatic : Static next) (sourceStatic : Static source)
    (inside : ∀ item, Inside item source → Inside (target item) shape) :
    ∃ result, grid.reduceSum axis.toNat next element = .ok result ∧
      result.SumsUp next element source (fun item => (target item).set axis.toNat 0) values := by
  have within : ∀ position, Inside position shape → Inside (position.set axis.toNat 0) next := by
    intro position inside
    rw [ofReduce] at rule
    split at rule
    case isFalse => cases rule
    case isTrue =>
      cases rule
      exact inside.set_zero axis.toNat
  -- An element is added at its own position with a zero in the summed dimension.
  let total (place : List Int) : Int :=
    Number.wrapInto element (∑ item ∈ every source with target item = place, values item)
  let step (output : Grid) (position : List Int) : Except Error Grid := do
    let sum ← output.get (position.set axis.toNat 0)
    output.set (position.set axis.toNat 0) (Scalar.add element sum (← grid.get position))
  let sumAt (output : Grid) (position : List Int) : Grid :=
    output.put (position.set axis.toNat 0)
      (Scalar.add element (output.entry (position.set axis.toNat 0)) (.int (total position)))
  have puts (output : Grid) (position : List Int) (outputFits : output.Fits next element)
      (member : position ∈ positions shape) : step output position = .ok (sumAt output position) ∧
        (sumAt output position).Fits next element := by
    have inside := inside_of_mem_positions static member
    refine ⟨?_, outputFits.put _ _⟩
    change (output.get (position.set axis.toNat 0) >>= fun sum => grid.get position >>= fun value =>
      output.set (position.set axis.toNat 0) (Scalar.add element sum value)) = _
    rw [outputFits.get_eq (within position inside), sums.fits.get_eq inside, sums.entry_eq position inside]
    exact outputFits.set_eq (within position inside) _
  obtain ⟨found, -⟩ := foldlM_eq (positions shape) sumAt puts (filled_fits nextStatic element 0.0)
  rw [Grid.reduceSum, sums.fits.shape_eq]
  refine ⟨_, found, ?_⟩
  have added := foldl_add total (fun position => position.set axis.toNat 0) (filled_fits nextStatic element 0.0) static
    notFloat (fun _ => entry_filled nextStatic notFloat) within
  refine ⟨added.fits, fun position insideNext => ?_⟩
  rw [added.entry_eq position insideNext, Number.wrapInto_sum]
  congr 2
  exact sum_sum_every (fun place => place.set axis.toNat 0) (fun item member =>
    (mem_every static).mpr (inside item ((mem_every sourceStatic).mp member))) position

/-- Sums in another shape, where their places have the same numbers. -/
theorem SumsUp.reshape (sums : grid.SumsUp shape element source target values) (static : Static shape)
    (sourceStatic : Static source) (sameProduct : Shape.product next = Shape.product shape)
    (inside : ∀ item, Inside item source → Inside (target item) shape ∧ Inside (image item) next ∧
      number (image item) next = number (target item) shape) :
    { grid with shape := next, element }.SumsUp next element source image values := by
  refine ⟨reshaped_fits sums.fits sameProduct, fun position within => ?_⟩
  have positive := pos_of_product_pos static (sameProduct ▸ within.product_pos)
  obtain ⟨place, placeInside, numbers⟩ : ∃ place, Inside place shape ∧ number place shape = number position next :=
    ⟨_, inside_unravel positive _,
      number_unravel_of_lt positive within.number_nonneg (sameProduct ▸ within.number_lt)⟩
  have isPlace : number position next = number place grid.shape := by rw [sums.fits.shape_eq, numbers]
  rw [entry_reshaped grid isPlace, sums.entry_eq place placeInside]
  congr 2
  refine Finset.sum_congr (Finset.filter_congr fun item member => ?_) fun _ _ => rfl
  obtain ⟨targetInside, imageInside, same⟩ := inside item ((mem_every sourceStatic).mp member)
  constructor
  · rintro rfl
    exact imageInside.eq_of_number_eq within (same.trans numbers)
  · rintro rfl
    exact targetInside.eq_of_number_eq placeInside (same.symm.trans numbers.symm)

end Grid

end TensorIR
