import TensorIR.Proofs.Tensors.Contents

/-!
# Slices

A slice keeps positions of one dimension that are a step apart. They are also found in whole steps: if the dimension
is split into the number of the step and the position inside the step, the slice keeps the first position of each step.

A slice is written `start:stop:step`. It begins at the start, goes on in steps, and ends before the stop. A bound that
is negative counts from the end of the dimension, one that lies outside stands for the nearer end, and one that is
missing for the end it would be at. The bounds that are computed for a slice list exactly the positions that it selects,
each once and in increasing order.

## Main definitions

* `Shape.Spaced` — what a slice keeps of a dimension
* `Grid.strided` — the elements that a slice keeps
* `Shape.Selects` — the slice selects a position
* `Shape.positionsFrom` — the positions that a first one, their number and a step stand for

## Main results

* `Shape.spaced_sliceBounds` — the bounds of a slice keep positions of the dimension
* `Shape.ofSlice_between` — a part along one dimension has the shape that is asked for
* `Shape.number_split`, `Shape.number_first` — a dimension that is split into steps changes no number
* `Grid.get_strided` — the elements of a slice
* `Grid.strided_of_steps` — the first positions of all steps hold the elements of the slice
* `Shape.lt_length_iff` — how many steps there are before the stop
* `Shape.mem_positionsFrom_sliceBounds` — the computed bounds list what is selected
-/

namespace TensorIR

namespace Shape

variable {size start length step place : Int} {front back before after position : List Int}

/-- A slice keeps a number of positions of a dimension, which begin at the first one and are a step apart. -/
structure Spaced (size start length step : Int) : Prop where
  step_pos : 0 < step
  start_nonneg : 0 ≤ start
  start_le : start ≤ size
  length_nonneg : 0 ≤ length
  last_lt : 0 < length → start + (length - 1) * step < size

theorem clampIndex_nonneg (size index : Int) : 0 ≤ clampIndex size index :=
  le_max_left _ _

theorem clampIndex_le (nonneg : 0 ≤ size) (index : Int) : clampIndex size index ≤ size :=
  max_le nonneg (min_le_right _ _)

/-- The bounds of a slice keep positions of the dimension. -/
theorem spaced_sliceBounds (nonneg : 0 ≤ size) (first last : Option Int) (positive : 0 < step) :
    Spaced size (sliceBounds size first last step).1 (sliceBounds size first last step).2 step := by
  have start_nonneg := clampIndex_nonneg size (first.getD 0)
  have start_le := clampIndex_le nonneg (first.getD 0)
  have stop_le := clampIndex_le nonneg (last.getD size)
  rw [sliceBounds]
  dsimp only
  split
  case isFalse => exact ⟨positive, start_nonneg, start_le, le_rfl, fun kept => absurd kept (lt_irrefl _)⟩
  case isTrue below =>
    generalize clampIndex size (first.getD 0) = start at *
    generalize clampIndex size (last.getD size) = stop at *
    rw [Int.tdiv_eq_ediv_of_nonneg (by omega)]
    have covered : (stop - start + step - 1) / step * step ≤ stop - start + step - 1 :=
      Int.ediv_mul_le _ positive.ne'
    refine ⟨positive, start_nonneg, start_le, Int.ediv_nonneg (by omega) positive.le, fun _ => ?_⟩
    rw [Int.sub_mul]
    omega

theorem Spaced.place_lt (spaced : Spaced size start length step) (nonneg : 0 ≤ place) (below : place < length) :
    place * step < length * step ∧ start + place * step < size := by
  have last := spaced.last_lt (nonneg.trans_lt below)
  have most : place * step ≤ (length - 1) * step := Int.mul_le_mul_of_nonneg_right (by omega) spaced.step_pos.le
  have whole : (length - 1) * step < length * step := Int.mul_lt_mul_of_pos_right (by omega) spaced.step_pos
  omega

/-! ### One dimension between others -/

/-- A position has one coordinate between those in front of a dimension and those behind it. -/
theorem inside_between : Inside position (front ++ size :: back) ↔ ∃ before place after,
    position = before ++ place :: after ∧ Inside before front ∧ (0 ≤ place ∧ place < size) ∧ Inside after back := by
  constructor
  · intro inside
    have first := List.forall₂_take_append _ _ _ inside
    have rest := List.forall₂_drop_append _ _ _ inside
    generalize isRest : position.drop front.length = others at rest
    cases rest with
    | @cons place _ after _ bounds later =>
      refine ⟨_, place, after, ?_, first, bounds, later⟩
      rw [← isRest, List.take_append_drop]
  · rintro ⟨before, place, after, rfl, first, bounds, later⟩
    exact first.append (.cons bounds later)

theorem static_between : Static (front ++ size :: back) ↔ Static front ∧ 0 ≤ size ∧ Static back := by
  simp [Static, or_imp, forall_and]

theorem set_between (front back : List Int) (size other : Int) :
    (front ++ size :: back).set front.length other = front ++ other :: back := by
  rw [List.set_append_right _ _ le_rfl, Nat.sub_self, List.set_cons_zero]

theorem getD_between (front back : List Int) (size : Int) : (front ++ size :: back).getD front.length 0 = size := by
  simp

/-- First positions that are all zero except along one dimension. -/
def startingAt (front back : List Int) (start : Int) : List Int :=
  List.replicate front.length 0 ++ start :: List.replicate back.length 0

theorem set_replicate (front back : List Int) (size start : Int) :
    (List.replicate (front ++ size :: back).length (0 : Int)).set front.length start = startingAt front back start := by
  have zeros : List.replicate (front ++ size :: back).length (0 : Int) = startingAt front back 0 := by
    rw [startingAt, List.length_append, List.length_cons, ← List.replicate_succ, ← List.replicate_add]
  rw [zeros, startingAt, startingAt, List.set_append_right _ _ (by simp)]
  simp

theorem zip_startingAt (first : before.length = front.length) (later : after.length = back.length) :
    ((before ++ place :: after).zip (startingAt front back start)).map (fun (place, first) => place + first) =
      before ++ (place + start) :: after := by
  have zeros : ∀ items : List Int, (items.zip (List.replicate items.length 0)).map (fun (a, b) => a + b) = items := by
    intro items
    induction items with
    | nil => rfl
    | cons item items ih => simp [List.replicate_succ, ih]
  rw [startingAt, ← first, ← later, List.zip_append (by simp), List.map_append, zeros, List.zip_cons_cons,
    List.map_cons,
    zeros]

theorem sliceFault?_startingAt (frontStatic : Static front) (backStatic : Static back) (nonneg : 0 ≤ start)
    (lengthNonneg : 0 ≤ length) (below : start + length ≤ size) :
    ∀ index,
      sliceFault? index (front ++ size :: back) (startingAt front back start) (front ++ length :: back) = none := by
  have whole : ∀ items : List Int, Static items → ∀ index,
      sliceFault? index items (List.replicate items.length 0) items = none := by
    intro items
    induction items with
    | nil => exact fun _ _ => rfl
    | cons item items ih =>
      intro static index
      obtain ⟨itemNonneg, others⟩ := static_cons.mp static
      rw [List.length_cons, List.replicate_succ, sliceFault?, if_neg (by omega), ih others]
  induction front with
  | nil =>
    intro index
    rw [startingAt, List.nil_append, List.nil_append]
    change sliceFault? index (size :: back) (start :: List.replicate back.length 0) (length :: back) = none
    rw [sliceFault?, if_neg (by omega), whole back backStatic]
  | cons item front ih =>
    intro index
    obtain ⟨itemNonneg, others⟩ := static_cons.mp frontStatic
    change sliceFault? index (item :: (front ++ size :: back)) (0 :: startingAt front back start)
      (item :: (front ++ length :: back)) = none
    rw [sliceFault?, if_neg (by omega), ih others]

/-- A part along one dimension has the shape that is asked for. -/
theorem ofSlice_between (frontStatic : Static front) (backStatic : Static back) (nonneg : 0 ≤ start)
    (lengthNonneg : 0 ≤ length) (below : start + length ≤ size) :
    ofSlice (front ++ size :: back) (startingAt front back start) (front ++ length :: back) =
      .ok (front ++ length :: back) := by
  rw [ofSlice, if_neg (by simp [startingAt]), sliceFault?_startingAt frontStatic backStatic nonneg lengthNonneg below]

/-! ### A dimension in steps -/

theorem product_split (front back : List Int) (length step : Int) :
    product (front ++ length :: step :: back) = product (front ++ (length * step) :: back) := by
  rw [product_append, product_append, product_cons, product_cons, product_cons, Int.mul_assoc]

/-- The first position of a step, by the number of the step. -/
theorem number_split (first : before.length = front.length) :
    number (before ++ place :: 0 :: after) (front ++ length :: step :: back) =
      number (before ++ (place * step) :: after) (front ++ (length * step) :: back) := by
  rw [number_append first, number_append first, number_cons, number_cons, number_cons, product_cons, product_cons,
    product_cons]
  ring

/-- Steps of one position each are the positions themselves. -/
theorem number_first (first : before.length = front.length) :
    number (before ++ place :: 0 :: after) (front ++ length :: 1 :: back) =
      number (before ++ place :: after) (front ++ length :: back) := by
  rw [number_split first, Int.mul_one, Int.mul_one]

end Shape

namespace Grid

open Shape

variable {x y : Grid} {front back : List Int} {size start length step covered : Int} {element : ScalarType}

/-- The elements that a slice keeps: along one dimension they begin at the first position and are a step apart. -/
def strided (x : Grid) (shape : List Int) (element : ScalarType) (dim : Nat) (start step : Int) : Grid :=
  tabulate shape element fun position => x.entry (position.set dim (start + position.getD dim 0 * step))

/-- Every element of a slice is one of the array. -/
theorem get_strided (spaced : Spaced size start length step) (fits : x.Fits (front ++ size :: back) element)
    (static : Static (front ++ length :: back)) {position : List Int}
    (inside : Inside position (front ++ length :: back)) :
    (x.strided (front ++ length :: back) element front.length start step).get position =
      x.get (position.set front.length (start + position.getD front.length 0 * step)) := by
  have origin : Inside (position.set front.length (start + position.getD front.length 0 * step))
      (front ++ size :: back) := by
    obtain ⟨before, place, after, rfl, first, bounds, later⟩ := inside_between.mp inside
    rw [← first.length_eq, getD_between, set_between]
    have nonneg : 0 ≤ place * step := Int.mul_nonneg bounds.1 spaced.step_pos.le
    exact inside_between.mpr ⟨before, _, after, rfl, first,
      ⟨Int.add_nonneg spaced.start_nonneg nonneg, (spaced.place_lt bounds.1 bounds.2).2⟩, later⟩
  rw [fits.get_eq origin, strided, (tabulate_fits static element _).get_eq inside, entry_tabulate inside]

/-- A slice without gaps keeps the elements of a part. -/
theorem strided_of_part (static : Static (front ++ length :: back)) (dense : step = 1 ∨ length = 0) :
    (tabulate (front ++ length :: back) element fun position =>
        x.entry ((position.zip (startingAt front back start)).map fun (place, first) => place + first)) =
      x.strided (front ++ length :: back) element front.length start step := by
  refine tabulate_congr static fun position inside => ?_
  obtain ⟨before, place, after, rfl, first, bounds, later⟩ := inside_between.mp inside
  obtain rfl : step = 1 := by omega
  rw [zip_startingAt first.length_eq later.length_eq, ← first.length_eq]
  simp [Int.add_comm]

/-- The first positions of all steps hold the elements that a slice keeps, if the part that is covered has been filled
up behind its end. -/
theorem strided_of_steps (spaced : Spaced size start length step)
    (firstStatic : Static (front ++ length :: 1 :: back))
    (isCovered : covered = min (length * step) (size - start))
    (fits : y.Fits (front ++ (length * step) :: back) element)
    (filled : ∀ position, Inside position (front ++ covered :: back) →
      Inside position (front ++ (length * step) :: back) → y.entry position =
        (tabulate (front ++ covered :: back) element fun place =>
          x.entry ((place.zip (startingAt front back start)).map fun (place, first) => place + first)).entry
            position) :
    { tabulate (front ++ length :: 1 :: back) element fun position =>
        entry { y with shape := front ++ length :: step :: back, element }
          ((position.zip (startingAt (front ++ [length]) back 0)).map fun (place, first) => place + first) with
      shape := front ++ length :: back, element } =
      x.strided (front ++ length :: back) element front.length start step := by
  obtain ⟨frontStatic, lengthNonneg, later⟩ := static_between.mp firstStatic
  have backStatic := (static_cons.mp later).2
  have static : Static (front ++ length :: back) := static_between.mpr ⟨frontStatic, lengthNonneg, backStatic⟩
  let origin (position : List Int) : List Int :=
    position.take (front.length + 1) ++ 0 :: position.drop (front.length + 1)
  have isOrigin {before after : List Int} (place : Int) (same : before.length = front.length) :
      origin (before ++ place :: after) = before ++ place :: 0 :: after := by
    have all : before.take (before.length + 1) = before := List.take_of_length_le (Nat.le_succ _)
    have none : before.drop (before.length + 1) = [] := List.drop_of_length_le (Nat.le_succ _)
    simp [origin, ← same, List.take_append, List.drop_append, all, none]
  have numbers : ∀ position, Inside position (front ++ length :: back) →
      number (origin position) (front ++ length :: 1 :: back) = number position (front ++ length :: back) := by
    intro position inside
    obtain ⟨before, place, after, rfl, first, -, -⟩ := inside_between.mp inside
    rw [isOrigin place first.length_eq, number_first first.length_eq]
  have sameProduct : Shape.product (front ++ length :: back) = Shape.product (front ++ length :: 1 :: back) := by
    rw [product_split, Int.mul_one]
  refine ((tabulate_fits firstStatic element _).reshaped_eq static sameProduct numbers).trans
    (tabulate_congr static fun position inside => ?_)
  obtain ⟨before, place, after, rfl, first, bounds, later⟩ := inside_between.mp inside
  have same := first.length_eq
  have sameBehind := later.length_eq
  obtain ⟨withinSteps, withinSize⟩ := spaced.place_lt bounds.1 bounds.2
  have nonneg : 0 ≤ place * step := Int.mul_nonneg bounds.1 spaced.step_pos.le
  have insideFirst : Inside (before ++ place :: 0 :: after) (front ++ length :: 1 :: back) :=
    inside_between.mpr ⟨before, place, _, rfl, first, bounds, .cons (by decide) later⟩
  have insidePart : Inside (before ++ (place * step) :: after) (front ++ covered :: back) :=
    inside_between.mpr ⟨before, _, after, rfl, first, ⟨nonneg, by omega⟩, later⟩
  have insideFull : Inside (before ++ (place * step) :: after) (front ++ (length * step) :: back) :=
    inside_between.mpr ⟨before, _, after, rfl, first, ⟨nonneg, withinSteps⟩, later⟩
  have unshifted : ((before ++ place :: 0 :: after).zip (startingAt (front ++ [length]) back 0)).map
      (fun (place, first) => place + first) = before ++ place :: 0 :: after := by
    have longer : (before ++ [place]).length = (front ++ [length]).length := by simp [same]
    simpa using @zip_startingAt 0 0 (front ++ [length]) back (before ++ [place]) after longer sameBehind
  have fullNumber : number (before ++ place :: 0 :: after) (front ++ length :: step :: back) =
      number (before ++ (place * step) :: after) y.shape := by
    rw [fits.shape_eq, number_split same]
  rw [isOrigin place same, entry_tabulate insideFirst, unshifted, entry_reshaped y fullNumber,
    filled _ insidePart insideFull, entry_tabulate insidePart, zip_startingAt same sameBehind, ← same]
  simp [Int.add_comm]

end Grid

namespace Shape

/-! ### The positions that a slice selects -/

variable {size step : Int} {start stop : Option Int}

/-- The place in a dimension that a bound of a slice stands for. -/
def boundPlace (size bound : Int) : Int :=
  if bound < -size then 0
  else if bound < 0 then size + bound
  else if size < bound then size
  else bound

/-- The place where a slice begins. -/
def startPlace (size : Int) (start : Option Int) : Int :=
  start.elim 0 (boundPlace size)

/-- The place before which a slice ends. -/
def stopPlace (size : Int) (stop : Option Int) : Int :=
  stop.elim size (boundPlace size)

/-- A slice selects the positions that are a number of steps behind its start and lie before its stop. -/
def Selects (size : Int) (start stop : Option Int) (step position : Int) : Prop :=
  ∃ count : Nat, position = startPlace size start + count * step ∧ position < stopPlace size stop

/-- A number of positions, of which each is a step behind the one before it. -/
def positionsFrom (first length step : Int) : List Int :=
  (List.range length.toNat).map fun count : Nat => first + count * step

theorem mem_positionsFrom {first length position : Int} :
    position ∈ positionsFrom first length step ↔ ∃ count : Nat, count < length ∧ position = first + count * step := by
  rw [positionsFrom, List.mem_map]
  refine exists_congr fun count => and_congr ?_ eq_comm
  rw [List.mem_range]
  omega

theorem pairwise_lt_positionsFrom (positive : 0 < step) (first length : Int) :
    (positionsFrom first length step).Pairwise (· < ·) := by
  rw [positionsFrom, List.pairwise_map]
  refine List.pairwise_lt_range.imp fun {count later} before => ?_
  have further : (count : Int) * step < later * step :=
    Int.mul_lt_mul_of_pos_right (Int.ofNat_lt.mpr before) positive
  omega

theorem clampIndex_eq_boundPlace (nonneg : 0 ≤ size) (bound : Int) : clampIndex size bound = boundPlace size bound := by
  simp only [clampIndex, boundPlace]
  split_ifs <;> omega

theorem boundPlace_zero (nonneg : 0 ≤ size) : boundPlace size 0 = 0 := by
  simp only [boundPlace]
  split_ifs <;> omega

theorem boundPlace_self (nonneg : 0 ≤ size) : boundPlace size size = size := by
  simp only [boundPlace]
  split_ifs <;> omega

theorem clampIndex_start (nonneg : 0 ≤ size) (start : Option Int) :
    clampIndex size (start.getD 0) = startPlace size start := by
  rw [clampIndex_eq_boundPlace nonneg]
  cases start with
  | none => exact boundPlace_zero nonneg
  | some bound => rfl

theorem clampIndex_stop (nonneg : 0 ≤ size) (stop : Option Int) :
    clampIndex size (stop.getD size) = stopPlace size stop := by
  rw [clampIndex_eq_boundPlace nonneg]
  cases stop with
  | none => exact boundPlace_self nonneg
  | some bound => rfl

section Bounds

variable {first length : Int} (bounds : sliceBounds size start stop step = (first, length))

include bounds

theorem first_of_sliceBounds (nonneg : 0 ≤ size) : first = startPlace size start := by
  rw [sliceBounds, clampIndex_start nonneg] at bounds
  exact (congrArg Prod.fst bounds).symm

/-- Steps are counted as long as they end before the stop, also if the next one goes beyond it. -/
theorem lt_length_iff (nonneg : 0 ≤ size) (positive : 0 < step) (count : Nat) :
    count < length ↔ first + count * step < stopPlace size stop := by
  obtain rfl := first_of_sliceBounds bounds nonneg
  rw [sliceBounds, clampIndex_start nonneg, clampIndex_stop nonneg] at bounds
  obtain rfl := congrArg Prod.snd bounds
  have way : 0 ≤ (count : Int) * step := by positivity
  dsimp only
  split
  case isTrue below =>
    -- A step less one is added before the division, which rounds the quotient up.
    rw [Int.tdiv_eq_ediv_of_nonneg (by omega), ← Int.add_one_le_iff, Int.le_ediv_iff_mul_le positive, Int.add_mul]
    omega
  case isFalse => omega

/-- The bounds of a slice list the positions that it selects, in increasing order. -/
theorem mem_positionsFrom_sliceBounds (nonneg : 0 ≤ size) (positive : 0 < step) :
    0 ≤ length ∧ (positionsFrom first length step).Pairwise (· < ·) ∧
      ∀ position, position ∈ positionsFrom first length step ↔
        0 ≤ position ∧ position < size ∧ Selects size start stop step position := by
  have spaced := spaced_sliceBounds nonneg start stop positive
  rw [bounds] at spaced
  refine ⟨spaced.length_nonneg, pairwise_lt_positionsFrom positive first length, fun position => ?_⟩
  rw [mem_positionsFrom]
  constructor
  · rintro ⟨count, counted, rfl⟩
    have inside : first + count * step < size := (spaced.place_lt (Int.natCast_nonneg count) counted).2
    have behind : 0 ≤ first + count * step := by
      have := spaced.start_nonneg
      positivity
    refine ⟨behind, inside, count, by rw [first_of_sliceBounds bounds nonneg], ?_⟩
    exact (lt_length_iff bounds nonneg positive count).mp counted
  · rintro ⟨-, -, count, isStep, before⟩
    rw [← first_of_sliceBounds bounds nonneg] at isStep
    exact ⟨count, (lt_length_iff bounds nonneg positive count).mpr (isStep ▸ before), isStep⟩

end Bounds

/-- A start that lies before the dimension stands for its beginning, and the last step ends on the stop. -/
theorem mem_positionsFrom_sliceBounds_overlong :
    sliceBounds 10 (some (-15)) (some (-2)) 4 = (0, 2) ∧ (0 : Int) ≤ 10 ∧ (0 : Int) < 4 ∧
      ∀ position, position ∈ positionsFrom 0 2 4 ↔
        0 ≤ position ∧ position < 10 ∧ Selects 10 (some (-15)) (some (-2)) 4 position := by
  have bounds : sliceBounds 10 (some (-15)) (some (-2)) 4 = (0, 2) := by decide
  exact ⟨bounds, by decide, by decide, (mem_positionsFrom_sliceBounds bounds (by decide) (by decide)).2.2⟩

end Shape

end TensorIR
