import Mathlib.Data.List.Nodup
import TensorIR.Proofs.Tensors.Grids

/-!
# Row-major numbers

The positions of a shape are numbered in row-major order. A number is unravelled to the position that has it,
so that the list of all positions has each of them once, in the order of their numbers: the positions with the
first coordinate zero come first, then those with one, and so on.

An array that fits a shape is determined by its elements at the positions of the shape. It can be filled one
position after the other, in which case every element is the one that belongs to its position, and numbers can be
gathered in it, in which case every element is made of all that has been put there.

## Main definitions

* `Shape.number` — the number of a position
* `Grid.entry` — the element at a position
* `Grid.tabulate` — the array with a given element at each position
* `Grid.put` — the array with another element at a position

## Main results

* `Shape.unravel_number`, `Shape.number_unravel` — positions and their numbers determine each other
* `Shape.mem_positions`, `Shape.nodup_positions` — every position inside is listed, and listed once
* `Shape.positions_cons` — the positions of a shape by their first coordinates
* `Shape.number_append` — the number of a position that consists of two parts
* `Grid.Fits.ext` — arrays with the same elements are the same
* `Grid.foldl_put` — an array that is filled position by position
* `Grid.foldl_gather` — an array in which something is gathered from many positions
-/

namespace TensorIR

namespace Shape

open Grid (unravel positions offsetFrom?)

variable {position other shape rest : List Int}

/-- The number of a position in row-major order. -/
def number : List Int → List Int → Int
  | place :: position, _ :: shape => place * product shape + number position shape
  | _, _ => 0

@[simp]
theorem number_nil (shape : List Int) : number [] shape = 0 := by
  rw [number]
  simp

theorem number_nil_right (position : List Int) : number position [] = 0 := by
  cases position <;> rfl

@[simp]
theorem number_cons (place size : Int) (position shape : List Int) :
    number (place :: position) (size :: shape) = place * product shape + number position shape := rfl

/-- Neighbours along a dimension are as far apart as there are elements behind it. -/
theorem strides_cons (size : Int) (shape : List Int) : strides (size :: shape) = product shape :: strides shape := by
  induction shape generalizing size with
  | nil => rfl
  | cons next shape ih =>
    rw [strides, ih, List.head?_cons, Option.getD_some, product_cons, Int.mul_comm]

theorem mem_strides_tail {size stride : Int} (member : stride ∈ strides shape) : stride ∈ strides (size :: shape) :=
  strides_cons size shape ▸ List.mem_cons_of_mem _ member

theorem Inside.static (inside : Inside position shape) : Static shape :=
  fun size member => (inside.sizes_pos size member).le

theorem inside_cons {place size : Int} :
    Inside (place :: position) (size :: shape) ↔ (0 ≤ place ∧ place < size) ∧ Inside position shape :=
  List.forall₂_cons

theorem Inside.append (inside : Inside position shape) (later : Inside other rest) :
    Inside (position ++ other) (shape ++ rest) :=
  List.rel_append inside later

/-! ### Numbers and positions -/

theorem Inside.number_nonneg (inside : Inside position shape) : 0 ≤ number position shape := by
  induction inside with
  | nil => exact le_rfl
  | cons head later ih =>
    have := Int.mul_nonneg head.1 (product_nonneg (Inside.static later))
    rw [number_cons]
    omega

theorem Inside.number_lt (inside : Inside position shape) : number position shape < product shape := by
  induction inside with
  | nil => decide
  | @cons place size position shape head later ih =>
    have next : (place + 1) * product shape ≤ size * product shape :=
      Int.mul_le_mul_of_nonneg_right (by omega) (product_nonneg (Inside.static later))
    rw [number_cons, product_cons]
    linarith

theorem Inside.product_pos (inside : Inside position shape) : 0 < product shape :=
  inside.number_nonneg.trans_lt inside.number_lt

/-- The place of a position in storage is its number. -/
theorem offsetFrom?_eq (inside : Inside position shape) (start : Int) :
    offsetFrom? start position shape = some (start * product shape + number position shape) := by
  induction inside generalizing start with
  | nil => simp [offsetFrom?]
  | @cons place size position shape head _ ih =>
    rw [offsetFrom?, if_neg (by omega), ih, product_cons, number_cons]
    congr 1
    ring

/-- The position that has a number is found by unravelling, also if the shape has been passed a number of
times. -/
theorem unravel_number (inside : Inside position shape) (passed : Int) :
    unravel (passed * product shape + number position shape) shape = (position, passed) := by
  induction inside generalizing passed with
  | nil => simp [unravel]
  | @cons place size position shape head _ ih =>
    have sizePositive : 0 < size := by omega
    have regrouped : passed * product (size :: shape) + number (place :: position) (size :: shape) =
        (passed * size + place) * product shape + number position shape := by
      rw [product_cons, number_cons]
      ring
    have remainder : (passed * size + place) % size = place := by
      rw [Int.mul_add_emod_self_right, Int.emod_eq_of_lt head.1 head.2]
    have quotient : (passed * size + place) / size = passed := by
      rw [Int.add_comm, Int.add_mul_ediv_right _ _ sizePositive.ne', Int.ediv_eq_zero_of_lt head.1 head.2, zero_add]
    simp only [regrouped, unravel, ih, remainder, quotient]

/-- Different positions have different numbers. -/
theorem Inside.eq_of_number_eq (inside : Inside position shape) (otherInside : Inside other shape)
    (same : number position shape = number other shape) : position = other := by
  have first := unravel_number inside 0
  rw [same, unravel_number otherInside 0] at first
  exact (congrArg Prod.fst first).symm

/-- A number is that of the position to which it is unravelled, up to how often the shape has been passed. -/
theorem number_unravel (positive : ∀ size ∈ shape, 0 < size) (count : Int) :
    (unravel count shape).2 * product shape + number (unravel count shape).1 shape = count := by
  induction shape with
  | nil => simp [unravel]
  | cons size shape ih =>
    obtain ⟨-, later⟩ := List.forall_mem_cons.mp positive
    have found := ih later
    rw [unravel, number_cons, product_cons]
    generalize unravel count shape = parts at found
    obtain ⟨position, passed⟩ := parts
    calc passed / size * (size * product shape) + (passed % size * product shape + number position shape)
        = (size * (passed / size) + passed % size) * product shape + number position shape := by ring
      _ = passed * product shape + number position shape := by rw [Int.mul_ediv_add_emod]
      _ = count := found

theorem number_unravel_of_lt (positive : ∀ size ∈ shape, 0 < size) {count : Int} (nonneg : 0 ≤ count)
    (below : count < product shape) : number (unravel count shape).1 shape = count := by
  have inside := Grid.inside_unravel positive count
  have whole := number_unravel positive count
  have := inside.number_nonneg
  have := inside.number_lt
  have passedNone : (unravel count shape).2 = 0 := by
    have productPositive := inside.product_pos
    generalize (unravel count shape).2 = passed at whole
    rcases lt_trichotomy passed 0 with negative | zero | positive
    · have : passed * product shape ≤ -1 * product shape :=
        Int.mul_le_mul_of_nonneg_right (by omega) (by omega)
      omega
    · exact zero
    · have : 1 * product shape ≤ passed * product shape :=
        Int.mul_le_mul_of_nonneg_right (by omega) (by omega)
      omega
  rw [passedNone] at whole
  omega

/-! ### The list of all positions -/

/-- In a shape with as many positions, every position has the number of another one. -/
theorem exists_origin (static : Static rest) (same : product shape = product rest) :
    ∃ origin : List Int → List Int, ∀ position, Inside position shape →
      Inside (origin position) rest ∧ number (origin position) rest = number position shape := by
  refine ⟨fun position => (unravel (number position shape) rest).1, fun position inside => ?_⟩
  have positive := pos_of_product_pos static (same ▸ inside.product_pos)
  exact ⟨Grid.inside_unravel positive _,
    number_unravel_of_lt positive inside.number_nonneg (same ▸ inside.number_lt)⟩

theorem mem_positions (static : Static shape) : position ∈ positions shape ↔ Inside position shape := by
  refine ⟨Grid.inside_of_mem_positions static, fun inside => ?_⟩
  have := inside.number_nonneg
  have := inside.number_lt
  refine List.mem_map.mpr ⟨(number position shape).toNat, List.mem_range.mpr (by omega), ?_⟩
  have found := unravel_number inside 0
  rw [zero_mul, zero_add] at found
  rw [Int.toNat_of_nonneg inside.number_nonneg, found]

/-- The positions stand in the order of their numbers. -/
theorem getElem_positions (static : Static shape) {index : Nat} (below : index < (positions shape).length) :
    number (positions shape)[index] shape = index := by
  have inRange := below
  rw [Grid.length_positions] at inRange
  simp only [positions, List.getElem_map, List.getElem_range]
  exact number_unravel_of_lt (pos_of_product_pos static (by omega)) (by omega) (by omega)

theorem getElem_positions_number (inside : Inside position shape)
    (below : (number position shape).toNat < (positions shape).length) :
    (positions shape)[(number position shape).toNat] = position := by
  have static := inside.static
  apply (Grid.inside_of_mem_positions static (List.getElem_mem below)).eq_of_number_eq inside
  rw [getElem_positions static, Int.toNat_of_nonneg inside.number_nonneg]

theorem nodup_positions (static : Static shape) : (positions shape).Nodup := by
  rw [List.nodup_iff_injective_getElem]
  intro first second same
  have numbers := congrArg (number · shape) same
  simp only [getElem_positions static] at numbers
  exact Fin.ext (by exact_mod_cast numbers)

/-- Every position inside is listed once. -/
theorem filter_positions (inside : Inside position shape) :
    (positions shape).filter (fun listed => listed = position) = [position] := by
  have static := inside.static
  have count : (positions shape).count position = 1 :=
    List.count_eq_one_of_mem (nodup_positions static) ((mem_positions static).mpr inside)
  simp only [← beq_eq_decide, List.filter_beq, count, List.replicate_one]

/-- The numbers below a product, by how often the second factor has been passed. -/
theorem range_mul (count size : Nat) :
    List.range (count * size) =
      (List.range count).flatMap fun index => (List.range size).map (index * size + ·) := by
  induction count with
  | zero => simp
  | succ count ih => rw [Nat.succ_mul, List.range_add, ih, List.range_succ, List.flatMap_append,
      List.flatMap_singleton]

/-- The positions by their first coordinates. -/
theorem positions_cons {size : Int} (static : Static (size :: shape)) :
    positions (size :: shape) = (List.range size.toNat).flatMap fun (place : Nat) =>
      (positions shape).map (Int.ofNat place :: ·) := by
  obtain ⟨sizeNonneg, later⟩ := static_cons.mp static
  have nonneg := product_nonneg later
  rw [positions, product_cons, Int.toNat_mul sizeNonneg nonneg, range_mul, List.map_flatMap]
  refine List.flatMap_congr fun place below => ?_
  rw [positions, List.map_map, List.map_map]
  refine List.map_congr_left fun count inRange => ?_
  have placeBelow := List.mem_range.mp below
  have countBelow := List.mem_range.mp inRange
  have positive := pos_of_product_pos later (by omega)
  -- The number that is left for the later dimensions has the position there.
  have inside := Grid.inside_unravel positive count
  have left : number (unravel count shape).1 shape = count :=
    number_unravel_of_lt positive (by omega) (by omega)
  have found := unravel_number (inside_cons.mpr ⟨⟨Int.natCast_nonneg place, (by omega : (place : Int) < size)⟩,
    inside⟩) 0
  rw [zero_mul, zero_add, number_cons, left] at found
  have numbers : ((place * (product shape).toNat + count : Nat) : Int) = place * product shape + count := by
    push_cast
    rw [Int.toNat_of_nonneg nonneg]
  simp only [Function.comp_apply, numbers, found]
  rfl

/-! ### Positions that consist of parts -/

theorem product_append (shape rest : List Int) : product (shape ++ rest) = product shape * product rest := by
  induction shape with
  | nil => simp
  | cons size shape ih => rw [List.cons_append, product_cons, product_cons, ih, mul_assoc]

theorem number_append (length_eq : position.length = shape.length) (other rest : List Int) :
    number (position ++ other) (shape ++ rest) = number position shape * product rest + number other rest := by
  induction position generalizing shape with
  | nil =>
    obtain rfl := List.length_eq_zero_iff.mp length_eq.symm
    simp
  | cons place position ih =>
    cases shape with
    | nil => cases length_eq
    | cons size shape =>
      rw [List.cons_append, List.cons_append, number_cons, number_cons, ih (by simpa using length_eq),
        product_append]
      ring

end Shape

namespace Grid

open Shape

variable {grid other : Grid} {shape source position place : List Int} {element : ScalarType}
  {value : Scalar}

/-- The element at a position, which must be one of the shape. -/
def entry (grid : Grid) (position : List Int) : Scalar :=
  grid.data.getD (number position grid.shape).toNat default

/-- The array with a given element at each position. -/
def tabulate (shape : List Int) (element : ScalarType) (compute : List Int → Scalar) : Grid :=
  ⟨shape, element, ((positions shape).map compute).toArray⟩

/-- The array with another element at a position, which must be one of the shape. -/
def put (grid : Grid) (position : List Int) (value : Scalar) : Grid :=
  { grid with data := grid.data.setIfInBounds (number position grid.shape).toNat value }

theorem Fits.number_lt (fits : grid.Fits shape element) (inside : Inside position shape) :
    (number position shape).toNat < grid.data.size := by
  have := fits.size_eq
  have := inside.number_lt
  have := inside.number_nonneg
  omega

theorem offset_of_inside (grid : Grid) (inside : Inside position grid.shape) :
    grid.offset position = .ok (number position grid.shape).toNat := by
  rw [offset, if_neg (not_not.mpr inside.length_eq), offsetFrom?_eq inside, zero_mul, zero_add]

theorem Fits.offset_eq (fits : grid.Fits shape element) (inside : Inside position shape) :
    grid.offset position = .ok (number position shape).toNat := by
  obtain ⟨rfl, -, -⟩ := fits
  exact grid.offset_of_inside inside

theorem Fits.get_eq (fits : grid.Fits shape element) (inside : Inside position shape) :
    grid.get position = .ok (grid.entry position) := by
  rw [Grid.get, fits.offset_eq inside, entry, fits.shape_eq]
  rfl

theorem Fits.entry_mem (fits : grid.Fits shape element) (inside : Inside position shape) :
    grid.entry position ∈ grid.data := by
  have below := fits.number_lt inside
  rw [entry, fits.shape_eq, Array.getD_eq_getD_getElem?, Array.getElem?_eq_getElem below]
  exact Array.getElem_mem below

theorem Fits.set_eq (fits : grid.Fits shape element) (inside : Inside position shape) (value : Scalar) :
    grid.set position value = .ok (grid.put position value) := by
  rw [Grid.set, fits.offset_eq inside, put, fits.shape_eq]
  rfl

theorem Fits.put (fits : grid.Fits shape element) (position : List Int) (value : Scalar) :
    (grid.put position value).Fits shape element :=
  ⟨fits.shape_eq, fits.element_eq, by simp [Grid.put, fits.size_eq]⟩

/-! ### Elements -/

theorem Fits.length_eq (fits : grid.Fits shape element) : grid.data.size = (positions shape).length := by
  have := fits.size_eq
  rw [length_positions]
  omega

/-- The elements are stored in the order of their positions. -/
theorem Fits.toList_data (fits : grid.Fits shape element) (static : Static shape) :
    grid.data.toList = (positions shape).map grid.entry := by
  apply List.ext_getElem
  · rw [List.length_map, Array.length_toList, fits.length_eq]
  · intro index below _
    rw [List.getElem_map, entry, fits.shape_eq, getElem_positions static]
    simp [Array.getD, Array.length_toList ▸ below]

theorem Fits.eq_tabulate (fits : grid.Fits shape element) (static : Static shape) :
    grid = tabulate shape element grid.entry := by
  obtain ⟨_, _, data⟩ := grid
  obtain ⟨rfl, rfl, _⟩ := fits
  rw [tabulate, ← Fits.toList_data ⟨rfl, rfl, by assumption⟩ static]

theorem tabulate_congr {first second : List Int → Scalar} (static : Static shape)
    (same : ∀ position, Inside position shape → first position = second position) :
    tabulate shape element first = tabulate shape element second := by
  rw [tabulate, List.map_congr_left fun position member => same position (inside_of_mem_positions static member)]
  rfl

/-- Arrays with the same elements are the same. -/
theorem Fits.ext (fits : grid.Fits shape element) (fitsToo : other.Fits shape element) (static : Static shape)
    (same : ∀ position, Inside position shape → grid.entry position = other.entry position) : grid = other := by
  rw [fits.eq_tabulate static, fitsToo.eq_tabulate static]
  exact tabulate_congr static same

theorem tabulate_fits (static : Static shape) (element : ScalarType) (compute : List Int → Scalar) :
    (tabulate shape element compute).Fits shape element := by
  have := product_nonneg static
  refine ⟨rfl, rfl, ?_⟩
  simp only [tabulate, List.size_toArray, List.length_map, length_positions]
  omega

theorem entry_tabulate (inside : Inside position shape) (compute : List Int → Scalar) :
    (tabulate shape element compute).entry position = compute position := by
  have fits := tabulate_fits inside.static element compute
  have inList := fits.length_eq ▸ fits.number_lt inside
  rw [entry, tabulate, Array.getD_eq_getD_getElem?, List.getElem?_toArray, List.getElem?_map,
    List.getElem?_eq_getElem inList, getElem_positions_number inside]
  rfl

theorem entry_put (fits : grid.Fits shape element) (inside : Inside position shape)
    (insideToo : Inside place shape) (value : Scalar) :
    (grid.put place value).entry position = if place = position then value else grid.entry position := by
  have below := fits.number_lt inside
  simp only [entry, Grid.put, fits.shape_eq, Array.getD_eq_getD_getElem?, Array.getElem?_setIfInBounds]
  by_cases same : place = position
  · simp [same, below]
  · have distinct : (number place shape).toNat ≠ (number position shape).toNat := by
      intro numbers
      apply same
      apply insideToo.eq_of_number_eq inside
      have := inside.number_nonneg
      have := insideToo.number_nonneg
      omega
    simp [same, distinct]

/-- An array is computed if each of its elements is. -/
theorem build_eq (static : Static shape) (element : ScalarType) {compute : List Int → Except Error Scalar}
    {found : List Int → Scalar} (each : ∀ position, Inside position shape → compute position = .ok (found position)) :
    build shape element compute = .ok (tabulate shape element found) := by
  have all : ∀ items : List (List Int), (∀ position ∈ items, Inside position shape) →
      items.mapM compute = .ok (items.map found) := by
    intro items inside
    induction items with
    | nil => rfl
    | cons position items ih =>
      obtain ⟨head, later⟩ := List.forall_mem_cons.mp inside
      rw [List.mapM_cons, each position head, ih later]
      rfl
  rw [build, all _ fun position => inside_of_mem_positions static]
  rfl

/-! ### Arrays that change -/

/-- Steps that succeed on all arrays of a type are a plain fold. -/
theorem foldlM_eq (items : List (List Int)) {step : Grid → List Int → Except Error Grid}
    (next : Grid → List Int → Grid)
    (each : ∀ output position, output.Fits shape element → position ∈ items →
      step output position = .ok (next output position) ∧ (next output position).Fits shape element)
    (fits : grid.Fits shape element) :
    items.foldlM step grid = .ok (items.foldl next grid) ∧ (items.foldl next grid).Fits shape element := by
  induction items generalizing grid with
  | nil => exact ⟨rfl, fits⟩
  | cons position items ih =>
    obtain ⟨isNext, nextFits⟩ := each grid position fits List.mem_cons_self
    rw [List.foldlM_cons, List.foldl_cons, isNext]
    exact ih (fun output other outputFits member => each output other outputFits (List.mem_cons_of_mem _ member))
      nextFits

/-- Every element is made of what has been put at its position, in the order in which that has happened. -/
theorem foldl_gather {items : List (List Int)} (target : List Int → List Int)
    (combine : Scalar → List Int → Scalar) (fits : grid.Fits shape element)
    (inside : ∀ item ∈ items, Inside (target item) shape) :
    let result := items.foldl (fun output item =>
      output.put (target item) (combine (output.entry (target item)) item)) grid
    result.Fits shape element ∧ ∀ position, Inside position shape → result.entry position =
      (items.filter fun item => target item = position).foldl combine (grid.entry position) := by
  induction items generalizing grid with
  | nil => exact ⟨fits, fun _ _ => rfl⟩
  | cons item items ih =>
    obtain ⟨head, later⟩ := List.forall_mem_cons.mp inside
    obtain ⟨resultFits, entries⟩ := ih (fits.put (target item) (combine (grid.entry (target item)) item)) later
    refine ⟨resultFits, fun position inside => ?_⟩
    rw [List.foldl_cons, entries position inside, entry_put fits inside head, List.filter_cons]
    by_cases same : target item = position
    · simp [same]
    · simp [same]

/-- An array that is filled position by position has at each position what belongs there. -/
theorem foldl_put (fits : grid.Fits shape element) (static : Static shape) (compute : List Int → Scalar) :
    (positions shape).foldl (fun output position => output.put position (compute position)) grid =
      tabulate shape element compute := by
  obtain ⟨resultFits, entries⟩ := foldl_gather id (fun _ => compute) fits
    fun position => inside_of_mem_positions static
  refine resultFits.ext (tabulate_fits static element compute) static fun position inside => ?_
  rw [entry_tabulate inside]
  refine (entries position inside).trans ?_
  simp only [id_eq, filter_positions inside, List.foldl_cons, List.foldl_nil]

end Grid

end TensorIR
