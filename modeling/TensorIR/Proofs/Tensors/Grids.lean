import Mathlib.Data.List.Perm.Subperm
import Mathlib.Tactic.Linarith
import Mathlib.Tactic.Ring
import TensorIR.Proofs.Verified
import TensorIR.Run.Grid

/-!
# Arrays that fit their shapes

An array stores its elements in row-major order. Every position that lies inside of its shape has a place in
storage, and the positions that are listed for a shape all lie inside of it. An array that fits a shape, which
means that it has as many elements as the shape says, can be read and written at all of them.

Each operation on whole arrays reads its operands at positions that it computes from those of the result.
If the shape of the result is the one that follows from the shapes of the operands, then all of these
positions lie inside, so that the operation has a result, and the result fits.

## Main definitions

* `Shape.Inside` — a position lies inside of a shape
* `Shape.Static` — no size is unknown
* `Grid.Fits` — an array has a shape, a type of element, and all of its elements
* `Shape.Stretches` — a shape can be repeated to another one of the same rank

## Main results

* `Shape.inside_of_mem_positions` — the listed positions lie inside
* `Grid.Fits.get`, `Grid.Fits.set` — arrays are read and written inside of their shape
* `Grid.build_fits`, `Grid.foldlM_positions_fits` — arrays that are computed position by position
* `Grid.combine_fits`, `Grid.map_fits` — operations on each element
* `Grid.transpose_fits`, `Grid.slice_fits`, `Grid.tile_fits`, `Grid.pad_fits` — operations that move elements
* `Grid.matmul_fits`, `Grid.reduceSum_fits` — operations that add elements up
* `Grid.ofValues_fits`, `Grid.reshaped_fits` — elements that are given, or are given another shape
-/

namespace TensorIR

namespace Shape

/-- A position has a coordinate for every dimension of a shape, and none of them is out of bounds. -/
def Inside (position shape : List Int) : Prop :=
  List.Forall₂ (fun place size => 0 ≤ place ∧ place < size) position shape

/-- No size of a shape is unknown. -/
def Static (shape : List Int) : Prop := ∀ size ∈ shape, 0 ≤ size

@[simp]
theorem product_nil : product [] = 1 := rfl

@[simp]
theorem product_cons (size : Int) (shape : List Int) : product (size :: shape) = size * product shape := by
  rw [product, product, ← List.prod_eq_foldl, ← List.prod_eq_foldl, List.prod_cons]

theorem static_cons {size : Int} {shape : List Int} : Static (size :: shape) ↔ 0 ≤ size ∧ Static shape :=
  List.forall_mem_cons

theorem product_nonneg {shape : List Int} (static : Static shape) : 0 ≤ product shape := by
  induction shape with
  | nil => decide
  | cons size shape ih =>
    obtain ⟨sizeNonneg, later⟩ := static_cons.mp static
    rw [product_cons]
    exact Int.mul_nonneg sizeNonneg (ih later)

/-- A shape that has elements has no empty dimension. -/
theorem pos_of_product_pos {shape : List Int} (static : Static shape) (positive : 0 < product shape) :
    ∀ size ∈ shape, 0 < size := by
  induction shape with
  | nil => simp
  | cons size shape ih =>
    obtain ⟨sizeNonneg, later⟩ := static_cons.mp static
    rw [product_cons] at positive
    have laterPositive : 0 < product shape := by
      have := product_nonneg later
      by_contra notPositive
      have empty : product shape = 0 := by omega
      rw [empty, Int.mul_zero] at positive
      omega
    intro other member
    rcases List.mem_cons.mp member with rfl | member
    · exact (pos_iff_pos_of_mul_pos positive).mpr laterPositive
    · exact ih later laterPositive other member

namespace Inside

theorem length_eq {position shape : List Int} (inside : Inside position shape) :
    position.length = shape.length :=
  List.Forall₂.length_eq inside

/-- Only shapes without empty dimensions have positions. -/
theorem sizes_pos {position shape : List Int} (inside : Inside position shape) : ∀ size ∈ shape, 0 < size := by
  induction inside with
  | nil => simp
  | cons head _ ih =>
    intro size member
    rcases List.mem_cons.mp member with rfl | member
    · omega
    · exact ih size member

end Inside

end Shape

namespace Grid

open Shape

/-! ### Places in storage -/

/-- The place of a position, counted on from the places of the dimensions in front. -/
theorem offsetFrom?_of_inside {position shape : List Int} (inside : Inside position shape) (start : Int) :
    ∃ place, offsetFrom? start position shape = some (start * Shape.product shape + place) ∧ 0 ≤ place ∧
      place < Shape.product shape := by
  induction inside generalizing start with
  | nil => exact ⟨0, by simp [offsetFrom?], by decide, by decide⟩
  | @cons coordinate size position shape head _ ih =>
    obtain ⟨place, found, nonneg, below⟩ := ih (start * size + coordinate)
    refine ⟨coordinate * Shape.product shape + place, ?_, ?_, ?_⟩
    · rw [offsetFrom?, if_neg (by omega), found, product_cons]
      congr 1
      ring
    · have := Int.mul_nonneg head.1 (nonneg.trans below.le)
      omega
    · have next : (coordinate + 1) * Shape.product shape ≤ size * Shape.product shape :=
        Int.mul_le_mul_of_nonneg_right (by omega) (nonneg.trans below.le)
      rw [product_cons]
      linarith

/-- A number is unravelled to a position inside, whatever it is. -/
theorem inside_unravel {shape : List Int} (positive : ∀ size ∈ shape, 0 < size) (number : Int) :
    Inside (unravel number shape).1 shape := by
  induction shape with
  | nil => exact .nil
  | cons size shape ih =>
    obtain ⟨sizePositive, later⟩ := List.forall_mem_cons.mp positive
    exact .cons ⟨Int.emod_nonneg _ (by omega), Int.emod_lt_of_pos _ sizePositive⟩ (ih later)

theorem inside_of_mem_positions {shape position : List Int} (static : Static shape)
    (member : position ∈ positions shape) : Inside position shape := by
  obtain ⟨number, inRange, rfl⟩ := List.mem_map.mp member
  apply inside_unravel
  apply pos_of_product_pos static
  have := List.mem_range.mp inRange
  omega

@[simp]
theorem length_positions (shape : List Int) : (positions shape).length = (Shape.product shape).toNat := by
  rw [positions, List.length_map, List.length_range]

/-! ### Arrays of a shape -/

/-- The array has a shape, a type of element, and as many elements as the shape says. -/
structure Fits (grid : Grid) (shape : List Int) (element : ScalarType) : Prop where
  shape_eq : grid.shape = shape
  element_eq : grid.element = element
  size_eq : (grid.data.size : Int) = Shape.product shape

section Access

variable {grid : Grid} {shape source position : List Int} {element : ScalarType}

/-- The place of a position inside is that of an element. -/
theorem Fits.offset (fits : grid.Fits shape element) (inside : Inside position shape) :
    ∃ offset < grid.data.size, grid.offset position = .ok offset := by
  obtain ⟨place, found, nonneg, below⟩ := offsetFrom?_of_inside inside 0
  have := fits.size_eq
  refine ⟨place.toNat, by omega, ?_⟩
  rw [Grid.offset, fits.shape_eq, if_neg (by simp [inside.length_eq]), found]
  simp

/-- What is read inside of an array is one of its elements. -/
theorem Fits.get (fits : grid.Fits shape element) (inside : Inside position shape) :
    ∃ (offset : Nat) (below : offset < grid.data.size), grid.get position = .ok grid.data[offset] := by
  obtain ⟨offset, below, found⟩ := fits.offset inside
  refine ⟨offset, below, ?_⟩
  rw [Grid.get, found]
  simp [below]

theorem Fits.exists_get (fits : grid.Fits shape element) (inside : Inside position shape) :
    ∃ value, grid.get position = .ok value := by
  obtain ⟨offset, below, found⟩ := fits.get inside
  exact ⟨_, found⟩

/-- An array still fits after it is written to. -/
theorem Fits.set (fits : grid.Fits shape element) (inside : Inside position shape) (value : Scalar) :
    ∃ next, grid.set position value = .ok next ∧ next.Fits shape element := by
  obtain ⟨offset, below, found⟩ := fits.offset inside
  have stored : grid.set position value = .ok { grid with data := grid.data.setIfInBounds offset value } := by
    rw [Grid.set, found]
    rfl
  refine ⟨_, stored, fits.shape_eq, fits.element_eq, ?_⟩
  simp [fits.size_eq]

theorem filled_fits (static : Static shape) (element : ScalarType) (value : Float) :
    (filled shape element value).Fits shape element := by
  have := product_nonneg static
  refine ⟨rfl, rfl, ?_⟩
  simp only [filled, Array.size_replicate]
  omega

/-- An array can be computed if each of its elements can. -/
theorem build_fits (static : Static shape) (element : ScalarType) {compute : List Int → Except Error Scalar}
    (each : ∀ position, Inside position shape → ∃ value, compute position = .ok value) :
    ∃ grid, build shape element compute = .ok grid ∧ grid.Fits shape element := by
  obtain ⟨values, areValues, length_eq⟩ := exists_mapM_eq_ok fun position member =>
    each position (inside_of_mem_positions static member)
  have := product_nonneg static
  refine ⟨⟨shape, element, values.toArray⟩, by rw [build, areValues]; rfl, rfl, rfl, ?_⟩
  simp only [List.size_toArray, length_eq, length_positions]
  omega

/-- An array still fits after any number of changes, one for each position of a shape. -/
theorem foldlM_positions_fits (static : Static source) {step : Grid → List Int → Except Error Grid}
    (each : ∀ output position, output.Fits shape element → Inside position source →
      ∃ next, step output position = .ok next ∧ next.Fits shape element) (fits : grid.Fits shape element) :
    ∃ result, (positions source).foldlM step grid = .ok result ∧ result.Fits shape element := by
  have inside : ∀ position ∈ positions source, Inside position source := fun position =>
    inside_of_mem_positions static
  generalize positions source = items at inside ⊢
  induction items generalizing grid with
  | nil => exact ⟨grid, rfl, fits⟩
  | cons position rest ih =>
    obtain ⟨next, isNext, nextFits⟩ := each grid position fits (inside position List.mem_cons_self)
    obtain ⟨result, isResult, resultFits⟩ := ih nextFits fun other member =>
      inside other (List.mem_cons_of_mem _ member)
    exact ⟨result, by rw [List.foldlM_cons, isNext]; exact isResult, resultFits⟩

end Access

end Grid

namespace Shape

/-! ### Positions of operands -/

/-- Every dimension has the same size as in another shape, or it has size one and repeats. -/
def Stretches (source shape : List Int) : Prop :=
  List.Forall₂ (fun size target => size = 1 ∨ size = target) source shape

theorem stretches_refl (shape : List Int) : Stretches shape shape :=
  List.forall₂_same.mpr fun _ _ => .inr rfl

theorem of_stretched {a b size : Int} (common : stretched a b = .ok size) :
    (a = 1 ∨ a = size) ∧ (b = 1 ∨ b = size) := by
  rw [stretched] at common
  split at common
  case isTrue one =>
    cases common
    exact ⟨.inl one, .inr rfl⟩
  split at common
  case isTrue one =>
    cases common
    exact ⟨.inr rfl, .inl one⟩
  split at common
  case isTrue same =>
    cases common
    exact ⟨.inr rfl, .inr same.symm⟩
  case isFalse => cases common

/-- Both operands of an elementwise operation stretch to the shape of the result. -/
theorem stretches_of_ofBroadcast {a b shape : List Int} (common : ofBroadcast a b = .ok shape) :
    Stretches a shape ∧ Stretches b shape := by
  rw [ofBroadcast] at common
  split at common
  · cases common
  case isFalse same =>
    replace same := not_not.mp same
    replace common := forall₂_of_mapM_eq_ok common
    induction a generalizing b shape with
    | nil =>
      cases List.eq_nil_of_length_eq_zero same.symm
      cases common
      exact ⟨.nil, .nil⟩
    | cons size a ih =>
      obtain ⟨other, b, rfl⟩ := List.exists_cons_of_length_eq_add_one same.symm
      cases common with
      | cons head rest =>
        obtain ⟨first, second⟩ := of_stretched head
        obtain ⟨firsts, seconds⟩ := ih (Nat.succ.inj same) rest
        exact ⟨.cons first firsts, .cons second seconds⟩

theorem inside_stretched {position source shape : List Int} (stretches : Stretches source shape)
    (inside : Inside position shape) :
    Inside ((position.zip source).map fun (place, size) => if size = 1 then 0 else place) source := by
  induction stretches generalizing position with
  | nil =>
    cases inside
    exact .nil
  | cons head _ ih =>
    cases inside with
    | cons bounds later =>
      apply List.Forall₂.cons _ (ih later)
      dsimp only
      split <;> omega

theorem Inside.set {position shape : List Int} (inside : Inside position shape) {index : Nat} {size place : Int}
    (isSize : shape[index]? = some size) (nonneg : 0 ≤ place) (below : place < size) :
    Inside (position.set index place) shape := by
  induction inside generalizing index with
  | nil => cases isSize
  | cons head rest ih =>
    cases index with
    | zero =>
      cases isSize
      exact .cons ⟨nonneg, below⟩ rest
    | succ index => exact .cons head (ih isSize)

/-- The first position along a dimension that is reduced to one element. -/
theorem Inside.set_zero {position shape : List Int} (inside : Inside position shape) (axis : Nat) :
    Inside (position.set axis 0) (shape.set axis 1) := by
  induction inside generalizing axis with
  | nil => exact .nil
  | cons head rest ih =>
    cases axis with
    | zero => exact .cons ⟨le_refl 0, Int.one_pos⟩ rest
    | succ axis => exact .cons head (ih axis)

theorem inside_zeros {shape : List Int} (positive : ∀ size ∈ shape, 0 < size) :
    Inside (shape.map fun _ => 0) shape := by
  induction shape with
  | nil => exact .nil
  | cons size shape ih =>
    obtain ⟨sizePositive, later⟩ := List.forall_mem_cons.mp positive
    exact .cons ⟨le_refl 0, sizePositive⟩ (ih later)

/-- The sizes that a transposition picks, each of them at most once. -/
theorem of_pickSizes? {shape seen order sizes : List Int} (picked : pickSizes? shape seen order = some sizes) :
    List.Forall₂ (fun dim size => 0 ≤ dim ∧ shape[dim.toNat]? = some size) order sizes ∧ order.Nodup ∧
      ∀ dim ∈ order, dim ∉ seen := by
  induction order generalizing seen sizes with
  | nil =>
    cases picked
    exact ⟨.nil, .nil, by simp⟩
  | cons dim order ih =>
    rw [pickSizes?] at picked
    split at picked
    · cases picked
    case isFalse fresh =>
      split at picked
      case h_2 => cases picked
      case h_1 size isSize =>
        obtain ⟨later, areLater, rfl⟩ := Option.map_eq_some_iff.mp picked
        obtain ⟨each, nodup, unseen⟩ := ih areLater
        simp only [List.contains_eq_mem, decide_eq_true_eq, not_or] at fresh
        refine ⟨.cons ⟨by omega, isSize⟩ each, List.nodup_cons.mpr ⟨?_, nodup⟩, ?_⟩
        · intro again
          exact unseen dim again List.mem_cons_self
        · intro other member
          rcases List.mem_cons.mp member with rfl | member
          · exact fresh.2
          · intro wasSeen
            exact unseen other member (List.mem_cons_of_mem _ wasSeen)

/-- A transposition that picks as many sizes as there are picks all of them. -/
theorem mem_of_pickSizes? {shape order sizes : List Int} (picked : pickSizes? shape [] order = some sizes)
    (full : sizes.length = shape.length) : ∀ size ∈ shape, size ∈ sizes := by
  obtain ⟨each, nodup, -⟩ := of_pickSizes? picked
  have nodupPositions : (order.map Int.toNat).Nodup := by
    apply nodup.map_on
    intro dim member other otherMember same
    obtain ⟨-, -, nonneg, -⟩ := forall₂_mem_left each member
    obtain ⟨-, -, otherNonneg, -⟩ := forall₂_mem_left each otherMember
    omega
  have inRange : order.map Int.toNat ⊆ List.range shape.length := by
    intro position member
    obtain ⟨dim, isDim, rfl⟩ := List.mem_map.mp member
    obtain ⟨size, -, -, found⟩ := forall₂_mem_left each isDim
    exact List.mem_range.mpr (List.getElem?_eq_some_iff.mp found).1
  -- As many different positions as there are dimensions are all of them.
  have all : (order.map Int.toNat).Perm (List.range shape.length) := by
    apply (nodupPositions.subperm inRange).perm_of_length_le
    rw [List.length_range, List.length_map, each.length_eq, full]
  intro size member
  obtain ⟨index, below, rfl⟩ := List.mem_iff_getElem.mp member
  obtain ⟨dim, isDim, rfl⟩ := List.mem_map.mp (all.mem_iff.mpr (List.mem_range.mpr below))
  obtain ⟨other, isOther, -, found⟩ := forall₂_mem_left each isDim
  cases (List.getElem?_eq_getElem below).symm.trans found
  exact isOther

/-- Coordinates that are each in bounds keep a position inside when they are put into it. -/
theorem Inside.foldl_set {shape : List Int} {pairs : List (Int × Int)} :
    (∀ pair ∈ pairs, ∃ size, shape[pair.1.toNat]? = some size ∧ 0 ≤ pair.2 ∧ pair.2 < size) →
      ∀ {start : List Int}, Inside start shape →
        Inside (pairs.foldl (fun source (dim, place) => source.set dim.toNat place) start) shape := by
  induction pairs with
  | nil => exact fun _ _ inside => inside
  | cons pair pairs ih =>
    intro each start inside
    obtain ⟨size, isSize, nonneg, below⟩ := each pair List.mem_cons_self
    rw [List.foldl_cons]
    exact ih (fun other member => each other (List.mem_cons_of_mem _ member)) (inside.set isSize nonneg below)

/-- The position that a transposition reads. -/
theorem inside_transposed {position shape order sizes : List Int}
    (picked : pickSizes? shape [] order = some sizes) (full : sizes.length = shape.length)
    (inside : Inside position sizes) :
    Inside ((order.zip position).foldl (fun source (dim, place) => source.set dim.toNat place)
      (position.map fun _ => 0)) shape := by
  obtain ⟨each, -, -⟩ := of_pickSizes? picked
  apply Inside.foldl_set
  · rintro ⟨dim, place⟩ member
    obtain ⟨size, ⟨-, isSize⟩, nonneg, below⟩ := List.forall₂_zip (forall₂_comp each inside.flip) member
    exact ⟨size, isSize, nonneg, below⟩
  · have zeros : (position.map fun _ => (0 : Int)) = shape.map fun _ => 0 := by
      rw [List.map_const', List.map_const', inside.length_eq, full]
    rw [zeros]
    apply inside_zeros
    intro size member
    exact inside.sizes_pos size (mem_of_pickSizes? picked full size member)

/-- The position that a slice reads. -/
theorem inside_sliced {position shape start sizes : List Int} {index : Nat}
    (starts : start.length = shape.length) (fits : sliceFault? index shape start sizes = none)
    (full : sizes.length = shape.length) (inside : Inside position sizes) :
    Inside ((position.zip start).map fun (place, first) => place + first) shape := by
  induction shape generalizing position start sizes index with
  | nil =>
    cases List.eq_nil_of_length_eq_zero full
    cases inside
    exact .nil
  | cons bound shape ih =>
    obtain ⟨first, start, rfl⟩ := List.exists_cons_of_length_eq_add_one starts
    obtain ⟨size, sizes, rfl⟩ := List.exists_cons_of_length_eq_add_one full
    cases inside with
    | cons bounds later =>
      rw [sliceFault?] at fits
      split at fits
      case isTrue => cases fits
      case isFalse inBounds =>
        exact .cons (by dsimp only; omega) (ih (Nat.succ.inj starts) fits (Nat.succ.inj full) later)

/-- The position that a repeated array reads. -/
theorem inside_tiled {position shape multiples : List Int} (static : Static shape)
    (full : multiples.length = shape.length)
    (inside : Inside position ((shape.zip multiples).map fun pair => pair.1 * pair.2)) :
    Inside ((position.zip shape).map fun (place, size) => place % size) shape := by
  induction shape generalizing position multiples with
  | nil =>
    cases inside
    exact .nil
  | cons size shape ih =>
    obtain ⟨multiple, multiples, rfl⟩ := List.exists_cons_of_length_eq_add_one full
    obtain ⟨sizeNonneg, sizesNonneg⟩ := static_cons.mp static
    cases inside with
    | cons bounds later =>
      -- An empty dimension stays empty however often it is repeated.
      have notEmpty : size ≠ 0 := by
        rintro rfl
        simp only [Int.zero_mul] at bounds
        omega
      apply List.Forall₂.cons _ (ih sizesNonneg (Nat.succ.inj full) later)
      exact ⟨Int.emod_nonneg _ notEmpty, Int.emod_lt_of_pos _ (by omega)⟩

/-- The position that an element has after padding. -/
theorem inside_padded {position shape padding : List Int} (full : padding.length = 2 * shape.length)
    (nonneg : ∀ count ∈ padding, 0 ≤ count) (inside : Inside position shape) :
    Inside (position.zipIdx.map fun (place, index) => place + padding.getD (2 * index) 0)
      (paddedSizes shape padding) := by
  -- The dimensions in front are passed over along with their paddings.
  suffices passed : ∀ (front : List Int) (count : Nat), front.length = 2 * count →
      Inside ((position.zipIdx count).map fun (place, index) => place + (front ++ padding).getD (2 * index) 0)
        (paddedSizes shape padding) from passed [] 0 rfl
  induction inside generalizing padding with
  | nil =>
    intro front count isFront
    rw [paddedSizes.eq_def]
    exact .nil
  | @cons place size position shape bounds _ ih =>
    intro front count isFront
    rw [List.length_cons] at full
    obtain ⟨before, padding, rfl⟩ := List.exists_cons_of_length_pos (l := padding) (by omega)
    obtain ⟨after, padding, rfl⟩ := List.exists_cons_of_length_pos (l := padding)
      (by rw [List.length_cons] at full; omega)
    simp only [List.length_cons] at full
    obtain ⟨beforeNonneg, laterNonneg⟩ := List.forall_mem_cons.mp nonneg
    obtain ⟨afterNonneg, laterNonneg⟩ := List.forall_mem_cons.mp laterNonneg
    rw [List.zipIdx_cons, List.map_cons, paddedSizes]
    apply List.Forall₂.cons
    · have here : (front ++ before :: after :: padding).getD (2 * count) 0 = before := by
        simp [← isFront]
      dsimp only
      rw [here]
      omega
    · have later := ih (by omega) laterNonneg (front ++ [before, after]) (count + 1) (by simp [isFront]; omega)
      rwa [List.append_assoc] at later

end Shape

namespace Grid

open Shape

variable {grid a b : Grid} {shape source first second : List Int} {element other third : ScalarType}

/-! ### Operations on each element -/

theorem Fits.getStretched (fits : grid.Fits source element) (stretches : Stretches source shape)
    {position : List Int} (inside : Inside position shape) : ∃ value, grid.getStretched position = .ok value := by
  rw [Grid.getStretched, fits.shape_eq]
  exact fits.exists_get (inside_stretched stretches inside)

theorem map_fits (fits : grid.Fits shape other) (static : Static shape) (element : ScalarType)
    (compute : Scalar → Scalar) :
    ∃ result, grid.map element compute = .ok result ∧ result.Fits shape element := by
  rw [map, fits.shape_eq]
  apply build_fits static
  intro position inside
  obtain ⟨value, isValue⟩ := fits.getStretched (stretches_refl shape) inside
  exact ⟨compute value, by rw [isValue]; rfl⟩

theorem combine_fits (fits : a.Fits first other) (fitsToo : b.Fits second third)
    (common : ofBroadcast first second = .ok shape) (static : Static shape) (element : ScalarType)
    (compute : Scalar → Scalar → Scalar) :
    ∃ result, a.combine b element compute = .ok result ∧ result.Fits shape element := by
  obtain ⟨stretches, stretchesToo⟩ := stretches_of_ofBroadcast common
  rw [combine, fits.shape_eq, fitsToo.shape_eq, common]
  apply build_fits static
  intro position inside
  obtain ⟨x, isFirst⟩ := fits.getStretched stretches inside
  obtain ⟨y, isSecond⟩ := fitsToo.getStretched stretchesToo inside
  exact ⟨compute x y, by rw [isFirst, isSecond]; rfl⟩

/-! ### Operations that move elements -/

theorem gather_fits (fits : grid.Fits source element) (static : Static shape)
    {origin : List Int → List Int} (inside : ∀ position, Inside position shape → Inside (origin position) source) :
    ∃ result, grid.gather shape origin = .ok result ∧ result.Fits shape element := by
  rw [gather, fits.element_eq]
  apply build_fits static
  intro position isInside
  exact fits.exists_get (inside position isInside)

theorem transpose_fits {order : List Int} (fits : grid.Fits source element)
    (rule : ofTranspose source order = .ok shape) (static : Static shape) :
    ∃ result, grid.transpose order shape = .ok result ∧ result.Fits shape element := by
  rw [ofTranspose] at rule
  split at rule
  case h_2 => cases rule
  case h_1 sizes picked =>
    split at rule
    case isFalse => cases rule
    case isTrue full =>
      cases rule
      apply gather_fits fits static
      intro position inside
      exact inside_transposed picked full inside

theorem slice_fits {start size : List Int} (fits : grid.Fits source element)
    (rule : ofSlice source start size = .ok shape) (static : Static shape) :
    ∃ result, grid.slice start shape = .ok result ∧ result.Fits shape element := by
  rw [ofSlice] at rule
  split at rule
  · cases rule
  case isFalse full =>
    split at rule
    · cases rule
    case h_2 inBounds =>
      cases rule
      apply gather_fits fits static
      intro position inside
      exact inside_sliced (by omega) inBounds (by omega) inside

theorem tile_fits {multiples : List Int} (fits : grid.Fits source element) (sourceStatic : Static source)
    (rule : ofTile source multiples = .ok shape) (static : Static shape) :
    ∃ result, grid.tile shape = .ok result ∧ result.Fits shape element := by
  rw [ofTile] at rule
  split at rule
  · cases rule
  case isFalse full =>
    cases rule
    apply gather_fits fits static
    intro position inside
    rw [fits.shape_eq]
    exact inside_tiled sourceStatic (by omega) inside

theorem pad_fits {padding : List Int} (fits : grid.Fits source other) (sourceStatic : Static source)
    (rule : ofPad source padding = .ok shape) (static : Static shape) (element : ScalarType) (value : Float) :
    ∃ result, grid.pad padding shape element value = .ok result ∧ result.Fits shape element := by
  rw [ofPad] at rule
  split at rule
  · cases rule
  case isFalse full =>
    simp only [not_or, not_not, List.any_eq_true, decide_eq_true_eq, not_exists, not_and, not_lt] at full
    cases rule
    rw [pad, fits.shape_eq]
    apply foldlM_positions_fits sourceStatic _ (filled_fits static element value)
    intro output position outputFits inside
    have target := inside_padded full.1 full.2 inside
    obtain ⟨offset, -, isOffset⟩ := outputFits.offset target
    obtain ⟨x, isElement⟩ := fits.exists_get inside
    obtain ⟨next, isNext, nextFits⟩ := outputFits.set target x
    refine ⟨next, ?_, nextFits⟩
    simp only [isOffset, isElement]
    exact isNext

/-! ### Operations that add elements up -/

theorem exists_product {n h c w : Int} (fits : a.Fits [n, h, c] other) (fitsToo : b.Fits [n, c, w] other)
    (element : ScalarType) {batch row column : Int} (inside : Inside [batch, row, column] [n, h, w]) :
    ∃ value, a.product b element batch row column = .ok value := by
  cases inside with
  | cons batchBounds inside =>
    cases inside with
    | cons rowBounds inside =>
      cases inside with
      | cons columnBounds _ =>
        rw [product, fits.shape_eq]
        apply exists_foldlM_eq_ok
        intro sum k member
        have below : (k : Int) < c := by
          have inRange : k < c.toNat := List.mem_range.mp member
          omega
        have contracted : (0 : Int) ≤ k ∧ (k : Int) < c := ⟨Int.natCast_nonneg k, below⟩
        obtain ⟨x, isFirst⟩ := fits.exists_get (.cons batchBounds (.cons rowBounds (.cons contracted .nil)))
        obtain ⟨y, isSecond⟩ := fitsToo.exists_get (.cons batchBounds (.cons contracted (.cons columnBounds .nil)))
        exact ⟨_, by rw [isFirst, isSecond]; rfl⟩

theorem matmul_fits (fits : a.Fits first other) (fitsToo : b.Fits second other)
    (rule : ofMatmul first second = .ok shape) (static : Static shape) (element : ScalarType) :
    ∃ result, a.matmul b shape element = .ok result ∧ result.Fits shape element := by
  rw [ofMatmul.eq_def] at rule
  split at rule
  case h_2 => cases rule
  case h_1 n h c m k w =>
    split at rule
    case isFalse => cases rule
    case isTrue same =>
      obtain ⟨rfl, rfl⟩ := same
      cases rule
      apply build_fits static
      intro position inside
      obtain ⟨batch, row, column, rfl⟩ := List.length_eq_three.mp inside.length_eq
      exact exists_product fits fitsToo element inside

theorem reduceSum_fits {axis : Int} (fits : grid.Fits source other) (sourceStatic : Static source)
    (rule : ofReduce source axis = .ok shape) (static : Static shape) (element : ScalarType) :
    ∃ result, grid.reduceSum axis.toNat shape element = .ok result ∧ result.Fits shape element := by
  rw [ofReduce] at rule
  split at rule
  case isFalse => cases rule
  case isTrue =>
    cases rule
    rw [reduceSum, fits.shape_eq]
    apply foldlM_positions_fits sourceStatic _ (filled_fits static element 0.0)
    intro output position outputFits inside
    have target := inside.set_zero axis.toNat
    obtain ⟨sum, isSum⟩ := outputFits.exists_get target
    obtain ⟨x, isElement⟩ := fits.exists_get inside
    obtain ⟨next, isNext, nextFits⟩ := outputFits.set target (Scalar.add element sum x)
    refine ⟨next, ?_, nextFits⟩
    simp only [isSum, isElement]
    exact isNext

/-! ### Elements that are given -/

/-- The elements keep their order in any shape that has as many. -/
theorem reshaped_fits (fits : grid.Fits source other) (same : Shape.product shape = Shape.product source) :
    { grid with shape, element }.Fits shape element where
  shape_eq := rfl
  element_eq := rfl
  size_eq := fits.size_eq.trans same.symm

theorem count_eq (static : Static shape) (small : Shape.product shape < 2 ^ 64) :
    (count shape : Int) = Shape.product shape := by
  have := product_nonneg static
  have modulus : ((Nat.pow 2 64 : Nat) : Int) = 2 ^ 64 := rfl
  rw [count, modulus, Int.emod_eq_of_lt this small]
  omega

theorem ofValues_fits (static : Static shape) (small : Shape.product shape < 2 ^ 64) (element : ScalarType)
    {values : List Float} (full : (values.length : Int) = Shape.product shape) :
    ∃ result, ofValues shape element values = .ok result ∧ result.Fits shape element := by
  have counted := count_eq static small
  refine ⟨_, by rw [ofValues, if_pos (by omega)], rfl, rfl, ?_⟩
  simpa using full

end Grid

end TensorIR
