import TensorIR.Proofs.Tensors.Numbering

/-!
# What array operations compute

Where the rule of an operation on whole arrays holds, every element of the result is known: it is an element of
the operand at another position, or a function of such elements.

## Main results

* `Grid.slice_eq`, `Grid.map_eq`, `Grid.combine_eq` — the elements of a part, and of elementwise operations
* `Grid.entry_pad` — elements stay where they are when others are put behind them
* `Grid.entry_reshaped` — elements keep their number in another shape
-/

namespace TensorIR

namespace Shape

variable {position shape source : List Int}

/-- The position in an array of another shape that belongs to a position. The last dimensions belong together,
and a dimension of size one repeats. -/
def aligned (source position : List Int) : List Int :=
  ((position.drop (position.length - source.length)).zip source).map fun (place, size) =>
    if size = 1 then 0 else place

theorem aligned_of_length (length_eq : position.length = source.length) :
    aligned source position = (position.zip source).map fun (place, size) => if size = 1 then 0 else place := by
  rw [aligned, length_eq, Nat.sub_self, List.drop_zero]

/-- In the shape of the array itself, every position belongs to itself. -/
theorem aligned_self (inside : Inside position shape) : aligned shape position = position := by
  rw [aligned_of_length inside.length_eq]
  induction inside with
  | nil => rfl
  | @cons place size _ _ head _ ih =>
    have repeats : (if size = 1 then 0 else place) = place := by
      split
      · omega
      · rfl
    rw [List.zip_cons_cons, List.map_cons, ih]
    exact congrArg (· :: _) repeats

theorem Inside.aligned (inside : Inside position shape) (stretches : Stretches source shape) :
    Inside (aligned source position) source := by
  rw [aligned_of_length (inside.length_eq.trans stretches.length_eq.symm)]
  exact inside_stretched stretches inside

/-- The position that a part begins with is added to every position of the part. -/
theorem inside_of_ofSlice {start size : List Int} (rule : ofSlice source start size = .ok shape)
    (inside : Inside position shape) :
    Inside ((position.zip start).map fun (place, first) => place + first) source := by
  rw [ofSlice] at rule
  split at rule
  case isTrue => cases rule
  case isFalse lengths =>
    split at rule
    case h_1 => cases rule
    case h_2 fits =>
      cases rule
      exact inside_sliced (by omega) fits (by omega) inside

/-- The shape with dimensions of size one in front, up to a number of dimensions. -/
def raised (rank : Nat) (shape : List Int) : List Int := List.replicate (rank - shape.length) 1 ++ shape

theorem product_replicate_one (count : Nat) (shape : List Int) :
    product (List.replicate count 1 ++ shape) = product shape := by
  induction count with
  | zero => rfl
  | succ count ih => rw [List.replicate_succ, List.cons_append, product_cons, one_mul, ih]

theorem static_ones (count : Nat) : Static (List.replicate count 1) := by
  intro size member
  rw [List.eq_of_mem_replicate member]
  exact Int.one_nonneg

/-- A shape does not change when it is combined with one whose sizes are all one. -/
theorem ofBroadcast_ones (shape : List Int) : ofBroadcast shape (List.replicate shape.length 1) = .ok shape := by
  rw [ofBroadcast, if_neg (not_not.mpr List.length_replicate.symm)]
  induction shape with
  | nil => rfl
  | cons size shape ih =>
    have first : stretched size 1 = .ok size := by
      rw [stretched]
      split
      case isTrue one => rw [one]
      case isFalse => rfl
    rw [List.length_cons, List.replicate_succ, List.zip_cons_cons, List.mapM_cons, first, ih]
    rfl

/-- Dimensions of size one in front change no number. -/
theorem Inside.drop_ones {count : Nat} (inside : Inside position (List.replicate count 1 ++ shape)) :
    Inside (position.drop count) shape ∧
      number position (List.replicate count 1 ++ shape) = number (position.drop count) shape := by
  induction count generalizing position with
  | zero => exact ⟨inside, rfl⟩
  | succ count ih =>
    rw [List.replicate_succ, List.cons_append] at inside ⊢
    cases inside with
    | @cons place _ rest _ bounds inside =>
      obtain rfl : place = 0 := by omega
      rw [number_cons, zero_mul, zero_add, List.drop_succ_cons]
      exact ih inside

theorem Static.raised (static : Static shape) (rank : Nat) : Static (raised rank shape) := by
  intro size member
  rcases List.mem_append.mp member with one | old
  · rw [List.eq_of_mem_replicate one]
    decide
  · exact static size old

theorem length_raised {rank : Nat} (fits : shape.length ≤ rank) : (raised rank shape).length = rank := by
  rw [raised, List.length_append, List.length_replicate, Nat.sub_add_cancel fits]

/-- The position that belongs to a position is the same for the shape with dimensions of size one in front, but for
these dimensions. -/
theorem drop_aligned_raised (length_eq : position.length = (raised position.length source).length) :
    (aligned (raised position.length source) position).drop (position.length - source.length) =
      aligned source position := by
  rw [aligned_of_length length_eq, aligned, raised, ← List.map_drop, List.zip, List.drop_zipWith,
    List.drop_left' List.length_replicate]

theorem length_le_of_stretches (stretches : Stretches (raised shape.length source) shape) :
    source.length ≤ shape.length := by
  have same := stretches.length_eq
  rw [raised, List.length_append, List.length_replicate] at same
  omega

/-- The position in an array that is broadcast lies inside of it. -/
theorem Inside.aligned_of_raised (inside : Inside position shape)
    (stretches : Stretches (raised shape.length source) shape) : Inside (Shape.aligned source position) source := by
  have same : position.length = shape.length := inside.length_eq
  rw [← same] at stretches
  rw [← drop_aligned_raised (same.trans stretches.length_eq.symm)]
  exact (Inside.drop_ones (inside.aligned stretches)).1

/-- The padding of an array behind its elements along one dimension. -/
def behind (rank dim : Nat) (missing : Int) : List Int :=
  (List.replicate (2 * rank) 0).set (2 * dim + 1) missing

theorem getD_behind (rank dim : Nat) (missing : Int) (index : Nat) :
    (behind rank dim missing).getD (2 * index) 0 = 0 := by
  rw [behind, List.getD_eq_getElem?_getD, List.getElem?_set_ne (by omega), List.getElem?_replicate]
  split <;> rfl

theorem paddedSizes_zero (shape : List Int) : paddedSizes shape (List.replicate (2 * shape.length) 0) = shape := by
  induction shape with
  | nil => rfl
  | cons size shape ih =>
    rw [List.length_cons, Nat.mul_succ, List.replicate_succ, List.replicate_succ, paddedSizes, ih]
    simp

theorem paddedSizes_behind (shape : List Int) (dim : Nat) (missing : Int) :
    paddedSizes shape (behind shape.length dim missing) = shape.set dim (shape.getD dim 0 + missing) := by
  unfold behind
  induction shape generalizing dim with
  | nil => rfl
  | cons size shape ih =>
    rw [List.length_cons, Nat.mul_succ, List.replicate_succ, List.replicate_succ]
    cases dim with
    | zero =>
      change paddedSizes (size :: shape) (0 :: missing :: List.replicate (2 * shape.length) 0) = _
      rw [paddedSizes, paddedSizes_zero]
      simp
    | succ dim =>
      change paddedSizes (size :: shape)
        (0 :: 0 :: (List.replicate (2 * shape.length) 0).set (2 * dim + 1) missing) = _
      rw [paddedSizes, ih]
      simp

theorem ofPad_behind (shape : List Int) (dim : Nat) {missing : Int} (nonneg : 0 ≤ missing) :
    ofPad shape (behind shape.length dim missing) = .ok (shape.set dim (shape.getD dim 0 + missing)) := by
  have valid : ¬((behind shape.length dim missing).length ≠ 2 * shape.length ∨
      (behind shape.length dim missing).any (· < 0) = true) := by
    rw [not_or, not_not, List.any_eq_true]
    refine ⟨by rw [behind, List.length_set, List.length_replicate], ?_⟩
    rintro ⟨amount, member, negative⟩
    rcases List.mem_or_eq_of_mem_set member with zero | rfl
    · rw [List.eq_of_mem_replicate zero] at negative
      cases negative
    · exact absurd (of_decide_eq_true negative) (not_lt.mpr nonneg)
  rw [ofPad, if_neg valid, paddedSizes_behind]

end Shape

namespace Grid

open Shape

variable {grid a b : Grid} {shape source first second position : List Int} {element other third : ScalarType}

/-- An array with elements of another one. -/
theorem gather_eq (fits : grid.Fits source element) (static : Static shape) {origin : List Int → List Int}
    (inside : ∀ position, Inside position shape → Inside (origin position) source) :
    grid.gather shape origin = .ok (tabulate shape element fun position => grid.entry (origin position)) := by
  rw [gather, fits.element_eq]
  exact build_eq static element fun position within => fits.get_eq (inside position within)

theorem slice_eq {start size : List Int} (fits : grid.Fits source element)
    (rule : ofSlice source start size = .ok shape) (static : Static shape) :
    grid.slice start shape = .ok (tabulate shape element fun position =>
      grid.entry ((position.zip start).map fun (place, first) => place + first)) :=
  gather_eq fits static fun _ => inside_of_ofSlice rule

theorem Fits.getStretched_eq (fits : grid.Fits source element) (stretches : Stretches source shape)
    (inside : Inside position shape) :
    grid.getStretched position = .ok (grid.entry (aligned source position)) := by
  have within := inside.aligned stretches
  rw [aligned_of_length (inside.length_eq.trans stretches.length_eq.symm)] at within ⊢
  rw [Grid.getStretched, fits.shape_eq]
  exact fits.get_eq within

theorem map_eq (fits : grid.Fits shape other) (static : Static shape) (element : ScalarType)
    (compute : Scalar → Scalar) :
    grid.map element compute = .ok (tabulate shape element fun position => compute (grid.entry position)) := by
  rw [map, fits.shape_eq]
  refine build_eq static element fun position inside => ?_
  rw [fits.getStretched_eq (stretches_refl shape) inside, aligned_self inside]
  rfl

theorem combine_eq (fits : a.Fits first other) (fitsToo : b.Fits second third)
    (common : ofBroadcast first second = .ok shape) (static : Static shape) (element : ScalarType)
    (compute : Scalar → Scalar → Scalar) :
    a.combine b element compute = .ok (tabulate shape element fun position =>
      compute (a.entry (aligned first position)) (b.entry (aligned second position))) := by
  obtain ⟨stretches, stretchesToo⟩ := stretches_of_ofBroadcast common
  have found : TensorIR.ofShape (ofBroadcast a.shape b.shape) = .ok shape := by
    rw [fits.shape_eq, fitsToo.shape_eq, common]
    rfl
  rw [combine, found]
  refine build_eq static element fun position inside => ?_
  rw [fits.getStretched_eq stretches inside, fitsToo.getStretched_eq stretchesToo inside]
  rfl

/-- The array of a constant with the same value everywhere. -/
theorem ofValues_splat (static : Static shape) (small : Shape.product shape < 2 ^ 64) (element : ScalarType)
    (number : Float) (isFloat : Bool) :
    ofValues shape element ((DenseData.splat number isFloat).expand (count shape)) =
      .ok (tabulate shape element fun _ => .ofFloat element number) := by
  have counted : count shape = (positions shape).length := by
    rw [length_positions]
    have := count_eq static small
    omega
  have values : (DenseData.splat number isFloat).expand (count shape) = List.replicate (count shape) number := rfl
  rw [values, ofValues, if_pos List.length_replicate, List.map_replicate, counted, tabulate, List.map_const']

/-! ### Padding -/

/-- With nothing in front along any dimension, elements stay at their positions when others are added. -/
theorem shifted_eq {padding : List Int} (behind : ∀ index, padding.getD (2 * index) 0 = 0) :
    (position.zipIdx.map fun (place, index) => place + padding.getD (2 * index) 0) = position := by
  simp only [behind, add_zero, List.zipIdx_map_fst]

theorem entry_pad {padding : List Int} (fits : grid.Fits source other) (sourceStatic : Static source)
    (rule : ofPad source padding = .ok shape) (static : Static shape) (element : ScalarType) (value : Float)
    (behind : ∀ index, padding.getD (2 * index) 0 = 0) :
    ∃ result, grid.pad padding shape element value = .ok result ∧ result.Fits shape element ∧
      ∀ position, Inside position source → Inside position shape → result.entry position = grid.entry position := by
  have within : ∀ position ∈ positions source, Inside position shape := by
    intro position member
    have inside := inside_of_mem_positions sourceStatic member
    rw [ofPad] at rule
    split at rule
    case isTrue => cases rule
    case isFalse lengths =>
      cases rule
      simp only [List.any_eq_true, decide_eq_true_eq, not_or, not_exists, not_and, not_lt] at lengths
      have padded := inside_padded (by omega) lengths.2 inside
      rwa [shifted_eq behind] at padded
  -- Nothing is put in front, so each element keeps its position.
  have moved : grid.pad padding shape element value =
      (positions source).foldlM (fun output position => do
        let _ ← output.offset position
        output.set position (← grid.get position)) (filled shape element value) := by
    simp only [pad, fits.shape_eq, shifted_eq behind]
  let step (output : Grid) (position : List Int) : Except Error Grid := do
    let _ ← output.offset position
    output.set position (← grid.get position)
  have puts (output : Grid) (position : List Int) (outputFits : output.Fits shape element)
      (member : position ∈ positions source) : step output position = .ok (output.put position (grid.entry position)) ∧
        (output.put position (grid.entry position)).Fits shape element := by
    have inside := within position member
    refine ⟨?_, outputFits.put _ _⟩
    change (output.offset position >>= fun _ => grid.get position >>= output.set position) = _
    rw [outputFits.offset_eq inside, fits.get_eq (inside_of_mem_positions sourceStatic member)]
    exact outputFits.set_eq inside _
  obtain ⟨found, -⟩ := foldlM_eq (positions source) (fun output position => output.put position (grid.entry position))
    puts (filled_fits static element value)
  obtain ⟨resultFits, entries⟩ := foldl_gather id (fun _ => grid.entry)
    (filled_fits static element value) within
  refine ⟨_, moved.trans found, resultFits, fun position inside insideToo => ?_⟩
  refine (entries position insideToo).trans ?_
  simp only [id_eq, filter_positions inside, List.foldl_cons, List.foldl_nil]

/-! ### Another shape -/

/-- Elements keep their number when the array is given another shape. -/
theorem entry_reshaped (grid : Grid) {place : List Int}
    (same : number position shape = number place grid.shape) :
    { grid with shape, element }.entry position = grid.entry place := by
  rw [entry, entry, same]

/-- The elements of an array in another shape are those at the positions with the same numbers. -/
theorem Fits.reshaped_eq (fits : grid.Fits source element) (static : Static shape)
    (same : Shape.product shape = Shape.product source) {origin : List Int → List Int}
    (numbers : ∀ position, Inside position shape → number (origin position) source = number position shape) :
    { grid with shape, element } = tabulate shape element fun position => grid.entry (origin position) := by
  refine ((reshaped_fits fits same).eq_tabulate static).trans (tabulate_congr static fun position inside => ?_)
  exact entry_reshaped grid (by rw [fits.shape_eq, numbers position inside])

end Grid

end TensorIR
