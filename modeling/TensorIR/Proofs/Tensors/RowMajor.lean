import TensorIR.Proofs.Tensors.Numbering

/-!
# Row-major order

The positions of a shape are listed in lexicographic order. The place of a position in storage is its number in this
list, which is also the sum of its coordinates, each taken as often as the stride of its dimension says. Lists of
coordinates that are no positions of the shape have no place.

## Main results

* `Shape.pairwise_positions` — positions are listed in lexicographic order
* `Shape.number_eq_sum` — the number of a position by strides
* `Grid.offset_eq_ok_iff` — exactly the positions of the shape have a place
* `Grid.offset_isRowMajor` — positions, their order, their places and the strides belong together
-/

namespace TensorIR

namespace Shape

open Grid (positions offsetFrom?)

variable {position shape : List Int}

/-- Positions are listed in lexicographic order: first by the first coordinate, and then by those that follow. -/
theorem pairwise_positions (static : Static shape) : (positions shape).Pairwise (· < ·) := by
  induction shape with
  | nil => exact List.pairwise_singleton _ _
  | cons size shape ih =>
    have later := ih (static_cons.mp static).2
    rw [positions_cons static, List.pairwise_flatMap]
    -- Within a block the first coordinates are equal, and between two blocks they decide.
    refine ⟨fun place _ => ?_, List.pairwise_lt_range.imp fun before position member other memberToo => ?_⟩
    · rw [List.pairwise_map]
      exact later.imp fun before => List.cons_lt_cons_iff.mpr (.inr ⟨rfl, before⟩)
    · obtain ⟨position, -, rfl⟩ := List.mem_map.mp member
      obtain ⟨other, -, rfl⟩ := List.mem_map.mp memberToo
      exact List.cons_lt_cons_iff.mpr (.inl (Int.ofNat_lt.mpr before))

/-- The number of a position counts every coordinate as often as the stride of its dimension says. -/
theorem number_eq_sum (position shape : List Int) :
    number position shape = ((position.zip (strides shape)).map fun (place, stride) => place * stride).sum := by
  induction position generalizing shape with
  | nil => rfl
  | cons place position ih =>
    cases shape with
    | nil => rfl
    | cons size shape => rw [number_cons, strides_cons, List.zip_cons_cons, List.map_cons, List.sum_cons, ih]

theorem inside_of_offsetFrom? {start place : Int} (length_eq : position.length = shape.length)
    (found : offsetFrom? start position shape = some place) : Inside position shape := by
  induction position generalizing start shape with
  | nil =>
    obtain rfl := List.length_eq_zero_iff.mp length_eq.symm
    exact .nil
  | cons coordinate position ih =>
    cases shape with
    | nil => cases length_eq
    | cons size shape =>
      rw [offsetFrom?] at found
      split at found
      case isTrue => cases found
      case isFalse within => exact .cons (by omega) (ih (Nat.succ.inj length_eq) found)

end Shape

namespace Grid

open Shape

/-- Exactly the positions of the shape have a place, which is their number. -/
theorem offset_eq_ok_iff (grid : Grid) (position : List Int) (place : Nat) :
    grid.offset position = .ok place ↔ Inside position grid.shape ∧ (place : Int) = number position grid.shape := by
  constructor
  · intro found
    -- The rank is compared first, and then each coordinate with its size.
    have inside : Inside position grid.shape := by
      rw [offset] at found
      split at found
      case isTrue => cases found
      case isFalse sameRank =>
        split at found
        case h_1 reached => exact inside_of_offsetFrom? (not_not.mp sameRank) reached
        case h_2 => cases found
    have same := (grid.offset_of_inside inside).symm.trans found
    injection same with same
    exact ⟨inside, same ▸ Int.toNat_of_nonneg inside.number_nonneg⟩
  · rintro ⟨inside, isNumber⟩
    rw [grid.offset_of_inside inside, ← isNumber, Int.toNat_natCast]

/-- What is not a position of the shape is refused. -/
theorem exists_error_of_not_inside (grid : Grid) {position : List Int} (outside : ¬Inside position grid.shape) :
    ∃ error, grid.offset position = .error error := by
  cases found : grid.offset position with
  | error error => exact ⟨error, rfl⟩
  | ok place => exact absurd ((offset_eq_ok_iff grid position place).mp found).1 outside

/-- The positions of a shape are listed once each, in lexicographic order; the place in storage is the number in this
list, and the coordinates taken as often as the strides say; and whatever is no position has no place. -/
theorem offset_isRowMajor (grid : Grid) (static : Static grid.shape) :
    (positions grid.shape).Nodup ∧ (positions grid.shape).Pairwise (· < ·) ∧
      (∀ position, position ∈ positions grid.shape ↔ Inside position grid.shape) ∧
      (∀ (count : Nat) (below : count < (positions grid.shape).length),
        grid.offset (positions grid.shape)[count] = .ok count) ∧
      (∀ (position : List Int) (place : Nat), grid.offset position = .ok place ↔ Inside position grid.shape ∧
        (place : Int) = ((position.zip (strides grid.shape)).map fun (place, stride) => place * stride).sum) ∧
      ∀ position, ¬Inside position grid.shape → ∃ error, grid.offset position = .error error := by
  refine ⟨nodup_positions static, pairwise_positions static, fun position => mem_positions static,
    fun count below => ?_, fun position place => ?_, fun position => exists_error_of_not_inside grid⟩
  · have inside := inside_of_mem_positions static (List.getElem_mem below)
    exact (offset_eq_ok_iff grid _ count).mpr ⟨inside, (getElem_positions static below).symm⟩
  · rw [← number_eq_sum]
    exact offset_eq_ok_iff grid position place

/-- A matrix of two rows and three columns. -/
def matrix : Grid := ⟨[2, 3], .i64, #[]⟩

theorem offset_isRowMajor_matrix : Static matrix.shape ∧
    positions matrix.shape = [[0, 0], [0, 1], [0, 2], [1, 0], [1, 1], [1, 2]] ∧
      matrix.offset [1, 2] = .ok 5 ∧ ∃ error, matrix.offset [2, 0] = .error error := by
  have static : Static matrix.shape := by simp [Static, matrix]
  obtain ⟨-, -, -, numbered, -, refused⟩ := offset_isRowMajor matrix static
  exact ⟨static, by decide, numbered 5 (by decide), refused [2, 0] fun inside => by
    have := (inside_cons.mp inside).1
    omega⟩

end Grid

end TensorIR
