import TensorIR.Proofs.Emission.Arithmetic
import TensorIR.Proofs.Emission.Nests
import TensorIR.Proofs.Tensors.Reductions

/-!
# Positions computed from positions

Inside loops the coordinates of a position are values, and operations compute from them where to read and where to
store: a coordinate that stays at zero where a dimension is stretched, or the coordinates in another shape that
belong to the same number in row-major order.

## Main definitions

* `Shape.located` — the position with a given number, by quotients and remainders

## Main results

* `Shape.located_number` — the position with the number of a position is this position
* `Scene.emits_alignedPosition` — the position in an operand that is broadcast
* `Scene.emits_linearFrom`, `Scene.emits_positionOf` — from a position to its number and back
-/

namespace TensorIR

open Number (asPosition)
open Shape (Inside Static number product aligned)

/-! ### Numbers of positions -/

namespace Shape

variable {position shape : List Int}

/-- The coordinates of the position with a given number, by quotients and remainders. Only the remainders of the
number at the first dimension matter. -/
def located (total : Int) : List Int → List Int
  | [] => []
  | size :: shape => (total.tdiv (product shape)).tmod size :: located total shape

theorem located_number_add (inside : Inside position shape) {passed : Int} (nonneg : 0 ≤ passed) :
    located (passed * product shape + number position shape) shape = position := by
  induction inside generalizing passed with
  | nil => rfl
  | @cons place size position shape below inside ih =>
    have positive := Inside.product_pos inside
    have rest : 0 ≤ passed * size + place :=
      Int.add_nonneg (Int.mul_nonneg nonneg (below.1.trans below.2.le)) below.1
    -- What has been passed before the dimension is a multiple of its size, which the remainder drops.
    have split : passed * product (size :: shape) + number (place :: position) (size :: shape) =
        (passed * size + place) * product shape + number position shape := by
      rw [product_cons, number_cons]
      ring
    have quotient : ((passed * size + place) * product shape + number position shape).tdiv (product shape) =
        passed * size + place := by
      rw [Int.tdiv_eq_ediv_of_nonneg (Int.add_nonneg (Int.mul_nonneg rest positive.le) (Inside.number_nonneg inside)),
        Int.add_comm, Int.add_mul_ediv_right _ _ positive.ne',
        Int.ediv_eq_zero_of_lt (Inside.number_nonneg inside) (Inside.number_lt inside), Int.zero_add]
    have remainder : (passed * size + place).tmod size = place := by
      rw [Int.tmod_eq_emod_of_nonneg rest, Int.add_comm, Int.add_mul_emod_self_right,
        Int.emod_eq_of_lt below.1 below.2]
    rw [split, located, quotient, remainder, ih rest]

/-- A position is found again from its number. -/
theorem located_number (inside : Inside position shape) : located (number position shape) shape = position := by
  simpa using located_number_add inside le_rfl

end Shape

namespace Scene

variable {σ : Type} {start : Scene σ} {value : ValueId} {values : List ValueId} {position : σ → List Int}

namespace Locates

theorem cons {place : σ → Int} (holds : start.HoldsInt value .index place) (locates : start.Locates values position) :
    start.Locates (value :: values) fun s => place s :: position s :=
  (single holds).append locates

theorem exists_cons (locates : start.Locates (value :: values) position) :
    ∃ place rest, start.HoldsInt value .index place ∧ start.Locates values rest ∧
      position = fun s => place s :: rest s := by
  obtain ⟨numbers, isPosition, holds⟩ := locates
  cases holds with
  | @cons _ place _ others holds further =>
    exact ⟨place, _, holds, ⟨others, fun _ => rfl, further⟩, funext isPosition⟩

theorem eq_nil (locates : start.Locates [] position) : position = fun _ => [] := by
  obtain ⟨numbers, isPosition, holds⟩ := locates
  cases holds
  exact funext isPosition

theorem drop (locates : start.Locates values position) (count : Nat) :
    start.Locates (values.drop count) fun s => (position s).drop count := by
  obtain ⟨numbers, isPosition, holds⟩ := locates
  exact ⟨numbers.drop count, fun s => by simp only [isPosition, List.map_drop], List.forall₂_drop count holds⟩

theorem length_eq (locates : start.Locates values position) (s : σ) : (position s).length = values.length := by
  obtain ⟨numbers, isPosition, holds⟩ := locates
  rw [isPosition, List.length_map, holds.length_eq]

end Locates

/-! ### Stretched dimensions -/

/-- Where a dimension of size one is stretched, its coordinate stays at zero. -/
theorem emits_broadcastPosition (shape : List Int) :
    ∀ {start : Scene σ} {values : List ValueId} {position : σ → List Int}, start.Locates values position →
      start.Emits (Loops.broadcastPosition shape values) start.memory fun result now =>
        now.Locates result fun s =>
          ((position s).zip shape).map fun (place, size) => if size = 1 then 0 else place := by
  induction shape with
  | nil =>
    intro start values position _
    refine Emits.pure ?_
    simpa using Locates.nil
  | cons size shape ih =>
    intro start values position locates
    cases values with
    | nil =>
      rw [locates.eq_nil]
      exact Emits.pure .nil
    | cons value values =>
      obtain ⟨place, rest, holds, further, rfl⟩ := locates.exists_cons
      have step : Loops.broadcastPosition (size :: shape) (value :: values) =
          (if size = 1 then Build.index 0 else pure value) >>= fun first =>
            Loops.broadcastPosition shape values >>= fun others => pure (first :: others) := by
        rw [Loops.broadcastPosition]
        split <;> rfl
      have first : start.Emits (if size = 1 then Build.index 0 else pure value) start.memory fun value now =>
          now.HoldsInt value .index fun s => if size = 1 then 0 else place s := by
        split
        · exact (emits_index start 0).imp fun _ _ _ holds => by simpa using holds
        · exact Emits.pure holds
      rw [step]
      refine first.bind fun value now reaches memory holds => ?_
      refine (memory ▸ ih (further.reaches reaches)).bind fun others last reaches memory locates => ?_
      exact (Emits.pure (Locates.cons (holds.reaches reaches) locates)).of_memory memory

/-- The position in an operand that belongs to a position of the result. -/
theorem emits_alignedPosition (shape : List Int) (locates : start.Locates values position) :
    start.Emits (Loops.alignedPosition shape values) start.memory fun result now =>
      now.Locates result fun s => aligned shape (position s) := by
  refine (emits_broadcastPosition shape (locates.drop _)).imp fun result now _ located => ?_
  have same : (fun s => aligned shape (position s)) = fun s =>
      (((position s).drop (values.length - shape.length)).zip shape).map fun (place, size) =>
        if size = 1 then 0 else place := by
    funext s
    rw [aligned, locates.length_eq s]
  rwa [same]

/-! ### Dimensions that are left out -/

/-- The coordinates of dimensions that a sum runs over are left out, or they stay at zero. -/
theorem emits_reducedPosition (dims : List Nat) (keep : Bool) (values : List ValueId) :
    ∀ (index : Nat) {start : Scene σ} {position : σ → List Int}, start.Locates values position →
      start.Emits (Loops.reducedPosition dims keep index values) start.memory fun result now =>
        now.Locates result fun s => Shape.remaining (fun dim => dims.contains (dim + index)) (Shape.kept keep 0)
          (position s) := by
  induction values with
  | nil =>
    intro index start position locates
    rw [locates.eq_nil]
    exact Emits.pure .nil
  | cons value values ih =>
    intro index start position locates
    obtain ⟨place, rest, holds, further, rfl⟩ := locates.exists_cons
    -- The first position is kept, replaced by zero or left out. The others follow without it.
    have step : Loops.reducedPosition dims keep index (value :: values) =
        (if !dims.contains index then pure [value]
          else if keep then List.singleton <$> Build.index 0 else pure []) >>= fun first =>
            Loops.reducedPosition dims keep (index + 1) values >>= fun others => pure (first ++ others) := by
      rw [Loops.reducedPosition]
      split
      · rfl
      · split <;> rfl
    have first : start.Emits (if !dims.contains index then pure [value]
        else if keep then List.singleton <$> Build.index 0 else pure []) start.memory fun values now =>
          now.Locates values fun s =>
            if dims.contains index then (Shape.kept keep 0).toList else [place s] := by
      cases dims.contains index with
      | false => exact Emits.pure (Locates.single holds)
      | true =>
        cases keep with
        | false => exact Emits.pure .nil
        | true =>
          refine (emits_index start 0).bind fun zero now _ memory holds => ?_
          rw [Shape.asPosition_zero] at holds
          exact (Emits.pure (Locates.single holds)).of_memory memory
    rw [step]
    refine first.bind fun first now reaches memory located => ?_
    refine (memory ▸ ih (index + 1) (further.reaches reaches)).bind fun others last reaches memory locates => ?_
    have whole := (located.reaches reaches).append locates
    have same : (fun s => Shape.remaining (fun dim => dims.contains (dim + index)) (Shape.kept keep 0)
        (place s :: rest s)) = fun s => (if dims.contains index then (Shape.kept keep 0).toList else [place s]) ++
          Shape.remaining (fun dim => dims.contains (dim + (index + 1))) (Shape.kept keep 0) (rest s) := by
      funext s
      rw [Shape.remaining, Nat.zero_add]
      simp only [Nat.add_assoc, Nat.add_comm 1 index]
    rw [same]
    exact (Emits.pure whole).of_memory memory

/-! ### Row-major order -/

section Numbers

variable {a b c : σ → Int} {lhs rhs : ValueId} {kind : ArithKind} {compute : Int → Int → Option Int}

/-- The result of an operation on positions, when it is in range. -/
theorem emits_onIndices (isInt : kind.onInts? = some compute) (lhsHolds : start.HoldsInt lhs .index a)
    (rhsHolds : start.HoldsInt rhs .index b) (computes : ∀ s, compute (a s) (b s) = some (c s)) :
    start.Emits (Loops.onIndices kind lhs rhs) start.memory fun value now => now.HoldsInt value .index c :=
  emits_intOp .index isInt lhsHolds rhsHolds computes

/-- A constant position that is found as it is, wherever it is read at all. -/
theorem emits_position (start : Scene σ) {position : Int} (exact : σ → asPosition position = position) :
    start.Emits (Build.index position) start.memory fun value now => now.HoldsInt value .index fun _ => position :=
  (emits_index start position).imp fun _ _ _ holds =>
    ⟨holds.typed, fun s => by rw [holds.known s, exact s]⟩

/-- The number of a position, added to a number. -/
theorem emits_linearFrom (shape : List Int) :
    ∀ {start : Scene σ} {linear : ValueId} {base : σ → Int} {values : List ValueId} {position : σ → List Int},
      start.HoldsInt linear .index base → start.Locates values position → (∀ s, Inside (position s) shape) →
      (∀ stride ∈ Shape.strides shape, stride ≤ 2 ^ 53) →
      (∀ s, 0 ≤ base s ∧ base s + number (position s) shape ≤ Number.maxInt64) →
        start.Emits (Loops.linearFrom linear (values.zip (Shape.strides shape))) start.memory fun value now =>
          now.HoldsInt value .index fun s => base s + number (position s) shape := by
  induction shape with
  | nil =>
    intro start linear base values position holds locates inside _ _
    have same : (fun s => base s + number (position s) []) = base := by
      funext s
      rw [List.forall₂_nil_right_iff.mp (inside s), Shape.number_nil, Int.add_zero]
    rw [Shape.strides, List.zip_nil_right, same]
    exact Emits.pure holds
  | cons size shape ih =>
    intro start linear base values position holds locates inside small bounded
    cases values with
    | nil =>
      have same : (fun s => base s + number (position s) (size :: shape)) = base := by
        funext s
        cases locates.eq_nil ▸ inside s
      rw [same]
      exact Emits.pure holds
    | cons value values =>
      obtain ⟨place, rest, holdsPlace, further, rfl⟩ := locates.exists_cons
      have later (s : σ) : Inside (rest s) shape := (Shape.inside_cons.mp (inside s)).2
      have term_nonneg (s : σ) : 0 ≤ place s * product shape :=
        Int.mul_nonneg (Shape.inside_cons.mp (inside s)).1.1 (Inside.product_pos (later s)).le
      have rest_nonneg (s : σ) : 0 ≤ number (rest s) shape := Inside.number_nonneg (later s)
      have total (s : σ) : base s + (place s * product shape + number (rest s) shape) ≤ Number.maxInt64 :=
        (bounded s).2
      -- All that is computed on the way is at most the whole number, so nothing wraps around.
      have wraps (s : σ) {count : Int} (nonneg : 0 ≤ count)
          (most : count ≤ base s + (place s * product shape + number (rest s) shape)) :
          Number.wrapInt64 count = count :=
        Number.wrapInt64_of_mem_range ⟨nonneg.trans' (by decide), most.trans (total s)⟩
      have isTerm (s : σ) : some (Number.wrapInt64 (place s * product shape)) = some (place s * product shape) := by
        rw [wraps s (term_nonneg s) (by linarith [(bounded s).1, rest_nonneg s])]
      have isSum (s : σ) :
          some (Number.wrapInt64 (base s + place s * product shape)) = some (base s + place s * product shape) := by
        rw [wraps s (by linarith [(bounded s).1, term_nonneg s]) (by linarith [rest_nonneg s])]
      have exact (s : σ) : asPosition (product shape) = product shape :=
        Shape.asPosition_eq (Inside.product_pos (later s)).le (small _ (by simp [Shape.strides_cons]))
      rw [Shape.strides_cons, List.zip_cons_cons, Loops.linearFrom]
      refine (emits_position start exact).bind fun stride atStride reachesStride memoryStride holdsStride => ?_
      refine (emits_onIndices rfl (holdsPlace.reaches reachesStride) holdsStride isTerm).bind
        fun term atTerm reachesTerm memoryTerm holdsTerm => ?_
      have reaches := reachesStride.trans reachesTerm
      refine (emits_onIndices rfl (holds.reaches reaches) holdsTerm isSum).bind
        fun sum atSum reachesSum memorySum holdsSum => ?_
      have others : atSum.Locates values rest := further.reaches (reaches.trans reachesSum)
      have goesOn := ih holdsSum others later (fun stride member => small stride (Shape.mem_strides_tail member))
        fun s => ⟨Int.add_nonneg (bounded s).1 (term_nonneg s), (Int.add_assoc ..).trans_le (total s)⟩
      refine (goesOn.of_memory ((memorySum.trans memoryTerm).trans memoryStride)).imp fun value now _ holds => ?_
      simpa only [Shape.number_cons, Int.add_assoc] using holds

theorem quotient?_of_pos {a b : Int} (positive : 0 < b) : quotient? a b = some (a.tdiv b) :=
  if_neg (by omega)

theorem remainder?_of_pos {a b : Int} (positive : 0 < b) : remainder? a b = some (a.tmod b) :=
  if_neg (by omega)

/-- The position with a given number. -/
theorem emits_positionOf (shape : List Int) :
    ∀ {start : Scene σ} {linear : ValueId} {total : σ → Int}, start.HoldsInt linear .index total →
      (σ → ∀ size ∈ shape, 0 < size) → (∀ size ∈ shape, size ≤ 2 ^ 53) →
      (∀ stride ∈ Shape.strides shape, stride ≤ 2 ^ 53) →
        start.Emits (Loops.positionOf linear (shape.zip (Shape.strides shape))) start.memory fun values now =>
          now.Locates values fun s => Shape.located (total s) shape := by
  induction shape with
  | nil => exact fun _ _ _ _ => Emits.pure .nil
  | cons size shape ih =>
    intro start linear total holds positive sizes strides
    rw [Shape.strides_cons] at strides
    have stride_pos (s : σ) : 0 < product shape :=
      Inside.product_pos (Shape.inside_zeros fun size member => positive s size (List.mem_cons_of_mem _ member))
    have size_pos (s : σ) : 0 < size := positive s size List.mem_cons_self
    rw [Shape.strides_cons, List.zip_cons_cons, Loops.positionOf]
    refine (emits_position start fun s => Shape.asPosition_eq (stride_pos s).le (strides _ List.mem_cons_self)).bind
      fun stride atStride reachesStride memoryStride holdsStride => ?_
    refine (emits_position atStride fun s => Shape.asPosition_eq (size_pos s).le (sizes _ List.mem_cons_self)).bind
      fun bound atBound reachesBound memoryBound holdsBound => ?_
    have reachesBounds := reachesStride.trans reachesBound
    refine (emits_onIndices rfl (holds.reaches reachesBounds) (holdsStride.reaches reachesBound)
      fun s => quotient?_of_pos (stride_pos s)).bind
      fun quotient atQuotient reachesQuotient memoryQuotient holdsQuotient => ?_
    refine (emits_onIndices rfl holdsQuotient (holdsBound.reaches reachesQuotient)
      fun s => remainder?_of_pos (size_pos s)).bind fun place atPlace reachesPlace memoryPlace holdsPlace => ?_
    have reaches := (reachesBounds.trans reachesQuotient).trans reachesPlace
    have goesOn := ih (holds.reaches reaches) (fun s size member => positive s size (List.mem_cons_of_mem _ member))
      (fun size member => sizes size (List.mem_cons_of_mem _ member))
      fun stride member => strides stride (List.mem_cons_of_mem _ member)
    refine goesOn.bind fun others last reachesLast memoryLast locates => ?_
    refine (Emits.pure (Locates.cons (holdsPlace.reaches reachesLast) locates)).of_memory ?_
    exact (((memoryLast.trans memoryPlace).trans memoryQuotient).trans memoryBound).trans memoryStride

/-- The position in another shape that has the same number as a position. -/
theorem emits_renumbered {source shape : List Int} {origin : σ → List Int} (locates : start.Locates values position)
    (inside : ∀ s, Inside (position s) shape) (originInside : ∀ s, Inside (origin s) source)
    (same : ∀ s, number (origin s) source = number (position s) shape)
    (small : ∀ item ∈ Shape.strides shape ++ source ++ Shape.strides source, item ≤ 2 ^ 53)
    (bounded : product shape ≤ Number.maxInt64) :
    start.Emits (do
      let zero ← Build.index 0
      let linear ← Loops.linearFrom zero (values.zip (Shape.strides shape))
      Loops.positionOf linear (source.zip (Shape.strides source))) start.memory fun result now =>
        now.Locates result origin := by
  simp only [List.mem_append, or_imp, forall_and] at small
  refine (emits_position start fun _ => Shape.asPosition_zero).bind fun zero atZero reaches memory holds => ?_
  have linear := emits_linearFrom shape holds (locates.reaches reaches) inside small.1.1 fun s =>
    ⟨le_rfl, (Int.zero_add _).trans_le ((Inside.number_lt (inside s)).le.trans bounded)⟩
  refine linear.bind fun total atTotal reachesTotal memoryTotal holdsTotal => ?_
  have positive (s : σ) : ∀ size ∈ source, 0 < size := Inside.sizes_pos (originInside s)
  refine ((emits_positionOf source holdsTotal positive small.1.2 small.2).of_memory
    (memoryTotal.trans memory)).imp fun result now _ located => ?_
  have found : (fun s => Shape.located (0 + number (position s) shape) source) = origin := by
    funext s
    rw [Int.zero_add, ← same s, Shape.located_number (originInside s)]
  exact found ▸ located

end Numbers

end Scene

end TensorIR
