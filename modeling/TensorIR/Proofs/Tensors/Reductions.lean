import TensorIR.Proofs.Tensors.Sums

/-!
# Dimensions that a sum runs over

A sum leaves the sizes and the coordinates of some dimensions out. If the dimensions are kept, a size of one and a
coordinate of zero stand in their place. Both forms number the positions in the same way.

## Main definitions

* `Shape.remaining` — what remains of a list when dimensions are left out or filled
* `Shape.isSummed` — a sum over listed dimensions runs over a dimension

## Main results

* `Shape.Inside.remaining` — the coordinates that remain lie inside of the sizes that remain
* `Shape.number_remaining`, `Shape.product_remaining` — kept dimensions change no number
* `Shape.foldl_set` — dimensions that are set one after the other are filled
-/

namespace TensorIR

namespace Shape

/-- What remains of a list when the items at some dimensions are dropped. A given item stands in the place of each
of them, if there is one. -/
def remaining (dropped : Nat → Bool) (fill : Option Int) : List Int → List Int
  | [] => []
  | item :: items =>
    (if dropped 0 then fill.toList else [item]) ++ remaining (fun dim => dropped (dim + 1)) fill items

/-- A sum over listed dimensions runs over a dimension: it is listed, counted from the front or from the end, or
nothing is listed at all. -/
def isSummed (listed : List Int) (rank dim : Nat) : Bool :=
  listed.isEmpty || listed.contains (dim : Int) || listed.contains ((dim : Int) - rank)

variable {dropped : Nat → Bool} {fill : Option Int} {items position shape : List Int}

theorem remaining_congr {other : Nat → Bool} (same : ∀ dim < items.length, dropped dim = other dim) :
    remaining dropped fill items = remaining other fill items := by
  induction items generalizing dropped other with
  | nil => rfl
  | cons item items ih =>
    rw [remaining, remaining, same 0 (Nat.succ_pos _), ih fun dim below => same (dim + 1) (Nat.succ_lt_succ below)]

theorem remaining_of_none (none : ∀ dim < items.length, dropped dim = false) :
    remaining dropped fill items = items := by
  induction items generalizing dropped with
  | nil => rfl
  | cons item items ih =>
    rw [remaining, none 0 (Nat.succ_pos _), ih fun dim below => none (dim + 1) (Nat.succ_lt_succ below)]
    rfl

theorem length_remaining_some (item : Int) : (remaining dropped (some item) items).length = items.length := by
  induction items generalizing dropped with
  | nil => rfl
  | cons first items ih =>
    rw [remaining, List.length_append, ih, List.length_cons]
    split <;> simp [Nat.add_comm]

theorem length_remaining_none_le : (remaining dropped none items).length ≤ items.length := by
  induction items generalizing dropped with
  | nil => rfl
  | cons first items ih =>
    have later := @ih fun dim => dropped (dim + 1)
    rw [remaining, List.length_append, List.length_cons]
    split <;> simp <;> omega

/-- If as many items remain as there were, none has been dropped. -/
theorem dropped_eq_false (full : (remaining dropped none items).length = items.length) :
    ∀ dim < items.length, dropped dim = false := by
  induction items generalizing dropped with
  | nil => exact fun dim below => absurd below (Nat.not_lt_zero dim)
  | cons first items ih =>
    have later := @length_remaining_none_le (fun dim => dropped (dim + 1)) items
    rw [remaining, List.length_append, List.length_cons] at full
    cases isDropped : dropped 0 with
    | true =>
      simp [isDropped] at full
      omega
    | false =>
      have others : (remaining (fun dim => dropped (dim + 1)) none items).length = items.length := by
        simp only [isDropped, Bool.false_eq_true, if_false, List.length_singleton] at full
        omega
      intro dim below
      cases dim with
      | zero => exact isDropped
      | succ dim => exact ih others dim (Nat.lt_of_succ_lt_succ below)

theorem Static.remaining (static : Static shape) (nonneg : ∀ size ∈ fill, 0 ≤ size) :
    Static (remaining dropped fill shape) := by
  induction shape generalizing dropped with
  | nil => exact static
  | cons size shape ih =>
    obtain ⟨sizeNonneg, later⟩ := static_cons.mp static
    intro other member
    rcases List.mem_append.mp member with member | member
    · split at member
      case isTrue => exact nonneg other (by simpa using member)
      case isFalse => exact List.mem_singleton.mp member ▸ sizeNonneg
    · exact ih later other member

/-- The coordinates that remain lie inside of the sizes that remain. -/
theorem Inside.remaining {place size : Option Int} (inside : Inside position shape)
    (fills : List.Forall₂ (fun place size => 0 ≤ place ∧ place < size) place.toList size.toList) :
    Inside (remaining dropped place position) (remaining dropped size shape) := by
  induction inside generalizing dropped with
  | nil => exact .nil
  | cons below _ ih =>
    refine List.rel_append ?_ ih
    split
    · exact fills
    · exact .cons below .nil

/-- What stands in the place of dimensions that are dropped, if they are kept. -/
def kept (keep : Bool) (item : Int) : Option Int := if keep then some item else none

/-- Kept dimensions change no number of elements. -/
theorem product_remaining (keep : Bool) :
    product (remaining dropped (kept keep 1) shape) = product (remaining dropped (some 1) shape) := by
  induction shape generalizing dropped with
  | nil => rfl
  | cons size shape ih =>
    rw [remaining, remaining]
    split
    · cases keep <;> simp [kept, ← ih]
    · simp [ih]

/-- Kept dimensions change no number of a position. -/
theorem number_remaining (keep : Bool) :
    number (remaining dropped (kept keep 0) position) (remaining dropped (kept keep 1) shape) =
      number (remaining dropped (some 0) position) (remaining dropped (some 1) shape) := by
  induction position generalizing dropped shape with
  | nil => rw [remaining, remaining, number_nil, number_nil]
  | cons place position ih =>
    cases shape with
    | nil => rw [remaining, remaining, number_nil_right, number_nil_right]
    | cons size shape =>
      rw [remaining, remaining, remaining, remaining]
      split
      · cases keep <;> simp [kept, number_cons, ← ih]
      · simp [number_cons, ih, product_remaining]

theorem Inside.remaining_kept (inside : Inside position shape) (keep : Bool) :
    Inside (Shape.remaining dropped (kept keep 0) position) (Shape.remaining dropped (kept keep 1) shape) := by
  refine inside.remaining ?_
  cases keep
  · exact .nil
  · exact .cons (by decide) .nil

theorem Static.remaining_kept (static : Static shape) (keep : Bool) :
    Static (Shape.remaining dropped (kept keep 1) shape) := by
  refine static.remaining fun size member => ?_
  cases keep
  · cases member
  · cases member
    decide

/-! ### Dimensions one after the other -/

/-- If as many sizes remain as there were, it makes no difference whether dimensions are kept. -/
theorem remaining_kept_length (keep : Bool) {size item : Int} (same : position.length = shape.length) :
    remaining dropped (kept ((remaining dropped (kept keep size) shape).length == shape.length) item) position =
      remaining dropped (kept keep item) position := by
  cases keep with
  | true =>
    have full : (remaining dropped (kept true size) shape).length = shape.length := length_remaining_some size
    rw [full, beq_self_eq_true]
  | false =>
    by_cases full : (remaining dropped (kept false size) shape).length = shape.length
    · have none : ∀ dim < position.length, dropped dim = false := same ▸ dropped_eq_false full
      rw [remaining_of_none none, remaining_of_none none]
    · rw [beq_false_of_ne full]

theorem getElem?_remaining_some (item : Int) (dim : Nat) :
    (remaining dropped (some item) items)[dim]? =
      (items[dim]?).map fun first => if dropped dim then item else first := by
  induction items generalizing dropped dim with
  | nil => rfl
  | cons first items ih =>
    have front : (if dropped 0 then (some item).toList else [first]) = [if dropped 0 then item else first] := by
      split <;> rfl
    rw [remaining, front]
    cases dim with
    | zero => rfl
    | succ dim => exact ih dim

/-- Dimensions that are set one after the other are filled. -/
theorem foldl_set (dims : List Nat) (item : Int) :
    dims.foldl (fun items dim => items.set dim item) items = remaining dims.contains (some item) items := by
  refine List.ext_getElem? fun dim => ?_
  rw [getElem?_remaining_some]
  induction dims generalizing items with
  | nil => simp
  | cons first dims ih =>
    rw [List.foldl_cons, ih, List.getElem?_set]
    cases found : items[dim]? with
    | none =>
      have above := List.getElem?_eq_none_iff.mp found
      simp
      omega
    | some other =>
      have below := (List.getElem?_eq_some_iff.mp found).1
      by_cases same : first = dim
      · subst same
        simp [below]
      · simp [same, Ne.symm same]

end Shape

end TensorIR
