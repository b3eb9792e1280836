import Mathlib.Order.Bounds.Basic
import TensorIR.Proofs.Bounds.CommonSubtypes
import TensorIR.Proofs.Bounds.CommonSupertypes

/-!
# What is known about a tensor, as an order

Among torch types in general, two different ones may lie below each other, such as `any` and the optional type of
`any`. What is known about a tensor is partially ordered: from each other two different types do not know everything.
What two types know together is their greatest lower bound, which there is unless they contradict each other, and what
both of them know is their least upper bound.

## Main results

* `TensorInfo.isSubtype_antisymm` — types that lie below each other know the same
* `TensorInfo.meet?_eq_some_iff`, `TensorInfo.meet?_eq_none_iff` — when two types have a greatest lower bound
* `TensorInfo.isLUB_join` — two types have a least upper bound
* `TensorInfo.isPartialOrder_with_bounds` — all of this together
-/

namespace TensorIR

namespace TensorInfo

theorem isSubtypeOption_antisymm {α : Type} [DecidableEq α] {first second : Option α}
    (below : isSubtypeOption first second = true) (above : isSubtypeOption second first = true) :
    first = second := by
  cases first with
  | none =>
    cases second with
    | none => rfl
    | some value => cases below
  | some value => exact ((isSubtypeOption_some second value).mp above).symm

theorem eq_of_forall₂_isSubtypeOption {first second : List (Option Int)}
    (below : List.Forall₂ (fun a b => isSubtypeOption a b = true) first second)
    (above : List.Forall₂ (fun a b => isSubtypeOption a b = true) second first) : first = second := by
  induction below with
  | nil => rfl
  | cons head _ ih =>
    cases above with
    | cons next later => rw [isSubtypeOption_antisymm head next, ih later]

theorem isSubtypeSizes_antisymm {first second : Option (List (Option Int))}
    (below : isSubtypeSizes first second = true) (above : isSubtypeSizes second first = true) :
    first = second := by
  cases second with
  | none =>
    cases first with
    | none => rfl
    | some sizes => cases above
  | some sizes =>
    -- Both have the same number of sizes, and these are compared one by one.
    obtain ⟨more, rfl, eachBelow⟩ := (isSubtypeSizes_some_iff _ _).mp below
    obtain ⟨_, same, eachAbove⟩ := (isSubtypeSizes_some_iff _ _).mp above
    cases same
    rw [eq_of_forall₂_isSubtypeOption eachBelow eachAbove]

/-- What is known to each from the other is the same. -/
theorem isSubtype_antisymm {first second : TensorInfo} (below : first.isSubtype second = true)
    (above : second.isSubtype first = true) : first = second := by
  rw [isSubtype, Bool.and_eq_true] at below above
  have sizes_eq : first.sizes = second.sizes := isSubtypeSizes_antisymm below.1 above.1
  have dtype_eq : first.dtype = second.dtype := isSubtypeOption_antisymm below.2 above.2
  cases first
  cases second
  cases sizes_eq
  cases dtype_eq
  rfl

/-- More knowledge stands below less. -/
instance : PartialOrder TensorInfo where
  le first second := first.isSubtype second = true
  le_refl := isSubtype_refl
  le_trans _ _ _ := isSubtype_trans
  le_antisymm _ _ := isSubtype_antisymm

theorem isSubtype_iff_le {first second : TensorInfo} : first.isSubtype second = true ↔ first ≤ second :=
  Iff.rfl

variable {first second both : TensorInfo}

theorem isGLB_of_meet? (met : first.meet? second = some both) : IsGLB {first, second} both := by
  obtain ⟨below, beside⟩ := isSubtype_of_meet? met
  constructor
  · rintro info (rfl | rfl)
    · exact below
    · exact beside
  · intro known within
    obtain ⟨other, same, knows⟩ := exists_meet? (within (.inl rfl)) (within (.inr rfl))
    obtain rfl : both = other := Option.some.inj (met.symm.trans same)
    exact knows

/-- Nothing is known from two types together exactly if nothing lies below both. -/
theorem meet?_eq_none_iff : first.meet? second = none ↔ ¬BddBelow {first, second} := by
  constructor
  · rintro none ⟨known, within⟩
    obtain ⟨both, met, -⟩ := exists_meet? (within (.inl rfl)) (within (.inr rfl))
    cases none.symm.trans met
  · intro unbounded
    rw [Option.eq_none_iff_forall_ne_some]
    intro both met
    exact unbounded ⟨both, (isGLB_of_meet? met).1⟩

/-- What two types know together is their greatest lower bound. -/
theorem meet?_eq_some_iff : first.meet? second = some both ↔ IsGLB {first, second} both := by
  refine ⟨isGLB_of_meet?, fun isGreatest => ?_⟩
  cases met : first.meet? second with
  | none => exact absurd ⟨both, isGreatest.1⟩ (meet?_eq_none_iff.mp met)
  | some other => rw [(isGLB_of_meet? met).unique isGreatest]

/-- What both of two types know is their least upper bound. -/
theorem isLUB_join (first second : TensorInfo) : IsLUB {first, second} (first.join second) := by
  obtain ⟨below, beside⟩ := isSubtype_join first second
  constructor
  · rintro info (rfl | rfl)
    · exact below
    · exact beside
  · intro upper above
    exact join_isSubtype (above (.inl rfl)) (above (.inr rfl))

/-- What is known about a tensor is partially ordered. Two types have a greatest lower bound exactly if something lies
below both, and this is what they know together; what both of them know is always their least upper bound. -/
theorem isPartialOrder_with_bounds :
    IsPartialOrder TensorInfo (fun first second => first.isSubtype second = true) ∧
      ∀ first second : TensorInfo,
        (∀ both, first.meet? second = some both ↔ IsGLB {first, second} both) ∧
        (first.meet? second = none ↔ ¬∃ known : TensorInfo,
          known.isSubtype first = true ∧ known.isSubtype second = true) ∧
        IsLUB {first, second} (first.join second) := by
  refine ⟨inferInstanceAs (IsPartialOrder TensorInfo (· ≤ ·)), fun first second => ⟨fun both => meet?_eq_some_iff, ?_,
    isLUB_join first second⟩⟩
  have bounded : BddBelow {first, second} ↔
      ∃ known : TensorInfo, known.isSubtype first = true ∧ known.isSubtype second = true := by
    simp only [BddBelow, Set.Nonempty, mem_lowerBounds, Set.mem_insert_iff, Set.mem_singleton_iff, forall_eq_or_imp,
      forall_eq, isSubtype_iff_le]
  rw [meet?_eq_none_iff, bounded]

end TensorInfo

end TensorIR
