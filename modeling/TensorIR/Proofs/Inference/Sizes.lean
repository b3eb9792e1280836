import TensorIR.Proofs.Inference.Declared

/-!
# Sizes that are not known

A list of sizes some of which are not known stands for the shapes that it may turn out to be. The common sizes of
two such lists stand for exactly the common shapes that these shapes may have: nothing is promised that need not
hold, and nothing is left open that is settled. If there are no common sizes, then no two of the shapes go together.

The sizes that a view asks for stand for shapes as well, if one of them is left open. The view is refused unless
exactly one of these shapes has as many elements as the operand: with a size of zero among the others, the one that
is left open could be any size or none.

## Main definitions

* `Shape.IsCompletion` — a shape that a list of sizes may turn out to be
* `Shape.BroadcastsTo` — a common shape that two lists of sizes may turn out to have
* `Shape.requested` — the sizes that are asked for, of which the one that is left open is not known
* `Shape.IsView` — a shape that the sizes stand for, with as many elements as the operand

## Main results

* `Shape.broadcastsTo_iff` — the common sizes stand for the common shapes
* `Shape.toOption_broadcastStatic` — common shapes before and after lowering
* `Shape.broadcast_isBest` — what is known about a common shape is forced, and what is not known is open
* `Shape.isCompletion_requested_iff` — the shapes that sizes stand for if one of them is left open
* `Shape.reshape_eq_ok_iff_unique` — a view has sizes if it can have only one shape, and they are those of the shape
-/

namespace TensorIR

namespace Shape

section Completions

variable {a b sizes : List (Option Int)} {x y shape : List Int}

/-! ### Shapes that a list of sizes stands for -/

/-- The sizes that are known are numbers of elements. -/
def Sized (sizes : List (Option Int)) : Prop := ∀ known ∈ sizes, ∀ size ∈ known, 0 ≤ size

/-- A size that a dimension may turn out to have. -/
def Allows (known : Option Int) (size : Int) : Prop := 0 ≤ size ∧ (known = none ∨ known = some size)

/-- A shape that a list of sizes may turn out to be. -/
def IsCompletion (shape : List Int) (sizes : List (Option Int)) : Prop :=
  List.Forall₂ (fun size known => Allows known size) shape sizes

theorem allows_some_iff {known size : Int} : Allows (some known) size ↔ 0 ≤ known ∧ size = known := by
  simp only [Allows, reduceCtorEq, Option.some.injEq, false_or]
  constructor
  · rintro ⟨nonneg, rfl⟩
    exact ⟨nonneg, rfl⟩
  · rintro ⟨nonneg, rfl⟩
    exact ⟨nonneg, rfl⟩

theorem IsCompletion.length_eq (completion : IsCompletion shape sizes) : shape.length = sizes.length :=
  List.Forall₂.length_eq completion

/-- At least as much is known about a completion as about what it completes. -/
theorem IsCompletion.below (completion : IsCompletion shape sizes) : SizesBelow (shape.map some) sizes := by
  refine List.forall₂_map_left_iff.mpr (completion.imp fun size known allowed => ?_)
  rcases allowed.2 with rfl | rfl
  · rfl
  · exact TensorInfo.isSubtypeOption_refl _

/-- The completion that has one size wherever none is known. -/
def completedWith (size : Int) (sizes : List (Option Int)) : List Int := sizes.map (·.getD size)

theorem isCompletion_completedWith (sized : Sized sizes) {size : Int} (nonneg : 0 ≤ size) :
    IsCompletion (completedWith size sizes) sizes := by
  refine List.forall₂_map_left_iff.mpr (List.forall₂_same.mpr fun known member => ?_)
  cases known with
  | none => exact ⟨nonneg, .inl rfl⟩
  | some known => exact ⟨sized _ member known rfl, .inr rfl⟩

/-! #### Dimensions that are missing -/

theorem Sized.padded (sized : Sized sizes) (rank : Nat) : Sized (padded rank sizes) := by
  intro known member
  rcases List.mem_append.mp member with one | old
  · rw [List.eq_of_mem_replicate one]
    exact fun size isSize => Option.some.inj isSize ▸ Int.one_nonneg
  · exact sized known old

/-- Sizes with ones in front are completed by completing the sizes. -/
theorem isCompletion_padded_iff {rank : Nat} :
    IsCompletion shape (padded rank a) ↔ ∃ x, IsCompletion x a ∧ shape = raised rank x := by
  -- A size of one is completed by a one only, so the ones in front stay, however many there are.
  have ones (count : Nat) : IsCompletion shape (List.replicate count (some 1) ++ a) ↔
      ∃ x, IsCompletion x a ∧ shape = List.replicate count 1 ++ x := by
    induction count generalizing shape with
    | zero => simp
    | succ count ih =>
      rw [List.replicate_succ, List.cons_append, IsCompletion, List.forall₂_cons_right_iff]
      constructor
      · rintro ⟨size, rest, allowed, completion, rfl⟩
        obtain ⟨x, inner, rfl⟩ := ih.mp completion
        obtain ⟨-, rfl⟩ := allows_some_iff.mp allowed
        exact ⟨x, inner, rfl⟩
      · rintro ⟨x, completion, rfl⟩
        exact ⟨1, _, allows_some_iff.mpr ⟨Int.one_nonneg, rfl⟩, ih.mpr ⟨x, completion, rfl⟩, rfl⟩
  rw [padded, ones]
  refine exists_congr fun x => and_congr_right fun completion => ?_
  rw [raised, completion.length_eq]

/-! ### Common shapes of completions -/

/-- A shape that is common to a completion of the one list of sizes and a completion of the other. -/
def BroadcastsTo (a b : List (Option Int)) (shape : List Int) : Prop :=
  ∃ x y, IsCompletion x a ∧ IsCompletion y b ∧ broadcastStatic x y = .ok shape

/-- Known shapes have the same common shape before and after lowering, where they have the same rank. -/
theorem toOption_broadcastStatic (x y : List Int) : (broadcastStatic x y).toOption =
    (ofBroadcast (raised (max x.length y.length) x) (raised (max x.length y.length) y)).toOption := by
  have same : (raised (max x.length y.length) x).length = (raised (max x.length y.length) y).length := by
    rw [length_raised (le_max_left _ _), length_raised (le_max_right _ _)]
  rw [broadcastStatic, broadcast, ofBroadcast, if_neg (not_not.mpr same)]
  simp only [List.length_map, padded_map_some, mapM_broadcastSize?_map_some]
  cases ((raised (max x.length y.length) x).zip (raised (max x.length y.length) y)).mapM fun pair =>
      stretched pair.1 pair.2 with
  | error => rfl
  | ok shape => simp [Except.toOption, Except.map]

theorem broadcastStatic_eq_ok_iff : broadcastStatic x y = .ok shape ↔
    ((raised (max x.length y.length) x).zip (raised (max x.length y.length) y)).mapM
      (fun pair => stretched pair.1 pair.2) = .ok shape := by
  have same : (raised (max x.length y.length) x).length = (raised (max x.length y.length) y).length := by
    rw [length_raised (le_max_left _ _), length_raised (le_max_right _ _)]
  rw [← toOption_eq_some_iff, toOption_broadcastStatic, ofBroadcast, if_neg (not_not.mpr same), toOption_eq_some_iff]

theorem broadcast_eq_ok_iff : broadcast a b = .ok sizes ↔
    ((padded (max a.length b.length) a).zip (padded (max a.length b.length) b)).mapM
      (fun pair => broadcastSize? pair.1 pair.2) = some sizes := by
  rw [broadcast]
  split
  case h_1 found _ isFound => rw [isFound]; simp
  case h_2 isFound => rw [isFound]; simp

/-- What may become of the common size of two dimensions is what two sizes that they may have stretch to. If one of
the two is not known, then it may turn out to be the other one. -/
theorem allows_iff_stretched {first second common : Option Int} {size : Int} (sized : ∀ known ∈ first, 0 ≤ known)
    (sizedToo : ∀ known ∈ second, 0 ≤ known) (isCommon : broadcastSize? first second = some common) :
    Allows common size ↔ ∃ u w, Allows first u ∧ Allows second w ∧ stretched u w = .ok size := by
  simp only [Allows]
  constructor
  · rintro ⟨nonneg, fits⟩
    refine ⟨first.getD size, second.getD size, ?_⟩
    -- A size that is not known takes the common one, which stretches to itself and any one beside it.
    cases first <;> cases second <;> grind [broadcastSize?.eq_def, stretched]
  · grind [broadcastSize?.eq_def, stretched]

/-- The dimensions of two lists of one length are stretched independently of each other. -/
theorem isCompletion_iff_stretched (sized : Sized a) (sizedToo : Sized b) (same : a.length = b.length)
    (common : (a.zip b).mapM (fun pair => broadcastSize? pair.1 pair.2) = some sizes) :
    IsCompletion shape sizes ↔ ∃ x y, IsCompletion x a ∧ IsCompletion y b ∧
      (x.zip y).mapM (fun pair => stretched pair.1 pair.2) = .ok shape := by
  induction a generalizing b sizes shape with
  | nil =>
    cases List.eq_nil_of_length_eq_zero same.symm
    cases common
    constructor
    · rintro ⟨⟩
      exact ⟨[], [], .nil, .nil, rfl⟩
    · rintro ⟨_, _, ⟨⟩, ⟨⟩, run⟩
      cases run
      exact .nil
  | cons first a ih =>
    obtain ⟨second, b, rfl⟩ := List.exists_cons_of_length_eq_add_one same.symm
    obtain ⟨firstSized, sized⟩ := List.forall_mem_cons.mp sized
    obtain ⟨secondSized, sizedToo⟩ := List.forall_mem_cons.mp sizedToo
    simp only [List.zip_cons_cons, List.mapM_cons, Option.bind_eq_bind, Option.bind_eq_some_iff, Option.pure_def,
      Option.some.injEq] at common
    obtain ⟨size, isSize, rest, isRest, rfl⟩ := common
    -- A completion chooses the first size, and the others without regard to it.
    have here (value : Int) : Allows size value ↔
        ∃ u w, Allows first u ∧ Allows second w ∧ stretched u w = .ok value :=
      allows_iff_stretched firstSized secondSized isSize
    have later (shape : List Int) : IsCompletion shape rest ↔ ∃ x y, IsCompletion x a ∧ IsCompletion y b ∧
        (x.zip y).mapM (fun pair => stretched pair.1 pair.2) = .ok shape :=
      ih sized sizedToo (Nat.succ.inj same) isRest
    constructor
    · rintro (_ | ⟨allowed, completion⟩)
      obtain ⟨u, w, allowsFirst, allowsSecond, isStretched⟩ := (here _).mp allowed
      obtain ⟨x, y, completesFirst, completesSecond, run⟩ := (later _).mp completion
      exact ⟨u :: x, w :: y, .cons allowsFirst completesFirst, .cons allowsSecond completesSecond,
        mapM_eq_ok_of_forall₂ (.cons isStretched (forall₂_of_mapM_eq_ok run))⟩
    · rintro ⟨_, _, _ | ⟨allowsFirst, completesFirst⟩, _ | ⟨allowsSecond, completesSecond⟩, run⟩
      cases forall₂_of_mapM_eq_ok run with
      | cons isStretched others =>
        exact .cons ((here _).mpr ⟨_, _, allowsFirst, allowsSecond, isStretched⟩)
          ((later _).mpr ⟨_, _, completesFirst, completesSecond, mapM_eq_ok_of_forall₂ others⟩)

/-- The common sizes stand for exactly the common shapes that there may be. -/
theorem broadcastsTo_iff (sized : Sized a) (sizedToo : Sized b) (common : broadcast a b = .ok sizes) :
    BroadcastsTo a b shape ↔ IsCompletion shape sizes := by
  have same : (padded (max a.length b.length) a).length = (padded (max a.length b.length) b).length := by
    simp [padded]
  rw [isCompletion_iff_stretched (sized.padded _) (sizedToo.padded _) same (broadcast_eq_ok_iff.mp common)]
  -- It remains to take the ones in front off the completions, and to put them back.
  constructor
  · rintro ⟨x, y, completion, completionToo, run⟩
    rw [broadcastStatic_eq_ok_iff, completion.length_eq, completionToo.length_eq] at run
    exact ⟨_, _, isCompletion_padded_iff.mpr ⟨x, completion, rfl⟩,
      isCompletion_padded_iff.mpr ⟨y, completionToo, rfl⟩, run⟩
  · rintro ⟨_, _, completion, completionToo, run⟩
    obtain ⟨x, completesFirst, rfl⟩ := isCompletion_padded_iff.mp completion
    obtain ⟨y, completesSecond, rfl⟩ := isCompletion_padded_iff.mp completionToo
    refine ⟨x, y, completesFirst, completesSecond, ?_⟩
    rw [broadcastStatic_eq_ok_iff, completesFirst.length_eq, completesSecond.length_eq]
    exact run

/-- If the sizes may turn out to go together, then they have common sizes: more knowledge takes no answer away. -/
theorem BroadcastsTo.exists_broadcast (broadcasts : BroadcastsTo a b shape) : ∃ sizes, broadcast a b = .ok sizes := by
  obtain ⟨x, y, completion, completionToo, run⟩ := broadcasts
  -- The completions have common sizes, and less is known about the sizes that they complete.
  obtain ⟨known, isKnown⟩ : ∃ known, broadcast (x.map some) (y.map some) = .ok known := by
    cases isKnown : broadcast (x.map some) (y.map some) with
    | ok known => exact ⟨known, rfl⟩
    | error => rw [broadcastStatic, isKnown] at run; cases run
  obtain ⟨sizes, isSizes, -⟩ := broadcast_sharpens completion.below completionToo.below known isKnown
  exact ⟨sizes, isSizes⟩

/-- Common sizes are numbers of elements. -/
theorem Sized.broadcast (sized : Sized a) (sizedToo : Sized b) (common : broadcast a b = .ok sizes) :
    Sized sizes := by
  have each {pairs : List (Option Int × Option Int)} {sizes : List (Option Int)}
      (sized : ∀ pair ∈ pairs, (∀ known ∈ pair.1, 0 ≤ known) ∧ ∀ known ∈ pair.2, 0 ≤ known)
      (common : pairs.mapM (fun pair => broadcastSize? pair.1 pair.2) = some sizes) : Sized sizes := by
    induction pairs generalizing sizes with
    | nil =>
      cases common
      simp [Sized]
    | cons pair pairs ih =>
      simp only [List.mapM_cons, Option.bind_eq_bind, Option.bind_eq_some_iff, Option.pure_def,
        Option.some.injEq] at common
      obtain ⟨size, isSize, rest, isRest, rfl⟩ := common
      obtain ⟨⟨first, second⟩, others⟩ := List.forall_mem_cons.mp sized
      refine List.forall_mem_cons.mpr ⟨?_, ih others isRest⟩
      grind [broadcastSize?.eq_def]
  refine each (fun pair member => ?_) (broadcast_eq_ok_iff.mp common)
  obtain ⟨first, second⟩ := List.of_mem_zip member
  exact ⟨sized.padded _ _ first, sizedToo.padded _ _ second⟩

/-- The common sizes of two lists of sizes are the best that can be known. A common shape that two completions have
completes them; a size that is known is the size in every such shape, and one that is not known may differ between
two of them; there are no common sizes only if no completions have a common shape. For known shapes the common shape
is the one after lowering, with ones in front of the shorter one. -/
theorem broadcast_isBest (sized : Sized a) (sizedToo : Sized b) :
    (∀ x y shape, IsCompletion x a → IsCompletion y b → broadcastStatic x y = .ok shape →
      ∃ sizes, broadcast a b = .ok sizes ∧ IsCompletion shape sizes) ∧
    (∀ sizes, broadcast a b = .ok sizes → ∀ (index : Nat) known, sizes[index]? = some known →
      (∀ size, known = some size → ∀ shape, BroadcastsTo a b shape → shape[index]? = some size) ∧
      (known = none → ∃ shape other, BroadcastsTo a b shape ∧ BroadcastsTo a b other ∧
        shape[index]? ≠ other[index]?)) ∧
    ((∃ fault, broadcast a b = .error fault) ↔ ¬∃ shape, BroadcastsTo a b shape) ∧
    ∀ x y : List Int, (broadcastStatic x y).toOption =
      (ofBroadcast (raised (max x.length y.length) x) (raised (max x.length y.length) y)).toOption := by
  refine ⟨fun x y shape completion completionToo run => ?sound,
    fun sizes common index known isKnown => ⟨?forced, ?free⟩, ?fails, toOption_broadcastStatic⟩
  case sound =>
    have broadcasts : BroadcastsTo a b shape := ⟨x, y, completion, completionToo, run⟩
    -- The completions go together, so the sizes do.
    obtain ⟨sizes, common⟩ := broadcasts.exists_broadcast
    exact ⟨sizes, common, (broadcastsTo_iff sized sizedToo common).mp broadcasts⟩
  case forced =>
    rintro size rfl shape broadcasts
    have completion := (broadcastsTo_iff sized sizedToo common).mp broadcasts
    obtain ⟨value, isValue, allowed⟩ := forall₂_getElem? completion.flip isKnown
    rw [isValue, (allows_some_iff.mp allowed).2]
  case free =>
    rintro rfl
    -- The size may as well be zero as one in all common shapes.
    have completed {size : Int} (nonneg : 0 ≤ size) : BroadcastsTo a b (completedWith size sizes) :=
      (broadcastsTo_iff sized sizedToo common).mpr
        (isCompletion_completedWith (sized.broadcast sizedToo common) nonneg)
    refine ⟨_, _, completed le_rfl, completed Int.one_nonneg, ?_⟩
    simp [completedWith, isKnown]
  case fails =>
    constructor
    · rintro ⟨fault, isFault⟩ ⟨shape, broadcasts⟩
      obtain ⟨sizes, common⟩ := broadcasts.exists_broadcast
      cases isFault.symm.trans common
    · intro impossible
      cases common : broadcast a b with
      | error fault => exact ⟨fault, rfl⟩
      | ok sizes =>
        exact absurd ⟨_, (broadcastsTo_iff sized sizedToo common).mpr
          (isCompletion_completedWith (sized.broadcast sizedToo common) le_rfl)⟩ impossible

/-- An unknown size stretches, or it is the known size four; next to a size of one it stays unknown. -/
theorem broadcast_isBest_mixed :
    Sized [none, some 1, none] ∧ Sized [some 0, some 4] ∧
      broadcast [none, some 1, none] [some 0, some 4] = .ok [none, some 0, some 4] ∧
      (∀ shape, BroadcastsTo [none, some 1, none] [some 0, some 4] shape → shape[2]? = some 4) ∧
      ∃ shape other, BroadcastsTo [none, some 1, none] [some 0, some 4] shape ∧
        BroadcastsTo [none, some 1, none] [some 0, some 4] other ∧ shape[0]? ≠ other[0]? := by
  have sized : Sized [none, some 1, none] := by simp [Sized]
  have sizedToo : Sized [some 0, some 4] := by simp [Sized]
  have common : broadcast [none, some 1, none] [some 0, some 4] = .ok [none, some 0, some 4] := by rfl
  obtain ⟨-, precise, -, -⟩ := broadcast_isBest sized sizedToo
  exact ⟨sized, sizedToo, common, (precise _ common 2 _ rfl).1 4 rfl, (precise _ common 0 _ rfl).2 rfl⟩

end Completions

section Views

variable {shape next sizes : List Int} {info : TensorInfo} {result : List (Option Int)}

/-! ### Sizes that are asked for -/

/-- The sizes that are asked for. The one that is left open is not known. -/
def requested (sizes : List Int) : List (Option Int) := sizes.map fun size => if size = -1 then none else some size

@[simp] theorem requested_cons (size : Int) (sizes : List Int) :
    requested (size :: sizes) = (if size = -1 then none else some size) :: requested sizes := rfl

@[simp] theorem withInferred_cons (value size : Int) (sizes : List Int) :
    withInferred value (size :: sizes) = (if size = -1 then value else size) :: withInferred value sizes := rfl

theorem completedWith_requested (value : Int) (sizes : List Int) :
    completedWith value (requested sizes) = withInferred value sizes := by
  rw [completedWith, requested, withInferred, List.map_map]
  refine List.map_congr_left fun size _ => ?_
  rw [Function.comp_apply]
  split <;> rfl

theorem withInferred_injective (isOpen : -1 ∈ sizes) {value other : Int}
    (same : withInferred value sizes = withInferred other sizes) : value = other := by
  simpa using List.map_inj_left.mp same (-1) isOpen

theorem sized_requested (least : ∀ size ∈ sizes, -1 ≤ size) : Sized (requested sizes) := by
  intro known member size isSize
  obtain ⟨asked, among, rfl⟩ := List.mem_map.mp member
  split at isSize
  case isTrue => cases isSize
  case isFalse given =>
    cases isSize
    have := least size among
    omega

/-- If at most one size is left open, then the shapes that the sizes stand for have a number in its place. -/
theorem isCompletion_requested_iff (least : ∀ size ∈ sizes, -1 ≤ size) (single : sizes.count (-1) ≤ 1) :
    IsCompletion next (requested sizes) ↔ ∃ value, 0 ≤ value ∧ next = withInferred value sizes := by
  constructor
  · intro completion
    induction sizes generalizing next with
    | nil =>
      cases completion
      exact ⟨0, le_rfl, rfl⟩
    | cons size sizes ih =>
      rw [requested_cons, IsCompletion, List.forall₂_cons_right_iff] at completion
      obtain ⟨first, rest, allowed, completion, rfl⟩ := completion
      obtain ⟨-, least⟩ := List.forall_mem_cons.mp least
      obtain ⟨value, nonneg, rfl⟩ := ih least (List.count_le_count_cons.trans single) completion
      -- If this size is the one that is left open, the others are given, and their value is of no importance.
      by_cases isOpen : size = -1
      · have never : -1 ∉ sizes := by
          rw [isOpen, List.count_cons_self] at single
          exact List.count_eq_zero.mp (by omega)
        exact ⟨first, allowed.1, by simp [isOpen, withInferred_of_not_mem never]⟩
      · rw [if_neg isOpen, allows_some_iff] at allowed
        exact ⟨value, nonneg, by simp [isOpen, allowed.2]⟩
  · rintro ⟨value, nonneg, rfl⟩
    rw [← completedWith_requested]
    exact isCompletion_completedWith (sized_requested least) nonneg

/-! ### Shapes of a view -/

/-- A shape that the sizes of a view stand for, with as many elements as the operand. -/
def IsView (shape sizes next : List Int) : Prop :=
  IsCompletion next (requested sizes) ∧ product next = product shape

/-- The number of elements of the operand leaves a number of elements for the size that is left open. -/
theorem nonneg_of_product_withInferred (static : Static shape) (least : ∀ size ∈ sizes, -1 ≤ size)
    (isOpen : -1 ∈ sizes) (single : sizes.count (-1) ≤ 1) (leaves : product (sizes.filter (· ≠ -1)) ≠ 0)
    {value : Int} (same : product (withInferred value sizes) = product shape) : 0 ≤ value := by
  have given : Static (sizes.filter (· ≠ -1)) := by
    intro size member
    have := least size (List.mem_of_mem_filter member)
    have : size ≠ -1 := by simpa using List.of_mem_filter member
    omega
  have total : 0 ≤ value * product (sizes.filter (· ≠ -1)) := by
    rw [← product_withInferred_of_mem isOpen single, same]
    exact product_nonneg static
  exact nonneg_of_mul_nonneg_left total (lt_of_le_of_ne (product_nonneg given) leaves.symm)

/-- The shape with the size that is computed is the only one that the view can have. -/
theorem IsView.unique (least : ∀ size ∈ sizes, -1 ≤ size) (single : sizes.count (-1) ≤ 1)
    (leaves : -1 ∈ sizes → product (sizes.filter (· ≠ -1)) ≠ 0) {value : Int}
    (same : product (withInferred value sizes) = product shape) (isView : IsView shape sizes next) :
    next = withInferred value sizes := by
  obtain ⟨completion, sameToo⟩ := isView
  obtain ⟨other, -, rfl⟩ := (isCompletion_requested_iff least single).mp completion
  -- Two values beside the same product that is not zero are the same; if no size is left open, no value matters.
  by_cases isOpen : -1 ∈ sizes
  · rw [← sameToo, product_withInferred_of_mem isOpen single, product_withInferred_of_mem isOpen single] at same
    rw [mul_right_cancel₀ (leaves isOpen) same]
  · rw [withInferred_of_not_mem isOpen, withInferred_of_not_mem isOpen]

/-- Sizes are found for a view exactly if none of those that are asked for is below minus one, at most one of them is
left open, and they stand for exactly one shape with as many elements as the operand. What is found is this shape. -/
theorem reshape_eq_ok_iff_unique (isShape : info.staticShape? = some shape) (static : Static shape) :
    reshape info sizes = .ok result ↔
      (∀ size ∈ sizes, -1 ≤ size) ∧ sizes.count (-1) ≤ 1 ∧
        ∃ next, IsView shape sizes next ∧ (∀ other, IsView shape sizes other → other = next) ∧
          result = next.map some := by
  rw [reshape_eq_ok_iff isShape]
  constructor
  · rintro ⟨single, least, leaves, value, same, rfl⟩
    refine ⟨least, single, withInferred value sizes, ⟨?_, same⟩,
      fun other isView => isView.unique least single leaves same, rfl⟩
    rw [isCompletion_requested_iff least single]
    by_cases isOpen : -1 ∈ sizes
    · exact ⟨value, nonneg_of_product_withInferred static least isOpen single (leaves isOpen) same, rfl⟩
    · exact ⟨0, le_rfl, by rw [withInferred_of_not_mem isOpen, withInferred_of_not_mem isOpen]⟩
  · rintro ⟨least, single, next, ⟨completion, same⟩, unique, rfl⟩
    obtain ⟨value, nonneg, rfl⟩ := (isCompletion_requested_iff least single).mp completion
    refine ⟨single, least, fun isOpen vanishes => ?_, value, same, rfl⟩
    -- With a size of zero among the others, the next number would do as well.
    have again : IsView shape sizes (withInferred (value + 1) sizes) := by
      refine ⟨(isCompletion_requested_iff least single).mpr ⟨value + 1, by omega, rfl⟩, ?_⟩
      rw [← same, product_withInferred_of_mem isOpen single, product_withInferred_of_mem isOpen single, vanishes,
        mul_zero, mul_zero]
    have := withInferred_injective isOpen (unique _ again)
    omega

/-- Twelve elements leave one size beside three. -/
theorem reshape_eq_ok_iff_unique_twelve :
    (TensorInfo.ofShape [2, 6] .f32).staticShape? = some [2, 6] ∧ Static [2, 6] ∧
      ∃ next, IsView [2, 6] [3, -1] next ∧ (∀ other, IsView [2, 6] [3, -1] other → other = next) ∧
        next = [3, 4] := by
  have isShape : (TensorInfo.ofShape [2, 6] .f32).staticShape? = some [2, 6] := by decide
  have static : Static [2, 6] := by simp [Static]
  have found : reshape (.ofShape [2, 6] .f32) [3, -1] = .ok [some 3, some 4] := by rfl
  obtain ⟨-, -, next, isView, unique, isResult⟩ := (reshape_eq_ok_iff_unique isShape static).mp found
  refine ⟨isShape, static, next, isView, unique, ?_⟩
  exact List.map_injective_iff.mpr (Option.some_injective Int) isResult.symm

/-- Beside a size of zero, the one that is left open could be any. -/
example : (reshape (.ofShape [0, 3] .f32) [0, -1]).toOption = none := by rfl

end Views

end Shape

end TensorIR
