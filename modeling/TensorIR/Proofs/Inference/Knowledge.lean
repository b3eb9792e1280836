import TensorIR.Program.Infer
import TensorIR.Proofs.Subtyping
import TensorIR.Proofs.Verified

/-!
# Answers from more precise knowledge

The shape and the element type of a result are computed from what is known about the operands. An answer
that is computed from more knowledge is at least as precise, if there is one: sizes that were not known may
turn out not to go together, but no fault goes away.

## Main definitions

* `Sharpens` — one answer is at least as precise as another one
* `InfoBelow`, `SizesBelow` — at least as much is known about a tensor, or about its sizes

## Main results

* `Sharpens.bind`, `sharpens_mapM` — answers that are put together from others
* `Shape.broadcastInfo_sharpens` — the result of combining two tensors element by element
* `Shape.reshape_sharpens` — the sizes of a view
-/

namespace TensorIR

open TensorInfo

/-! ### Answers -/

section Answers

variable {α β γ δ ε : Type}

/-- If there is an answer, then there was one already, and the two are related. -/
def Sharpens (below : α → β → Prop) (sharp : Except ε α) (rough : Except ε β) : Prop :=
  ∀ answer, sharp = .ok answer → ∃ old, rough = .ok old ∧ below answer old

theorem sharpens_ok {below : α → β → Prop} {answer : α} {old : β} (related : below answer old) :
    Sharpens below (.ok answer : Except ε α) (.ok old) := by
  intro result isResult
  cases isResult
  exact ⟨old, rfl, related⟩

theorem sharpens_error {below : α → β → Prop} (fault : ε) (rough : Except ε β) :
    Sharpens below (.error fault) rough := by
  intro result isResult
  cases isResult

/-- Every answer is precise enough where nothing was known. -/
theorem sharpens_of_ok {below : α → β → Prop} {old : β} (all : ∀ answer, below answer old)
    (sharp : Except ε α) : Sharpens below sharp (.ok old) := by
  intro answer _
  exact ⟨old, rfl, all answer⟩

theorem sharpens_refl {below : α → α → Prop} (reflexive : ∀ answer, below answer answer)
    (rough : Except ε α) : Sharpens below rough rough := by
  intro answer isAnswer
  exact ⟨answer, isAnswer, reflexive answer⟩

theorem Sharpens.bind (first : α → β → Prop) {second : γ → δ → Prop} {sharp : Except ε α}
    {rough : Except ε β} {next : α → Except ε γ} {later : β → Except ε δ}
    (before : Sharpens first sharp rough)
    (after : ∀ answer old, first answer old → Sharpens second (next answer) (later old)) :
    Sharpens second (sharp >>= next) (rough >>= later) := by
  intro result run
  cases sharp with
  | error fault => cases run
  | ok answer =>
    obtain ⟨old, rfl, related⟩ := before answer rfl
    exact after answer old related result run

/-- The earlier answer is one that was really given. -/
theorem Sharpens.found {below : α → β → Prop} {sharp : Except ε α} {rough : Except ε β}
    (before : Sharpens below sharp rough) :
    Sharpens (fun answer old => below answer old ∧ rough = .ok old) sharp rough := by
  intro answer isAnswer
  obtain ⟨old, isOld, related⟩ := before answer isAnswer
  exact ⟨old, isOld, related, isOld⟩

/-- A check in front of other steps. -/
theorem Sharpens.after {check checkOld : Except ε Unit} {sharp : Except ε α} {rough : Except ε β}
    {below : α → β → Prop} (before : Sharpens Eq check checkOld) (next : Sharpens below sharp rough) :
    Sharpens below (check >>= fun _ => sharp) (checkOld >>= fun _ => rough) :=
  before.bind _ fun _ _ _ => next

theorem Sharpens.map {first : α → β → Prop} {second : γ → δ → Prop} {sharp : Except ε α}
    {rough : Except ε β} {change : α → γ} {other : β → δ} (before : Sharpens first sharp rough)
    (kept : ∀ answer old, first answer old → second (change answer) (other old)) :
    Sharpens second (change <$> sharp) (other <$> rough) := by
  intro result run
  cases sharp with
  | error fault => cases run
  | ok answer =>
    cases run
    obtain ⟨old, rfl, related⟩ := before answer rfl
    exact ⟨other old, rfl, kept answer old related⟩

/-- The same steps on related items have related answers. -/
theorem sharpens_mapM {below : γ → δ → Prop} {find : α → Except ε γ}
    {findOld : β → Except ε δ} {items : List α} {others : List β}
    (each : List.Forall₂ (fun item other => Sharpens below (find item) (findOld other)) items others) :
    Sharpens (List.Forall₂ below) (items.mapM find) (others.mapM findOld) := by
  induction each with
  | nil => exact sharpens_ok .nil
  | cons head _ ih =>
    rw [List.mapM_cons, List.mapM_cons]
    apply head.bind
    intro answer old related
    apply ih.bind
    intro answers olds rest
    exact sharpens_ok (.cons related rest)

/-- A fault of a shape is a fault of the operation. -/
theorem Sharpens.ofShape {below : α → β → Prop} {sharp : Except ShapeFault α} {rough : Except ShapeFault β}
    (before : Sharpens below sharp rough) : Sharpens below (ofShape sharp) (ofShape rough) := by
  intro result run
  cases sharp with
  | error fault => cases run
  | ok answer =>
    cases run
    obtain ⟨old, rfl, related⟩ := before result rfl
    exact ⟨old, rfl, related⟩

end Answers

/-! ### Shapes and elements -/

namespace TensorInfo

/-- What is known stays known. -/
theorem eq_none_or_eq_of_isSubtypeOption {α : Type} [DecidableEq α] {known rough : Option α}
    (below : isSubtypeOption known rough = true) : rough = none ∨ known = rough := by
  cases rough with
  | none => exact .inl rfl
  | some value => exact .inr ((isSubtypeOption_some known value).mp below)

theorem isSubtype_iff {known rough : TensorInfo} : known.isSubtype rough = true ↔
    isSubtypeSizes known.sizes rough.sizes = true ∧ isSubtypeOption known.dtype rough.dtype = true := by
  rw [isSubtype, Bool.and_eq_true]

end TensorInfo

/-- What follows from what is known about one item. -/
theorem isSubtypeOption_bind {α β : Type} [DecidableEq α] [DecidableEq β] {known rough : Option α}
    {next later : α → Option β} (below : isSubtypeOption known rough = true)
    (each : ∀ value, isSubtypeOption (next value) (later value) = true) :
    isSubtypeOption (known.bind next) (rough.bind later) = true := by
  rcases eq_none_or_eq_of_isSubtypeOption below with rfl | rfl
  · exact isSubtypeOption_none _
  · cases known with
    | none => rfl
    | some value => exact each value

theorem isSubtypeOption_map {α β : Type} [DecidableEq α] [DecidableEq β] {known rough : Option α}
    (below : isSubtypeOption known rough = true) (change : α → β) :
    isSubtypeOption (known.map change) (rough.map change) = true := by
  rw [Option.map_eq_bind, Option.map_eq_bind]
  exact isSubtypeOption_bind below fun _ => isSubtypeOption_refl _

/-- At least as much is known about a tensor. -/
abbrev InfoBelow (known rough : TensorInfo) : Prop := known.isSubtype rough = true

/-- At least as much is known about each of the sizes. -/
abbrev SizesBelow (known rough : List (Option Int)) : Prop :=
  List.Forall₂ (fun a b => isSubtypeOption a b = true) known rough

theorem isSubtypeSizes_cases {known rough : Option (List (Option Int))}
    (below : isSubtypeSizes known rough = true) :
    rough = none ∨ ∃ sharp wide, known = some sharp ∧ rough = some wide ∧ SizesBelow sharp wide := by
  cases rough with
  | none => exact .inl rfl
  | some wide =>
    obtain ⟨sharp, isSharp, each⟩ := (isSubtypeSizes_some_iff _ _).mp below
    exact .inr ⟨sharp, wide, isSharp, rfl, each⟩

theorem getElem?_below {known rough : List (Option Int)} (below : SizesBelow known rough) (index : Nat) :
    known[index]? = none ∧ rough[index]? = none ∨ ∃ size wide, known[index]? = some size ∧
      rough[index]? = some wide ∧ isSubtypeOption size wide = true := by
  induction below generalizing index with
  | nil => exact .inl ⟨rfl, rfl⟩
  | cons head _ ih =>
    cases index with
    | zero => exact .inr ⟨_, _, rfl, rfl, head⟩
    | succ index => exact ih index

theorem join_getElem?_below {known rough : List (Option Int)} (below : SizesBelow known rough) (index : Nat) :
    isSubtypeOption (known[index]?).join (rough[index]?).join = true := by
  rcases getElem?_below below index with ⟨isKnown, isRough⟩ | ⟨size, wide, isKnown, isRough, sizeBelow⟩
  · rw [isKnown, isRough]
    rfl
  · rw [isKnown, isRough]
    exact sizeBelow

theorem set_below {known rough : List (Option Int)} {size wide : Option Int} (below : SizesBelow known rough)
    (sizeBelow : isSubtypeOption size wide = true) (index : Nat) :
    SizesBelow (known.set index size) (rough.set index wide) := by
  induction below generalizing index with
  | nil => exact .nil
  | cons head rest ih =>
    cases index with
    | zero => exact .cons sizeBelow rest
    | succ index => exact .cons head (ih index)

theorem forall₂_unknown {known rough : List (Option Int)} (below : SizesBelow known rough) :
    SizesBelow (known.map fun _ => none) (rough.map fun _ => none) := by
  rw [List.map_const', List.map_const', below.length_eq]
  exact List.forall₂_same.mpr fun size _ => isSubtypeOption_refl size

/-- Sizes and elements of which more is known make a tensor of which more is known. -/
theorem infoBelow_of_sizesBelow {known rough : List (Option Int)} {dtype wide : Option Dtype}
    (below : SizesBelow known rough) (dtypeBelow : isSubtypeOption dtype wide = true) :
    InfoBelow ⟨some known, dtype⟩ ⟨some rough, wide⟩ :=
  isSubtype_iff.mpr ⟨(isSubtypeSizes_some_iff _ _).mpr ⟨known, rfl, below⟩, dtypeBelow⟩

/-- Nothing need be known about sizes that were not known. -/
theorem infoBelow_of_unsized {dtype wide : Option Dtype} (dtypeBelow : isSubtypeOption dtype wide = true)
    (known : Option (List (Option Int))) : InfoBelow ⟨known, dtype⟩ ⟨none, wide⟩ :=
  isSubtype_iff.mpr ⟨isSubtypeSizes_none known, dtypeBelow⟩

theorem rank?_below {info rough : TensorInfo} (below : InfoBelow info rough) :
    isSubtypeOption info.rank? rough.rank? = true := by
  rw [rank?, rank?]
  rcases isSubtypeSizes_cases (isSubtype_iff.mp below).1 with unknown | ⟨known, wide, areKnown, areWide, each⟩
  · rw [unknown]
    exact isSubtypeOption_none _
  · rw [areKnown, areWide]
    exact (isSubtypeOption_some _ _).mpr (congrArg some each.length_eq)

namespace Shape

theorem broadcastSize?_comm (a b : Option Int) : broadcastSize? a b = broadcastSize? b a := by
  grind [broadcastSize?.eq_def]

theorem broadcastSize?_none (a : Option Int) :
    broadcastSize? a none = some (if a = some 1 then none else a) := by
  grind [broadcastSize?.eq_def]

/-- The common size is that of either dimension, unless this one stretches. -/
theorem isSubtypeOption_of_broadcastSize? {a b size : Option Int} (common : broadcastSize? a b = some size) :
    isSubtypeOption size (if a = some 1 then none else a) = true := by
  grind [broadcastSize?.eq_def, isSubtypeOption.eq_def]

theorem broadcastSize?_sharpens {a b rough other size : Option Int}
    (first : isSubtypeOption a rough = true) (second : isSubtypeOption b other = true)
    (common : broadcastSize? a b = some size) :
    ∃ old, broadcastSize? rough other = some old ∧ isSubtypeOption size old = true := by
  rcases eq_none_or_eq_of_isSubtypeOption first with rfl | rfl
  · rcases eq_none_or_eq_of_isSubtypeOption second with rfl | rfl
    · exact ⟨none, rfl, isSubtypeOption_none _⟩
    · rw [broadcastSize?_comm none, broadcastSize?_none]
      rw [broadcastSize?_comm] at common
      exact ⟨_, rfl, isSubtypeOption_of_broadcastSize? common⟩
  · rcases eq_none_or_eq_of_isSubtypeOption second with rfl | rfl
    · rw [broadcastSize?_none]
      exact ⟨_, rfl, isSubtypeOption_of_broadcastSize? common⟩
    · exact ⟨size, common, isSubtypeOption_refl _⟩

theorem mapM_broadcastSize?_sharpens {pairs others : List (Option Int × Option Int)}
    {sizes : List (Option Int)}
    (below : List.Forall₂ (fun pair other => isSubtypeOption pair.1 other.1 = true ∧
      isSubtypeOption pair.2 other.2 = true) pairs others)
    (common : (pairs.mapM fun pair => broadcastSize? pair.1 pair.2) = some sizes) :
    ∃ old, (others.mapM fun pair => broadcastSize? pair.1 pair.2) = some old ∧ SizesBelow sizes old := by
  induction below generalizing sizes with
  | nil =>
    cases common
    exact ⟨[], rfl, .nil⟩
  | cons head _ ih =>
    simp only [List.mapM_cons, Option.bind_eq_bind, Option.bind_eq_some_iff, Option.pure_def,
      Option.some.injEq] at common
    obtain ⟨size, isSize, rest, areRest, rfl⟩ := common
    obtain ⟨old, isOld, sizeBelow⟩ := broadcastSize?_sharpens head.1 head.2 isSize
    obtain ⟨olds, areOld, restBelow⟩ := ih areRest
    exact ⟨old :: olds, by simp [List.mapM_cons, isOld, areOld], .cons sizeBelow restBelow⟩

theorem padded_below {known rough : List (Option Int)} (below : SizesBelow known rough) (rank : Nat) :
    SizesBelow (padded rank known) (padded rank rough) := by
  rw [padded, padded, below.length_eq]
  exact List.rel_append (List.forall₂_same.mpr fun size _ => isSubtypeOption_refl size) below

theorem broadcast_sharpens {a b rough other : List (Option Int)} (first : SizesBelow a rough)
    (second : SizesBelow b other) : Sharpens SizesBelow (broadcast a b) (broadcast rough other) := by
  intro sizes run
  simp only [broadcast, ← first.length_eq, ← second.length_eq] at run ⊢
  split at run
  case h_1 common =>
    cases run
    have pairs := forall₂_zip_zip (padded_below first (max a.length b.length))
      (padded_below second (max a.length b.length))
    obtain ⟨old, isOld, below⟩ := mapM_broadcastSize?_sharpens pairs common
    rw [isOld]
    exact ⟨old, rfl, below⟩
  case h_2 => cases run

/-- The common shape of two tensors, if both shapes are known. -/
def commonSizes (a b : Option (List (Option Int))) : Except ShapeFault (Option (List (Option Int))) :=
  match a, b with
  | some x, some y => some <$> broadcast x y
  | _, _ => .ok none

/-- The promoted element type of two tensors, if both element types are known. -/
def commonDtype (a b : Option Dtype) : Except ShapeFault (Option Dtype) :=
  match a, b with
  | some x, some y =>
    match x.promote? y with
    | some promoted => .ok (some promoted)
    | none => .error (.cannotPromote x y)
  | _, _ => .ok none

theorem broadcastInfo_eq (a b : TensorInfo) : broadcastInfo a b =
    commonSizes a.sizes b.sizes >>= fun sizes =>
      TensorInfo.mk sizes <$> commonDtype a.dtype b.dtype := by
  obtain ⟨sizes, dtype⟩ := a
  obtain ⟨others, other⟩ := b
  rcases sizes with _ | sizes <;> rcases others with _ | others <;> rcases dtype with _ | dtype <;>
    rcases other with _ | other <;> try rfl
  -- What is left computes a shape or a kind of elements.
  all_goals simp only [broadcastInfo, commonSizes, commonDtype]
  all_goals cases dtype.promote? other <;> rfl

theorem commonSizes_sharpens {a b rough other : Option (List (Option Int))}
    (first : isSubtypeSizes a rough = true) (second : isSubtypeSizes b other = true) :
    Sharpens (fun known old => isSubtypeSizes known old = true) (commonSizes a b)
      (commonSizes rough other) := by
  rcases isSubtypeSizes_cases first with rfl | ⟨sharp, wide, rfl, rfl, below⟩
  · apply sharpens_of_ok
    exact isSubtypeSizes_none
  · rcases isSubtypeSizes_cases second with rfl | ⟨sharp, wide, rfl, rfl, belowOther⟩
    · apply sharpens_of_ok
      exact isSubtypeSizes_none
    · apply (broadcast_sharpens below belowOther).map
      intro known old knownBelow
      exact (isSubtypeSizes_some_iff _ _).mpr ⟨known, rfl, knownBelow⟩

theorem commonDtype_sharpens {a b rough other : Option Dtype} (first : isSubtypeOption a rough = true)
    (second : isSubtypeOption b other = true) :
    Sharpens (fun known old => isSubtypeOption known old = true) (commonDtype a b)
      (commonDtype rough other) := by
  rcases eq_none_or_eq_of_isSubtypeOption first with rfl | rfl
  · apply sharpens_of_ok
    exact isSubtypeOption_none
  · rcases eq_none_or_eq_of_isSubtypeOption second with rfl | rfl
    · rw [show commonDtype a none = .ok none by cases a <;> rfl]
      apply sharpens_of_ok
      exact isSubtypeOption_none
    · apply sharpens_refl
      exact isSubtypeOption_refl

theorem broadcastInfo_sharpens {a b rough other : TensorInfo} (first : a.isSubtype rough = true)
    (second : b.isSubtype other = true) :
    Sharpens InfoBelow (broadcastInfo a b)
      (broadcastInfo rough other) := by
  rw [isSubtype_iff] at first second
  rw [broadcastInfo_eq, broadcastInfo_eq]
  apply (commonSizes_sharpens first.1 second.1).bind
  intro sizes oldSizes sizesBelow
  apply (commonDtype_sharpens first.2 second.2).map
  intro dtype oldDtype dtypeBelow
  exact isSubtype_iff.mpr ⟨sizesBelow, dtypeBelow⟩

/-- Sizes that are all known cannot become more precise. -/
theorem eq_of_sizesBelow {known rough : List (Option Int)} {shape : List Int}
    (below : SizesBelow known rough) (isShape : rough.mapM id = some shape) : known = rough := by
  induction below generalizing shape with
  | nil => rfl
  | cons head _ ih =>
    simp only [List.mapM_cons, id_eq, Option.bind_eq_bind, Option.bind_eq_some_iff, Option.pure_def] at isShape
    obtain ⟨size, rfl, rest, areRest, -⟩ := isShape
    rw [(isSubtypeOption_some _ _).mp head, ih areRest]

theorem staticShape?_cases {info rough : TensorInfo} (below : info.isSubtype rough = true) :
    rough.staticShape? = none ∨ info.staticShape? = rough.staticShape? := by
  cases isShape : rough.staticShape? with
  | none => exact .inl rfl
  | some shape =>
    obtain ⟨sizes, areSizes, known⟩ := Option.bind_eq_some_iff.mp isShape
    rcases isSubtypeSizes_cases (isSubtype_iff.mp below).1 with unknown | ⟨sharp, _, isSharp, same, each⟩
    · cases areSizes.symm.trans unknown
    · cases areSizes.symm.trans same
      rw [staticShape?, isSharp, eq_of_sizesBelow each known]
      exact .inr known

theorem reshape_sharpens {info rough : TensorInfo} (below : info.isSubtype rough = true) (sizes : List Int) :
    Sharpens SizesBelow (reshape info sizes) (reshape rough sizes) := by
  simp only [reshape]
  rcases staticShape?_cases below with unknown | same
  · -- Without the number of elements, nothing is computed and nothing is compared.
    rw [unknown]
    by_cases several : sizes.count (-1) > 1
    · simp only [several, if_true]
      exact sharpens_error _ _
    simp only [several, if_false]
    cases sizes.find? (· < -1) with
    | some size => exact sharpens_error _ _
    | none =>
      apply Sharpens.bind SizesBelow
      · apply sharpens_mapM
        apply List.forall₂_same.mpr
        intro size _
        split
        · apply sharpens_of_ok
          exact isSubtypeOption_none
        · exact sharpens_ok (isSubtypeOption_refl _)
      · intro known old knownBelow
        split
        · split
          · exact sharpens_error _ _
          · exact sharpens_ok knownBelow
        · exact sharpens_ok knownBelow
  · rw [same]
    exact sharpens_refl (fun _ => List.forall₂_same.mpr fun size _ => isSubtypeOption_refl size) _

end Shape

end TensorIR
