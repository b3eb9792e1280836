import TensorIR.Proofs.Inference.Knowledge

/-!
# What more precise operands tell

What follows about the result of a tensor operation grows with what is known about its operands. If more
is known about the tensors that an operation takes, then at least as much follows about its result, or the
operands turn out to contradict each other; and operands that contradict each other keep doing so.

## Main definitions

* `Program.Sharper` — an operation is a more precise version of another one

## Main results

* `Program.Sharper.inferKind_sharpens` — the answers for two versions of an operation, kind by kind
* `Program.inferInfo_monotone` — what follows from the more precise version lies below
-/

namespace TensorIR

open TensorInfo

/-! ### Two versions of an operation -/

/-- A torch type is the same as another one, or both are those of tensors with value semantics and at least
as much is known about the first. -/
inductive SharperType : Option TorchType → Option TorchType → Prop
  | same (type : Option TorchType) : SharperType type type
  | tensor {known rough : TensorInfo} (below : known.isSubtype rough = true) :
      SharperType (some (.vtensor known)) (some (.vtensor rough))

namespace Program

/-- An operand at a position is a more precise version of another one: as a constant or as a list it is the
same, and so is its type, except that more may be known about a tensor at the first two positions. -/
structure SharperOperand (program : Program) (value : ValueId) (rough : Program) (old : ValueId)
    (index : Nat) : Prop where
  type : SharperType (program.torchTypeOf? value) (rough.torchTypeOf? old)
  type_eq : 2 ≤ index → program.torchTypeOf? value = rough.torchTypeOf? old
  constant : program.foldValue? value = rough.foldValue? old
  elements : program.listElements? value = rough.listElements? old

/-- An operation is a more precise version of another one, which may belong to another program. -/
structure Sharper (program : Program) (op : OpId) (rough : Program) (old : OpId) : Prop where
  kind : program.kind op = rough.kind old
  count : (program.operands op).length = (rough.operands old).length
  operand : ∀ (index : Nat) (value other : ValueId), (program.operands op)[index]? = some value →
    (rough.operands old)[index]? = some other → SharperOperand program value rough other index

section Operands

variable {program rough : Program} {op old : OpId} {value other : ValueId} {index : Nat}

namespace SharperOperand

theorem foldInt?_eq (sharper : SharperOperand program value rough other index) :
    program.foldInt? value = rough.foldInt? other := by
  rw [foldInt?, foldInt?, sharper.constant]

theorem foldBool?_eq (sharper : SharperOperand program value rough other index) :
    program.foldBool? value = rough.foldBool? other := by
  rw [foldBool?, foldBool?, sharper.constant]

theorem isNone_eq (sharper : SharperOperand program value rough other index) :
    program.isNone value = rough.isNone other := by
  rw [isNone, isNone, sharper.constant]

theorem sliceBound?_eq (sharper : SharperOperand program value rough other index) :
    program.sliceBound? value = rough.sliceBound? other := by
  rw [sliceBound?, sliceBound?, sharper.isNone_eq, sharper.foldInt?_eq]

end SharperOperand

theorem promoted_sharpens {a b first second : Option Dtype} (firstBelow : isSubtypeOption a first = true)
    (secondBelow : isSubtypeOption b second = true) :
    Sharpens (fun known wide => isSubtypeOption known wide = true) (promoted a b)
      (promoted first second) := by
  have promoted_eq (a b : Option Dtype) : promoted a b = ofShape (Shape.commonDtype a b) := by
    simp only [promoted, Shape.commonDtype]
    split
    · split <;> simp [*, ofShape]
    · simp [ofShape]
  rw [promoted_eq, promoted_eq]
  exact (Shape.commonDtype_sharpens firstBelow secondBelow).ofShape

theorem sizeAt?_below {info wide : TensorInfo} (below : InfoBelow info wide) (index : Nat) :
    isSubtypeOption (sizeAt? info index) (sizeAt? wide index) = true := by
  rw [sizeAt?, sizeAt?]
  rcases isSubtypeSizes_cases (isSubtype_iff.mp below).1 with unknown | ⟨known, sizes, areKnown, areSizes, each⟩
  · rw [unknown]
    exact isSubtypeOption_none _
  · rw [areKnown, areSizes]
    exact join_getElem?_below each index

/-- A factor that is known to be no matrix stays so. -/
theorem expectMatrix_sharpens (name : String) {info wide : TensorInfo} (below : InfoBelow info wide) :
    Sharpens Eq (expectMatrix name info) (expectMatrix name wide) := by
  rw [expectMatrix, expectMatrix]
  rcases eq_none_or_eq_of_isSubtypeOption (rank?_below below) with unknown | same
  · rw [unknown]
    exact sharpens_of_ok (fun _ => rfl) _
  · rw [same]
    exact sharpens_refl (fun _ => rfl) _

/-- A size that is asked for is the one that follows, if it is known and not left to be computed. -/
theorem broadcastTarget_sharpens_plain (index offset : Nat) (input size : Option Int) :
    Sharpens (fun known wide => isSubtypeOption known wide = true) (broadcastTarget index offset input size)
      (.ok (plainSize? size)) := by
  cases size with
  | none => exact sharpens_ok rfl
  | some size =>
    simp only [broadcastTarget, plainSize?]
    by_cases computed : size = -1
    · rw [if_pos computed, computed]
      split
      · exact sharpens_error _ _
      · exact sharpens_ok (isSubtypeOption_none _)
    · have plain : isSubtypeOption (some size) ((some size).filter (0 ≤ ·)) = true := by
        by_cases negative : 0 ≤ size <;> simp [Option.filter, negative]
      rw [if_neg computed]
      split
      · split
        · exact sharpens_error _ _
        · exact sharpens_ok plain
      · exact sharpens_ok plain

theorem broadcastTarget_sharpens {input wide : Option Int} (below : isSubtypeOption input wide = true)
    (index offset : Nat) (size : Option Int) :
    Sharpens (fun known wide => isSubtypeOption known wide = true) (broadcastTarget index offset input size)
      (broadcastTarget index offset wide size) := by
  rcases eq_none_or_eq_of_isSubtypeOption below with rfl | rfl
  · cases size with
    | none => exact sharpens_ok rfl
    | some size =>
      simp only [broadcastTarget]
      split
      · split
        · exact sharpens_error _ _
        · exact sharpens_ok (isSubtypeOption_none _)
      · split
        · split
          · exact sharpens_error _ _
          · exact sharpens_ok (isSubtypeOption_refl _)
        · exact sharpens_ok (isSubtypeOption_refl _)
  · exact sharpens_refl isSubtypeOption_refl _

/-- The sizes that a broadcast asks for, if nothing is known about the tensor. -/
theorem broadcastTargets_sharpen_plain (target : List (Option Int)) (offset : Nat) 
    (input : Option Int × Nat → Option Int) :
    Sharpens SizesBelow
      (target.zipIdx.mapM fun pair => broadcastTarget pair.2 offset (input pair) pair.1)
      (.ok (target.map plainSize?)) := by
  have each : Sharpens SizesBelow
      (target.zipIdx.mapM fun pair => broadcastTarget pair.2 offset (input pair) pair.1)
      (target.zipIdx.mapM fun pair => pure (plainSize? pair.1)) := by
    apply sharpens_mapM
    apply List.forall₂_same.mpr
    intro pair _
    exact broadcastTarget_sharpens_plain _ _ _ _
  rw [List.mapM_pure] at each
  have plain : target.zipIdx.map (fun pair => plainSize? pair.1) = target.map plainSize? := by
    calc target.zipIdx.map (fun pair => plainSize? pair.1)
        = (target.zipIdx.map Prod.fst).map plainSize? := List.map_map.symm
      _ = target.map plainSize? := by rw [List.zipIdx_map_fst]
  rwa [plain] at each

theorem exchanged_below {known wide : List (Option Int)} (below : SizesBelow known wide) (a b : Nat) :
    SizesBelow (exchanged a b known) (exchanged a b wide) := by
  rw [exchanged, exchanged]
  rcases getElem?_below below a with ⟨isKnown, isWide⟩ | ⟨size, old, isKnown, isWide, sizeBelow⟩
  · rw [isKnown, isWide]
    exact below
  · rw [isKnown, isWide]
    rcases getElem?_below below b with ⟨isKnown, isWide⟩ | ⟨other, oldOther, isKnown, isWide, otherBelow⟩
    · rw [isKnown, isWide]
      exact below
    · rw [isKnown, isWide]
      exact set_below (set_below below otherBelow a) sizeBelow b

theorem reducedSizes_below {known wide : List (Option Int)} (below : SizesBelow known wide) (dims : List Nat)
    (keep : Bool) : SizesBelow (reducedSizes dims keep known) (reducedSizes dims keep wide) := by
  rw [reducedSizes, reducedSizes]
  -- The positions are counted from anywhere, so that the induction may pass over the first one.
  generalize 0 = start
  induction below generalizing start with
  | nil => exact .nil
  | cons head _ ih =>
    by_cases reduced : start ∈ dims
    · cases keep with
      | false => simpa [List.zipIdx_cons, List.filterMap_cons, reduced] using ih (start + 1)
      | true => simpa [List.zipIdx_cons, List.filterMap_cons, reduced] using ih (start + 1)
    · simpa [List.zipIdx_cons, List.filterMap_cons, reduced, head] using ih (start + 1)

namespace Sharper

variable (sharper : Sharper program op rough old)

include sharper

theorem operand_sharpens (index : Nat) :
    Sharpens (fun value other => SharperOperand program value rough other index) (program.operand op index)
      (rough.operand old index) := by
  intro value isValue
  simp only [Program.operand] at isValue ⊢
  split at isValue
  case h_2 => cases isValue
  case h_1 found isFound =>
    cases isValue
    have inside := (List.getElem?_eq_some_iff.mp isFound).1
    rw [sharper.count] at inside
    have isOther := List.getElem?_eq_getElem inside
    rw [isOther]
    exact ⟨_, rfl, sharper.operand _ _ _ isFound isOther⟩

theorem expectOperands_sharpens (count : Nat) :
    Sharpens Eq (program.expectOperands op count) (rough.expectOperands old count) := by
  rw [expectOperands, expectOperands, sharper.count]
  exact sharpens_refl (fun _ => rfl) _

theorem tensorOperand_sharpens (index : Nat) :
    Sharpens InfoBelow (program.tensorOperand op index)
      (rough.tensorOperand old index) := by
  apply (sharper.operand_sharpens index).bind
  intro value other operand
  have type := operand.type
  generalize program.torchTypeOf? value = sharp at type ⊢
  generalize rough.torchTypeOf? other = wide at type ⊢
  cases type with
  | tensor below => exact sharpens_ok below
  | same => exact sharpens_refl TensorInfo.isSubtype_refl _

/-- A type that a number, a list or nothing may have is not that of a tensor, so that it is kept. -/
theorem scalarOperand_sharpens (index : Nat) {allowed : List TorchType}
    (plain : ∀ info, allowed.any (TorchType.vtensor info).isSubtype = false) :
    Sharpens Eq (program.scalarOperand op index allowed) (rough.scalarOperand old index allowed) := by
  apply (sharper.operand_sharpens index).bind
  intro value other operand
  have type := operand.type
  generalize program.torchTypeOf? value = sharp at type ⊢
  generalize rough.torchTypeOf? other = wide at type ⊢
  cases type with
  | tensor below =>
    simp only [Option.getD_some, plain]
    exact sharpens_error _ _
  | same => exact sharpens_refl (fun _ => rfl) _

theorem listOperand_sharpens (index : Nat) :
    Sharpens Eq (program.listOperand op index) (rough.listOperand old index) := by
  apply (sharper.operand_sharpens index).bind
  intro value other operand
  exact sharpens_ok operand.elements

/-! ### One rule for each kind -/

/-- The parameters of a slice depend on the size of one dimension only. -/
theorem sliceParams_sharpens {shape wide : List Int} (length_eq : shape.length = wide.length) :
    Sharpens (fun params old' => (∀ value position, rough.operand old 1 = .ok value →
        ((rough.foldInt? value).bind fun dim => Shape.normalizeDim? dim wide.length) = some position →
          shape.getD position 0 = wide.getD position 0) → params = old')
      (program.sliceParams op shape) (rough.sliceParams old wide) := by
  rw [sliceParams, sliceParams, length_eq]
  apply (sharper.operand_sharpens 1).found.bind
  rintro value other ⟨operand, isOther⟩
  rw [operand.foldInt?_eq]
  cases isDim : rough.foldInt? other with
  | none => exact sharpens_ok fun _ => rfl
  | some dim =>
    simp only
    cases isPosition : Shape.normalizeDim? dim wide.length with
    | none => exact sharpens_error _ _
    | some position =>
      apply (sharper.operand_sharpens 2).bind
      intro _ _ start
      apply (sharper.operand_sharpens 3).bind
      intro _ _ stop
      simp only [start.sliceBound?_eq, stop.sliceBound?_eq]
      split
      case h_2 => exact sharpens_ok fun _ => rfl
      case h_1 =>
        apply (sharper.operand_sharpens 4).bind
        intro _ _ step
        rw [step.foldInt?_eq]
        split
        · exact sharpens_ok fun _ => rfl
        · split
          · exact sharpens_error _ _
          · apply sharpens_ok
            intro agree
            rw [agree other position isOther (by rw [isDim]; exact isPosition)]

theorem transposedDims_sharpens (rank : Nat) :
    Sharpens Eq (program.transposedDims op rank) (rough.transposedDims old rank) := by
  apply (sharper.operand_sharpens 1).bind
  intro value other operand
  apply (sharper.operand_sharpens 2).bind
  intro second otherSecond operandSecond
  rw [operand.foldInt?_eq, operandSecond.foldInt?_eq]
  exact sharpens_refl (fun _ => rfl) _

theorem reducedDims_sharpens (rank : Nat) :
    Sharpens Eq (program.reducedDims op rank) (rough.reducedDims old rank) := by
  apply (sharper.operand_sharpens 1).bind
  intro value other operand
  rw [operand.isNone_eq]
  split
  · exact sharpens_refl (fun _ => rfl) _
  · apply (sharper.listOperand_sharpens 1).bind
    rintro list _ rfl
    exact sharpens_refl (fun _ => rfl) _

theorem inferBinary_sharpens : Sharpens InfoBelow (program.inferBinary op) (rough.inferBinary old) := by
  apply (sharper.tensorOperand_sharpens 0).bind
  intro a first firstBelow
  apply (sharper.tensorOperand_sharpens 1).bind
  intro b second secondBelow
  exact (Shape.broadcastInfo_sharpens firstBelow secondBelow).ofShape

theorem inferScaled_sharpens : Sharpens InfoBelow (program.inferScaled op) (rough.inferScaled old) := by
  apply (sharper.expectOperands_sharpens 3).after
  apply (sharper.scalarOperand_sharpens 2 fun _ => rfl).after
  exact sharper.inferBinary_sharpens

theorem inferDiv_sharpens : Sharpens InfoBelow (program.inferDiv op) (rough.inferDiv old) := by
  apply (sharper.expectOperands_sharpens 2).after
  apply (sharper.tensorOperand_sharpens 0).bind
  intro a first firstBelow
  apply (sharper.tensorOperand_sharpens 1).bind
  intro b second secondBelow
  apply (Shape.broadcastInfo_sharpens firstBelow secondBelow).ofShape.bind
  intro info oldInfo infoBelow
  apply sharpens_ok
  apply isSubtype_iff.mpr
  constructor
  · exact (isSubtype_iff.mp infoBelow).1
  · apply isSubtypeOption_bind (isSubtype_iff.mp firstBelow).2
    intro dtype
    exact isSubtypeOption_bind (isSubtype_iff.mp secondBelow).2 fun _ => isSubtypeOption_refl _

theorem inferUnary_sharpens : Sharpens InfoBelow (program.inferUnary op) (rough.inferUnary old) := by
  apply (sharper.expectOperands_sharpens 1).after
  apply (sharper.tensorOperand_sharpens 0).bind
  intro info oldInfo below
  rcases eq_none_or_eq_of_isSubtypeOption (isSubtype_iff.mp below).2 with unknown | same
  · rw [unknown]
    split
    · exact sharpens_error _ _
    · exact sharpens_ok below
  · rw [same]
    split
    · exact sharpens_error _ _
    · exact sharpens_ok below

theorem inferUnaryFloat_sharpens :
    Sharpens InfoBelow (program.inferUnaryFloat op) (rough.inferUnaryFloat old) := by
  apply sharper.inferUnary_sharpens.bind
  intro info oldInfo below
  have ⟨sizesBelow, dtypeBelow⟩ := isSubtype_iff.mp below
  exact sharpens_ok (isSubtype_iff.mpr ⟨sizesBelow, isSubtypeOption_map dtypeBelow widened⟩)

theorem inferClamp_sharpens : Sharpens InfoBelow (program.inferClamp op) (rough.inferClamp old) := by
  apply (sharper.expectOperands_sharpens 3).after
  apply (sharper.scalarOperand_sharpens 1 fun _ => rfl).after
  apply (sharper.scalarOperand_sharpens 2 fun _ => rfl).after
  exact sharper.tensorOperand_sharpens 0

theorem inferMm_sharpens : Sharpens InfoBelow (program.inferMm op) (rough.inferMm old) := by
  apply (sharper.expectOperands_sharpens 2).after
  apply (sharper.tensorOperand_sharpens 0).bind
  intro a first firstBelow
  apply (sharper.tensorOperand_sharpens 1).bind
  intro b second secondBelow
  apply (expectMatrix_sharpens "lhs" firstBelow).after
  apply (expectMatrix_sharpens "rhs" secondBelow).after
  have product : Sharpens InfoBelow
      (promoted a.dtype b.dtype >>= fun dtype => pure ⟨some [sizeAt? a 0, sizeAt? b 1], dtype⟩)
      (promoted first.dtype second.dtype >>= fun dtype =>
        pure ⟨some [sizeAt? first 0, sizeAt? second 1], dtype⟩) := by
    apply (promoted_sharpens (isSubtype_iff.mp firstBelow).2 (isSubtype_iff.mp secondBelow).2).bind
    intro dtype wide dtypeBelow
    apply sharpens_ok
    apply infoBelow_of_sizesBelow _ dtypeBelow
    exact .cons (sizeAt?_below firstBelow 0) (.cons (sizeAt?_below secondBelow 1) .nil)
  -- The inner sizes are compared where both are known. What knows more may find that they differ.
  rcases eq_none_or_eq_of_isSubtypeOption (sizeAt?_below firstBelow 1) with unknown | same
  · rw [unknown]
    split
    · split
      · exact sharpens_error _ _
      · exact product
    · exact product
  · rcases eq_none_or_eq_of_isSubtypeOption (sizeAt?_below secondBelow 0) with unknown | sameOther
    · rw [unknown, same]
      cases sizeAt? first 1 with
      | none => exact product
      | some size =>
        split
        · split
          · exact sharpens_error _ _
          · exact product
        · exact product
    · rw [same, sameOther]
      split
      · split
        · exact sharpens_error _ _
        · exact product
      · exact product

theorem inferSum_sharpens : Sharpens InfoBelow (program.inferSum op) (rough.inferSum old) := by
  apply (sharper.expectOperands_sharpens 4).after
  apply (sharper.tensorOperand_sharpens 0).bind
  intro info oldInfo below
  apply (sharper.scalarOperand_sharpens 1 fun _ => rfl).after
  apply (sharper.scalarOperand_sharpens 2 fun _ => rfl).after
  apply (sharper.scalarOperand_sharpens 3 fun _ => rfl).after
  apply (sharper.operand_sharpens 3).bind
  intro value other operand
  rw [operand.foldInt?_eq]
  extract_lets summed summedOld
  have sizes : ∀ dtype wide, isSubtypeOption dtype wide = true →
      Sharpens InfoBelow (summed dtype) (summedOld wide) := by
    intro dtype wide dtypeBelow
    apply (sharper.operand_sharpens 2).bind
    intro keepValue _ keepOperand
    rw [keepOperand.foldBool?_eq]
    -- Where the rank is not known only the dtype is inferred, whatever is summed.
    rcases isSubtypeSizes_cases (isSubtype_iff.mp below).1 with unknown | ⟨known, sizes, areKnown, areSizes, each⟩
    · rw [unknown]
      intro answer run
      split at run
      · obtain ⟨dims, -, run⟩ := of_bind_eq_ok run
        cases run
        exact ⟨_, rfl, infoBelow_of_unsized dtypeBelow _⟩
      · cases run
        exact ⟨_, rfl, infoBelow_of_unsized dtypeBelow _⟩
    · rw [areKnown, areSizes]
      cases rough.foldBool? _ with
      | none => exact sharpens_ok (infoBelow_of_unsized dtypeBelow _)
      | some keep =>
        have dims : Sharpens Eq (program.reducedDims op known.length) (rough.reducedDims old sizes.length) := by
          rw [each.length_eq]
          exact sharper.reducedDims_sharpens _
        apply dims.bind
        rintro dims _ rfl
        cases dims with
        | none => exact sharpens_ok (infoBelow_of_unsized dtypeBelow _)
        | some dims =>
          exact sharpens_ok (infoBelow_of_sizesBelow (reducedSizes_below each dims keep) dtypeBelow)
  split
  case h_1 code _ =>
    split
    · exact sizes _ _ (isSubtypeOption_refl _)
    · exact sharpens_error _ _
  case h_2 => exact sizes _ _ (isSubtypeOption_map (isSubtype_iff.mp below).2 _)

theorem inferTranspose_sharpens :
    Sharpens InfoBelow (program.inferTranspose op) (rough.inferTranspose old) := by
  apply (sharper.expectOperands_sharpens 3).after
  apply (sharper.scalarOperand_sharpens 1 fun _ => rfl).after
  apply (sharper.scalarOperand_sharpens 2 fun _ => rfl).after
  apply (sharper.tensorOperand_sharpens 0).bind
  intro info oldInfo below
  have ⟨sizesBelow, dtypeBelow⟩ := isSubtype_iff.mp below
  rcases isSubtypeSizes_cases sizesBelow with unknown | ⟨known, sizes, areKnown, areSizes, each⟩
  · rw [unknown]
    intro answer run
    split at run
    · cases run
      exact ⟨_, rfl, infoBelow_of_unsized dtypeBelow _⟩
    · obtain ⟨dims, -, run⟩ := of_bind_eq_ok run
      split at run
      · cases run
        exact ⟨_, rfl, infoBelow_of_unsized dtypeBelow _⟩
      · cases run
        exact ⟨_, rfl, infoBelow_of_unsized dtypeBelow _⟩
  · rw [areKnown, areSizes]
    have dims : Sharpens Eq (program.transposedDims op known.length)
        (rough.transposedDims old sizes.length) := by
      rw [each.length_eq]
      exact sharper.transposedDims_sharpens _
    apply dims.bind
    rintro dims _ rfl
    split
    · exact sharpens_ok (infoBelow_of_sizesBelow (exchanged_below each _ _) dtypeBelow)
    · exact sharpens_ok (infoBelow_of_sizesBelow (forall₂_unknown each) dtypeBelow)

theorem inferView_sharpens : Sharpens InfoBelow (program.inferView op) (rough.inferView old) := by
  apply (sharper.expectOperands_sharpens 2).after
  apply (sharper.scalarOperand_sharpens 1 fun _ => rfl).after
  apply (sharper.tensorOperand_sharpens 0).bind
  intro info oldInfo below
  have ⟨sizesBelow, dtypeBelow⟩ := isSubtype_iff.mp below
  apply (sharper.listOperand_sharpens 1).bind
  rintro list _ rfl
  split
  · exact sharpens_ok (isSubtype_iff.mpr ⟨rfl, dtypeBelow⟩)
  · split
    · apply (Shape.reshape_sharpens below _).ofShape.bind
      intro known wide each
      exact sharpens_ok (infoBelow_of_sizesBelow each dtypeBelow)
    · exact sharpens_ok (isSubtype_iff.mpr ⟨isSubtypeSizes_refl _, dtypeBelow⟩)

theorem inferSlice_sharpens : Sharpens InfoBelow (program.inferSlice op) (rough.inferSlice old) := by
  apply (sharper.expectOperands_sharpens 5).after
  apply (sharper.scalarOperand_sharpens 1 fun _ => rfl).after
  apply (sharper.scalarOperand_sharpens 2 fun _ => rfl).after
  apply (sharper.scalarOperand_sharpens 3 fun _ => rfl).after
  apply (sharper.scalarOperand_sharpens 4 fun _ => rfl).after
  apply (sharper.tensorOperand_sharpens 0).bind
  intro info oldInfo below
  apply (sharper.operand_sharpens 4).bind
  intro value other operand
  rw [operand.foldInt?_eq]
  extract_lets sliced slicedOld
  have sizes : Sharpens InfoBelow (sliced ()) (slicedOld ()) := by
    have ⟨sizesBelow, dtypeBelow⟩ := isSubtype_iff.mp below
    simp only [sliced, slicedOld]
    rcases isSubtypeSizes_cases sizesBelow with unknown | ⟨known, sizes, areKnown, areSizes, each⟩
    · rw [unknown]
      intro answer run
      split at run
      · cases run
        exact ⟨_, rfl, infoBelow_of_unsized dtypeBelow _⟩
      · obtain ⟨dim, -, run⟩ := of_bind_eq_ok run
        split at run
        · cases run
          exact ⟨_, rfl, infoBelow_of_unsized dtypeBelow _⟩
        · obtain ⟨params, -, run⟩ := of_bind_eq_ok run
          cases run
          exact ⟨_, rfl, infoBelow_of_unsized dtypeBelow _⟩
    · rw [areKnown, areSizes]
      apply (sharper.operand_sharpens 1).found.bind
      rintro dimValue otherDim ⟨dimOperand, isDim⟩
      rw [dimOperand.foldInt?_eq, each.length_eq]
      split
      · exact sharpens_ok (infoBelow_of_sizesBelow (forall₂_unknown each) dtypeBelow)
      case h_2 position isPosition =>
        have lengths : (known.map (·.getD (-1))).length = (sizes.map (·.getD (-1))).length := by
          rw [List.length_map, List.length_map, each.length_eq]
        apply (sharper.sliceParams_sharpens lengths).bind
        intro params oldParams same
        apply sharpens_ok
        apply infoBelow_of_sizesBelow _ dtypeBelow
        apply set_below each
        rcases getElem?_below each position with
          ⟨isKnown, isOld⟩ | ⟨size, oldSize, isKnown, isOld, sizeBelow⟩
        · rw [isKnown, isOld]
          exact isSubtypeOption_none _
        · rw [isKnown, isOld]
          rcases eq_none_or_eq_of_isSubtypeOption sizeBelow with rfl | rfl
          · exact isSubtypeOption_none _
          -- Both know the size that is sliced, so both count with the same bounds.
          · have agree : params = oldParams := by
              apply same
              intro value position' isValue isOther
              cases isDim.symm.trans isValue
              rw [List.length_map, isPosition] at isOther
              cases isOther
              simp [List.getD_eq_getElem?_getD, isKnown, isOld]
            rw [agree]
            exact isSubtypeOption_refl _
  split
  · split
    · exact sharpens_error _ _
    · exact sizes
  · exact sizes

theorem inferBroadcastTo_sharpens :
    Sharpens InfoBelow (program.inferBroadcastTo op) (rough.inferBroadcastTo old) := by
  apply (sharper.expectOperands_sharpens 2).after
  apply (sharper.scalarOperand_sharpens 1 fun _ => rfl).after
  apply (sharper.tensorOperand_sharpens 0).bind
  intro info oldInfo below
  have ⟨sizesBelow, dtypeBelow⟩ := isSubtype_iff.mp below
  apply (sharper.listOperand_sharpens 1).bind
  rintro list _ rfl
  split
  · exact sharpens_ok (infoBelow_of_unsized dtypeBelow _)
  case h_2 target =>
    rcases isSubtypeSizes_cases sizesBelow with unknown | ⟨known, sizes, areKnown, areSizes, each⟩
    · rw [unknown]
      -- Without sizes to compare with, the target is taken as it is.
      cases info.sizes with
      | none => exact sharpens_ok (isSubtype_iff.mpr ⟨isSubtypeSizes_refl _, dtypeBelow⟩)
      | some sizes =>
        intro answer run
        simp only at run
        obtain ⟨-, run⟩ := of_check_eq_ok run
        obtain ⟨result, isResult, run⟩ := of_bind_eq_ok run
        cases run
        obtain ⟨_, isPlain, each⟩ := broadcastTargets_sharpen_plain target _ _ result isResult
        cases isPlain
        exact ⟨_, rfl, infoBelow_of_sizesBelow each dtypeBelow⟩
    · rw [areKnown, areSizes]
      simp only [each.length_eq]
      split
      · exact sharpens_error _ _
      · apply Sharpens.bind SizesBelow
        · apply sharpens_mapM
          apply List.forall₂_same.mpr
          rintro ⟨size, index⟩ _
          apply broadcastTarget_sharpens
          split
          · rfl
          · exact join_getElem?_below each _
        · intro result wide resultBelow
          exact sharpens_ok (infoBelow_of_sizesBelow resultBelow dtypeBelow)

theorem quantizedOperand_sharpens :
    Sharpens InfoBelow (program.quantizedOperand op) (rough.quantizedOperand old) := by
  apply (sharper.tensorOperand_sharpens 0).bind
  intro info oldInfo below
  rcases eq_none_or_eq_of_isSubtypeOption (isSubtype_iff.mp below).2 with unknown | same
  · rw [unknown]
    split
    · split
      · exact sharpens_ok below
      · exact sharpens_error _ _
    · exact sharpens_ok below
  · rw [same]
    split
    · split
      · exact sharpens_ok below
      · exact sharpens_error _ _
    · exact sharpens_ok below

theorem inferQuantize_sharpens :
    Sharpens InfoBelow (program.inferQuantize op) (rough.inferQuantize old) := by
  apply (sharper.expectOperands_sharpens 4).after
  apply (sharper.scalarOperand_sharpens 1 fun _ => rfl).after
  apply (sharper.scalarOperand_sharpens 2 fun _ => rfl).after
  apply (sharper.scalarOperand_sharpens 3 fun _ => rfl).after
  apply (sharper.tensorOperand_sharpens 0).bind
  intro info oldInfo below
  have ⟨sizesBelow, dtypeBelow⟩ := isSubtype_iff.mp below
  extract_lets coded codedOld
  have quantized : Sharpens InfoBelow (coded ()) (codedOld ()) := by
    apply (sharper.operand_sharpens 3).bind
    intro value other operand
    rw [operand.foldInt?_eq]
    have below : ∀ dtype, InfoBelow ⟨info.sizes, dtype⟩ ⟨oldInfo.sizes, dtype⟩ := fun dtype =>
      isSubtype_iff.mpr ⟨sizesBelow, isSubtypeOption_refl dtype⟩
    split
    · exact sharpens_ok (below _)
    · split
      · exact sharpens_ok (below _)
      · exact sharpens_error _ _
  -- A dtype that is not known passes for a float.
  rcases eq_none_or_eq_of_isSubtypeOption dtypeBelow with unknown | same
  · rw [unknown]
    split
    · split
      · exact sharpens_error _ _
      · exact quantized
    · exact quantized
  · rw [same]
    split
    · split
      · exact sharpens_error _ _
      · exact quantized
    · exact quantized

theorem inferDequantize_sharpens :
    Sharpens InfoBelow (program.inferDequantize op) (rough.inferDequantize old) := by
  apply (sharper.expectOperands_sharpens 1).after
  apply sharper.quantizedOperand_sharpens.bind
  intro info oldInfo below
  exact sharpens_ok (isSubtype_iff.mpr ⟨(isSubtype_iff.mp below).1, isSubtypeOption_refl _⟩)

theorem inferIntRepr_sharpens : Sharpens InfoBelow (program.inferIntRepr op) (rough.inferIntRepr old) := by
  apply (sharper.expectOperands_sharpens 1).after
  apply sharper.quantizedOperand_sharpens.bind
  intro info oldInfo below
  have ⟨sizesBelow, dtypeBelow⟩ := isSubtype_iff.mp below
  apply sharpens_ok
  apply isSubtype_iff.mpr
  exact ⟨sizesBelow, isSubtypeOption_bind dtypeBelow fun _ => isSubtypeOption_refl _⟩

theorem inferAffineCreate_sharpens :
    Sharpens InfoBelow (program.inferAffineCreate op) (rough.inferAffineCreate old) := by
  apply (sharper.expectOperands_sharpens 3).after
  apply (sharper.scalarOperand_sharpens 1 fun _ => rfl).after
  apply (sharper.scalarOperand_sharpens 2 fun _ => rfl).after
  apply (sharper.tensorOperand_sharpens 0).bind
  intro info oldInfo below
  have ⟨sizesBelow, dtypeBelow⟩ := isSubtype_iff.mp below
  rcases eq_none_or_eq_of_isSubtypeOption dtypeBelow with unknown | same
  · rw [unknown]
    have below : ∀ dtype, InfoBelow ⟨info.sizes, dtype⟩ ⟨oldInfo.sizes, none⟩ := fun dtype =>
      isSubtype_iff.mpr ⟨sizesBelow, isSubtypeOption_none dtype⟩
    split
    · exact sharpens_ok (below _)
    · split
      · exact sharpens_ok (below _)
      · exact sharpens_error _ _
  · rw [same]
    have below : ∀ dtype, InfoBelow ⟨info.sizes, dtype⟩ ⟨oldInfo.sizes, dtype⟩ := fun dtype =>
      isSubtype_iff.mpr ⟨sizesBelow, isSubtypeOption_refl dtype⟩
    split
    · exact sharpens_ok (below _)
    · split
      · exact sharpens_ok (below _)
      · exact sharpens_error _ _

/-- What follows from a more precise version of an operation of any kind is more precise. -/
theorem inferKind_sharpens (kind : TorchKind) :
    Sharpens (Option.Rel InfoBelow) (program.inferKind op kind) (rough.inferKind old kind) := by
  have known : ∀ answer wide, InfoBelow answer wide → Option.Rel InfoBelow (some answer) (some wide) :=
    fun _ _ below => .some below
  cases kind with
  | addTensor | subTensor => exact sharper.inferScaled_sharpens.map known
  | mulTensor | maximum | minimum =>
    apply (sharper.expectOperands_sharpens 2).after
    exact sharper.inferBinary_sharpens.map known
  | divTensor => exact sharper.inferDiv_sharpens.map known
  | relu | neg | abs => exact sharper.inferUnary_sharpens.map known
  | exp | tanh | sigmoid => exact sharper.inferUnaryFloat_sharpens.map known
  | clamp => exact sharper.inferClamp_sharpens.map known
  | mm => exact sharper.inferMm_sharpens.map known
  | sumDimIntList => exact sharper.inferSum_sharpens.map known
  | transposeInt => exact sharper.inferTranspose_sharpens.map known
  | view | reshape => exact sharper.inferView_sharpens.map known
  | sliceTensor => exact sharper.inferSlice_sharpens.map known
  | broadcastTo => exact sharper.inferBroadcastTo_sharpens.map known
  | quantizePerTensor => exact sharper.inferQuantize_sharpens.map known
  | dequantizeSelf => exact sharper.inferDequantize_sharpens.map known
  | intRepr => exact sharper.inferIntRepr_sharpens.map known
  | perTensorAffineCreate => exact sharper.inferAffineCreate_sharpens.map known
  | _ => exact sharpens_ok .none

theorem inferInfo_sharpens :
    Sharpens (Option.Rel InfoBelow) (program.inferInfo op) (rough.inferInfo old) := by
  rw [inferInfo, inferInfo, sharper.kind]
  split
  · exact sharper.inferKind_sharpens _
  · exact sharpens_ok .none

end Sharper

/-- What follows about the result of an operation is monotone in what is known about its operands. If
something follows from either version, then at least as much follows from the more precise one; and where
the operands of the less precise version contradict each other, so do those of the other one. -/
theorem inferInfo_monotone (sharper : Sharper program op rough old) :
    (∀ answer wide, program.inferInfo op = .ok answer → rough.inferInfo old = .ok wide →
        Option.Rel InfoBelow answer wide) ∧
      ∀ fault, rough.inferInfo old = .error fault → ∃ conflict, program.inferInfo op = .error conflict := by
  constructor
  · intro answer wide isAnswer isWide
    obtain ⟨old, isOld, below⟩ := sharper.inferInfo_sharpens answer isAnswer
    cases isOld.symm.trans isWide
    exact below
  · intro fault failed
    cases isAnswer : program.inferInfo op with
    | error conflict => exact ⟨conflict, rfl⟩
    | ok answer =>
      obtain ⟨old, isOld, -⟩ := sharper.inferInfo_sharpens answer isAnswer
      cases isOld.symm.trans failed

end Operands

end Program

/-- A product of two matrices, and one of two matrices of which less is known. -/
def products : Program where
  values := #[⟨some "%a", some (.torch (.vtensor ⟨some [some 2, some 3], some .f32⟩)), .argument (some ⟨1⟩)⟩,
    ⟨some "%b", some (.torch (.vtensor ⟨some [some 3, some 4], some .f32⟩)), .argument (some ⟨1⟩)⟩,
    ⟨some "%c", some (.torch (.vtensor ⟨none, some .f32⟩)), .argument (some ⟨1⟩)⟩,
    ⟨some "%d", some (.torch (.vtensor ⟨some [none, some 4], none⟩)), .argument (some ⟨1⟩)⟩,
    ⟨some "%0", some (.torch (.vtensor {})), .result ⟨2⟩⟩,
    ⟨some "%1", some (.torch (.vtensor {})), .result ⟨3⟩⟩]
  operations := #[
    { kind := .module },
    { kind := .func .func, attributes := Attributes.empty.insert "sym_name" (.symbol "f") },
    { kind := .torch .mm, operands := [⟨0⟩, ⟨1⟩], results := [⟨4⟩] },
    { kind := .torch .mm, operands := [⟨2⟩, ⟨3⟩], results := [⟨5⟩] },
    { kind := .func .ret }]
  headers := #[{}, { arguments := [⟨0⟩, ⟨1⟩, ⟨2⟩, ⟨3⟩] }]
  root := ⟨0⟩
  regions := .single ⟨0⟩ (.single ⟨1⟩ (.single ⟨1⟩ (.cons ⟨2⟩ .nil (.cons ⟨3⟩ .nil (.single ⟨4⟩ .nil)))))

theorem products_sharper : products.Sharper ⟨2⟩ products ⟨3⟩ where
  kind := rfl
  count := rfl
  operand index value other isValue isOther := by
    rcases index with _ | _ | index
    · cases isValue
      cases isOther
      exact ⟨.tensor rfl, by omega, rfl, rfl⟩
    · cases isValue
      cases isOther
      exact ⟨.tensor rfl, by omega, rfl, rfl⟩
    · cases isValue

/-- More follows about the product of the matrices of which more is known. -/
theorem inferInfo_monotone_products : products.inferInfo ⟨2⟩ = .ok (some ⟨some [some 2, some 4], some .f32⟩) ∧
    products.inferInfo ⟨3⟩ = .ok (some ⟨some [none, some 4], none⟩) ∧
    InfoBelow ⟨some [some 2, some 4], some .f32⟩ ⟨some [none, some 4], none⟩ := by
  have first : products.inferInfo ⟨2⟩ = .ok (some ⟨some [some 2, some 4], some .f32⟩) := rfl
  have second : products.inferInfo ⟨3⟩ = .ok (some ⟨some [none, some 4], none⟩) := rfl
  have below := (Program.inferInfo_monotone products_sharper).1 _ _ first second
  cases below with
  | some below => exact ⟨first, second, below⟩

end TensorIR
