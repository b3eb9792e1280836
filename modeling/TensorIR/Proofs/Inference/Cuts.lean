import TensorIR.Program.Cut
import TensorIR.Proofs.Evolution
import TensorIR.Proofs.Verified

/-!
# Slices of dimensions without a size

The parameters of a slice come from one cut of one dimension. A size that is not known counts as `-1` when the
type of a slice is inferred, and the cut is made before anybody asks whether it was known. If all sizes that are
known are numbers of elements, then these are the only cuts that are not possible.

## Main definitions

* `Program.isSized` — all sizes that are known are numbers of elements
* `Program.Cuts` — a slice is cut at a dimension

## Main results

* `Program.sliceParams_eq_some_iff` — the parameters of a slice are those of a cut
* `Program.isPossible_of_cut?` — a cut of a tensor whose sizes are all known is possible
* `Program.sizes_of_inferSlice` — what comes of a cut is thrown away if the size of the dimension is not known
* `Program.isCuttable_iff` — all cuts are possible if they are made of dimensions whose sizes are known
-/

namespace TensorIR

/-- The sizes that are known are numbers of elements. -/
def TensorInfo.isSized (info : TensorInfo) : Bool :=
  info.sizes.all fun sizes => sizes.all fun size => size.all (0 ≤ ·)

/-- The sizes of tensors that are known are numbers of elements. -/
def Program.isSized (program : Program) : Bool :=
  program.values.all fun value =>
    match value.type with
    | some (.torch (.vtensor info)) => info.isSized
    | _ => true

theorem Shape.lt_of_normalizeDim? {dim : Int} {rank position : Nat}
    (found : normalizeDim? dim rank = some position) : position < rank := by
  rw [normalizeDim?] at found
  simp only [Option.ite_none_right_eq_some, Option.some.injEq] at found
  omega

theorem toOption_eq_some_iff {ε α : Type} {answer : Except ε α} {found : α} :
    answer.toOption = some found ↔ answer = .ok found := by
  cases answer <;> simp [Except.toOption]

namespace Program

variable {program : Program} {op : OpId} {shape : List Int} {position : Nat} {cut : Cut}

/-- A slice of a tensor of a given shape is cut at a dimension, all that the cut depends on being known. -/
structure Cuts (program : Program) (op : OpId) (shape : List Int) (position : Nat) (cut : Cut) : Prop where
  dimension : program.cutDimension? op shape.length = some position
  start : ∃ value, program.operand op 2 = .ok value ∧ program.sliceBound? value = some cut.start
  stop : ∃ value, program.operand op 3 = .ok value ∧ program.sliceBound? value = some cut.stop
  step : ∃ value, program.operand op 4 = .ok value ∧ program.foldInt? value = some cut.step
  step_pos : 0 < cut.step
  size_eq : cut.size = shape.getD position 0

theorem cutDimension?_eq_some_iff {rank : Nat} : program.cutDimension? op rank = some position ↔
    ∃ value dim, program.operand op 1 = .ok value ∧ program.foldInt? value = some dim ∧
      Shape.normalizeDim? dim rank = some position := by
  simp [cutDimension?, toOption_eq_some_iff, Option.bind_eq_some_iff]

theorem cut?_eq_some_iff : program.cut? op shape = some cut ↔
    ∃ position, program.Cuts op shape position cut := by
  constructor
  · intro isCut
    simp only [cut?, bind, Option.bind_eq_some_iff, toOption_eq_some_iff,
      Option.ite_none_right_eq_some, Option.some.injEq] at isCut
    obtain ⟨position, dimension, _, isStart, start, hasStart, _, isStop, stop, hasStop, _, isStep, step, hasStep,
      positive, rfl⟩ := isCut
    exact ⟨position, dimension, ⟨_, isStart, hasStart⟩, ⟨_, isStop, hasStop⟩, ⟨_, isStep, hasStep⟩, positive, rfl⟩
  · rintro ⟨position, cuts⟩
    obtain ⟨_, isStart, hasStart⟩ := cuts.start
    obtain ⟨_, isStop, hasStop⟩ := cuts.stop
    obtain ⟨_, isStep, hasStep⟩ := cuts.step
    simp only [cut?, bind, Option.bind_eq_some_iff, toOption_eq_some_iff,
      Option.ite_none_right_eq_some, Option.some.injEq]
    exact ⟨position, cuts.dimension, _, isStart, _, hasStart, _, isStop, _, hasStop, _, isStep, _, hasStep,
      cuts.step_pos, by rw [← cuts.size_eq]⟩

/-- A cut gives the parameters of a slice. -/
theorem Cuts.sliceParams_eq (cuts : program.Cuts op shape position cut) :
    program.sliceParams op shape = .ok (some (position, cut.bounds.1, cut.bounds.2, cut.step)) := by
  obtain ⟨_, dim, isDimension, hasDimension, isPosition⟩ := cutDimension?_eq_some_iff.mp cuts.dimension
  obtain ⟨_, isStart, hasStart⟩ := cuts.start
  obtain ⟨_, isStop, hasStop⟩ := cuts.stop
  obtain ⟨_, isStep, hasStep⟩ := cuts.step
  simp only [sliceParams, isDimension, hasDimension, isPosition, isStart, isStop, isStep, hasStart, hasStop,
    hasStep, bind, Except.bind, if_neg (Int.not_le.mpr cuts.step_pos), ← cuts.size_eq]
  rfl

/-- The parameters of a slice are known only where a cut gives them. -/
theorem exists_cuts_of_sliceParams {first length step : Int}
    (run : program.sliceParams op shape = .ok (some (position, first, length, step))) :
    ∃ cut, program.Cuts op shape position cut ∧ cut.bounds = (first, length) ∧ cut.step = step := by
  unfold sliceParams at run
  obtain ⟨dimension, isDimension, run⟩ := of_bind_eq_ok run
  split at run
  case h_2 => cases run
  case h_1 dim isDim =>
    split at run
    case h_2 => cases run
    case h_1 isPosition =>
      obtain ⟨_, isStart, run⟩ := of_bind_eq_ok run
      obtain ⟨_, isStop, run⟩ := of_bind_eq_ok run
      simp only [] at run
      split at run
      case h_2 => cases run
      case h_1 start stop hasStart hasStop =>
        obtain ⟨_, isStep, run⟩ := of_bind_eq_ok run
        split at run
        case h_1 => cases run
        case h_2 step hasStep =>
          obtain ⟨notPositive, run⟩ := of_check_eq_ok run
          cases run
          refine ⟨⟨shape.getD position 0, start, stop, step⟩, ⟨?_, ?_, ?_, ?_, ?_, rfl⟩, rfl, rfl⟩
          · exact cutDimension?_eq_some_iff.mpr ⟨_, dim, isDimension, isDim, isPosition⟩
          · exact ⟨_, isStart, hasStart⟩
          · exact ⟨_, isStop, hasStop⟩
          · exact ⟨_, isStep, hasStep⟩
          · exact Int.not_le.mp notPositive

/-- The parameters of a slice are the dimension, the bounds and the step of a cut. -/
theorem sliceParams_eq_some_iff {first length step : Int} :
    program.sliceParams op shape = .ok (some (position, first, length, step)) ↔
      ∃ cut, program.Cuts op shape position cut ∧ cut.bounds = (first, length) ∧ cut.step = step := by
  refine ⟨exists_cuts_of_sliceParams, ?_⟩
  rintro ⟨cut, cuts, bounds, rfl⟩
  rw [cuts.sliceParams_eq, bounds]

theorem Cuts.position_lt (cuts : program.Cuts op shape position cut) : position < shape.length := by
  obtain ⟨_, _, -, -, isPosition⟩ := cutDimension?_eq_some_iff.mp cuts.dimension
  exact Shape.lt_of_normalizeDim? isPosition

/-- A cut of a tensor whose sizes are all known is possible. -/
theorem isPossible_of_cut? (sized : ∀ size ∈ shape, 0 ≤ size) (isCut : program.cut? op shape = some cut) :
    cut.isPossible = true := by
  obtain ⟨position, cuts⟩ := cut?_eq_some_iff.mp isCut
  have below := cuts.position_lt
  have among := sized shape[position] (List.getElem_mem below)
  simpa [Cut.isPossible, cuts.size_eq, below] using among

/-! ### Inference -/

/-- A cut that is made to infer the type of a slice. -/
theorem inferredCut?_eq_some_iff : program.inferredCut? op = some cut ↔
    program.kind op = .torch .sliceTensor ∧ ∃ info sizes position, program.verifySliced op = .ok info ∧
      info.sizes = some sizes ∧ program.Cuts op (sizes.map (·.getD (-1))) position cut := by
  simp only [inferredCut?, Option.ite_none_right_eq_some, bind, Option.bind_eq_some_iff, toOption_eq_some_iff,
    cut?_eq_some_iff]
  constructor
  · rintro ⟨isSlice, info, verified, sizes, known, position, cuts⟩
    exact ⟨isSlice, info, sizes, position, verified, known, cuts⟩
  · rintro ⟨isSlice, info, sizes, position, verified, known, cuts⟩
    exact ⟨isSlice, info, verified, sizes, known, position, cuts⟩

theorem of_verifySliced_eq_ok {info : TensorInfo} (verified : program.verifySliced op = .ok info) :
    program.tensorOperand op 0 = .ok info := by
  unfold verifySliced at verified
  obtain ⟨⟨⟩, -, verified⟩ := of_bind_eq_ok verified
  obtain ⟨⟨⟩, -, verified⟩ := of_bind_eq_ok verified
  obtain ⟨⟨⟩, -, verified⟩ := of_bind_eq_ok verified
  obtain ⟨⟨⟩, -, verified⟩ := of_bind_eq_ok verified
  obtain ⟨⟨⟩, -, verified⟩ := of_bind_eq_ok verified
  exact verified

theorem of_tensorOperand_eq_ok {index : Nat} {info : TensorInfo}
    (isTensor : program.tensorOperand op index = .ok info) :
    ∃ value, program.operand op index = .ok value ∧ program.torchTypeOf? value = some (.vtensor info) := by
  obtain ⟨value, isOperand, isTensor⟩ := of_bind_eq_ok isTensor
  split at isTensor
  case h_1 hasType =>
    cases isTensor
    exact ⟨value, isOperand, hasType⟩
  all_goals cases isTensor

/-- The sizes that are known of a tensor in the program are numbers of elements. -/
theorem nonneg_of_isSized (sized : program.isSized = true) {value : ValueId} {info : TensorInfo}
    {sizes : List (Option Int)} {size : Int} (isTensor : program.torchTypeOf? value = some (.vtensor info))
    (known : info.sizes = some sizes) (among : some size ∈ sizes) : 0 ≤ size := by
  obtain ⟨type, hasType, isTorch⟩ := Option.bind_eq_some_iff.mp isTensor
  have isType : type = .torch (.vtensor info) := by
    cases type <;> cases isTorch
    rfl
  have below := lt_of_typeOf? hasType
  have checked := Array.all_eq_true.mp sized value.index below
  have isEntry : program.values[value.index].type = some (.torch (.vtensor info)) := by
    rw [← isType, ← hasType, typeOf?, Program.value, Array.getD_eq_getD_getElem?, Array.getElem?_eq_getElem,
      Option.getD_some]
  simp only [isEntry, TensorInfo.isSized, known, Option.all_some, List.all_eq_true] at checked
  simpa using checked _ among

/-- The size of a dimension that is cut to infer a type is the one that is known, or `-1`. -/
theorem Cuts.isPossible_iff {sizes : List (Option Int)}
    (cuts : program.Cuts op (sizes.map (·.getD (-1))) position cut)
    (sized : ∀ size, some size ∈ sizes → 0 ≤ size) :
    cut.isPossible = true ↔ ∃ size, sizes[position]? = some (some size) := by
  have below : position < sizes.length := by simpa using cuts.position_lt
  have size_eq : cut.size = sizes[position].getD (-1) := by simp [cuts.size_eq, below]
  rw [Cut.isPossible, decide_eq_true_iff, size_eq, List.getElem?_eq_getElem below]
  cases isSize : sizes[position] with
  | none => simp
  | some size => simpa using sized size (isSize ▸ List.getElem_mem below)

/-- What comes of a cut is thrown away if the size of the dimension is not known. -/
theorem sizes_of_inferSlice {info result : TensorInfo} {sizes : List (Option Int)}
    (run : program.inferSlice op = .ok result) (verified : program.verifySliced op = .ok info)
    (known : info.sizes = some sizes) (cuts : program.Cuts op (sizes.map (·.getD (-1))) position cut) :
    result.sizes = some (sizes.set position ((sizes[position]?).join.map fun _ => cut.bounds.2)) := by
  obtain ⟨_, dim, isDimension, isDim, isPosition⟩ := cutDimension?_eq_some_iff.mp cuts.dimension
  rw [List.length_map] at isPosition
  obtain ⟨_, isStep, hasStep⟩ := cuts.step
  unfold inferSlice at run
  -- The rules for the operands come first, and they have been met.
  obtain ⟨⟨⟩, -, run⟩ := of_bind_eq_ok run
  obtain ⟨⟨⟩, -, run⟩ := of_bind_eq_ok run
  obtain ⟨⟨⟩, -, run⟩ := of_bind_eq_ok run
  obtain ⟨⟨⟩, -, run⟩ := of_bind_eq_ok run
  obtain ⟨⟨⟩, -, run⟩ := of_bind_eq_ok run
  rw [of_verifySliced_eq_ok verified] at run
  simp only [bind, Except.bind, isStep, hasStep, known, isDimension, isDim, Option.bind_some, isPosition,
    cuts.sliceParams_eq, if_neg (Int.not_le.mpr cuts.step_pos)] at run
  cases run
  cases (sizes[position]?).join <;> rfl

/-- All cuts that are made to infer types are possible if and only if no slice cuts a dimension of unknown size,
all else that the cut depends on being known. -/
theorem isCuttable_iff (sized : program.isSized = true) : program.isCuttable = true ↔
    ∀ op ∈ program.tree.ops, program.kind op = .torch .sliceTensor → ∀ info sizes position cut,
      program.verifySliced op = .ok info → info.sizes = some sizes →
        program.Cuts op (sizes.map (·.getD (-1))) position cut → ∃ size, sizes[position]? = some (some size) := by
  simp only [isCuttable, List.all_eq_true, Option.all_eq_true]
  -- Whether a cut is possible only depends on the size of the dimension, by `Cuts.isPossible_iff`.
  constructor
  · intro possible op present isSlice info sizes position cut verified known cuts
    have isCut := inferredCut?_eq_some_iff.mpr ⟨isSlice, info, sizes, position, verified, known, cuts⟩
    obtain ⟨value, -, isTensor⟩ := of_tensorOperand_eq_ok (of_verifySliced_eq_ok verified)
    exact (cuts.isPossible_iff fun _ => nonneg_of_isSized sized isTensor known).mp (possible op present cut isCut)
  · intro known op present cut isCut
    obtain ⟨isSlice, info, sizes, position, verified, hasSizes, cuts⟩ := inferredCut?_eq_some_iff.mp isCut
    obtain ⟨value, -, isTensor⟩ := of_tensorOperand_eq_ok (of_verifySliced_eq_ok verified)
    have hasSize := known op present isSlice info sizes position cut verified hasSizes cuts
    exact (cuts.isPossible_iff fun _ => nonneg_of_isSized sized isTensor hasSizes).mpr hasSize

end Program

/-- A function that keeps a whole tensor of one dimension, whose size is not known. -/
def trimming : Program where
  values :=
    let vector := .torch (.vtensor ⟨some [none], some .f32⟩)
    #[⟨some "%x", some vector, .argument (some ⟨0⟩)⟩, ⟨none, some vector, .signature⟩,
      ⟨some "%d", some (.torch .int), .result ⟨1⟩⟩, ⟨some "%n", some (.torch .none), .result ⟨2⟩⟩,
      ⟨some "%s", some (.torch .int), .result ⟨3⟩⟩, ⟨some "%0", some vector, .result ⟨4⟩⟩]
  operations := #[
    { kind := .func .func, results := [⟨1⟩],
      attributes := Attributes.empty.insert "sym_name" (.ofSymbol "f") },
    { kind := .torch .constantInt, results := [⟨2⟩],
      attributes := Attributes.empty.insert "value" (.int 0) },
    { kind := .torch .constantNone, results := [⟨3⟩] },
    { kind := .torch .constantInt, results := [⟨4⟩],
      attributes := Attributes.empty.insert "value" (.int 1) },
    { kind := .torch .sliceTensor, operands := [⟨0⟩, ⟨2⟩, ⟨3⟩, ⟨3⟩, ⟨4⟩], results := [⟨5⟩] },
    { kind := .func .ret, operands := [⟨5⟩] },
    { kind := .module }]
  headers := #[{ arguments := [⟨0⟩] }, {}]
  root := ⟨6⟩
  regions := .single ⟨1⟩ (.single ⟨0⟩ (.single ⟨0⟩ (.cons ⟨1⟩ .nil (.cons ⟨2⟩ .nil (.cons ⟨3⟩ .nil
    (.cons ⟨4⟩ .nil (.single ⟨5⟩ .nil)))))))

/-- The slice is cut at a size of `-1`. -/
theorem not_isCuttable_trimming : trimming.isSized = true ∧ ¬trimming.isCuttable = true := by
  have sized : trimming.isSized = true := by decide +kernel
  refine ⟨sized, fun cuttable => ?_⟩
  have cuts : trimming.Cuts ⟨4⟩ [-1] 0 ⟨-1, none, none, 1⟩ :=
    ⟨by decide, ⟨⟨3⟩, rfl, by decide⟩, ⟨⟨3⟩, rfl, by decide⟩, ⟨⟨4⟩, rfl, by decide⟩, by decide, rfl⟩
  obtain ⟨size, known⟩ := (Program.isCuttable_iff sized).mp cuttable ⟨4⟩ (by decide) rfl
    ⟨some [none], some .f32⟩ [none] 0 _ (by rfl) rfl cuts
  cases known

end TensorIR
