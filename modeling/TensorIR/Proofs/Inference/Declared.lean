import TensorIR.Proofs.Inference.Cuts
import TensorIR.Proofs.Inference.Knowledge
import TensorIR.Proofs.Refinement.Rejection
import TensorIR.Proofs.Tensors.Contents

/-!
# What verification says about a declared result

The rule for tensor operations compares the declared type of the result with the one that follows from the
operands. If everything is known about the result and about the operands, then the declared shape is the one that
follows.

## Main definitions

* `Shape.IsCommon` — the common shape of two shapes, aligned at the last dimension

## Main results

* `Shape.reshape_eq_ok_iff` — when a view has sizes, and which
* `Program.exists_inferred` — what follows about the result of a tensor operation does not contradict its type
* `Program.of_view` — a view has as many elements as its operand
* `Program.of_slice` — a slice has the size that its bounds say
* `Program.of_binary`, `Program.of_mm` — the result of combining two tensors has their common shape, and that of
  multiplying two matrices the rows of one and the columns of the other
* `Program.of_quantize`, `Program.of_dequantize` — quantizing and the way back keep the shape
-/

namespace TensorIR

/-! ### Known tensors -/

namespace TensorInfo

variable {shape sizes : List Int} {dtype other : Dtype}

theorem mapM_id_some (shape : List Int) : (shape.map some).mapM id = some shape := by
  induction shape with
  | nil => rfl
  | cons size shape ih => simp [ih]

theorem staticShape?_ofShape (shape : List Int) (dtype : Dtype) : (ofShape shape dtype).staticShape? = some shape :=
  mapM_id_some shape

theorem storage?_ofShape (shape : List Int) (dtype : Dtype) :
    (ofShape shape dtype).storage? = some (shape, dtype.storage) := by
  rw [storage?, staticShape?_ofShape]
  rfl

theorem eq_of_mapM_meetOption? : ∀ {shape sizes : List Int}, shape.length = sizes.length →
    (((shape.map some).zip (sizes.map some)).mapM fun pair => meetOption? pair.1 pair.2).isSome → sizes = shape
  | [], [], _, _ => rfl
  | size :: shape, other :: sizes, length_eq, met => by
    obtain ⟨both, isBoth⟩ := Option.isSome_iff_exists.mp met
    simp only [List.map_cons, List.zip_cons_cons, List.mapM_cons, Option.bind_eq_bind, Option.bind_eq_some_iff]
      at isBoth
    obtain ⟨_, isFirst, rest, isRest, -⟩ := isBoth
    have same : size = other := by
      rw [meetOption?] at isFirst
      split at isFirst
      case isTrue same => exact same
      case isFalse => cases isFirst
    rw [same, eq_of_mapM_meetOption? (Nat.succ.inj length_eq) (Option.isSome_iff_exists.mpr ⟨rest, isRest⟩)]

/-- If everything is known about two tensors that do not contradict each other, they are the same. -/
theorem sizes_of_meet? {info : TensorInfo} (met : ((ofShape shape dtype).meet? info).isSome)
    (known : info.sizes = some (sizes.map some)) : sizes = shape := by
  obtain ⟨both, isBoth⟩ := Option.isSome_iff_exists.mp met
  obtain ⟨all, isAll, -⟩ := Option.bind_eq_some_iff.mp isBoth
  rw [known] at isAll
  simp only [ofShape, meetSizes?, List.length_map] at isAll
  split at isAll
  case isTrue => cases isAll
  case isFalse same =>
    obtain ⟨each, isEach, -⟩ := Option.map_eq_some_iff.mp isAll
    exact eq_of_mapM_meetOption? (not_not.mp same) (Option.isSome_iff_exists.mpr ⟨each, isEach⟩)

theorem dtype_of_meet? {info : TensorInfo} (met : ((ofShape shape dtype).meet? info).isSome)
    (known : info.dtype = some other) : other = dtype := by
  obtain ⟨both, isBoth⟩ := Option.isSome_iff_exists.mp met
  obtain ⟨all, -, rest⟩ := Option.bind_eq_some_iff.mp isBoth
  obtain ⟨_, isDtype, -⟩ := Option.bind_eq_some_iff.mp rest
  rw [known, ofShape, meetOption?] at isDtype
  split at isDtype
  case isTrue same => exact same.symm
  case isFalse => cases isDtype

end TensorInfo

/-! ### Shapes that follow -/

namespace Shape

variable {a b shape sizes : List Int}

/-- The size of a dimension that is counted from the last one. A dimension that is missing has size one. -/
def fromEnd (shape : List Int) (back : Nat) : Int := shape.reverse.getD back 1

/-- A shape is the common shape of two others, which are aligned at the last dimension: a size of one stretches. -/
structure IsCommon (a b shape : List Int) : Prop where
  length_eq : shape.length = max a.length b.length
  compatible : ∀ back < shape.length, fromEnd a back = fromEnd b back ∨ fromEnd a back = 1 ∨ fromEnd b back = 1
  size_eq : ∀ back < shape.length, fromEnd shape back = if fromEnd a back = 1 then fromEnd b back else fromEnd a back

theorem Static.fromEnd_nonneg (static : Static shape) (back : Nat) : 0 ≤ fromEnd shape back := by
  rw [fromEnd, List.getD_eq_getElem?_getD]
  cases found : shape.reverse[back]? with
  | none => exact Int.one_nonneg
  | some size => exact static size (List.mem_reverse.mp (List.mem_of_getElem? found))

theorem IsCommon.static (common : IsCommon a b shape) (static : Static a) (staticToo : Static b) : Static shape := by
  intro size member
  obtain ⟨back, below, rfl⟩ := List.getElem_of_mem (List.mem_reverse.mpr member)
  have isSize : shape.reverse[back] = fromEnd shape back := (List.getD_eq_getElem _ _ below).symm
  rw [isSize, common.size_eq back (by simpa using below)]
  split
  case isTrue => exact staticToo.fromEnd_nonneg back
  case isFalse => exact static.fromEnd_nonneg back

/-! #### Views -/

/-- The sizes with a value in the place of the one that is left to be computed. -/
def withInferred (value : Int) (sizes : List Int) : List Int :=
  sizes.map fun size => if size = -1 then value else size

theorem product_withInferred (value : Int) (sizes : List Int) :
    product (withInferred value sizes) = value ^ sizes.count (-1) * product (sizes.filter (· ≠ -1)) := by
  induction sizes with
  | nil => simp [withInferred]
  | cons size sizes ih =>
    rw [withInferred] at ih ⊢
    rw [List.map_cons, product_cons, ih]
    by_cases isOpen : size = -1
    · subst isOpen
      simp [pow_succ]
      ring
    · simp [isOpen]
      ring

theorem product_withInferred_of_mem {value : Int} (isOpen : -1 ∈ sizes) (single : sizes.count (-1) ≤ 1) :
    product (withInferred value sizes) = value * product (sizes.filter (· ≠ -1)) := by
  have once : sizes.count (-1) = 1 := Nat.le_antisymm single (List.count_pos_iff.mpr isOpen)
  rw [product_withInferred, once, pow_one]

theorem withInferred_of_not_mem (never : -1 ∉ sizes) (value : Int) : withInferred value sizes = sizes := by
  refine (List.map_congr_left fun size member => ?_).trans (List.map_id sizes)
  exact if_neg fun (isOpen : size = -1) => never (isOpen ▸ member)

theorem inferredSize?_eq_some_iff {total known value : Int} :
    inferredSize? total known = some value ↔ known ≠ 0 ∧ value * known = total := by
  rw [inferredSize?, Option.ite_none_right_eq_some, Option.some_inj]
  constructor
  · rintro ⟨⟨nonzero, divides⟩, rfl⟩
    exact ⟨nonzero, Int.tdiv_mul_cancel (Int.dvd_of_tmod_eq_zero divides)⟩
  · rintro ⟨nonzero, rfl⟩
    exact ⟨⟨nonzero, Int.mul_tmod_left value known⟩, Int.mul_tdiv_cancel value nonzero⟩

/-- A size of a view, when the number of elements is known. -/
def viewSize (total known : Int) (fault : ShapeFault) (size : Int) : Except ShapeFault (Option Int) :=
  if size = -1 then
    match inferredSize? total known with
    | some value => pure (some value)
    | none => throw fault
  else pure (some size)

theorem viewSize_eq_ok_iff {total known size : Int} {fault : ShapeFault} {found : Option Int} :
    viewSize total known fault size = .ok found ↔
      if size = -1 then ∃ value, inferredSize? total known = some value ∧ found = some value
      else found = some size := by
  rw [viewSize]
  split
  case isTrue =>
    cases inferredSize? total known with
    | none => simp [throw, throwThe, MonadExceptOf.throw]
    | some value => simp [pure, Except.pure, eq_comm]
  case isFalse => simp [pure, Except.pure, eq_comm]

/-- The sizes of a view are found if the one that is left to be computed is found. -/
theorem mapM_viewSize_eq_ok_iff {total known : Int} {fault : ShapeFault} {result : List (Option Int)} :
    sizes.mapM (viewSize total known fault) = .ok result ↔
      ∃ value, (-1 ∈ sizes → inferredSize? total known = some value) ∧
        result = (withInferred value sizes).map some := by
  constructor
  · intro run
    have each := forall₂_of_mapM_eq_ok run
    refine ⟨(inferredSize? total known).getD 0, fun member => ?_, ?_⟩
    · obtain ⟨found, -, isFound⟩ := forall₂_mem_left each member
      rw [viewSize_eq_ok_iff, if_pos rfl] at isFound
      obtain ⟨value, isSize, -⟩ := isFound
      rw [isSize, Option.getD_some]
    · rw [← List.map_id result, withInferred, List.map_map]
      refine (map_eq_map_iff_forall₂.mpr (each.imp fun size found isFound => ?_)).symm
      rw [viewSize_eq_ok_iff] at isFound
      split at isFound
      case isTrue isOpen =>
        obtain ⟨value, isSize, rfl⟩ := isFound
        simp [isOpen, isSize]
      case isFalse isGiven => simp [isGiven, isFound]
  · rintro ⟨value, isSize, rfl⟩
    refine mapM_eq_ok_of_forall₂ ?_
    rw [withInferred, List.map_map, List.forall₂_map_right_iff, List.forall₂_same]
    intro size member
    rw [viewSize_eq_ok_iff]
    split
    case isTrue isOpen => exact ⟨value, isSize (isOpen ▸ member), by simp [isOpen]⟩
    case isFalse isGiven => simp [isGiven]

/-- The size that is computed is the only one with which the sizes have the product that is wanted. -/
theorem viewSizes_iff {total known value : Int} (single : sizes.count (-1) ≤ 1)
    (isKnown : product (sizes.filter (· ≠ -1)) = known) :
    (-1 ∈ sizes → inferredSize? total known = some value) ∧ ¬(sizes.count (-1) = 0 ∧ total ≠ known) ↔
      (-1 ∈ sizes → known ≠ 0) ∧ product (withInferred value sizes) = total := by
  by_cases isOpen : -1 ∈ sizes
  · have once : sizes.count (-1) ≠ 0 := (List.count_pos_iff.mpr isOpen).ne'
    rw [product_withInferred_of_mem isOpen single, isKnown]
    simp only [isOpen, once, inferredSize?_eq_some_iff, true_implies, false_and, not_false_eq_true, and_true]
  · have never : sizes.count (-1) = 0 := List.count_eq_zero.mpr isOpen
    rw [product_withInferred, never, isKnown]
    simp [isOpen, eq_comm]

/-- When the shape of the operand is known, the sizes of a view are all known. One size may be left to be computed,
if the others leave only one, and all together have the product of the sizes of the operand. -/
theorem reshape_eq_ok_iff {info : TensorInfo} {result : List (Option Int)} (isShape : info.staticShape? = some shape) :
    reshape info sizes = .ok result ↔
      sizes.count (-1) ≤ 1 ∧ (∀ size ∈ sizes, -1 ≤ size) ∧ (-1 ∈ sizes → product (sizes.filter (· ≠ -1)) ≠ 0) ∧
        ∃ value, product (withInferred value sizes) = product shape ∧ result = (withInferred value sizes).map some := by
  by_cases single : sizes.count (-1) ≤ 1
  case neg => simp [reshape, Nat.not_le.mp single, single, throw, throwThe, MonadExceptOf.throw, bind, Except.bind]
  case pos =>
    simp only [reshape, isShape, Option.map_some, gt_iff_lt, if_neg (Nat.not_lt.mpr single)]
    split
    case h_1 size isBelow =>
      have below : size < -1 := by simpa using List.find?_some isBelow
      constructor
      · intro run
        cases run
      · rintro ⟨-, least, -⟩
        exact absurd (least size (List.mem_of_find?_eq_some isBelow)) (Int.not_le.mpr below)
    case h_2 noneBelow =>
      have least : ∀ size ∈ sizes, -1 ≤ size := by simpa using noneBelow
      change ((sizes.mapM (viewSize _ _ _) >>= _) = _) ↔ _
      constructor
      · intro run
        cases isFound : sizes.mapM (viewSize (product shape) (product (sizes.filter (· ≠ -1)))
            (.cannotView (product shape) sizes)) with
        | error =>
          rw [isFound] at run
          cases run
        | ok found =>
          obtain ⟨value, isSize, rfl⟩ := mapM_viewSize_eq_ok_iff.mp isFound
          simp only [isFound, bind, Except.bind] at run
          split at run
          case isTrue => cases run
          case isFalse fits =>
            cases run
            obtain ⟨leaves, same⟩ := (viewSizes_iff single rfl).mp ⟨isSize, fits⟩
            exact ⟨single, least, leaves, value, same, rfl⟩
      · rintro ⟨-, -, leaves, value, same, rfl⟩
        obtain ⟨isSize, fits⟩ := (viewSizes_iff single rfl).mpr ⟨leaves, same⟩
        rw [mapM_viewSize_eq_ok_iff.mpr ⟨value, isSize, rfl⟩]
        simp only [bind, Except.bind, if_neg fits]
        rfl

/-! #### Common shapes -/

theorem broadcastSize?_some (a b : Int) : broadcastSize? (some a) (some b) = ((stretched a b).toOption).map some := by
  by_cases first : a = 1
  · subst first
    rw [stretched, if_pos rfl]
    rfl
  · by_cases second : b = 1
    · subst second
      rw [stretched, if_neg first, if_pos rfl]
      simp [broadcastSize?, first, Except.toOption]
    · rw [stretched, if_neg first, if_neg second]
      by_cases same : a = b
      · subst same
        simp [broadcastSize?, Except.toOption]
      · simp [broadcastSize?, same, Except.toOption]

/-- With all sizes known, a common shape is found in the same way before and after lowering. -/
theorem mapM_broadcastSize?_map_some (a b : List Int) :
    (((a.map some).zip (b.map some)).mapM fun pair => broadcastSize? pair.1 pair.2) =
      ((a.zip b).mapM fun pair => stretched pair.1 pair.2).toOption.map (List.map some) := by
  induction a generalizing b with
  | nil => rfl
  | cons first a ih =>
    cases b with
    | nil => rfl
    | cons second b =>
      rw [List.map_cons, List.map_cons, List.zip_cons_cons, List.zip_cons_cons, List.mapM_cons, List.mapM_cons, ih,
        broadcastSize?_some]
      cases stretched first second <;> cases ((a.zip b).mapM fun pair => stretched pair.1 pair.2) <;> rfl

theorem padded_map_some (rank : Nat) (shape : List Int) :
    padded rank (shape.map some) = (raised rank shape).map some := by
  rw [padded, raised, List.map_append, List.map_replicate, List.length_map]

end Shape

namespace Program

variable {program : Program} {symbols : SymbolTable} {op : OpId} {kind : TorchKind}
  {shape input first second : List Int} {dtype inputDtype firstDtype secondDtype : Dtype}

/-- What follows about the result of a tensor operation does not contradict what is declared. -/
theorem exists_inferred (isKind : program.kind op = .torch kind) (isTensor : kind.isTensorOp = true)
    (verified : program.verifyOp symbols op = .ok ())
    (declared : program.resultType op 0 = .ok (.vtensor (.ofShape shape dtype))) :
    ∃ inferred, program.inferKind op kind = .ok (some inferred) ∧
      ((TensorInfo.ofShape shape dtype).meet? inferred).isSome := by
  obtain ⟨inferred, isInferred, kept⟩ := (verifyOp_tensor_iff isKind isTensor).mp verified
  obtain ⟨result, info, isResult, typed, met⟩ := verifyInferred_eq_ok_iff.mp kept
  obtain ⟨value, isValue, hasType⟩ := torchTypeOf?_of_resultType declared
  rw [result_eq_ok, isResult] at isValue
  cases Option.some.inj isValue
  rw [torchTypeOf?, typeOf?_eq, typed] at hasType
  cases hasType
  exact ⟨inferred, isInferred, met⟩

/-- What is stored for the result of a tensor operation. -/
theorem resultTensor_eq (declared : program.resultType op 0 = .ok (.vtensor (.ofShape shape dtype))) :
    program.resultTensor op = .ok (shape, dtype.storage, some dtype) := by
  obtain ⟨value, isValue, hasType⟩ := torchTypeOf?_of_resultType declared
  have isInfo : program.tensorInfoOf? value = some (.ofShape shape dtype) := by
    rw [tensorInfoOf?, hasType]
    rfl
  rw [resultTensor, isValue]
  simp only [bind, Except.bind, isInfo, TensorInfo.storage?_ofShape]
  rfl

theorem of_some_map_eq_ok {α : Type} {step : Except Error α} {found : α} (run : some <$> step = .ok (some found)) :
    step = .ok found := by
  cases step with
  | error => cases run
  | ok value =>
    cases run
    rfl

theorem of_ofShape_eq_ok {α : Type} {answer : Except ShapeFault α} {found : α}
    (run : TensorIR.ofShape answer = .ok found) : answer = .ok found := by
  cases answer with
  | error => cases run
  | ok value =>
    cases run
    rfl

section Operations

variable (isKind : program.kind op = .torch kind) (verified : program.verifyOp symbols op = .ok ())
  (declared : program.resultType op 0 = .ok (.vtensor (.ofShape shape dtype)))
include isKind verified declared

/-- A view of a tensor has elements of the same type, and as many of them. -/
theorem of_view (isView : kind = .view ∨ kind = .reshape)
    (isInput : program.tensorOperand op 0 = .ok (.ofShape input inputDtype)) {value : ValueId} {sizes : List Int}
    (isList : program.operand op 1 = .ok value) (known : program.foldIntList? value = some sizes) :
    dtype = inputDtype ∧ Shape.product shape = Shape.product input := by
  have isTensor : kind.isTensorOp = true := by rcases isView with rfl | rfl <;> rfl
  obtain ⟨inferred, isInferred, met⟩ := exists_inferred isKind isTensor verified declared
  have view : some <$> program.inferView op = .ok (some inferred) := by
    rcases isView with rfl | rfl <;> exact isInferred
  obtain ⟨elements, isElements, all⟩ := Option.bind_eq_some_iff.mp known
  obtain ⟨⟨⟩, -, run⟩ := of_bind_eq_ok (of_some_map_eq_ok view)
  obtain ⟨⟨⟩, -, run⟩ := of_bind_eq_ok run
  rw [isInput, ok_bind, listOperand, isList, ok_bind, isElements, pure_bind] at run
  simp only [all] at run
  obtain ⟨found, isFound, run⟩ := of_bind_eq_ok run
  obtain ⟨-, -, -, value, same, rfl⟩ :=
    (Shape.reshape_eq_ok_iff (TensorInfo.staticShape?_ofShape input inputDtype)).mp (of_ofShape_eq_ok isFound)
  cases run
  exact ⟨(TensorInfo.dtype_of_meet? met rfl).symm, TensorInfo.sizes_of_meet? met rfl ▸ same⟩

/-- A slice of a tensor has elements of the same type, and the size that its bounds say. -/
theorem of_slice (isSlice : kind = .sliceTensor)
    (isInput : program.tensorOperand op 0 = .ok (.ofShape input inputDtype)) {dim : Nat} {start length step : Int}
    (params : program.sliceParams op input = .ok (some (dim, start, length, step))) :
    dtype = inputDtype ∧ shape = input.set dim length := by
  subst isSlice
  obtain ⟨inferred, isInferred, met⟩ := exists_inferred isKind rfl verified declared
  have slice := of_some_map_eq_ok isInferred
  obtain ⟨cut, cuts, bounds, -⟩ := exists_cuts_of_sliceParams params
  obtain ⟨_, _, isDimension, isDim, isPosition⟩ := cutDimension?_eq_some_iff.mp cuts.dimension
  obtain ⟨_, isStep, hasStep⟩ := cuts.step
  have sameInput : (input.map some).map (·.getD (-1)) = input := by simp
  have sameRank : (input.map some).length = input.length := List.length_map _
  unfold inferSlice at slice
  obtain ⟨⟨⟩, -, slice⟩ := of_bind_eq_ok slice
  obtain ⟨⟨⟩, -, slice⟩ := of_bind_eq_ok slice
  obtain ⟨⟨⟩, -, slice⟩ := of_bind_eq_ok slice
  obtain ⟨⟨⟩, -, slice⟩ := of_bind_eq_ok slice
  obtain ⟨⟨⟩, -, slice⟩ := of_bind_eq_ok slice
  simp only [isInput, TensorInfo.ofShape, bind, Except.bind, isStep, hasStep, isDimension, isDim, Option.bind_some,
    sameRank, isPosition, sameInput, cuts.sliceParams_eq, if_neg (Int.not_le.mpr cuts.step_pos)] at slice
  cases slice
  have below : dim < input.length := cuts.position_lt
  have known : ((input.map some)[dim]?).join = some input[dim] := by simp [below]
  refine ⟨(TensorInfo.dtype_of_meet? met rfl).symm, (TensorInfo.sizes_of_meet? met ?_).symm⟩
  rw [known, List.map_set, bounds]

/-- Floating-point numbers are quantized, and the result has their sizes. -/
theorem of_quantize (isQuantize : kind = .quantizePerTensor)
    (isInput : program.tensorOperand op 0 = .ok (.ofShape input inputDtype)) :
    inputDtype.isFloat = true ∧ shape = input := by
  subst isQuantize
  obtain ⟨inferred, isInferred, met⟩ := exists_inferred isKind rfl verified declared
  have run := of_some_map_eq_ok isInferred
  unfold inferQuantize at run
  obtain ⟨⟨⟩, -, run⟩ := of_bind_eq_ok run
  obtain ⟨⟨⟩, -, run⟩ := of_bind_eq_ok run
  obtain ⟨⟨⟩, -, run⟩ := of_bind_eq_ok run
  obtain ⟨⟨⟩, -, run⟩ := of_bind_eq_ok run
  rw [isInput, ok_bind] at run
  simp only [TensorInfo.ofShape] at run
  cases isFloat : inputDtype.isFloat with
  | false =>
    rw [isFloat] at run
    cases run
  | true =>
    rw [isFloat] at run
    obtain ⟨code, -, run⟩ := of_bind_eq_ok run
    refine ⟨rfl, (TensorInfo.sizes_of_meet? met ?_).symm⟩
    split at run
    case h_1 =>
      cases run
      rfl
    case h_2 =>
      split at run
      case h_1 =>
        cases run
        rfl
      case h_2 => cases run

/-- Turning stored integers into numbers gives numbers in single precision, with the sizes of the operand. -/
theorem of_dequantize (isDequantize : kind = .dequantizeSelf)
    (isInput : program.tensorOperand op 0 = .ok (.ofShape input inputDtype)) :
    inputDtype.isQuantized = true ∧ dtype = .f32 ∧ shape = input := by
  subst isDequantize
  obtain ⟨inferred, isInferred, met⟩ := exists_inferred isKind rfl verified declared
  obtain ⟨⟨⟩, -, run⟩ := of_bind_eq_ok (of_some_map_eq_ok isInferred)
  rw [quantizedOperand, isInput, ok_bind] at run
  simp only [TensorInfo.ofShape] at run
  cases isQuantized : inputDtype.isQuantized with
  | false =>
    rw [isQuantized] at run
    cases run
  | true =>
    rw [isQuantized] at run
    cases run
    exact ⟨rfl, (TensorInfo.dtype_of_meet? met rfl).symm, (TensorInfo.sizes_of_meet? met rfl).symm⟩

end Operations

end Program

end TensorIR
