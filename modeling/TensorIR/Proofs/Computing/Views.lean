import TensorIR.Proofs.Emission.Pending
import TensorIR.Proofs.Tensors.Slices

/-!
# Views and slices

A view has the elements of its operand in row-major order, in another shape. Among loops the position of each element
is turned into its number and the number into a position of the operand, both by constants of the program.

A slice without gaps is a part of the tensor. For a slice with gaps, the lowering to operations on whole tensors fills
the part that it covers up to whole steps, splits the dimension into steps, and keeps the first position of each step.

## Main definitions

* `Shape.Addressable` — shapes whose positions and numbers are computed exactly

## Main results

* `Program.computes_view` — the lowering of a view computes the elements of the operand in the declared shape
* `Scene.emits_steps` — the operations for a slice with gaps keep the elements of the slice
* `Program.computes_slice` — the lowering of a slice computes its elements
-/

namespace TensorIR

/-! ### Views -/

section Views

open Shape (Static product)

/-- Sizes and strides are constants that a run finds as they are, and the number of elements is a signed 64-bit
integer. -/
structure Shape.Addressable (shape : List Int) : Prop where
  sizes_le : ∀ size ∈ shape, size ≤ 2 ^ 53
  strides_le : ∀ stride ∈ Shape.strides shape, stride ≤ 2 ^ 53
  product_le : product shape ≤ Number.maxInt64

namespace Program

variable {source now : Program} {symbols : SymbolTable} {op : OpId} {kind : TorchKind} {shape input : List Int}
  {dtype : Dtype} {x : Grid} {target : Target}

/-- Among whole tensors a view is one operation. -/
theorem computes_view_tosa (isView : kind = .view ∨ kind = .reshape) (awaits : source.Awaits .tosa op now)
    (isInput : source.tensorOperand op 0 = .ok (.ofShape input dtype))
    (declared : source.resultType op 0 = .ok (.vtensor (.ofShape shape dtype))) (fits : x.Fits input dtype.storage) :
    now.Computes .tosa op kind [x] { x with shape, element := dtype.storage } := by
  obtain ⟨operand, isOperand, typed⟩ := awaits.exists_tensor isInput
  have isFirst : [x][0]? = some x := rfl
  have holds := holdsTensor_opening awaits.placed isOperand isFirst typed
  have isStep : ∀ table, Tosa.tensorOp op table kind = do return (← Tosa.viewOp op, none) := by
    rcases isView with rfl | rfl <;> exact fun _ => rfl
  refine computes_of_emits_tensor awaits.placed isStep ?_
  refine Scene.Emits.askFor_bind (awaits.resultTensor_eq declared) (Scene.Emits.askFor_bind isOperand ?_)
  exact Scene.emits_reshape holds (fun _ => fits) shape

/-- Among loops the elements are moved one after the other. -/
theorem computes_view_loops (isView : kind = .view ∨ kind = .reshape) (same : product shape = product input)
    (awaits : source.Awaits .loops op now) (isInput : source.tensorOperand op 0 = .ok (.ofShape input dtype))
    (declared : source.resultType op 0 = .ok (.vtensor (.ofShape shape dtype))) (inputStatic : Static input)
    (static : Static shape) (addressable : Shape.Addressable shape) (inputAddressable : Shape.Addressable input)
    (fits : x.Fits input dtype.storage) :
    now.Computes .loops op kind [x] { x with shape, element := dtype.storage } := by
  obtain ⟨operand, isOperand, typed⟩ := awaits.exists_tensor isInput
  obtain ⟨origin, isOrigin⟩ := Shape.exists_origin inputStatic same
  have isFirst : [x][0]? = some x := rfl
  have stores := stores_opening awaits.placed isOperand isFirst typed fits
  have isStep : ∀ table, Loops.tensorOp op table kind = do return (← Loops.viewOp op, none) := by
    rcases isView with rfl | rfl <;> exact fun _ => rfl
  have result := awaits.resultTensor_eq declared
  obtain ⟨_, holds, -, -⟩ := id stores
  refine computes_of_emits_buffer awaits.placed isStep ?_
  refine Scene.Emits.askFor_bind result (Scene.Emits.askFor_bind isOperand (holds.bufferType_bind ?_))
  have small : ∀ item ∈ Shape.strides shape ++ input ++ Shape.strides input, item ≤ 2 ^ 53 := by
    simp only [List.mem_append, or_imp, forall_and]
    exact ⟨⟨addressable.strides_le, inputAddressable.sizes_le⟩, inputAddressable.strides_le⟩
  refine (Scene.emits_gather result isOperand static (.inr addressable.sizes_le) stores
    (fun _ position inside => (isOrigin position inside).1) ?_).of_memory (funext fun s => ?_)
  · -- The number of the position is computed, and from it the position in the operand.
    intro τ inner outer position values _ within located
    exact Scene.emits_renumbered located within (fun t => (isOrigin _ (within t)).1)
      (fun t => (isOrigin _ (within t)).2) small addressable.product_le
  · rw [fits.reshaped_eq static same fun position inside => (isOrigin position inside).2]
    rfl

/-- The lowering of a view. -/
theorem computes_view {inputDtype : Dtype} {value : ValueId} {sizes : List Int}
    (isKind : source.kind op = .torch kind) (isView : kind = .view ∨ kind = .reshape)
    (verified : source.verifyOp symbols op = .ok ())
    (isInput : source.tensorOperand op 0 = .ok (.ofShape input inputDtype))
    (declared : source.resultType op 0 = .ok (.vtensor (.ofShape shape dtype)))
    (isList : source.operand op 1 = .ok value) (known : source.foldIntList? value = some sizes)
    (inputStatic : Static input) (static : Static shape)
    (addressable : target = .loops → Shape.Addressable shape ∧ Shape.Addressable input)
    (fits : x.Fits input inputDtype.storage) (awaits : source.Awaits target op now) :
    Grid.Fits { x with shape } shape dtype.storage ∧ now.Computes target op kind [x] { x with shape } := by
  obtain ⟨rfl, same⟩ := of_view isKind verified declared isView isInput isList known
  have sameElement : { x with shape } = { x with shape, element := dtype.storage } := by rw [← fits.element_eq]
  rw [sameElement]
  refine ⟨Grid.reshaped_fits fits same, ?_⟩
  cases target with
  | tosa => exact computes_view_tosa isView awaits isInput declared fits
  | loops =>
    obtain ⟨small, inputSmall⟩ := addressable rfl
    exact computes_view_loops isView same awaits isInput declared inputStatic static small inputSmall fits

end Program

/-- A function that takes a matrix of two rows to one of three rows. -/
def regrouping : Program where
  values := #[⟨some "%x", some (.torch (.vtensor (.ofShape [2, 3] .si32))), .argument (some ⟨1⟩)⟩,
    ⟨none, some (.torch (.vtensor (.ofShape [3, 2] .si32))), .signature⟩,
    ⟨some "%three", some (.torch .int), .result ⟨2⟩⟩, ⟨some "%rest", some (.torch .int), .result ⟨3⟩⟩,
    ⟨some "%sizes", some (.torch (.list .int)), .result ⟨4⟩⟩,
    ⟨some "%0", some (.torch (.vtensor (.ofShape [3, 2] .si32))), .result ⟨5⟩⟩]
  operations := #[
    { kind := .module },
    { kind := .func .func, results := [⟨1⟩], attributes := Attributes.empty.insert "sym_name" (.ofSymbol "f") },
    { kind := .torch .constantInt, results := [⟨2⟩], attributes := Attributes.empty.insert "value" (.int 3) },
    { kind := .torch .constantInt, results := [⟨3⟩], attributes := Attributes.empty.insert "value" (.int (-1)) },
    { kind := .torch .listConstruct, operands := [⟨2⟩, ⟨3⟩], results := [⟨4⟩] },
    { kind := .torch .view, operands := [⟨0⟩, ⟨4⟩], results := [⟨5⟩] },
    { kind := .func .ret, operands := [⟨5⟩] }]
  headers := #[{}, { arguments := [⟨0⟩] }]
  root := ⟨0⟩
  regions := .single ⟨0⟩ (.single ⟨1⟩ (.single ⟨1⟩ (.cons ⟨2⟩ .nil (.cons ⟨3⟩ .nil (.cons ⟨4⟩ .nil
    (.cons ⟨5⟩ .nil (.single ⟨6⟩ .nil)))))))

/-- The function with the counterparts of its types, where the lowering of the operations begins. -/
def regroupingSigned (target : Target) : Program := ((Change.convertSignatures target).run regrouping).2

theorem regrouping_awaits (target : Target) : regrouping.Awaits target ⟨5⟩ (regroupingSigned target) := by
  cases target
  all_goals exact
    { placed := by decide
      closed := by decide
      kind_eq := rfl
      results_eq := rfl
      types_eq := fun value member => by
        cases List.mem_singleton.mp member
        rfl
      operands := .cons (.of_tensor rfl rfl rfl rfl) (.cons (.of_parameter rfl rfl rfl) .nil) }

/-- Six numbers in two rows become the same numbers in three rows. -/
theorem computes_view_regrouping : regrouping.verify = .ok () ∧
    let numbers : Array Scalar := #[.int 1, .int 2, .int 3, .int 4, .int 5, .int 6]
    (regroupingSigned .loops).Computes .loops ⟨5⟩ .view [⟨[2, 3], .i32, numbers⟩] ⟨[3, 2], .i32, numbers⟩ ∧
    (regroupingSigned .tosa).Computes .tosa ⟨5⟩ .view [⟨[2, 3], .i32, numbers⟩] ⟨[3, 2], .i32, numbers⟩ := by
  have verified : regrouping.verifyOp {} ⟨5⟩ = .ok () := rfl
  have isInput : regrouping.tensorOperand ⟨5⟩ 0 = .ok (.ofShape [2, 3] .si32) := rfl
  have declared : regrouping.resultType ⟨5⟩ 0 = .ok (.vtensor (.ofShape [3, 2] .si32)) := rfl
  have isList : regrouping.operand ⟨5⟩ 1 = .ok ⟨4⟩ := rfl
  have known : regrouping.foldIntList? ⟨4⟩ = some [3, -1] := by decide
  have inputStatic : Static [2, 3] := by simp [Static]
  have static : Static [3, 2] := by simp [Static]
  have addressable : Shape.Addressable [3, 2] ∧ Shape.Addressable [2, 3] :=
    ⟨⟨by decide, by decide, by decide⟩, ⟨by decide, by decide, by decide⟩⟩
  refine ⟨rfl, ?_⟩
  intro numbers
  have fits : Grid.Fits ⟨[2, 3], .i32, numbers⟩ [2, 3] .i32 := ⟨rfl, rfl, rfl⟩
  have computes (target : Target) := Program.computes_view rfl (.inl rfl) verified isInput declared isList known
    inputStatic static (fun _ => addressable) fits (regrouping_awaits target)
  exact ⟨(computes .loops).2, (computes .tosa).2⟩

end Views

/-! ### Slices -/

section Slices

open Grid (tabulate)
open Shape (Inside Static Spaced startingAt)

namespace Scene

variable {σ : Type} {scene : Scene σ} {value : ValueId} {front back : List Int} {size start length step : Int}
  {element : ScalarType} {x : σ → Grid}

/-- The operations for a slice with gaps keep the elements of the slice. -/
theorem emits_steps (spaced : Spaced size start length step) (some : 0 < length)
    (holds : scene.HoldsTensor value (front ++ size :: back) element x)
    (fits : ∀ s, (x s).Fits (front ++ size :: back) element) (frontStatic : Static front) (backStatic : Static back) :
    scene.Emits (do
      let covered := min (length * step) (size - start)
      let part ← Tosa.slice value (startingAt front back start) (front ++ covered :: back)
      let full ← Tosa.padBehind part front.length (length * step - covered) (front ++ (length * step) :: back) element
      let steps ← Tosa.reshape full (front ++ length :: step :: back)
      let first ← Tosa.slice steps (startingAt (front ++ [length]) back 0) (front ++ length :: 1 :: back)
      Tosa.reshape first (front ++ length :: back)) scene.memory fun result now =>
        now.HoldsTensor result (front ++ length :: back) element fun s =>
          (x s).strided (front ++ length :: back) element front.length start step := by
  have nonneg := spaced.step_pos.le
  have whole : 0 ≤ length * step := Int.mul_nonneg spaced.length_nonneg nonneg
  let covered := min (length * step) (size - start)
  have coveredNonneg : 0 ≤ covered := le_min whole (by linarith [spaced.start_le])
  have coveredLe : covered ≤ length * step := min_le_left _ _
  have shapeStatic (size : Int) (nonneg : 0 ≤ size) : Static (front ++ size :: back) :=
    Shape.static_between.mpr ⟨frontStatic, nonneg, backStatic⟩
  have isPart := Shape.ofSlice_between frontStatic backStatic spaced.start_nonneg coveredNonneg
    (by linarith [min_le_right (length * step) (size - start)] : start + covered ≤ size)
  refine (emits_slice holds fits isPart (shapeStatic _ coveredNonneg)).bind fun part atPart _ memoryPart holdsPart => ?_
  have partFits (entries : σ → List Int → Scalar) (s : σ) :=
    Grid.tabulate_fits (shapeStatic _ coveredNonneg) element (entries s)
  -- The last step may run past the end, so the part that is covered is filled up to whole steps.
  have grown : front ++ (length * step) :: back = (front ++ covered :: back).set front.length
      ((front ++ covered :: back).getD front.length 0 + (length * step - covered)) := by
    simp
  refine (emits_padBehind holdsPart (partFits _) (shapeStatic _ coveredNonneg) (shapeStatic _ whole) (by omega) grown).bind
    fun full atFull _ memoryFull filled => ?_
  obtain ⟨y, holdsFull, isFull⟩ := filled
  refine (emits_reshape holdsFull (fun s => (isFull s).1) (front ++ length :: step :: back)).bind
    fun steps atSteps _ memorySteps holdsSteps => ?_
  have splitFits (s : σ) : Grid.Fits { y s with shape := front ++ length :: step :: back, element }
      (front ++ length :: step :: back) element :=
    Grid.reshaped_fits (isFull s).1 (Shape.product_split front back length step)
  have firstStatic : Static (front ++ length :: 1 :: back) :=
    Shape.static_between.mpr ⟨frontStatic, some.le, Shape.static_cons.mpr ⟨by decide, backStatic⟩⟩
  have isFirst : Shape.ofSlice (front ++ length :: step :: back) (startingAt (front ++ [length]) back 0)
      (front ++ length :: 1 :: back) = .ok (front ++ length :: 1 :: back) := by
    have splitStatic : Static (front ++ [length]) := Shape.static_between.mpr ⟨frontStatic, some.le, by simp [Static]⟩
    have within : 0 + 1 ≤ step := by linarith [Int.add_one_le_of_lt spaced.step_pos]
    simpa using Shape.ofSlice_between splitStatic backStatic le_rfl Int.one_nonneg within
  refine (emits_slice holdsSteps splitFits isFirst firstStatic).bind fun first atFirst _ memoryFirst holdsFirst => ?_
  have firstFits (entries : σ → List Int → Scalar) (s : σ) := Grid.tabulate_fits firstStatic element (entries s)
  refine ((emits_reshape holdsFirst (firstFits _) (front ++ length :: back)).of_memory ?_).imp
    fun result now _ holdsResult => holdsResult.congr fun s => ?_
  · exact memoryFirst.trans (memorySteps.trans (memoryFull.trans memoryPart))
  exact congrArg Slot.tensor (Grid.strided_of_steps spaced firstStatic rfl (isFull s).1 (isFull s).2)

end Scene

namespace Program

variable {source now : Program} {symbols : SymbolTable} {op : OpId} {shape input : List Int} {dtype inputDtype : Dtype}
  {dim : Nat} {cut : Cut} {x : Grid}

/-- The operations that are built for a slice. -/
theorem emits_sliceOp {σ : Type} {start : Scene σ} {value : ValueId} {front back : List Int}
    {size first length step : Int} {element : ScalarType} {grid : σ → Grid}
    (result : start.draft.program.resultTensor op = .ok (front ++ length :: back, element, some dtype))
    (isOperand : start.draft.program.operand op 0 = .ok value)
    (params : start.draft.program.sliceParams op (front ++ size :: back) =
      .ok (some (front.length, first, length, step)))
    (spaced : Spaced size first length step) (static : Static (front ++ size :: back))
    (holds : start.HoldsTensor value (front ++ size :: back) element grid)
    (fits : ∀ s, (grid s).Fits (front ++ size :: back) element) :
    start.Emits (Tosa.sliceOp op) start.memory fun result now =>
      now.HoldsTensor result (front ++ length :: back) element fun s =>
        (grid s).strided (front ++ length :: back) element front.length first step := by
  obtain ⟨frontStatic, -, backStatic⟩ := Shape.static_between.mp static
  refine Scene.Emits.askFor_bind result (Scene.Emits.askFor_bind isOperand ?_)
  refine Scene.HoldsTensor.cast_self_bind holds (holds.tensorType_bind (Scene.Emits.askFor_bind params ?_))
  dsimp only [ShapedType.tensor]
  have inputBehind : (front ++ size :: back).drop (front.length + 1) = back := by simp [List.drop_append]
  have split : front ++ [length, step] ++ back = (front ++ [length]) ++ step :: back := by simp
  have longer : front.length + 1 = (front ++ [length]).length := by simp
  have zeros : List.replicate ((front ++ [length]) ++ step :: back).length (0 : Int) =
      startingAt (front ++ [length]) back 0 := by
    rw [← Shape.set_replicate, List.set_replicate_self]
  rw [Shape.set_replicate, List.take_left, inputBehind, split, zeros, longer]
  simp only [Shape.set_between, Shape.getD_between]
  split
  case isTrue dense =>
    -- Elements that follow one another are a part of the tensor.
    have static := Shape.static_between.mpr ⟨frontStatic, spaced.length_nonneg, backStatic⟩
    have within : first + length ≤ size := by
      rcases dense with rfl | rfl
      · rcases spaced.length_nonneg.eq_or_lt with rfl | some
        · simpa using spaced.start_le
        · linarith [spaced.last_lt some]
      · simpa using spaced.start_le
    have isPart := Shape.ofSlice_between frontStatic backStatic spaced.start_nonneg spaced.length_nonneg within
    simpa only [Grid.strided_of_part static dense] using Scene.emits_slice holds fits isPart static
  case isFalse gaps =>
    have some : 0 < length := lt_of_le_of_ne spaced.length_nonneg fun none => gaps (.inr none.symm)
    simpa using Scene.emits_steps spaced some holds fits frontStatic backStatic

/-- The lowering of a slice. -/
theorem computes_slice (isSlice : source.kind op = .torch .sliceTensor) (verified : source.verifyOp symbols op = .ok ())
    (isInput : source.tensorOperand op 0 = .ok (.ofShape input inputDtype))
    (declared : source.resultType op 0 = .ok (.vtensor (.ofShape shape dtype)))
    (cuts : source.Cuts op input dim cut) (inputStatic : Static input) (fits : x.Fits input inputDtype.storage)
    (awaits : source.Awaits .tosa op now) :
    ∃ result : Grid, result.Fits shape dtype.storage ∧
      (∀ position, Shape.Inside position shape →
        result.get position = x.get (position.set dim (cut.bounds.1 + position.getD dim 0 * cut.step))) ∧
      now.Computes .tosa op .sliceTensor [x] result := by
  obtain ⟨front, size, back, rfl, rfl⟩ : ∃ front size back, input = front ++ size :: back ∧ front.length = dim := by
    have below := cuts.position_lt
    exact ⟨input.take dim, input[dim], input.drop (dim + 1), by simp, List.length_take_of_le below.le⟩
  have params := cuts.sliceParams_eq
  obtain ⟨rfl, rfl⟩ := of_slice isSlice verified declared rfl isInput params
  rw [Shape.set_between] at declared ⊢
  have spaced : Spaced size cut.bounds.1 cut.bounds.2 cut.step := by
    have isSize : cut.size = size := cuts.size_eq.trans (Shape.getD_between front back size)
    rw [Cut.bounds, isSize]
    exact Shape.spaced_sliceBounds (inputStatic size (by simp)) _ _ cuts.step_pos
  obtain ⟨frontStatic, -, backStatic⟩ := Shape.static_between.mp inputStatic
  have static := Shape.static_between.mpr ⟨frontStatic, spaced.length_nonneg, backStatic⟩
  refine ⟨x.strided _ dtype.storage front.length cut.bounds.1 cut.step, Grid.tabulate_fits static _ _,
    fun position inside => Grid.get_strided spaced fits static inside, ?_⟩
  obtain ⟨operand, isOperand, typed⟩ := awaits.exists_tensor isInput
  have isFirst : [x][0]? = some x := rfl
  have holds := holdsTensor_opening awaits.placed isOperand isFirst typed
  exact computes_of_emits_tensor awaits.placed (fun _ => rfl) (emits_sliceOp (awaits.resultTensor_eq declared)
    isOperand (awaits.sliceParams_eq params) spaced inputStatic holds fun _ => fits)

end Program

/-- A function that keeps every other column of a matrix, from the second one on. -/
def thinning : Program where
  values := #[⟨some "%x", some (.torch (.vtensor (.ofShape [2, 5] .si64))), .argument (some ⟨1⟩)⟩,
    ⟨none, some (.torch (.vtensor (.ofShape [2, 2] .si64))), .signature⟩,
    ⟨some "%one", some (.torch .int), .result ⟨2⟩⟩, ⟨some "%none", some (.torch .none), .result ⟨3⟩⟩,
    ⟨some "%two", some (.torch .int), .result ⟨4⟩⟩,
    ⟨some "%0", some (.torch (.vtensor (.ofShape [2, 2] .si64))), .result ⟨5⟩⟩]
  operations := #[
    { kind := .module },
    { kind := .func .func, results := [⟨1⟩], attributes := Attributes.empty.insert "sym_name" (.ofSymbol "f") },
    { kind := .torch .constantInt, results := [⟨2⟩], attributes := Attributes.empty.insert "value" (.int 1) },
    { kind := .torch .constantNone, results := [⟨3⟩] },
    { kind := .torch .constantInt, results := [⟨4⟩], attributes := Attributes.empty.insert "value" (.int 2) },
    { kind := .torch .sliceTensor, operands := [⟨0⟩, ⟨2⟩, ⟨2⟩, ⟨3⟩, ⟨4⟩], results := [⟨5⟩] },
    { kind := .func .ret, operands := [⟨5⟩] }]
  headers := #[{}, { arguments := [⟨0⟩] }]
  root := ⟨0⟩
  regions := .single ⟨0⟩ (.single ⟨1⟩ (.single ⟨1⟩ (.cons ⟨2⟩ .nil (.cons ⟨3⟩ .nil (.cons ⟨4⟩ .nil
    (.cons ⟨5⟩ .nil (.single ⟨6⟩ .nil)))))))

/-- The function with the counterparts of its types, where the lowering of the operations begins. -/
def thinningSigned : Program := ((Change.convertSignatures .tosa).run thinning).2

theorem thinning_awaits : thinning.Awaits .tosa ⟨5⟩ thinningSigned where
  placed := by decide
  closed := by decide
  kind_eq := rfl
  results_eq := rfl
  types_eq value member := by
    cases List.mem_singleton.mp member
    rfl
  operands := .cons (.of_tensor rfl rfl rfl rfl) (.cons (.of_parameter rfl rfl rfl) (.cons (.of_parameter rfl rfl rfl)
    (.cons (.of_parameter rfl rfl rfl) (.cons (.of_parameter rfl rfl rfl) .nil))))

/-- A matrix of the numbers below ten. -/
def counted : Grid :=
  ⟨[2, 5], .i64, #[.int 0, .int 1, .int 2, .int 3, .int 4, .int 5, .int 6, .int 7, .int 8, .int 9]⟩

/-- The last step runs past the end of the dimension, so the part that is covered has to be filled up. -/
theorem computes_slice_thinning : thinning.verify = .ok () ∧ ∃ result : Grid, result.Fits [2, 2] .i64 ∧
    (∀ position, Inside position [2, 2] →
      result.get position = counted.get (position.set 1 (1 + position.getD 1 0 * 2))) ∧
    thinningSigned.Computes .tosa ⟨5⟩ .sliceTensor [counted] result := by
  have verified : thinning.verifyOp {} ⟨5⟩ = .ok () := rfl
  have isInput : thinning.tensorOperand ⟨5⟩ 0 = .ok (.ofShape [2, 5] .si64) := rfl
  have declared : thinning.resultType ⟨5⟩ 0 = .ok (.vtensor (.ofShape [2, 2] .si64)) := rfl
  have cuts : thinning.Cuts ⟨5⟩ [2, 5] 1 ⟨5, some 1, none, 2⟩ :=
    ⟨by decide, ⟨⟨2⟩, rfl, by decide⟩, ⟨⟨3⟩, rfl, by decide⟩, ⟨⟨4⟩, rfl, by decide⟩, by decide, rfl⟩
  have static : Static [2, 5] := by simp [Static]
  exact ⟨rfl, Program.computes_slice rfl verified isInput declared cuts static ⟨rfl, rfl, rfl⟩ thinning_awaits⟩

end Slices

end TensorIR
