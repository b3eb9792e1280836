import TensorIR.Proofs.Computing.Conversions
import TensorIR.Proofs.Computing.Exact

/-!
# Quantizing tensors

What is built for quantizing a tensor computes the stored integer of each element, and what is built for the way back
computes the number that each stored integer stands for: both by the chain of operations of the lowering, in the
arithmetic of a run. The same chains in exact arithmetic tell how far the way back ends from where it began, and when
the two lowerings store the same integers.

## Main definitions

* `Arithmetic.run` — the arithmetic of a run

## Main results

* `Program.computes_quantize`, `Program.computes_dequantize` — what is built computes the chains
* `Program.quantized_alike` — when the two lowerings of quantizing store the same integers
* `Program.dequantized_near` — quantizing and the way back
-/

namespace TensorIR

open Grid (tabulate ofInts)
open Shape (Inside Static aligned Loopable)

/-- The arithmetic of a run, where numbers are of one type and stored integers of another one. -/
def Arithmetic.run (real stored : ScalarType) : Arithmetic Float where
  ofInt := Float.ofInt
  reciprocal x := 1.0 / x
  constant := Number.roundTo real
  add a b := Number.roundTo real (a + b)
  sub a b := Number.roundTo real (a - b)
  mul a b := Number.roundTo real (a * b)
  div a b := Number.roundTo real (a / b)
  greater a b := Number.roundTo real (TensorIR.greater a b)
  lesser a b := Number.roundTo real (TensorIR.lesser a b)
  roundEven x := Number.roundTo real (Number.roundToEven x)
  clamp least most x := Number.minimum (Number.maximum x least) most
  truncate := Target.loops.asInteger stored
  saturate := Target.tosa.asInteger stored
  widen x := Number.roundTo real (Float.ofInt x)

namespace Scene

variable {σ : Type} {start : Scene σ} {op : OpId} {shape : List Int} {real stored element : ScalarType}
  {dtype : Option Dtype} {input : ValueId} {x : σ → Grid} {params : QuantParams} {table : QuantTable}

/-! ### Among loops -/

/-- The chain of operations that stores a number. -/
theorem emits_quantizeOne {τ : Type} {inner : Scene τ} {a scale shift least most : ValueId} {number : τ → Scalar}
    (isFloat : real.isFloat = true) (isInteger : stored.isInteger = true) (notBool : stored ≠ .i1)
    (holds : inner.Holds a (.scalar real) fun t => .scalar (number t)) 
    (scaleHolds : inner.Holds scale (.scalar real) fun _ => .scalar (.float (Number.roundTo real params.scale)))
    (shiftHolds : inner.Holds shift (.scalar real)
      fun _ => .scalar (.float (Number.roundTo real (Float.ofInt params.zeroPoint))))
    (leastHolds : inner.Holds least (.scalar real)
      fun _ => .scalar (.float (Number.roundTo real (Float.ofInt params.range.1))))
    (mostHolds : inner.Holds most (.scalar real)
      fun _ => .scalar (.float (Number.roundTo real (Float.ofInt params.range.2)))) :
    inner.Emits (do
        let scaled ← Loops.binary .div a scale
        let rounded ← Loops.math .roundeven scaled real
        let shifted ← Loops.binary .add rounded shift
        let raised ← Loops.binary .max shifted least
        Loops.cast (← Loops.binary .min raised most) stored)
      inner.memory fun result now => now.HoldsInt result stored fun t =>
        Target.loops.quantized (.run real stored) params.range params.scale params.zeroPoint (number t).toFloat := by
  refine (emits_floatOp isFloat rfl holds scaleHolds).bind fun scaled at1 reaches1 memory1 holds1 => ?_
  refine ((emits_math holds1).of_memory memory1).bind fun rounded at2 reaches2 memory2 holds2 => ?_
  have reaches2 := reaches1.trans reaches2
  refine ((emits_floatOp isFloat rfl holds2 (shiftHolds.reaches reaches2)).of_memory memory2).bind
    fun shifted at3 reaches3 memory3 holds3 => ?_
  have reaches3 := reaches2.trans reaches3
  refine ((emits_floatOp isFloat rfl holds3 (leastHolds.reaches reaches3)).of_memory memory3).bind
    fun raised at4 reaches4 memory4 holds4 => ?_
  have reaches4 := reaches3.trans reaches4
  refine ((emits_floatOp isFloat rfl holds4 (mostHolds.reaches reaches4)).of_memory memory4).bind
    fun kept at5 reaches5 memory5 holds5 => ?_
  exact (emits_cut isInteger notBool isFloat holds5).of_memory memory5

/-- The loops that are built for quantizing. -/
theorem emits_quantizeLoops
    (result : start.draft.program.resultTensor op = .ok (shape, stored, dtype))
    (isParams : start.draft.program.quantParams op dtype = .ok params)
    (isInput : start.draft.program.operand op 0 = .ok input) (isFloat : real.isFloat = true)
    (isInteger : stored.isInteger = true) (notBool : stored ≠ .i1) (static : Static shape) (loopable : Loopable shape)
    (stores : start.Stores input shape real x) :
    start.Emits (Loops.quantizeOp op)
      (fun s => (start.memory s).push (ofInts shape stored fun position => Target.loops.quantized (.run real stored)
        params.range params.scale params.zeroPoint ((x s).number position)))
      fun answer now => answer.2 = params ∧ now.HoldsBuffer answer.1 shape stored fun s => (start.memory s).size := by
  obtain ⟨_, holds, -, -⟩ := id stores
  refine Emits.askFor_bind result (Emits.askFor_bind isParams (Emits.askFor_bind isInput (holds.bufferType_bind ?_)))
  -- The constants are made once, in front of the loops.
  refine (emits_float start isFloat params.scale).bind fun scale at1 reaches1 memory1 scaleHolds => ?_
  refine ((emits_float at1 isFloat (Float.ofInt params.zeroPoint)).of_memory memory1).bind
    fun shift at2 reaches2 memory2 shiftHolds => ?_
  refine ((emits_float at2 isFloat (Float.ofInt params.range.1)).of_memory memory2).bind
    fun least at3 reaches3 memory3 leastHolds => ?_
  refine ((emits_float at3 isFloat (Float.ofInt params.range.2)).of_memory memory3).bind
    fun most at4 reaches4 memory4 mostHolds => ?_
  have reaches := (reaches1.trans reaches2).trans (reaches3.trans reaches4)
  let value (number : Scalar) : Scalar := .int
    (Target.loops.quantized (.run real stored) params.range params.scale params.zeroPoint number.toFloat)
  have filled : at4.Emits _ (fun s => (at4.memory s).push (tabulate shape stored fun position =>
      value ((x s).entry position))) _ := emits_each static loopable (stores.reaches reaches memory4)
    fun τ inner outer number loaded reachesInner _ holds => emits_quantizeOne isFloat isInteger notBool holds
      (scaleHolds.reaches ((reaches2.trans (reaches3.trans reaches4)).trans reachesInner))
      (shiftHolds.reaches ((reaches3.trans reaches4).trans reachesInner))
      (leastHolds.reaches (reaches4.trans reachesInner)) (mostHolds.reaches reachesInner)
  -- Constants are no buffers, so the new buffer stands behind those from before.
  rw [memory4] at filled
  exact filled.bind fun output last _ memory holds => (Emits.pure ⟨rfl, holds⟩).of_memory memory

/-- The chain of operations that turns a stored integer into a number. -/
theorem emits_dequantizeOne {τ : Type} {inner : Scene τ} {a scale shift : ValueId} {integer : τ → Int}
    (isFloat : real.isFloat = true) (isInteger : stored.isInteger = true) (notBool : stored ≠ .i1)
    (holds : inner.HoldsInt a stored integer) (inRange : ∀ t, stored.Holds (.int (integer t)))
    (scaleHolds : inner.Holds scale (.scalar real) fun _ => .scalar (.float (Number.roundTo real params.scale)))
    (shiftHolds : inner.Holds shift (.scalar real)
      fun _ => .scalar (.float (Number.roundTo real (Float.ofInt params.zeroPoint)))) :
    inner.Emits (do
        let shifted ← Loops.binary .sub (← Loops.cast a real) shift
        Loops.binary .mul shifted scale)
      inner.memory fun result now => now.Holds result (.scalar real) fun t =>
        .scalar (.float (dequantized (.run real stored) params.scale params.zeroPoint (integer t))) := by
  refine (emits_widen isFloat isInteger notBool holds inRange).bind fun wide at1 reaches1 memory1 holds1 => ?_
  refine ((emits_floatOp isFloat rfl holds1 (shiftHolds.reaches reaches1)).of_memory memory1).bind
    fun shifted at2 reaches2 memory2 holds2 => ?_
  exact (emits_floatOp isFloat rfl holds2 (scaleHolds.reaches (reaches1.trans reaches2))).of_memory memory2

/-- The loops that are built for the way back. -/
theorem emits_dequantizeLoops (result : start.draft.program.resultTensor op = .ok (shape, real, dtype))
    (isInput : start.draft.program.operand op 0 = .ok input) (isParams : table.get? input = some params)
    (isFloat : real.isFloat = true) (isInteger : stored.isInteger = true) (notBool : stored ≠ .i1)
    (static : Static shape) (loopable : Loopable shape) (stores : start.Stores input shape stored x)
    (inRange : ∀ s, (x s).Holds stored) :
    start.Emits (Loops.dequantizeOp op table)
      (fun s => (start.memory s).push (tabulate shape real fun position =>
        .float (dequantized (.run real stored) params.scale params.zeroPoint ((x s).integer position))))
      fun answer now => now.HoldsBuffer answer shape real fun s => (start.memory s).size := by
  refine Emits.askFor_bind result (Emits.askFor_bind isInput ?_)
  rw [isParams]
  refine (emits_float start isFloat params.scale).bind fun scale at1 reaches1 memory1 scaleHolds => ?_
  refine ((emits_float at1 isFloat (Float.ofInt params.zeroPoint)).of_memory memory1).bind
    fun shift at2 reaches2 memory2 shiftHolds => ?_
  let value (number : Scalar) : Scalar :=
    .float (dequantized (.run real stored) params.scale params.zeroPoint number.toInt)
  have filled : at2.Emits _ (fun s => (at2.memory s).push (tabulate shape real fun position =>
      value ((x s).entry position))) _ := emits_each static loopable (stores.reaches (reaches1.trans reaches2) memory2)
    fun τ inner outer number loaded reachesInner among holds => by
      -- What is loaded is an element, and elements are integers of their type.
      have entry (t : τ) : number t = .int (number t).toInt ∧ stored.Holds (.int (number t).toInt) := by
        obtain ⟨position, -, isEntry⟩ := among t
        rw [isEntry]
        exact (inRange (outer t)).entry_eq (ScalarType.isInteger_iff.mp isInteger).1 position
      exact emits_dequantizeOne isFloat isInteger notBool (holds.congr fun t => congrArg Slot.scalar (entry t).1)
        (fun t => (entry t).2) (scaleHolds.reaches (reaches2.trans reachesInner)) (shiftHolds.reaches reachesInner)
  rw [memory2] at filled
  exact filled

/-! ### Among operations on whole tensors -/

/-- An operation on an array and a constant. -/
theorem emits_withConstant {kind : TosaKind} {value : ValueId} {compute : Scalar → Scalar → Scalar} (number : Float)
    (isCompute : Run.onElements? real kind = some compute) (static : Static shape)
    (holds : start.HoldsTensor value shape real x) (fits : ∀ s, (x s).Fits shape real) :
    start.Emits (do
        let constant ← Tosa.splat number shape.length real
        Tosa.binary kind value constant)
      start.memory fun result now => now.HoldsTensor result shape real fun s =>
        tabulate shape real fun position => compute ((x s).entry position) (.ofFloat real number) := by
  refine (emits_splat start number shape.length real).bind fun constant now reaches memory constantHolds => ?_
  refine ((emits_pairs isCompute (Shape.ofBroadcast_ones shape) static (holds.reaches reaches) constantHolds
    fits fun _ => Grid.tabulate_fits (Shape.static_ones _) real _).of_memory memory).imp
      fun result last _ resultHolds => resultHolds.congr fun s => congrArg Slot.tensor ?_
  obtain ⟨-, stretches⟩ := Shape.stretches_of_ofBroadcast (Shape.ofBroadcast_ones shape)
  refine Grid.tabulate_congr static fun position inside => ?_
  rw [Shape.aligned_self inside, Grid.entry_tabulate (inside.aligned stretches)]
  rfl

theorem Emits.withConstant_bind {α : Type} {memory : σ → Array Grid} {post : α → Scene σ → Prop} {kind : TosaKind}
    {value : ValueId} {compute : Scalar → Scalar → Scalar} {next : ValueId → Build α} (number : Float)
    (isCompute : Run.onElements? real kind = some compute) (static : Static shape)
    (holds : start.HoldsTensor value shape real x) (fits : ∀ s, (x s).Fits shape real)
    (later : ∀ result now, start.Reaches id now → now.memory = start.memory →
      (now.HoldsTensor result shape real fun s =>
        tabulate shape real fun position => compute ((x s).entry position) (.ofFloat real number)) →
      now.Emits (next result) memory post) :
    start.Emits (do
        let constant ← Tosa.splat number shape.length real
        let result ← Tosa.binary kind value constant
        next result) memory post := by
  have step := (emits_withConstant number isCompute static holds fits).bind later
  rwa [bind_assoc] at step

/-- The chain of operations that stores an element. -/
theorem cast_clamped_add_mul (isFloat : real.isFloat = true) (notFloat : stored.isFloat = false)
    (notBool : stored ≠ .i1) (params : QuantParams) (number : Scalar) :
    Scalar.cast real stored (Run.clamped
      (Tosa.clampAttributes (Float.ofInt params.range.1) (Float.ofInt params.range.2))
      (Scalar.add real (Scalar.mul real number (.ofFloat real (1.0 / params.scale)))
        (.ofFloat real (Float.ofInt params.zeroPoint)))) =
      .int (Target.tosa.quantized (.run real stored) params.range params.scale params.zeroPoint number.toFloat) := by
  rw [Scalar.add, Scalar.arithmetic, Scalar.mul, Scalar.arithmetic, Scalar.ofFloat, Scalar.ofFloat, if_pos isFloat,
    if_pos isFloat, if_pos isFloat, if_pos isFloat, Scalar.cast, if_neg (Bool.eq_false_iff.mp notFloat), if_pos isFloat,
    if_neg notBool]
  rfl

/-- The operations on whole tensors that are built for quantizing. -/
theorem emits_quantizeTensor
    (result : start.draft.program.resultTensor op = .ok (shape, stored, dtype))
    (isParams : start.draft.program.quantParams op dtype = .ok params)
    (isInput : start.draft.program.operand op 0 = .ok input) (isFloat : real.isFloat = true)
    (isInteger : stored.isInteger = true) (notBool : stored ≠ .i1) (static : Static shape)
    (holds : start.HoldsTensor input shape real x) (fits : ∀ s, (x s).Fits shape real) :
    start.Emits (Tosa.quantizeOp op) start.memory fun answer now => answer.2 = params ∧
      now.HoldsTensor answer.1 shape stored fun s => ofInts shape stored fun position => Target.tosa.quantized
        (.run real stored) params.range params.scale params.zeroPoint ((x s).number position) := by
  have notFloat := (ScalarType.isInteger_iff.mp isInteger).1
  have different : real ≠ stored := by
    rintro rfl
    exact Bool.false_ne_true (notFloat.symm.trans isFloat)
  have isMul : Run.onElements? real .mul = some (Scalar.mul real) := rfl
  have isAdd : Run.onElements? real .add = some (Scalar.add real) := rfl
  have tabulated (compute : σ → List Int → Scalar) (s : σ) : (tabulate shape real (compute s)).Fits shape real :=
    Grid.tabulate_fits static real _
  refine Emits.askFor_bind result (Emits.askFor_bind isParams (Emits.askFor_bind isInput (holds.tensorType_bind ?_)))
  -- Up to the conversion all tensors have the type of the operand.
  refine Emits.withConstant_bind (1.0 / params.scale) isMul static holds fits fun scaled at1 _ memory1 holds1 => ?_
  refine Emits.withConstant_bind (Float.ofInt params.zeroPoint) isAdd static holds1 (tabulated _)
    fun shifted at2 _ memory2 holds2 => ?_
  refine (emits_clamp static holds2 (tabulated _)).bind fun kept at3 _ memory3 holds3 => ?_
  refine (emits_castEach different static holds3 (tabulated _)).bind
    fun converted last _ memory4 holds4 => ?_
  refine (Emits.pure ⟨rfl, holds4.congr fun s => congrArg Slot.tensor ?_⟩).of_memory
    (((memory4.trans memory3).trans memory2).trans memory1)
  refine Grid.tabulate_congr static fun position inside => ?_
  dsimp only [ShapedType.tensor]
  rw [Grid.entry_tabulate inside, Grid.entry_tabulate inside, Grid.entry_tabulate inside]
  exact cast_clamped_add_mul isFloat notFloat notBool params _

/-- The chain of operations that turns an element into a number. -/
theorem mul_sub_cast (isFloat : real.isFloat = true) (params : QuantParams) (number : Int) :
    Scalar.mul real (Scalar.arithmetic real (· - ·) (· - ·) (Scalar.cast stored real (.int number))
      (.ofFloat real (Float.ofInt params.zeroPoint))) (.ofFloat real params.scale) =
      .float (dequantized (.run real stored) params.scale params.zeroPoint number) := by
  rw [Scalar.mul, Scalar.arithmetic, Scalar.arithmetic, Scalar.ofFloat, Scalar.ofFloat, if_pos isFloat, if_pos isFloat,
    if_pos isFloat, if_pos isFloat, Scalar.cast, if_pos isFloat]
  rfl

/-- The operations on whole tensors that are built for the way back. -/
theorem emits_dequantizeTensor (result : start.draft.program.resultTensor op = .ok (shape, real, dtype))
    (isInput : start.draft.program.operand op 0 = .ok input) (isParams : table.get? input = some params)
    (isFloat : real.isFloat = true) (notFloat : stored.isFloat = false) (static : Static shape)
    (holds : start.HoldsTensor input shape stored x) (fits : ∀ s, (x s).Fits shape stored)
    (inRange : ∀ s, (x s).Holds stored) :
    start.Emits (Tosa.dequantizeOp op table) start.memory fun answer now =>
      now.HoldsTensor answer shape real fun s => tabulate shape real fun position =>
        .float (dequantized (.run real stored) params.scale params.zeroPoint ((x s).integer position)) := by
  have different : stored ≠ real := by
    rintro rfl
    exact Bool.false_ne_true (notFloat.symm.trans isFloat)
  have isSub : Run.onElements? real .sub = some (Scalar.arithmetic real (· - ·) (· - ·)) := rfl
  have isMul : Run.onElements? real .mul = some (Scalar.mul real) := rfl
  have tabulated (compute : σ → List Int → Scalar) (s : σ) : (tabulate shape real (compute s)).Fits shape real :=
    Grid.tabulate_fits static real _
  refine Emits.askFor_bind result (Emits.askFor_bind isInput ?_)
  rw [isParams]
  refine (emits_castEach different static holds fits).bind fun wide at1 _ memory1 holds1 => ?_
  refine holds1.tensorType_bind ?_
  refine Emits.withConstant_bind (Float.ofInt params.zeroPoint) isSub static holds1 (tabulated _)
    fun shifted at2 _ memory2 holds2 => ?_
  refine ((emits_withConstant params.scale isMul static holds2 (tabulated _)).of_memory (memory2.trans memory1)).imp
    fun answer last _ holds3 => holds3.congr fun s => congrArg Slot.tensor ?_
  refine Grid.tabulate_congr static fun position inside => ?_
  dsimp only [ShapedType.tensor]
  rw [Grid.entry_tabulate inside, Grid.entry_tabulate inside, ((inRange s).entry_eq notFloat position).1]
  exact mul_sub_cast isFloat params _

end Scene

/-! ### What is stored -/

theorem QuantParams.range_eq {dtype : Dtype} (isQuantized : dtype.isQuantized = true) (scale : Float)
    (zeroPoint : Int) : (QuantParams.mk scale zeroPoint dtype).range = dtype.storage.bounds := by
  cases dtype <;> first | rfl | cases isQuantized

/-- The integers of quantized tensors are bytes. -/
theorem Dtype.storage_of_isQuantized {dtype : Dtype} (isQuantized : dtype.isQuantized = true) :
    dtype.storage.isInteger = true ∧ dtype.storage ≠ .i1 := by
  cases dtype <;> first | exact ⟨rfl, by decide⟩ | cases isQuantized

/-- What a run stores is one of the stored integers. -/
theorem Target.holds_quantized {stored : ScalarType} (notFloat : stored.isFloat = false) (target : Target)
    (real : ScalarType) (bounds : Int × Int) (scale : Float) (zeroPoint : Int) (x : Float) :
    stored.Holds (.int (target.quantized (.run real stored) bounds scale zeroPoint x)) := by
  cases target with
  | loops => exact Target.holds_asInteger notFloat .loops _
  | tosa => exact Target.holds_asInteger notFloat .tosa _

namespace Program

variable {source now : Program} {symbols : SymbolTable} {op : OpId} {shape input : List Int}
  {dtype inputDtype : Dtype} {params : QuantParams} {x : Grid} {target : Target}

theorem quantized_of_quantParams (isParams : source.quantParams op (some dtype) = .ok params) :
    dtype.isQuantized = true ∧ params.dtype = dtype := by
  obtain ⟨-, -, -, -, -, -, isQuantized, -⟩ := quantParams_eq_ok_iff.mp isParams
  rw [Option.filter_some] at isQuantized
  split at isQuantized
  case isTrue accepted => exact ⟨accepted, (Option.some.inj isQuantized).symm⟩
  case isFalse => cases isQuantized

/-- What is built for quantizing computes the stored integer of each element, and the parameters are known. -/
theorem computes_quantize (isQuantize : source.kind op = .torch .quantizePerTensor)
    (verified : source.verifyOp symbols op = .ok ())
    (isInput : source.tensorOperand op 0 = .ok (.ofShape input inputDtype))
    (declared : source.resultType op 0 = .ok (.vtensor (.ofShape shape dtype)))
    (isParams : source.quantParams op (some dtype) = .ok params) (static : Static input)
    (loopable : target = .loops → Loopable input) (fits : x.Fits input inputDtype.storage)
    (awaits : source.Awaits target op now) :
    shape = input ∧ dtype.isQuantized = true ∧ ∃ result : Grid, result.Fits shape dtype.storage ∧
      result.Holds dtype.storage ∧
      (∀ position, Shape.Inside position shape → result.get position = .ok (.int
        (target.quantized (.run inputDtype.storage dtype.storage) dtype.storage.bounds params.scale params.zeroPoint
          (x.number position)))) ∧
      ∀ table, now.ComputesBy target op (target.tensorOp op table .quantizePerTensor) [x] (some params) result := by
  obtain ⟨isFloatDtype, rfl⟩ := of_quantize isQuantize verified declared rfl isInput
  obtain ⟨isQuantized, sameDtype⟩ := quantized_of_quantParams isParams
  obtain ⟨isInteger, notBool⟩ := Dtype.storage_of_isQuantized isQuantized
  have notFloat := (ScalarType.isInteger_iff.mp isInteger).1
  have isFloat : inputDtype.storage.isFloat = true := by cases inputDtype <;> first | rfl | cases isFloatDtype
  have range_eq : params.range = dtype.storage.bounds := by
    subst sameDtype
    exact QuantParams.range_eq isQuantized _ _
  let stored (position : List Int) : Int := target.quantized (.run inputDtype.storage dtype.storage)
    dtype.storage.bounds params.scale params.zeroPoint (x.number position)
  refine ⟨rfl, isQuantized, ofInts shape dtype.storage stored, Grid.ofInts_fits static _ _,
    Grid.tabulate_holds fun position => Target.holds_quantized notFloat .., fun position inside => ?_, fun table => ?_⟩
  · rw [(Grid.ofInts_fits static _ _).get_eq inside, Grid.entry_ofInts inside]
  obtain ⟨operand, isOperand, typed⟩ := awaits.exists_tensor isInput
  have isFirst : [x][0]? = some x := rfl
  have isResult := awaits.resultTensor_eq declared
  have isKnown := awaits.quantParams_eq isParams
  -- Both targets leave the stored number of each element, one in a buffer and one in a tensor.
  cases target with
  | loops =>
    have emits := Scene.emits_quantizeLoops isResult isKnown isOperand isFloat isInteger notBool static (loopable rfl)
      (stores_opening awaits.placed isOperand isFirst typed fits)
    rw [range_eq] at emits
    exact computesBy_of_emits_buffer awaits.placed (emits.bind fun answer last _ memory holds =>
      (Scene.Emits.pure ⟨congrArg some holds.1, holds.2⟩).of_memory memory)
  | tosa =>
    have emits := Scene.emits_quantizeTensor isResult isKnown isOperand isFloat isInteger notBool static
      (holdsTensor_opening awaits.placed isOperand isFirst typed) fun _ => fits
    rw [range_eq] at emits
    exact computesBy_of_emits_tensor awaits.placed (emits.bind fun answer last _ memory holds =>
      (Scene.Emits.pure ⟨congrArg some holds.1, holds.2⟩).of_memory memory)

/-- What is built for the way back computes the number that each stored integer stands for. -/
theorem computes_dequantize (isDequantize : source.kind op = .torch .dequantizeSelf)
    (verified : source.verifyOp symbols op = .ok ())
    (isInput : source.tensorOperand op 0 = .ok (.ofShape input inputDtype))
    (declared : source.resultType op 0 = .ok (.vtensor (.ofShape shape dtype))) (static : Static input)
    (loopable : target = .loops → Loopable input) (fits : x.Fits input inputDtype.storage)
    (inRange : x.Holds inputDtype.storage) (awaits : source.Awaits target op now) :
    shape = input ∧ dtype = .f32 ∧ ∃ result : Grid, result.Fits shape .f32 ∧
      (∀ position, Shape.Inside position shape → result.get position = .ok (.float
        (dequantized (.run .f32 inputDtype.storage) params.scale params.zeroPoint (x.integer position)))) ∧
      ∀ table value, now.operand op 0 = .ok value → table.get? value = some params →
        now.ComputesBy target op (target.tensorOp op table .dequantizeSelf) [x] none result := by
  obtain ⟨isQuantized, rfl, rfl⟩ := of_dequantize isDequantize verified declared rfl isInput
  obtain ⟨isInteger, notBool⟩ := Dtype.storage_of_isQuantized isQuantized
  have notFloat := (ScalarType.isInteger_iff.mp isInteger).1
  let number (position : List Int) : Scalar :=
    .float (dequantized (.run .f32 inputDtype.storage) params.scale params.zeroPoint (x.integer position))
  have isFloat : ScalarType.f32.isFloat = true := rfl
  refine ⟨rfl, rfl, tabulate shape .f32 number, Grid.tabulate_fits static _ _, fun position inside => ?_,
    fun table value isValue isKnown => ?_⟩
  · rw [(Grid.tabulate_fits static _ _).get_eq inside, Grid.entry_tabulate inside]
  -- The parameters are looked up by the value that stands for the operand.
  obtain ⟨operand, isOperand, typed⟩ := awaits.exists_tensor isInput
  obtain rfl : operand = value := Except.ok.inj (isOperand.symm.trans isValue)
  have isFirst : [x][0]? = some x := rfl
  have isResult := awaits.resultTensor_eq declared
  cases target with
  | loops =>
    have emits := Scene.emits_dequantizeLoops isResult isOperand isKnown isFloat isInteger notBool static (loopable rfl)
      (stores_opening awaits.placed isOperand isFirst typed fits) fun _ => inRange
    exact computesBy_of_emits_buffer awaits.placed (emits.bind fun answer last _ memory holds =>
      (Scene.Emits.pure ⟨rfl, holds⟩).of_memory memory)
  | tosa =>
    have emits := Scene.emits_dequantizeTensor isResult isOperand isKnown isFloat notFloat static
      (holdsTensor_opening awaits.placed isOperand isFirst typed) (fun _ => fits) fun _ => inRange
    exact computesBy_of_emits_tensor awaits.placed (emits.bind fun answer last _ memory holds =>
      (Scene.Emits.pure ⟨rfl, holds⟩).of_memory memory)

end Program

/-! ### Both lowerings, and the way back -/

/-- A function that quantizes numbers and turns the stored integers back into numbers. -/
def packing : Program where
  values := #[⟨some "%x", some (.torch (.vtensor (.ofShape [3] .f32))), .argument (some ⟨1⟩)⟩,
    ⟨none, some (.torch (.vtensor (.ofShape [3] .f32))), .signature⟩,
    ⟨some "%scale", some (.torch .float), .result ⟨2⟩⟩, ⟨some "%zero", some (.torch .int), .result ⟨3⟩⟩,
    ⟨some "%code", some (.torch .int), .result ⟨4⟩⟩,
    ⟨some "%0", some (.torch (.vtensor (.ofShape [3] .qint8))), .result ⟨5⟩⟩,
    ⟨some "%1", some (.torch (.vtensor (.ofShape [3] .f32))), .result ⟨6⟩⟩]
  operations := #[
    { kind := .module },
    { kind := .func .func, results := [⟨1⟩], attributes := Attributes.empty.insert "sym_name" (.ofSymbol "f") },
    { kind := .torch .constantFloat, results := [⟨2⟩], attributes := Attributes.empty.insert "value" (.float 1.0) },
    { kind := .torch .constantInt, results := [⟨3⟩], attributes := Attributes.empty.insert "value" (.int 1) },
    { kind := .torch .constantInt, results := [⟨4⟩], attributes := Attributes.empty.insert "value" (.int 12) },
    { kind := .torch .quantizePerTensor, operands := [⟨0⟩, ⟨2⟩, ⟨3⟩, ⟨4⟩], results := [⟨5⟩] },
    { kind := .torch .dequantizeSelf, operands := [⟨5⟩], results := [⟨6⟩] },
    { kind := .func .ret, operands := [⟨6⟩] }]
  headers := #[{}, { arguments := [⟨0⟩] }]
  root := ⟨0⟩
  regions := .single ⟨0⟩ (.single ⟨1⟩ (.single ⟨1⟩ (.cons ⟨2⟩ .nil (.cons ⟨3⟩ .nil (.cons ⟨4⟩ .nil
    (.cons ⟨5⟩ .nil (.cons ⟨6⟩ .nil (.single ⟨7⟩ .nil))))))))

/-- The function with the counterparts of its types, where the lowering of the operations begins. -/
def packingSigned (target : Target) : Program := ((Change.convertSignatures target).run packing).2

theorem packing_awaits (target : Target) : packing.Awaits target ⟨5⟩ (packingSigned target) := by
  cases target
  all_goals exact
    { placed := by decide
      closed := by decide
      kind_eq := rfl
      results_eq := rfl
      types_eq := fun value member => by
        cases List.mem_singleton.mp member
        rfl
      operands := .cons (.of_tensor rfl rfl rfl rfl) (.cons (.of_parameter rfl rfl rfl)
        (.cons (.of_parameter rfl rfl rfl) (.cons (.of_parameter rfl rfl rfl) .nil))) }

namespace Program

section Alike

variable {source : Program} {now : Target → Program} {symbols : SymbolTable} {op : OpId} {shape input : List Int}
  {dtype inputDtype : Dtype} {params : QuantParams} {x : Grid}

/-- The chains that are built for quantizing store the same integers in exact arithmetic, except half way between two
stored integers when the zero point is odd. -/
theorem quantized_alike (isQuantize : source.kind op = .torch .quantizePerTensor)
    (verified : source.verifyOp symbols op = .ok ())
    (isInput : source.tensorOperand op 0 = .ok (.ofShape input inputDtype))
    (declared : source.resultType op 0 = .ok (.vtensor (.ofShape shape dtype)))
    (isParams : source.quantParams op (some dtype) = .ok params) (static : Static input) (loopable : Loopable input)
    (fits : x.Fits input inputDtype.storage) (awaits : ∀ target, source.Awaits target op (now target)) :
    (∀ target : Target, ∃ result : Grid, result.Fits input dtype.storage ∧
      (∀ position, Shape.Inside position input → result.get position = .ok (.int
        (target.quantized (.run inputDtype.storage dtype.storage) dtype.storage.bounds params.scale params.zeroPoint
          (x.number position)))) ∧
      ∀ table, (now target).ComputesBy target op (target.tensorOp op table .quantizePerTensor) [x] (some params)
        result) ∧
    ∀ (scale number : ℚ) (zeroPoint : ℤ),
      let among := Target.loops.quantized (.exact dtype.storage) dtype.storage.bounds scale zeroPoint number
      let whole := Target.tosa.quantized (.exact dtype.storage) dtype.storage.bounds scale zeroPoint number
      (¬Target.IsSplit dtype.storage.bounds scale number zeroPoint → among = whole) ∧
        (Target.IsSplit dtype.storage.bounds scale number zeroPoint →
          Odd among ∧ Even whole ∧ |among - whole| = 1) := by
  refine ⟨fun target => ?_, fun scale number zeroPoint =>
    ⟨Target.quantized_eq dtype.storage scale number zeroPoint,
      Target.quantized_of_isSplit dtype.storage scale number zeroPoint⟩⟩
  obtain ⟨rfl, -, result, resultFits, -, entries, computes⟩ := computes_quantize isQuantize verified isInput declared
    isParams static (fun _ => loopable) fits (awaits target)
  exact ⟨result, resultFits, entries, computes⟩

end Alike

end Program

/-- Numbers in single precision and a zero point of one. -/
theorem quantized_alike_packing : packing.verify = .ok () ∧
    let x : Grid := ⟨[3], .f32, #[.float 0.5, .float (-1.0), .float 200.0]⟩
    (∀ target : Target, ∃ result : Grid, result.Fits [3] .i8 ∧
      (∀ position, Shape.Inside position [3] → result.get position = .ok (.int
        (target.quantized (.run .f32 .i8) ScalarType.i8.bounds 1.0 1 (x.number position)))) ∧
      ∀ table, (packingSigned target).ComputesBy target ⟨5⟩ (target.tensorOp ⟨5⟩ table .quantizePerTensor) [x]
        (some ⟨1.0, 1, .qint8⟩) result) ∧
    ∀ (scale number : ℚ) (zeroPoint : ℤ),
      let among := Target.loops.quantized (.exact .i8) ScalarType.i8.bounds scale zeroPoint number
      let whole := Target.tosa.quantized (.exact .i8) ScalarType.i8.bounds scale zeroPoint number
      (¬Target.IsSplit ScalarType.i8.bounds scale number zeroPoint → among = whole) ∧
        (Target.IsSplit ScalarType.i8.bounds scale number zeroPoint →
          Odd among ∧ Even whole ∧ |among - whole| = 1) := by
  have verified : packing.verifyOp {} ⟨5⟩ = .ok () := rfl
  have isInput : packing.tensorOperand ⟨5⟩ 0 = .ok (.ofShape [3] .f32) := rfl
  have declared : packing.resultType ⟨5⟩ 0 = .ok (.vtensor (.ofShape [3] .qint8)) := rfl
  have isParams : packing.quantParams ⟨5⟩ (some .qint8) = .ok ⟨1.0, 1, .qint8⟩ := rfl
  have static : Static [3] := by simp [Static]
  refine ⟨rfl, ?_⟩
  intro x
  have fits : x.Fits [3] .f32 := ⟨rfl, rfl, rfl⟩
  have alike := Program.quantized_alike rfl verified isInput declared isParams static (by decide) fits packing_awaits
  exact alike

/-- Half way between two integers, with an odd zero point. -/
theorem quantized_half : ¬∀ (dtype : Dtype) (scale x : ℚ) (zeroPoint : ℤ), dtype.isQuantized = true → 0 < scale →
    dtype.storage.Holds (.int zeroPoint) →
      Target.loops.quantized (.exact dtype.storage) dtype.storage.bounds scale zeroPoint x =
        Target.tosa.quantized (.exact dtype.storage) dtype.storage.bounds scale zeroPoint x := by
  intro same
  have split : Target.IsSplit Dtype.qint8.storage.bounds 1 (1 / 2) 1 := by
    have fract : Int.fract ((1 / 2 : ℚ) / 1) = 1 / 2 := by
      rw [div_one]
      exact Int.fract_eq_self.mpr ⟨by norm_num, by norm_num⟩
    have floor : ⌊(1 / 2 : ℚ) / 1⌋ = 0 := by
      rw [div_one]
      exact Int.floor_eq_iff.mpr ⟨by norm_num, by norm_num⟩
    exact ⟨odd_one, fract, by rw [floor]; decide, by rw [floor]; decide⟩
  obtain ⟨odd, even, -⟩ := Target.quantized_of_isSplit _ _ _ _ split
  rw [same .qint8 1 (1 / 2) 1 rfl one_pos (by decide)] at odd
  exact Int.not_even_iff_odd.mpr odd even

namespace Program

section Near

variable {source now later : Program} {symbols : SymbolTable} {first second : OpId} {shape input output : List Int}
  {dtype inputDtype outputDtype : Dtype} {params : QuantParams} {table : QuantTable} {value : ValueId} {x : Grid}
  {target : Target}

/-- The result of an operation is the operand of another one. -/
theorem tensorOperand_of_feeds (declared : source.resultType first 0 = .ok (.vtensor (.ofShape shape dtype)))
    (feeds : source.operand second 0 = source.result first 0) :
    source.tensorOperand second 0 = .ok (.ofShape shape dtype) := by
  obtain ⟨value, isValue, hasType⟩ := torchTypeOf?_of_resultType declared
  rw [tensorOperand, feeds, isValue, ok_bind, hasType]
  rfl

/-- The chains that are built for quantizing and for the way back end, in exact arithmetic, within half a scale of a
number in the range, and what is stored in between is one of the stored integers. -/
theorem dequantized_near (isQuantize : source.kind first = .torch .quantizePerTensor)
    (verified : source.verifyOp symbols first = .ok ())
    (isInput : source.tensorOperand first 0 = .ok (.ofShape input inputDtype))
    (declared : source.resultType first 0 = .ok (.vtensor (.ofShape shape dtype)))
    (isParams : source.quantParams first (some dtype) = .ok params)
    (isDequantize : source.kind second = .torch .dequantizeSelf)
    (verifiedToo : source.verifyOp symbols second = .ok ())
    (feeds : source.operand second 0 = source.result first 0)
    (declaredToo : source.resultType second 0 = .ok (.vtensor (.ofShape output outputDtype)))
    (static : Static input) (loopable : target = .loops → Loopable input) (fits : x.Fits input inputDtype.storage)
    (awaits : source.Awaits target first now) (awaitsToo : source.Awaits target second later)
    (isStored : later.operand second 0 = .ok value) (known : table.get? value = some params) :
    (∃ stored result : Grid, stored.Fits input dtype.storage ∧ result.Fits input .f32 ∧
      (∀ position, Shape.Inside position input →
        let integer := target.quantized (.run inputDtype.storage dtype.storage) dtype.storage.bounds params.scale
          params.zeroPoint (x.number position)
        stored.get position = .ok (.int integer) ∧
          result.get position = .ok (.float
            (dequantized (.run .f32 dtype.storage) params.scale params.zeroPoint integer))) ∧
      (∀ table, now.ComputesBy target first (target.tensorOp first table .quantizePerTensor) [x] (some params) stored) ∧
      later.ComputesBy target second (target.tensorOp second table .dequantizeSelf) [stored] none result) ∧
    ∀ (scale number : ℚ) (zeroPoint : ℤ), 0 < scale → (dtype.storage.bounds.1 - zeroPoint) * scale ≤ number →
      number ≤ (dtype.storage.bounds.2 - zeroPoint) * scale →
        let integer := target.quantized (.exact dtype.storage) dtype.storage.bounds scale zeroPoint number
        dtype.storage.bounds.1 ≤ integer ∧ integer ≤ dtype.storage.bounds.2 ∧
          |dequantized (.exact dtype.storage) scale zeroPoint integer - number| ≤ scale / 2 := by
  refine ⟨?_, fun scale number zeroPoint positive least most => ?_⟩
  · obtain ⟨rfl, isQuantized, stored, storedFits, storedHolds, entries, computes⟩ := computes_quantize isQuantize
      verified isInput declared isParams static loopable fits awaits
    have notFloat := (ScalarType.isInteger_iff.mp (Dtype.storage_of_isQuantized isQuantized).1).1
    obtain ⟨rfl, rfl, result, resultFits, numbers, computesToo⟩ := @computes_dequantize source later symbols second
      output shape outputDtype dtype params stored target isDequantize verifiedToo
      (tensorOperand_of_feeds declared feeds) declaredToo static loopable storedFits storedHolds awaitsToo
    refine ⟨stored, result, storedFits, resultFits, fun position inside => ?_, computes,
      computesToo table value isStored known⟩
    -- The array in between is read at the same position.
    have entry := entries position inside
    rw [storedFits.get_eq inside] at entry
    refine ⟨entries position inside, (numbers position inside).trans ?_⟩
    rw [Grid.integer, Except.ok.inj entry]
    rfl
  · obtain ⟨above, below⟩ := Target.quantized_mem_bounds dtype.storage scale number zeroPoint target
    exact ⟨above, below, Target.abs_dequantized_sub_le dtype.storage target positive least most⟩

end Near

end Program

/-- The function where the way back is about to be lowered. -/
def packingHalfway (target : Target) : Program :=
  (((Lowering.supersede ⟨5⟩ (target.tensorOp ⟨5⟩ {} .quantizePerTensor)).run {}).run (packingSigned target)).2

/-- The value that carries the stored integers. -/
def storedValue : Target → ValueId
  | .loops => ⟨12⟩
  | .tosa => ⟨13⟩

theorem packingHalfway_spec (target : Target) : (packingHalfway target).IsClosed ∧
    (⟨6⟩ ≠ (packingHalfway target).root ∧ (packingHalfway target).kind ⟨6⟩ = .torch .dequantizeSelf) ∧
    ((packingHalfway target).operands ⟨6⟩ = [storedValue target] ∧ (packingHalfway target).results ⟨6⟩ = [⟨6⟩]) ∧
    (packingHalfway target).typeOf? ⟨6⟩ = some (.torch (.vtensor (.ofShape [3] .f32))) ∧
    (packingHalfway target).typeOf? (storedValue target) = some (target.ofShape [3] .i8) := by
  cases target <;> decide +kernel

theorem packingHalfway_awaits (target : Target) : packing.Awaits target ⟨6⟩ (packingHalfway target) := by
  obtain ⟨closed, ⟨placed, kind_eq⟩, ⟨operands_eq, results_eq⟩, typed, typedToo⟩ := packingHalfway_spec target
  refine ⟨placed, closed, kind_eq, results_eq, fun value member => ?_, ?_⟩
  · cases List.mem_singleton.mp member
    exact typed
  · rw [operands_eq]
    refine .cons (.of_tensor ?_ typedToo rfl rfl) .nil
    cases target <;> rfl

/-- Numbers in single precision that are stored in signed bytes. -/
theorem dequantized_near_packing : packing.verify = .ok () ∧ ∀ target : Target,
    let x : Grid := ⟨[3], .f32, #[.float 0.5, .float (-1.0), .float 200.0]⟩
    let table : QuantTable := ({} : QuantTable).insert (storedValue target) ⟨1.0, 1, .qint8⟩
    (∃ stored result : Grid, stored.Fits [3] .i8 ∧ result.Fits [3] .f32 ∧
      (∀ position, Shape.Inside position [3] →
        let integer := target.quantized (.run .f32 .i8) ScalarType.i8.bounds 1.0 1 (x.number position)
        stored.get position = .ok (.int integer) ∧
          result.get position = .ok (.float (dequantized (.run .f32 .i8) 1.0 1 integer))) ∧
      (∀ table, (packingSigned target).ComputesBy target ⟨5⟩ (target.tensorOp ⟨5⟩ table .quantizePerTensor) [x]
        (some ⟨1.0, 1, .qint8⟩) stored) ∧
      (packingHalfway target).ComputesBy target ⟨6⟩ (target.tensorOp ⟨6⟩ table .dequantizeSelf) [stored] none result) ∧
    ∀ (scale number : ℚ) (zeroPoint : ℤ), 0 < scale → (ScalarType.i8.bounds.1 - zeroPoint) * scale ≤ number →
      number ≤ (ScalarType.i8.bounds.2 - zeroPoint) * scale →
        let integer := target.quantized (.exact .i8) ScalarType.i8.bounds scale zeroPoint number
        ScalarType.i8.bounds.1 ≤ integer ∧ integer ≤ ScalarType.i8.bounds.2 ∧
          |dequantized (.exact .i8) scale zeroPoint integer - number| ≤ scale / 2 := by
  have verified : packing.verifyOp {} ⟨5⟩ = .ok () := rfl
  have isInput : packing.tensorOperand ⟨5⟩ 0 = .ok (.ofShape [3] .f32) := rfl
  have declared : packing.resultType ⟨5⟩ 0 = .ok (.vtensor (.ofShape [3] .qint8)) := rfl
  have isParams : packing.quantParams ⟨5⟩ (some .qint8) = .ok ⟨1.0, 1, .qint8⟩ := rfl
  have verifiedToo : packing.verifyOp {} ⟨6⟩ = .ok () := rfl
  have declaredToo : packing.resultType ⟨6⟩ 0 = .ok (.vtensor (.ofShape [3] .f32)) := rfl
  have static : Static [3] := by simp [Static]
  refine ⟨rfl, ?_⟩
  intro target x table
  have fits : x.Fits [3] .f32 := ⟨rfl, rfl, rfl⟩
  have isStored : (packingHalfway target).operand ⟨6⟩ 0 = .ok (storedValue target) := by
    rw [Program.operand, (packingHalfway_spec target).2.2.1.1]
    rfl
  have known : table.get? (storedValue target) = some ⟨1.0, 1, .qint8⟩ := QuantTable.get?_insert_self ..
  have near := Program.dequantized_near rfl verified isInput declared isParams rfl verifiedToo rfl declaredToo static
    (fun _ => by decide) fits (packing_awaits target) (packingHalfway_awaits target) isStored known
  exact near

end TensorIR
