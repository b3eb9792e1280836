import TensorIR.Proofs.Emission.Pending
import TensorIR.Proofs.Ranges.Widest

/-!
# Bounds that are absent

The lowering to loops compares an element with a bound only if there is one, so the positive part of a number is its
greater with zero, and a clamp without bounds leaves numbers as they are. The lowering to operations on whole tensors
states the greatest finite number in the place of a bound that is absent. Finite numbers lie below it, but infinity
does not, and is replaced by it.

## Main definitions

* `ScalarType.IsElement` — a number that can be an element of a tensor, and is one
* `Scalar.positivePart`, `Scalar.inRange` — what is kept of a number
* `TorchKind.keeps?` — the operations that take the positive part, or have bounds that may be absent
* `Program.IsUnbounded` — the bounds of an operation are known to be absent

## Main results

* `Scalar.clamped_elementRange`, `Scalar.clamped_zero` — a clamp by the numbers that are stated for absent bounds
* `Scalar.inRange_eq_iff` — which numbers it leaves as they are
* `Program.computes_unbounded` — what is built by both lowerings
-/

namespace TensorIR

open Grid (tabulate)
open Shape (Inside Static Loopable)

/-- An integer of an integer type, or a number of a floating-point type that is as precise as the type. -/
def ScalarType.IsElement (type : ScalarType) : Scalar → Prop
  | .int value => type.isFloat = false ∧ type.Holds (.int value)
  | .float value => type.isFloat = true ∧ value.isNaN = false ∧ Number.roundTo type value = value

theorem ScalarType.IsElement.eq_int {type : ScalarType} {x : Scalar} (element : type.IsElement x)
    (notFloat : type.isFloat = false) : x = .int x.toInt ∧ type.Holds (.int x.toInt) := by
  cases x with
  | int value => exact ⟨rfl, element.2⟩
  | float value => cases notFloat.symm.trans element.1

/-- The number, or zero if it is below zero. -/
def Scalar.positivePart : Scalar → Scalar
  | .int value => .int (max value 0)
  | .float value => .float (Number.maximum value 0.0)

/-- The number with infinity taken for an end of the range of a type. -/
def Scalar.inRange (type : ScalarType) : Scalar → Scalar
  | .int value => .int value
  | .float value => .float (Number.inRange type value)

/-- A number is infinite. -/
def Scalar.isInfinite : Scalar → Bool
  | .int _ => false
  | .float value => value.isInf

/-- What an operation keeps of each element if it has no bounds. -/
def TorchKind.keeps? : TorchKind → Option (Scalar → Scalar)
  | .relu => some Scalar.positivePart
  | .clamp => some id
  | _ => none

/-- The bounds of a clamp are known to be absent. -/
def Program.IsUnbounded (program : Program) (op : OpId) (kind : TorchKind) : Prop :=
  kind = .clamp → ∀ index ∈ [1, 2], ∃ bound, program.operand op index = .ok bound ∧ program.isNone bound = true

namespace Scalar

variable {type : ScalarType} {x : Scalar}

theorem holds_positivePart {value : Int} (holds : type.Holds (.int value)) : type.Holds (.int (max value 0)) := by
  rcases max_choice value 0 with same | same
  · rwa [same]
  · rw [same]
    exact type.holds_zero

theorem isElement_positivePart (element : type.IsElement x) : type.IsElement x.positivePart := by
  cases x with
  | int value => exact ⟨element.1, holds_positivePart element.2⟩
  | float value =>
    obtain ⟨isFloat, isNumber, isRounded⟩ := element
    exact ⟨isFloat, Number.isNaN_maximum isNumber rfl, Number.roundTo_maximum_zero isRounded⟩

theorem greater_zero_eq (element : type.IsElement x) (isFloat : type.isFloat = true) :
    float (Number.roundTo type (greater x.toFloat (ofFloat type 0.0).toFloat)) = x.positivePart := by
  cases x with
  | int value => cases isFloat.symm.trans element.1
  | float value =>
    obtain ⟨-, isNumber, isRounded⟩ := element
    have isZero : (ofFloat type 0.0).toFloat = 0.0 := by
      rw [ofFloat, if_pos isFloat]
      cases type <;> rfl
    have notNaN : (value.isNaN || (0.0 : Float).isNaN) = false := by
      rw [isNumber]
      rfl
    rw [isZero, toFloat, greater, notNaN, if_neg Bool.false_ne_true]
    exact congrArg float (Number.roundTo_maximum_zero isRounded)

theorem isElement_of_keeps? {kind : TorchKind} {keeps : Scalar → Scalar} (isKept : kind.keeps? = some keeps)
    (element : type.IsElement x) : type.IsElement (keeps x) := by
  cases kind with
  | relu =>
    cases isKept
    exact isElement_positivePart element
  | clamp =>
    cases isKept
    exact element
  | _ => cases isKept

/-- Only infinity is changed. -/
theorem inRange_eq_iff (element : type.IsElement x) : x.inRange type = x ↔ x.isInfinite = false := by
  cases x with
  | int value => exact iff_of_true rfl rfl
  | float value =>
    rw [inRange, float.injEq, isInfinite]
    exact Number.inRange_eq_iff element.1

theorem clamped_float (least most value : Float) : Run.clamped (Tosa.clampAttributes least most) (float value) =
    float (Number.minimum (Number.maximum value least) most) := rfl

theorem clamped_int (least most : Float) (value : Int) : Run.clamped (Tosa.clampAttributes least most) (int value) =
    int (min (max value (Number.truncateToInt (Number.maximum least Tosa.intBounds.1)))
      (Number.truncateToInt (Number.minimum most Tosa.intBounds.2))) := rfl

/-- The range of an integer type is stated by floating-point numbers, but cut to integers it is the range again. -/
theorem elementRange_of_notFloat (notFloat : type.isFloat = false) :
    Number.truncateToInt (Number.maximum (Tosa.elementRange type).1 Tosa.intBounds.1) = type.bounds.1 ∧
      Number.truncateToInt (Number.minimum (Tosa.elementRange type).2 Tosa.intBounds.2) = type.bounds.2 := by
  cases type with
  | f16 | f32 | f64 => cases notFloat
  | _ => decide +kernel

/-- What is kept between the numbers that are stated for absent bounds. -/
theorem clamped_elementRange (element : type.IsElement x) :
    Run.clamped (Tosa.clampAttributes (Tosa.elementRange type).1 (Tosa.elementRange type).2) x = x.inRange type := by
  cases x with
  | float value =>
    obtain ⟨isFloat, isNumber, isRounded⟩ := element
    rw [clamped_float, Number.minimum_maximum_eq isFloat isNumber isRounded, inRange]
  | int value =>
    obtain ⟨notFloat, least, most⟩ := element
    obtain ⟨isLeast, isMost⟩ := elementRange_of_notFloat notFloat
    rw [clamped_int, isLeast, isMost, max_eq_left least, min_eq_left most, inRange]

/-- What is kept above zero. -/
theorem clamped_zero (element : type.IsElement x) :
    Run.clamped (Tosa.clampAttributes 0.0 (Tosa.elementRange type).2) x = x.positivePart.inRange type := by
  cases x with
  | float value =>
    obtain ⟨isFloat, isNumber, isRounded⟩ := element
    rw [clamped_float, Number.minimum_maximum_zero_eq isFloat isNumber isRounded, positivePart, inRange]
  | int value =>
    obtain ⟨notFloat, holds⟩ := element
    have isZero : Number.truncateToInt (Number.maximum 0.0 Tosa.intBounds.1) = 0 := by decide +kernel
    rw [clamped_int, isZero, (elementRange_of_notFloat notFloat).2, min_eq_left (holds_positivePart holds).2,
      positivePart, inRange]

end Scalar

namespace Scene

/-! ### Among loops -/

variable {σ : Type} {start : Scene σ} {op : OpId} {shape : List Int} {type : ScalarType} {dtype : Option Dtype}
  {input : ValueId} {x : σ → Grid}

/-- The greater of a number and zero. -/
theorem emits_positivePart {τ : Type} {inner : Scene τ} {a zero : ValueId} {number : τ → Scalar}
    (holds : inner.Holds a (.scalar type) fun t => .scalar (number t))
    (zeroHolds : inner.Holds zero (.scalar type) fun _ => .scalar (.ofFloat type 0.0))
    (elements : ∀ t, type.IsElement (number t)) :
    inner.Emits (Loops.binary .max a zero) inner.memory fun result now =>
      now.Holds result (.scalar type) fun t => .scalar (number t).positivePart := by
  cases isFloat : type.isFloat with
  | true =>
    have isMax : Run.onFloats? (Loops.Binary.max.kind true) = some greater := rfl
    refine (emits_floatOp isFloat isMax holds zeroHolds).imp fun result now _ isGreater =>
      isGreater.congr fun t => congrArg Slot.scalar (Scalar.greater_zero_eq (elements t) isFloat)
  | false =>
    have isMax : Loops.Binary.onInts? .max = some max := rfl
    have isInt (t : τ) := (elements t).eq_int isFloat
    have isZero : Scalar.ofFloat type 0.0 = .int 0 := by
      rw [Scalar.ofFloat, isFloat]
      cases type <;> rfl
    refine (emits_binary isMax isFloat (holds.congr fun t => congrArg Slot.scalar (isInt t).1)
      (zeroHolds.congr fun _ => congrArg Slot.scalar isZero) (fun t => (isInt t).2) fun _ => type.holds_zero).imp
      fun result now _ isGreater => isGreater.congr fun t => congrArg Slot.scalar ?_
    -- The greater one is one of the two integers, so nothing is lost modulo the width.
    dsimp only
    rw [Number.wrapInto_of_holds (Scalar.holds_positivePart (isInt t).2), (isInt t).1]
    rfl

/-- The loops that are built for positive parts. -/
theorem emits_reluLoops (result : start.draft.program.resultTensor op = .ok (shape, type, dtype))
    (isInput : start.draft.program.operand op 0 = .ok input) (static : Static shape) (loopable : Loopable shape)
    (stores : start.Stores input shape type x)
    (elements : ∀ s position, Inside position shape → type.IsElement ((x s).entry position)) :
    start.Emits (Loops.unaryOp op .relu)
      (fun s => (start.memory s).push (tabulate shape type fun position => ((x s).entry position).positivePart))
      fun answer now => now.HoldsBuffer answer shape type fun s => (start.memory s).size := by
  refine Emits.askFor_bind result (Emits.askFor_bind isInput ?_)
  -- Constants for all functions of an element are made in front of the loops; this one needs only the first.
  refine (emits_scalar (.inl (by decide))).bind fun zero at1 reaches1 memory1 zeroHolds => ?_
  refine ((emits_scalar (.inr (by decide))).of_memory memory1).bind fun one at2 reaches2 memory2 _ => ?_
  have filled := emits_each static loopable (stores.reaches (reaches1.trans reaches2) memory2)
    fun τ inner outer number loaded reachesInner among holds => (emits_cast_self holds).bind
      fun a now reaches memory holdsA => ((emits_positivePart holdsA
        ((zeroHolds.reaches (reaches2.trans reachesInner)).reaches reaches) fun t => by
          obtain ⟨position, inside, isEntry⟩ := among t
          exact isEntry ▸ elements _ position inside).of_memory memory)
  rw [memory2] at filled
  exact filled

/-- A bound that is absent gives nothing to compare with. -/
theorem Emits.loopsBound_bind {α : Type} {memory : σ → Array Grid} {post : α → Scene σ → Prop}
    {next : Option ValueId → Build α} {index : Nat} {bound : ValueId}
    (isBound : start.draft.program.operand op index = .ok bound)
    (absent : start.draft.program.isNone bound = true) (later : start.Emits (next none) memory post) :
    start.Emits (Loops.bound op type index >>= next) memory post := by
  rw [Loops.bound, bind_assoc]
  refine askFor_bind isBound ?_
  rw [bind_assoc]
  refine ask_bind ?_
  rw [absent]
  exact later

/-- The loops that are built where there are no bounds. -/
theorem emits_clampLoops (result : start.draft.program.resultTensor op = .ok (shape, type, dtype))
    (isInput : start.draft.program.operand op 0 = .ok input)
    (unbounded : start.draft.program.IsUnbounded op .clamp) (static : Static shape) (loopable : Loopable shape)
    (stores : start.Stores input shape type x) :
    start.Emits (Loops.clampOp op)
      (fun s => (start.memory s).push (tabulate shape type fun position => (x s).entry position))
      fun answer now => now.HoldsBuffer answer shape type fun s => (start.memory s).size := by
  obtain ⟨least, isLeast, noLeast⟩ := unbounded rfl 1 (by decide)
  obtain ⟨most, isMost, noMost⟩ := unbounded rfl 2 (by decide)
  refine Emits.askFor_bind result (Emits.loopsBound_bind isLeast noLeast (Emits.loopsBound_bind isMost noMost ?_))
  refine Emits.askFor_bind isInput ?_
  have filled : start.Emits _ (fun s => (start.memory s).push (tabulate shape type fun position =>
      id ((x s).entry position))) _ := emits_each static loopable stores fun τ inner outer number loaded _ _ holds =>
    (emits_cast_self holds).bind fun a now _ memory holdsA => (Emits.pure holdsA).of_memory memory
  exact filled

/-! ### Operations on whole tensors -/

/-- An operand that has the elements and the dimensions of the result is left as it is. -/
theorem Emits.fitted_bind {α : Type} {memory : σ → Array Grid} {post : α → Scene σ → Prop} {next : ValueId → Build α}
    (isInput : start.draft.program.operand op 0 = .ok input) (holds : start.HoldsTensor input shape type x)
    (later : start.Emits (next input) memory post) :
    start.Emits (Tosa.fitted op 0 shape type >>= next) memory post := by
  rw [Tosa.fitted, bind_assoc]
  refine askFor_bind isInput ?_
  rw [bind_assoc]
  refine HoldsTensor.cast_self_bind holds ?_
  rw [Tosa.toRank, bind_assoc]
  refine holds.tensorType_bind ?_
  dsimp only [ShapedType.tensor]
  rw [if_pos le_rfl]
  exact Emits.pure_bind later

/-- A number stands for a bound that is absent. -/
theorem Emits.tosaBound_bind {α : Type} {memory : σ → Array Grid} {post : α → Scene σ → Prop}
    {next : Float → Build α} {index : Nat} {bound : ValueId} {absent : Float}
    (isBound : start.draft.program.operand op index = .ok bound)
    (isAbsent : start.draft.program.isNone bound = true) (later : start.Emits (next absent) memory post) :
    start.Emits (Tosa.bound op index absent >>= next) memory post := by
  rw [Tosa.bound, bind_assoc]
  refine askFor_bind isBound ?_
  rw [bind_assoc]
  refine ask_bind ?_
  rw [isAbsent]
  exact later

/-- The operations on whole tensors that are built for positive parts. -/
theorem emits_reluTensor (result : start.draft.program.resultTensor op = .ok (shape, type, dtype))
    (isInput : start.draft.program.operand op 0 = .ok input) (static : Static shape)
    (holds : start.HoldsTensor input shape type x) (fits : ∀ s, (x s).Fits shape type)
    (elements : ∀ s position, Inside position shape → type.IsElement ((x s).entry position)) :
    start.Emits (Tosa.unaryOp op .relu) start.memory fun answer now =>
      now.HoldsTensor answer shape type fun s => tabulate shape type fun position =>
        (((x s).entry position).positivePart).inRange type := by
  refine Emits.askFor_bind result (Emits.fitted_bind isInput holds ?_)
  refine (emits_clamp static holds fits).imp fun answer now _ kept => kept.congr fun s => congrArg Slot.tensor ?_
  exact Grid.tabulate_congr static fun position inside => Scalar.clamped_zero (elements s position inside)

/-- The operations on whole tensors that are built where there are no bounds. -/
theorem emits_clampTensor (result : start.draft.program.resultTensor op = .ok (shape, type, dtype))
    (isInput : start.draft.program.operand op 0 = .ok input)
    (unbounded : start.draft.program.IsUnbounded op .clamp) (static : Static shape)
    (holds : start.HoldsTensor input shape type x) (fits : ∀ s, (x s).Fits shape type)
    (elements : ∀ s position, Inside position shape → type.IsElement ((x s).entry position)) :
    start.Emits (Tosa.clampOp op) start.memory fun answer now =>
      now.HoldsTensor answer shape type fun s => tabulate shape type fun position =>
        ((x s).entry position).inRange type := by
  obtain ⟨least, isLeast, noLeast⟩ := unbounded rfl 1 (by decide)
  obtain ⟨most, isMost, noMost⟩ := unbounded rfl 2 (by decide)
  refine Emits.askFor_bind result (Emits.fitted_bind isInput holds ?_)
  refine Emits.tosaBound_bind isLeast noLeast (Emits.tosaBound_bind isMost noMost ?_)
  refine (emits_clamp static holds fits).imp fun answer now _ kept => kept.congr fun s => congrArg Slot.tensor ?_
  exact Grid.tabulate_congr static fun position inside => Scalar.clamped_elementRange (elements s position inside)

end Scene

namespace Program

variable {source now : Program} {symbols : SymbolTable} {op : OpId} {kind : TorchKind} {keeps : Scalar → Scalar}
  {shape input : List Int} {dtype inputDtype : Dtype} {x : Grid} {target : Target}

theorem Awaits.isUnbounded (awaits : source.Awaits target op now) (unbounded : source.IsUnbounded op kind) :
    now.IsUnbounded op kind := by
  intro isClamp index isIndex
  obtain ⟨old, isOld, absent⟩ := unbounded isClamp index isIndex
  obtain ⟨new, isNew, stands⟩ := awaits.exists_operand isOld
  exact ⟨new, isNew, stands.isNone_eq absent⟩

/-- What is computed has the type of the operand. -/
theorem of_keeps (isKind : source.kind op = .torch kind) (isKept : kind.keeps? = some keeps)
    (verified : source.verifyOp symbols op = .ok ())
    (isInput : source.tensorOperand op 0 = .ok (.ofShape input inputDtype))
    (declared : source.resultType op 0 = .ok (.vtensor (.ofShape shape dtype))) :
    shape = input ∧ dtype = inputDtype := by
  have isTensor : kind.isTensorOp = true := by cases kind <;> first | rfl | cases isKept
  obtain ⟨inferred, isInferred, met⟩ := exists_inferred isKind isTensor verified declared
  obtain rfl : .ofShape input inputDtype = inferred := by
    cases kind with
    | relu =>
      -- If the operand is not refused as quantized, the answer is what is known about it.
      obtain ⟨⟨⟩, -, run⟩ := of_bind_eq_ok (of_some_map_eq_ok isInferred)
      rw [isInput, ok_bind] at run
      dsimp only at run
      split at run
      case isTrue => cases run
      case isFalse => exact Except.ok.inj run
    | clamp =>
      obtain ⟨⟨⟩, -, run⟩ := of_bind_eq_ok (of_some_map_eq_ok isInferred)
      obtain ⟨⟨⟩, -, run⟩ := of_bind_eq_ok run
      obtain ⟨⟨⟩, -, run⟩ := of_bind_eq_ok run
      exact Except.ok.inj (isInput.symm.trans run)
    | _ => cases isKept
  exact ⟨(TensorInfo.sizes_of_meet? met rfl).symm, (TensorInfo.dtype_of_meet? met rfl).symm⟩

/-- Among loops nothing is compared with a bound that is absent. -/
theorem computes_unbounded_loops (isKept : kind.keeps? = some keeps) (unbounded : source.IsUnbounded op kind)
    (isInput : source.tensorOperand op 0 = .ok (.ofShape shape dtype))
    (declared : source.resultType op 0 = .ok (.vtensor (.ofShape shape dtype))) (static : Static shape)
    (loopable : Loopable shape) (fits : x.Fits shape dtype.storage)
    (elements : ∀ position, Shape.Inside position shape → dtype.storage.IsElement (x.entry position))
    (awaits : source.Awaits .loops op now) :
    now.Computes .loops op kind [x] (tabulate shape dtype.storage fun position => keeps (x.entry position)) := by
  obtain ⟨operand, isOperand, typed⟩ := awaits.exists_tensor isInput
  have isResult := awaits.resultTensor_eq declared
  have isFirst : [x][0]? = some x := rfl
  have stores := stores_opening awaits.placed isOperand isFirst typed fits
  cases kind with
  | relu =>
    cases isKept
    exact computes_of_emits_buffer awaits.placed (fun _ => rfl)
      (Scene.emits_reluLoops isResult isOperand static loopable stores fun _ => elements)
  | clamp =>
    cases isKept
    exact computes_of_emits_buffer awaits.placed (fun _ => rfl)
      (Scene.emits_clampLoops isResult isOperand (awaits.isUnbounded unbounded) static loopable stores)
  | _ => cases isKept

/-- Among whole tensors there always are two bounds. -/
theorem computes_unbounded_tosa (isKept : kind.keeps? = some keeps) (unbounded : source.IsUnbounded op kind)
    (isInput : source.tensorOperand op 0 = .ok (.ofShape shape dtype))
    (declared : source.resultType op 0 = .ok (.vtensor (.ofShape shape dtype))) (static : Static shape)
    (fits : x.Fits shape dtype.storage)
    (elements : ∀ position, Shape.Inside position shape → dtype.storage.IsElement (x.entry position))
    (awaits : source.Awaits .tosa op now) :
    now.Computes .tosa op kind [x] (tabulate shape dtype.storage fun position =>
      (keeps (x.entry position)).inRange dtype.storage) := by
  obtain ⟨operand, isOperand, typed⟩ := awaits.exists_tensor isInput
  have isResult := awaits.resultTensor_eq declared
  have isFirst : [x][0]? = some x := rfl
  have holds := holdsTensor_opening awaits.placed isOperand isFirst typed
  cases kind with
  | relu =>
    cases isKept
    exact computes_of_emits_tensor awaits.placed (fun _ => rfl)
      (Scene.emits_reluTensor isResult isOperand static holds (fun _ => fits) fun _ => elements)
  | clamp =>
    cases isKept
    exact computes_of_emits_tensor awaits.placed (fun _ => rfl) (Scene.emits_clampTensor isResult isOperand
      (awaits.isUnbounded unbounded) static holds (fun _ => fits) fun _ => elements)
  | _ => cases isKept

/-- Both lowerings take the positive parts of elements, or leave elements without bounds as they are, except that the
lowering to operations on whole tensors takes infinity for the greatest finite number. -/
theorem computes_unbounded {now : Target → Program} (isKind : source.kind op = .torch kind)
    (isKept : kind.keeps? = some keeps) (unbounded : source.IsUnbounded op kind)
    (verified : source.verifyOp symbols op = .ok ())
    (isInput : source.tensorOperand op 0 = .ok (.ofShape input inputDtype))
    (declared : source.resultType op 0 = .ok (.vtensor (.ofShape shape dtype))) (static : Static input)
    (loopable : Loopable input) (fits : x.Fits input inputDtype.storage)
    (elements : ∀ value ∈ x.data, inputDtype.storage.IsElement value)
    (awaits : ∀ target, source.Awaits target op (now target)) :
    shape = input ∧ dtype = inputDtype ∧ ∃ among whole : Grid, among.Fits input dtype.storage ∧
      whole.Fits input dtype.storage ∧
      (∀ position, Shape.Inside position input →
        let kept := keeps (x.entry position)
        among.get position = .ok kept ∧ whole.get position = .ok (kept.inRange dtype.storage) ∧
          (kept.inRange dtype.storage = kept ↔ kept.isInfinite = false)) ∧
      (now .loops).Computes .loops op kind [x] among ∧ (now .tosa).Computes .tosa op kind [x] whole := by
  obtain ⟨rfl, rfl⟩ := of_keeps isKind isKept verified isInput declared
  replace elements (position : List Int) (inside : Shape.Inside position shape) :
      dtype.storage.IsElement (x.entry position) := elements _ (fits.entry_mem inside)
  -- Both results are tables of what is kept of the elements, position by position.
  refine ⟨rfl, rfl, _, _, Grid.tabulate_fits static _ _, Grid.tabulate_fits static _ _,
    fun position inside => ⟨?_, ?_, ?_⟩,
    computes_unbounded_loops isKept unbounded isInput declared static loopable fits elements (awaits .loops),
    computes_unbounded_tosa isKept unbounded isInput declared static fits elements (awaits .tosa)⟩
  · rw [(Grid.tabulate_fits static _ _).get_eq inside, Grid.entry_tabulate inside]
  · rw [(Grid.tabulate_fits static _ _).get_eq inside, Grid.entry_tabulate inside]
  · exact Scalar.inRange_eq_iff (Scalar.isElement_of_keeps? isKept (elements position inside))

end Program

/-- A function that takes the positive parts of numbers, and keeps numbers without any bounds. -/
def unbounded : Program where
  values := #[⟨some "%x", some (.torch (.vtensor (.ofShape [3] .f32))), .argument (some ⟨1⟩)⟩,
    ⟨none, some (.torch (.vtensor (.ofShape [3] .f32))), .signature⟩,
    ⟨none, some (.torch (.vtensor (.ofShape [3] .f32))), .signature⟩,
    ⟨some "%none", some (.torch .none), .result ⟨2⟩⟩,
    ⟨some "%0", some (.torch (.vtensor (.ofShape [3] .f32))), .result ⟨3⟩⟩,
    ⟨some "%1", some (.torch (.vtensor (.ofShape [3] .f32))), .result ⟨4⟩⟩]
  operations := #[
    { kind := .module },
    { kind := .func .func, results := [⟨1⟩, ⟨2⟩], attributes := Attributes.empty.insert "sym_name" (.ofSymbol "f") },
    { kind := .torch .constantNone, results := [⟨3⟩] },
    { kind := .torch .relu, operands := [⟨0⟩], results := [⟨4⟩] },
    { kind := .torch .clamp, operands := [⟨0⟩, ⟨3⟩, ⟨3⟩], results := [⟨5⟩] },
    { kind := .func .ret, operands := [⟨4⟩, ⟨5⟩] }]
  headers := #[{}, { arguments := [⟨0⟩] }]
  root := ⟨0⟩
  regions := .single ⟨0⟩ (.single ⟨1⟩ (.single ⟨1⟩ (.cons ⟨2⟩ .nil (.cons ⟨3⟩ .nil (.cons ⟨4⟩ .nil
    (.single ⟨5⟩ .nil))))))

/-- The function with the counterparts of its types, where the lowering of the operations begins. -/
def unboundedSigned (target : Target) : Program := ((Change.convertSignatures target).run unbounded).2

theorem unbounded_awaits_relu (target : Target) : unbounded.Awaits target ⟨3⟩ (unboundedSigned target) := by
  cases target
  all_goals exact
    { placed := by decide
      closed := by decide
      kind_eq := rfl
      results_eq := rfl
      types_eq := fun value member => by
        cases List.mem_singleton.mp member
        rfl
      operands := .cons (.of_tensor rfl rfl rfl rfl) .nil }

theorem unbounded_awaits_clamp (target : Target) : unbounded.Awaits target ⟨4⟩ (unboundedSigned target) := by
  cases target
  all_goals exact
    { placed := by decide
      closed := by decide
      kind_eq := rfl
      results_eq := rfl
      types_eq := fun value member => by
        cases List.mem_singleton.mp member
        rfl
      operands := .cons (.of_tensor rfl rfl rfl rfl) (.cons (.of_parameter rfl rfl rfl)
        (.cons (.of_parameter rfl rfl rfl) .nil)) }

/-- Numbers in single precision, two of which are infinite. -/
theorem computes_unbounded_infinite : unbounded.verify = .ok () ∧
    let x : Grid := ⟨[3], .f32, #[.float (1.0 / 0.0), .float (-(1.0 / 0.0)), .float (-1.5)]⟩
    (∃ among whole : Grid, among.get [0] = .ok (.float (1.0 / 0.0)) ∧ whole.get [0] = .ok (.float Tosa.mostSingle) ∧
      (unboundedSigned .loops).Computes .loops ⟨3⟩ .relu [x] among ∧
      (unboundedSigned .tosa).Computes .tosa ⟨3⟩ .relu [x] whole) ∧
    ∃ among whole : Grid, among.get [1] = .ok (.float (-(1.0 / 0.0))) ∧
      whole.get [1] = .ok (.float (-Tosa.mostSingle)) ∧
      (unboundedSigned .loops).Computes .loops ⟨4⟩ .clamp [x] among ∧
      (unboundedSigned .tosa).Computes .tosa ⟨4⟩ .clamp [x] whole := by
  have verified : unbounded.verifyOp {} ⟨3⟩ = .ok () := rfl
  have verifiedToo : unbounded.verifyOp {} ⟨4⟩ = .ok () := rfl
  have isInput : unbounded.tensorOperand ⟨3⟩ 0 = .ok (.ofShape [3] .f32) := rfl
  have isInputToo : unbounded.tensorOperand ⟨4⟩ 0 = .ok (.ofShape [3] .f32) := rfl
  have declared : unbounded.resultType ⟨3⟩ 0 = .ok (.vtensor (.ofShape [3] .f32)) := rfl
  have declaredToo : unbounded.resultType ⟨4⟩ 0 = .ok (.vtensor (.ofShape [3] .f32)) := rfl
  have absent : unbounded.IsUnbounded ⟨4⟩ .clamp := by
    intro _ index isIndex
    refine ⟨⟨3⟩, ?_, rfl⟩
    fin_cases isIndex <;> rfl
  have static : Static [3] := by simp [Static]
  refine ⟨rfl, ?_⟩
  intro x
  have fits : x.Fits [3] .f32 := ⟨rfl, rfl, rfl⟩
  have elements : ∀ value ∈ x.data, ScalarType.f32.IsElement value := by
    intro value member
    have among : value ∈ [.float (1.0 / 0.0), .float (-(1.0 / 0.0)), .float (-1.5)] := Array.mem_toList_iff.mpr member
    fin_cases among <;> exact ⟨rfl, rfl, rfl⟩
  have noBounds : unbounded.IsUnbounded ⟨3⟩ .relu := nofun
  obtain ⟨-, -, among, whole, -, -, entries, computes, computesToo⟩ := Program.computes_unbounded rfl rfl noBounds
    verified isInput declared static (by decide) fits elements unbounded_awaits_relu
  obtain ⟨-, -, amongToo, wholeToo, -, -, entriesToo, computesLoops, computesTosa⟩ := Program.computes_unbounded rfl rfl
    absent verifiedToo isInputToo declaredToo static (by decide) fits elements unbounded_awaits_clamp
  have first : Inside [0] [3] := .cons (by decide) .nil
  have second : Inside [1] [3] := .cons (by decide) .nil
  obtain ⟨isAmong, isWhole, -⟩ := entries [0] first
  obtain ⟨isAmongToo, isWholeToo, -⟩ := entriesToo [1] second
  exact ⟨⟨among, whole, isAmong.trans rfl, isWhole.trans rfl, computes, computesToo⟩,
    amongToo, wholeToo, isAmongToo, isWholeToo.trans rfl, computesLoops, computesTosa⟩

end TensorIR
