import TensorIR.Proofs.Emission.Elements
import TensorIR.Proofs.Emission.Insertion
import TensorIR.Proofs.Inference.Reductions
import TensorIR.Proofs.Scalar.Known

/-!
# Operations that are about to be lowered

While a program is lowered, an operation whose turn has not come yet is what it was at the beginning, but other values
stand in the place of its operands. A value that stands for a tensor has the counterpart of its type, and a value that
stands for a parameter is known to be the same. So the lowering finds what the rules of the operation are about.

## Main definitions

* `Program.IsClosed` — operations mention only values that the program has
* `Program.Stands` — a value stands for another one in a program that has been lowered in part
* `Program.Awaits` — an operation is about to be lowered

## Main results

* `Program.Covers.foldValue?_eq` — what is known stays known while operations are added
* `Program.quantParams_eq_ok_iff` — which parameters of a quantized tensor are accepted
* `Program.Awaits.sliceParams_eq`, `Program.Awaits.reducedDims_eq`, `Program.Awaits.quantParams_eq` — the parameters
  are found again
* `Program.holdsTensor_opening`, `Program.stores_opening` — the operands are found where building begins
-/

namespace TensorIR

namespace Program

/-- Operations mention only values that the program has. -/
def IsClosed (program : Program) : Prop :=
  ∀ operation ∈ program.operations, ∀ value ∈ operation.operands ++ operation.results,
    value.index < program.values.size

instance (program : Program) : Decidable program.IsClosed :=
  inferInstanceAs (Decidable (∀ operation ∈ program.operations, ∀ value ∈ operation.operands ++ operation.results,
    value.index < program.values.size))

section Folding

variable {program known : Program} {op : OpId} {value : ValueId} {literal : Literal}

theorem IsClosed.lt (closed : program.IsClosed) (mentioned : value ∈ program.operands op ++ program.results op) :
    value.index < program.values.size := by
  by_cases below : op.index < program.operations.size
  · have entry : program.operation op = program.operations[op.index] := by
      rw [operation, Array.getD_eq_getD_getElem?, Array.getElem?_eq_getElem below, Option.getD_some]
    rw [operands, results, entry] at mentioned
    exact closed _ (Array.getElem_mem below) value mentioned
  · rw [operands, results, operation_of_size_le (Nat.le_of_not_lt below)] at mentioned
    cases mentioned

theorem IsClosed.operand_lt (closed : program.IsClosed) (member : value ∈ program.operands op) :
    value.index < program.values.size :=
  closed.lt (List.mem_append_left _ member)

/-- An operation that is known has an entry. -/
theorem lt_of_foldWithin {fuel : Nat} (folded : program.foldWithin fuel op = some literal) :
    op.index < program.operations.size := by
  refine Nat.lt_of_not_le fun above => ?_
  cases fuel with
  | zero => cases folded
  | succ fuel =>
    have isModule : program.kind op = .module := by
      rw [kind, operation_of_size_le above]
      rfl
    rw [foldWithin_succ_eq, foldFrom, isModule] at folded
    cases folded

theorem foldWithin_of_le {fuel more : Nat} (enough : fuel ≤ more) (folded : program.foldWithin fuel op = some literal) :
    program.foldWithin more op = some literal := by
  induction enough with
  | refl => exact folded
  | step _ ih => exact foldWithin_succ ih

namespace Covers

variable (covers : program.Covers known) (closed : known.IsClosed)

include covers

theorem definingOp?_eq (below : value.index < known.values.size) :
    program.definingOp? value = known.definingOp? value := by
  rw [definingOp?, definingOp?, covers.value_eq value below]

theorem knownSize?_eq {size dim : Int} (found : known.knownSize? value dim = some size) :
    program.knownSize? value dim = some size := by
  have typed : program.typeOf? value = known.typeOf? value := by
    cases isType : known.typeOf? value with
    | none => simp [knownSize?, tensorInfoOf?, torchTypeOf?, isType] at found
    | some type => exact covers.typeOf?_eq isType
  rwa [knownSize?, tensorInfoOf?, torchTypeOf?, typed]

include closed

theorem constantValue?_eq (below : op.index < known.operations.size) :
    program.constantValue? op = known.constantValue? op := by
  have entry := covers.operation_eq op below
  have typed : program.resultType? op 0 = known.resultType? op 0 := by
    rw [resultType?, resultType?, results, entry]
    refine Option.bind_congr fun value found => ?_
    rw [typeOf?, covers.value_eq value (closed.lt (List.mem_append_right _ (List.mem_of_getElem? found)))]
    rfl
  rw [constantValue?, constantValue?, attributes, attributes, entry, typed]

/-- What follows from known operands still follows. -/
theorem foldFrom_eq {answers : Nat → Option Literal} (below : op.index < known.operations.size)
    (folded : known.foldFrom op answers = some literal) : program.foldFrom op answers = some literal := by
  have entry := covers.operation_eq op below
  have constant := covers.constantValue?_eq closed below
  unfold foldFrom at folded ⊢
  rw [constant]
  simp only [kind, operands, torchConstant?, attributes, entry] at folded ⊢
  split at folded <;> try exact folded
  -- The size of a tensor follows from its type.
  case h_5 isSize =>
    obtain ⟨tensor, isTensor, folded⟩ := Option.bind_eq_some_iff.mp folded
    obtain ⟨dim, isDim, folded⟩ := Option.bind_eq_some_iff.mp folded
    obtain ⟨size, found, rfl⟩ := Option.map_eq_some_iff.mp folded
    simp [isTensor, isDim, covers.knownSize?_eq found]

theorem foldWithin_eq {fuel : Nat} (folded : known.foldWithin fuel op = some literal) :
    program.foldWithin fuel op = some literal := by
  induction fuel generalizing op literal with
  | zero => cases folded
  | succ fuel ih =>
    have below := lt_of_foldWithin folded
    rw [foldWithin_succ_eq] at folded ⊢
    -- About the operands at least as much is known, and what follows from them is the same.
    refine foldFrom_mono (fun index => ?_) (covers.foldFrom_eq closed below folded)
    have same : program.operands op = known.operands op := congrArg Operation.operands (covers.operation_eq op below)
    rw [foldOperand, foldOperand, same]
    cases isOperand : (known.operands op)[index]? with
    | none => exact .inl rfl
    | some value =>
      simp only [Option.bind_some, covers.definingOp?_eq (closed.operand_lt (List.mem_of_getElem? isOperand))]
      cases known.definingOp? value with
      | none => exact .inl rfl
      | some producer =>
        simp only [Option.bind_some]
        cases isKnown : known.foldWithin fuel producer with
        | none => exact .inl rfl
        | some literal => exact .inr (ih isKnown)

/-- What is known stays known while operations are added. -/
theorem foldValue?_eq (below : value.index < known.values.size) (folded : known.foldValue? value = some literal) :
    program.foldValue? value = some literal := by
  obtain ⟨op, isOp, folded⟩ := Option.bind_eq_some_iff.mp folded
  refine Option.bind_eq_some_iff.mpr ⟨op, (covers.definingOp?_eq below).trans isOp, ?_⟩
  exact foldWithin_of_le (Nat.succ_le_succ covers.operations_le) (covers.foldWithin_eq closed folded)

theorem foldInt?_eq (below : value.index < known.values.size) {number : Int}
    (folded : known.foldInt? value = some number) : program.foldInt? value = some number := by
  obtain ⟨literal, isKnown, isInt⟩ := Option.bind_eq_some_iff.mp folded
  exact Option.bind_eq_some_iff.mpr ⟨literal, covers.foldValue?_eq closed below isKnown, isInt⟩

/-- A list of known integers stays known. -/
theorem foldIntList?_eq (below : value.index < known.values.size) {numbers : List Int}
    (folded : known.foldIntList? value = some numbers) : program.foldIntList? value = some numbers := by
  obtain ⟨elements, isList, allKnown⟩ := Option.bind_eq_some_iff.mp folded
  obtain ⟨op, isOp, isList⟩ := Option.bind_eq_some_iff.mp isList
  split at isList
  case isFalse => cases isList
  case isTrue isConstruct =>
    injection isList with isList
    subst isList
    have within : op.index < known.operations.size := by
      refine Nat.lt_of_not_le fun above => ?_
      rw [kind, operation_of_size_le above] at isConstruct
      cases isConstruct
    have entry := covers.operation_eq op within
    have same : program.operands op = known.operands op := congrArg Operation.operands entry
    have sameKind : program.kind op = known.kind op := congrArg Operation.kind entry
    have elements : (known.operands op).map program.foldInt? = (known.operands op).map known.foldInt? := by
      refine List.map_congr_left fun operand member => ?_
      obtain ⟨number, isNumber⟩ : ∃ number, known.foldInt? operand = some number := by
        have among : known.foldInt? operand ∈ (known.operands op).map known.foldInt? := List.mem_map_of_mem member
        rw [eq_map_some_of_mapM_id allKnown] at among
        obtain ⟨number, -, isNumber⟩ := List.mem_map.mp among
        exact ⟨number, isNumber.symm⟩
      rw [isNumber]
      exact covers.foldInt?_eq closed (closed.operand_lt member) isNumber
    refine Option.bind_eq_some_iff.mpr ⟨_, ?_, elements ▸ allKnown⟩
    rw [listElements?, covers.definingOp?_eq below, isOp, ← same, ← isConstruct, ← sameKind]
    exact if_pos rfl

theorem listsDims (below : value.index < known.values.size) {listed : List Int}
    (lists : known.ListsDims value listed) : program.ListsDims value listed := by
  rcases lists with ⟨absent, none⟩ | isList
  · refine .inl ⟨?_, none⟩
    cases isKnown : known.foldValue? value with
    | none => simp [isNone, isKnown] at absent
    | some literal =>
      rw [isNone, isKnown] at absent
      rwa [isNone, covers.foldValue?_eq closed below isKnown]
  · exact .inr (covers.foldIntList?_eq closed below isList)

omit closed in
/-- The operands of an operation that has some stay what they are. -/
theorem operand_eq {index : Nat} (isOperand : known.operand op index = .ok value) :
    program.operand op index = .ok value := by
  have found := operand_eq_ok_iff.mp isOperand
  have below : op.index < known.operations.size := by
    refine Nat.lt_of_not_le fun above => ?_
    rw [operands, operation_of_size_le above] at found
    cases found
  have same : program.operands op = known.operands op := congrArg Operation.operands (covers.operation_eq op below)
  rw [operand_eq_ok_iff, same, found]

end Covers

end Folding

/-! ### Parameters of quantized tensors -/

section Parameters

variable {program : Program} {op : OpId} {params : QuantParams} {dtype : Option Dtype}

/-- Parameters are accepted if the scale is positive and the zero point is one of the stored integers. -/
theorem checkedParams_eq_ok_iff {scale : Float} {zeroPoint : Int} {dtype : Dtype} :
    program.checkedParams op scale zeroPoint dtype = .ok params ↔ (scale.isFinite && scale > 0.0) = true ∧
      (∀ range ∈ dtype.storage.intRange?, range.1 ≤ zeroPoint ∧ zeroPoint ≤ range.2) ∧
        params = ⟨scale, zeroPoint, dtype⟩ := by
  rw [checkedParams]
  cases positive : scale.isFinite && scale > 0.0 with
  | false => exact iff_of_false (fun run => by cases run) (fun all => by cases all.1)
  | true =>
    cases isRange : dtype.storage.intRange? with
    | none =>
      refine ⟨fun run => ?_, fun all => ?_⟩
      · cases run
        exact ⟨rfl, nofun, rfl⟩
      · rw [all.2.2]
        rfl
    | some range =>
      simp only [Option.mem_def, Option.some.injEq, forall_eq', true_and]
      by_cases outside : zeroPoint < range.1 ∨ range.2 < zeroPoint
      · rw [if_pos outside]
        refine iff_of_false (fun run => by cases run) fun all => ?_
        omega
      · rw [if_neg outside]
        refine ⟨fun run => ?_, fun all => ?_⟩
        · cases run
          exact ⟨by omega, rfl⟩
        · rw [all.2]
          rfl

/-- The parameters are told by operands that are known. -/
theorem quantParams_eq_ok_iff : program.quantParams op dtype = .ok params ↔
    ∃ scale zeroPoint, program.operand op 1 = .ok scale ∧ program.operand op 2 = .ok zeroPoint ∧
      program.foldFloat? scale = some params.scale ∧ program.foldInt? zeroPoint = some params.zeroPoint ∧
        dtype.filter Dtype.isQuantized = some params.dtype ∧
          (params.scale.isFinite && params.scale > 0.0) = true ∧
            ∀ range ∈ params.dtype.storage.intRange?, range.1 ≤ params.zeroPoint ∧ params.zeroPoint ≤ range.2 := by
  constructor
  · intro run
    obtain ⟨scale, isScale, run⟩ := of_bind_eq_ok run
    obtain ⟨zeroPoint, isZeroPoint, run⟩ := of_bind_eq_ok run
    dsimp only at run
    split at run
    case h_1 number shift quantized isNumber isShift isQuantized =>
      obtain ⟨positive, inside, rfl⟩ := checkedParams_eq_ok_iff.mp run
      exact ⟨scale, zeroPoint, isScale, isZeroPoint, isNumber, isShift, isQuantized, positive, inside⟩
    case h_2 => cases run
  · rintro ⟨scale, zeroPoint, isScale, isZeroPoint, isNumber, isShift, isQuantized, positive, inside⟩
    rw [quantParams, isScale, ok_bind, isZeroPoint, ok_bind, isNumber, isShift, isQuantized]
    exact checkedParams_eq_ok_iff.mpr ⟨positive, inside, rfl⟩

end Parameters

/-! ### Operations that wait -/

/-- The counterpart of the type of a tensor about which everything is known. -/
def tensorTarget? (program : Program) (target : Target) (value : ValueId) : Option Ty :=
  match program.torchTypeOf? value with
  | some (.vtensor info) => info.storage?.map fun (shape, element) => target.ofShape shape element
  | _ => none

/-- A value stands for another one in a program that has been lowered in part: a tensor has the counterpart of its
type, and what is known about a parameter is the same. -/
structure Stands (source : Program) (target : Target) (now : Program) (old new : ValueId) : Prop where
  typed : ∀ type ∈ source.tensorTarget? target old, now.typeOf? new = some type
  known : ∀ literal ∈ source.foldValue? old, now.foldValue? new = some literal
  listed : ∀ numbers ∈ source.foldIntList? old, now.foldIntList? new = some numbers

/-- Nothing but its type is known about a tensor. -/
theorem Stands.of_tensor {source now : Program} {target : Target} {old new : ValueId} {type : Ty}
    (isTensor : source.tensorTarget? target old = some type) (typed : now.typeOf? new = some type)
    (unknown : source.foldValue? old = none) (noList : source.foldIntList? old = none) :
    source.Stands target now old new where
  typed found isFound := by rw [typed, ← isTensor, isFound]
  known _ isKnown := by rw [unknown] at isKnown; cases isKnown
  listed _ isList := by rw [noList] at isList; cases isList

/-- About a parameter everything is known that was known. -/
theorem Stands.of_parameter {source now : Program} {target : Target} {old new : ValueId}
    (noTensor : source.tensorTarget? target old = none) (known : now.foldValue? new = source.foldValue? old)
    (listed : now.foldIntList? new = source.foldIntList? old) : source.Stands target now old new where
  typed _ isTensor := by rw [noTensor] at isTensor; cases isTensor
  known _ isKnown := known.trans isKnown
  listed _ isList := listed.trans isList

/-- An operation is about to be lowered: it has not changed, except that other values stand in the place of its
operands. -/
structure Awaits (source : Program) (target : Target) (op : OpId) (now : Program) : Prop where
  placed : op ≠ now.root
  closed : now.IsClosed
  kind_eq : now.kind op = source.kind op
  results_eq : now.results op = source.results op
  types_eq : ∀ value ∈ source.results op, now.typeOf? value = source.typeOf? value
  operands : List.Forall₂ (source.Stands target now) (source.operands op) (now.operands op)

section Waiting

variable {source now later : Program} {target : Target} {op : OpId} {old new : ValueId} {index : Nat}

namespace Stands

variable (stands : source.Stands target now old new)

include stands

theorem foldInt?_eq {number : Int} (known : source.foldInt? old = some number) : now.foldInt? new = some number := by
  obtain ⟨literal, isKnown, isInt⟩ := Option.bind_eq_some_iff.mp known
  exact Option.bind_eq_some_iff.mpr ⟨literal, stands.known literal isKnown, isInt⟩

theorem foldFloat?_eq {number : Float} (known : source.foldFloat? old = some number) :
    now.foldFloat? new = some number := by
  obtain ⟨literal, isKnown, isNumber⟩ := Option.bind_eq_some_iff.mp known
  exact Option.bind_eq_some_iff.mpr ⟨literal, stands.known literal isKnown, isNumber⟩

theorem isNone_eq (absent : source.isNone old = true) : now.isNone new = true := by
  cases isKnown : source.foldValue? old with
  | none => simp [isNone, isKnown] at absent
  | some literal =>
    rw [isNone, isKnown] at absent
    rwa [isNone, stands.known literal isKnown]

/-- A bound of a slice is found again. -/
theorem sliceBound?_eq {bound : Option Int} (known : source.sliceBound? old = some bound) :
    now.sliceBound? new = some bound := by
  rw [sliceBound?] at known ⊢
  split at known
  case isTrue absent => rw [if_pos (stands.isNone_eq absent), known]
  case isFalse =>
    obtain ⟨number, isNumber, rfl⟩ := Option.map_eq_some_iff.mp known
    have isInt := stands.foldInt?_eq isNumber
    obtain ⟨literal, isKnown, isInteger⟩ := Option.bind_eq_some_iff.mp isInt
    have present : now.isNone new = false := by
      rw [isNone, isKnown]
      cases literal <;> first | rfl | cases isInteger
    rw [present, isInt]
    rfl

theorem listsDims {listed : List Int} (lists : source.ListsDims old listed) : now.ListsDims new listed := by
  rcases lists with ⟨absent, none⟩ | isList
  · exact .inl ⟨stands.isNone_eq absent, none⟩
  · exact .inr (stands.listed listed isList)

end Stands

namespace Awaits

variable (awaits : source.Awaits target op now) {shape input : List Int} {dtype : Dtype}

include awaits

theorem exists_operand (isOperand : source.operand op index = .ok old) :
    ∃ new, now.operand op index = .ok new ∧ source.Stands target now old new := by
  obtain ⟨below, rfl⟩ := List.getElem?_eq_some_iff.mp (operand_eq_ok_iff.mp isOperand)
  have belowToo := below.trans_eq awaits.operands.length_eq
  exact ⟨_, operand_eq_ok_iff.mpr (List.getElem?_eq_getElem belowToo), awaits.operands.get below belowToo⟩

/-- An operand that is a tensor has the counterpart of its type. -/
theorem exists_tensor (isInput : source.tensorOperand op index = .ok (.ofShape input dtype)) :
    ∃ new, now.operand op index = .ok new ∧ now.typeOf? new = some (target.ofShape input dtype.storage) := by
  obtain ⟨old, isOperand, isType⟩ := of_tensorOperand_eq_ok isInput
  obtain ⟨new, isNew, stands⟩ := awaits.exists_operand isOperand
  refine ⟨new, isNew, stands.typed _ ?_⟩
  rw [tensorTarget?, isType]
  dsimp only
  rw [TensorInfo.storage?_ofShape]
  rfl

/-- The declared type of the result is still there. -/
theorem resultTensor_eq (declared : source.resultType op 0 = .ok (.vtensor (.ofShape shape dtype))) :
    now.resultTensor op = .ok (shape, dtype.storage, some dtype) := by
  refine Program.resultTensor_eq ?_
  obtain ⟨value, isValue, hasType⟩ := torchTypeOf?_of_resultType declared
  have among : value ∈ source.results op := List.mem_of_getElem? (result_eq_ok_iff.mp isValue)
  have isResult : now.result op 0 = .ok value := by
    rw [result_eq_ok_iff, awaits.results_eq]
    exact result_eq_ok_iff.mp isValue
  rw [resultType, isResult]
  simp only [bind, Except.bind, torchTypeOf?, awaits.types_eq value among]
  rw [torchTypeOf?] at hasType
  rw [hasType]
  rfl

/-- The parameters of a slice are found again. -/
theorem sliceParams_eq {dim : Nat} {start length step : Int}
    (params : source.sliceParams op input = .ok (some (dim, start, length, step))) :
    now.sliceParams op input = .ok (some (dim, start, length, step)) := by
  obtain ⟨cut, cuts, bounds, rfl⟩ := sliceParams_eq_some_iff.mp params
  refine sliceParams_eq_some_iff.mpr ⟨cut, ⟨?_, ?_, ?_, ?_, cuts.step_pos, cuts.size_eq⟩, bounds, rfl⟩
  · obtain ⟨old, first, isOperand, known, normal⟩ := cutDimension?_eq_some_iff.mp cuts.dimension
    obtain ⟨new, isNew, stands⟩ := awaits.exists_operand isOperand
    exact cutDimension?_eq_some_iff.mpr ⟨new, first, isNew, stands.foldInt?_eq known, normal⟩
  · obtain ⟨old, isOperand, known⟩ := cuts.start
    obtain ⟨new, isNew, stands⟩ := awaits.exists_operand isOperand
    exact ⟨new, isNew, stands.sliceBound?_eq known⟩
  · obtain ⟨old, isOperand, known⟩ := cuts.stop
    obtain ⟨new, isNew, stands⟩ := awaits.exists_operand isOperand
    exact ⟨new, isNew, stands.sliceBound?_eq known⟩
  · obtain ⟨old, isOperand, known⟩ := cuts.step
    obtain ⟨new, isNew, stands⟩ := awaits.exists_operand isOperand
    exact ⟨new, isNew, stands.foldInt?_eq known⟩

/-- The dimensions that a sum runs over are found again, also when operations have been added. -/
theorem reducedDims_eq (isOperand : source.operand op 1 = .ok old) {listed : List Int}
    (lists : source.ListsDims old listed) (covers : later.Covers now) (rank : Nat) :
    later.reducedDims op rank = dimsAmong rank listed := by
  obtain ⟨new, isNew, stands⟩ := awaits.exists_operand isOperand
  have below := awaits.closed.operand_lt (List.mem_of_getElem? (operand_eq_ok_iff.mp isNew))
  exact Program.reducedDims_eq (covers.operand_eq isNew) (covers.listsDims awaits.closed below (stands.listsDims lists))
    rank

/-- The parameters of a quantized tensor are found again. -/
theorem quantParams_eq {params : QuantParams} {dtype : Option Dtype}
    (known : source.quantParams op dtype = .ok params) : now.quantParams op dtype = .ok params := by
  obtain ⟨scale, zeroPoint, isScale, isZeroPoint, isKnown, isInt, stated⟩ := quantParams_eq_ok_iff.mp known
  obtain ⟨newScale, isNewScale, standsScale⟩ := awaits.exists_operand isScale
  obtain ⟨newZeroPoint, isNewZeroPoint, standsZeroPoint⟩ := awaits.exists_operand isZeroPoint
  exact quantParams_eq_ok_iff.mpr ⟨newScale, newZeroPoint, isNewScale, isNewZeroPoint,
    standsScale.foldFloat?_eq isKnown, standsZeroPoint.foldInt?_eq isInt, stated⟩

end Awaits

/-! ### Where building begins -/

section Beginning

variable {inputs : List Grid} {value : ValueId} {x : Grid} {shape : List Int} {element : ScalarType}

theorem Feeds.carries {machine : Machine} (feeds : now.Feeds target op inputs machine)
    (isOperand : now.operand op index = .ok value) (isInput : inputs[index]? = some x) :
    target.Carries machine value x :=
  feeds (value, x) (List.mem_of_getElem? (List.getElem?_zip_eq_some.mpr ⟨operand_eq_ok_iff.mp isOperand, isInput⟩))

/-- An operand is the tensor that it carries. -/
theorem holdsTensor_opening (placed : op ≠ now.root) (isOperand : now.operand op index = .ok value)
    (isInput : inputs[index]? = some x)
    (typed : now.typeOf? value = some (Target.tosa.ofShape shape element)) :
    (now.opening op placed (now.Feeds .tosa op inputs)).HoldsTensor value shape element fun _ => x :=
  holds_opening typed fun s => s.2.carries isOperand isInput

/-- An operand is a buffer with the contents that it carries. -/
theorem stores_opening (placed : op ≠ now.root) (isOperand : now.operand op index = .ok value)
    (isInput : inputs[index]? = some x)
    (typed : now.typeOf? value = some (Target.loops.ofShape shape element)) (fits : x.Fits shape element) :
    (now.opening op placed (now.Feeds .loops op inputs)).Stores value shape element fun _ => x := by
  have carries (s : { machine // now.Feeds .loops op inputs machine }) :
      ∃ place, s.1.frame.getD value.index none = some (.buffer place) ∧ s.1.memory[place]? = some x :=
    s.2.carries isOperand isInput
  choose place isBuffer found using carries
  exact ⟨place, holds_opening typed isBuffer, found, fun _ => fits⟩

end Beginning

end Waiting

end Program

end TensorIR
