import TensorIR.Proofs.Ranges.Machine
import TensorIR.Proofs.Tensors.Soundness

/-!
# Operations without control flow keep data in range

An operation that keeps the rule of its kind computes data of the type of its result from data of the types of
its operands. For operations on floating-point numbers the rule asks for a floating-point type, and operations
that hand data on unchanged have operands of the type of the result. Clamping is the exception: its bounds need
not meet the range of the type.

## Main definitions

* `Program.ClampMeets` — the bounds of a clamping meet the range of the type of its result
* `Program.Sets` — an operation gives its results data of their types

## Main results

* `Run.ensures_scalarOp`, `Run.ensures_memrefOp`, `Run.ensures_tosaOp` — operations of each sort
* `Run.ensures_plainOp` — any operation without control flow
-/

namespace TensorIR

variable {program : Program} {symbols : SymbolTable} {op : OpId} {machine : Machine} {value result : ValueId}
  {type : ScalarType} {slot : Slot}

namespace Program

/-- If the operation clamps a tensor, its bounds meet the range of the elements. -/
def ClampMeets (program : Program) (op : OpId) : Prop :=
  program.kind op = .tosa .clamp → ∀ value ∈ program.results op, ∀ type ∈ program.elementOf? value,
    type.Meets (program.attributes op)

instance (program : Program) (op : OpId) : Decidable (program.ClampMeets op) :=
  inferInstanceAs (Decidable (_ = _ → ∀ value ∈ program.results op, ∀ type ∈ program.elementOf? value,
    type.Meets (program.attributes op)))

/-- The data that an operation computes belongs to the types of its results, and everything else stays in
range. -/
def Sets (program : Program) (op : OpId) (machine : Machine) (slots : List Slot) (after : Machine) : Prop :=
  machine.Advances program after ∧ after.HoldsEach ((program.results op).map program.elementOf?) slots

/-! ### What the rules tell about types -/

theorem elements_of_scalarTypes {operands results : List ScalarType}
    (types : program.scalarTypes op = .ok (operands, results)) :
    (program.operands op).map program.elementOf? = operands.map some ∧
      (program.results op).map program.elementOf? = results.map some := by
  obtain ⟨forOperands, forResults⟩ := of_scalarTypes_eq_ok types
  exact ⟨map_eq_map_iff_forall₂.mpr (forOperands.imp fun _ _ => elementOf?_of_typed),
    map_eq_map_iff_forall₂.mpr (forResults.imp fun _ _ => elementOf?_of_typed)⟩

theorem elements_of_verifySameTypes {arity : Nat} {what : String} {allowed : ScalarType → Bool}
    (kept : program.verifySameTypes op arity what allowed = .ok ()) :
    ∃ type, allowed type = true ∧ (program.results op).map program.elementOf? = [some type] ∧
      ∀ value ∈ program.operands op, program.elementOf? value = some type := by
  obtain ⟨operands, type, types, isAllowed, same⟩ := of_verifySameTypes kept
  obtain ⟨forOperands, forResults⟩ := elements_of_scalarTypes types
  refine ⟨type, isAllowed, forResults, fun value member => ?_⟩
  have isElement : program.elementOf? value ∈ operands.map some := by
    rw [← forOperands]
    exact List.mem_map_of_mem member
  obtain ⟨element, among, isElement⟩ := List.mem_map.mp isElement
  rw [← isElement, same element among]

/-- Operations on two integers keep to one type. -/
theorem elements_of_onInts? {kind : ArithKind} {compute : Int → Int → Option Int}
    (isCompute : kind.onInts? = some compute) (kept : program.verifyArith op kind = .ok ()) :
    ∃ type, (program.results op).map program.elementOf? = [some type] ∧
      ∀ value ∈ program.operands op, program.elementOf? value = some type := by
  cases kind with
  | addi | subi | muli | divsi | remsi | maxsi | minsi =>
    obtain ⟨type, -, elements⟩ := elements_of_verifySameTypes kept
    exact ⟨type, elements⟩
  | _ => cases isCompute

theorem elements_of_verifyScalarCast {source target : ScalarType → Bool}
    (kept : program.verifyScalarCast op source target = .ok ()) :
    ∃ type, target type = true ∧ (program.results op).map program.elementOf? = [some type] := by
  obtain ⟨operand, type, types, isTarget⟩ := of_verifyScalarCast kept
  exact ⟨type, isTarget, (elements_of_scalarTypes types).2⟩

theorem elements_of_verifySelect (kept : program.verifySelect op = .ok ()) :
    ∃ condition type, (program.results op).map program.elementOf? = [some type] ∧
      (program.operands op).map program.elementOf? = [condition, some type, some type] := by
  obtain ⟨type, types⟩ := of_verifySelect kept
  obtain ⟨forOperands, forResults⟩ := elements_of_scalarTypes types
  exact ⟨some .i1, type, forResults, forOperands⟩

theorem elements_of_verifyMath (kept : program.verifyMath op = .ok ()) :
    ∃ type : ScalarType, type.isFloat = true ∧ (program.results op).map program.elementOf? = [some type] := by
  obtain ⟨type, typed, isFloat⟩ := of_verifyMath kept
  exact ⟨type, isFloat, elements_of_typed typed⟩

/-- The buffer that is accessed has elements of the type that the rule finds. -/
theorem elements_of_verifyAccess {first : Nat} {memref : ShapedType}
    (access : program.verifyAccess op first = .ok memref) :
    ((program.operands op).map program.elementOf?)[first]? = some (some memref.element) := by
  obtain ⟨types, typed, access⟩ := of_bind_eq_ok access
  split at access
  case h_1 => cases access
  rename_i buffer indices areTypes
  obtain ⟨found, isMemref, access⟩ := of_bind_eq_ok access
  obtain ⟨-, access⟩ := of_check_eq_ok access
  obtain ⟨-, access⟩ := of_check_eq_ok access
  cases access
  have isBuffer : types[first]? = some buffer := by
    rw [← List.head?_drop, areTypes, List.head?_cons]
  rw [elements_of_typed typed, List.getElem?_map, isBuffer]
  unfold expectMemref at isMemref
  split at isMemref
  case h_1 =>
    cases isMemref
    rfl
  case h_2 => cases isMemref

theorem TensorTyped.elements {types : List ShapedType} {shaped : ShapedType}
    (typed : program.TensorTyped op types value shaped) :
    (program.operands op).map program.elementOf? = types.map fun type => some type.element :=
  map_eq_map_iff_forall₂.mpr (typed.operands.imp fun _ _ isTyped => elementOf?_of_typed isTyped.1)

end Program

/-! ### Operations on scalars -/

namespace Run

theorem holdsEach_of_result (isResult : (program.results op)[0]? = some result)
    (isType : program.elementOf? result = some type) (holds : machine.Holds type slot) :
    machine.HoldsEach ((program.results op).map program.elementOf?) [slot] := by
  obtain ⟨others, results⟩ : ∃ others, program.results op = result :: others := by
    cases results : program.results op with
    | nil =>
      rw [results] at isResult
      cases isResult
    | cons first others =>
      rw [results] at isResult
      cases isResult
      exact ⟨others, rfl⟩
  rw [results, List.map_cons, isType]
  apply Machine.holdsEach_cons.mpr
  exact ⟨fun _ same => by cases same; exact holds, Machine.holdsEach_nil⟩

theorem finds_arrayAttribute (name : String) :
    Finds machine (fun _ => True) (arrayAttribute program op name) := by
  unfold arrayAttribute
  split
  · exact finds_pure trivial
  · exact ensures_throw _

theorem finds_constantOp : Finds machine (machine.Holds type) (constantOp program op type) := by
  unfold constantOp
  split
  · exact finds_pure (type.holds_ofFloat _)
  · exact finds_pure (type.holds_ofFloat _)
  · exact finds_pure (type.holds_ofBool _)
  · exact ensures_throw _

section InRange

variable (inRange : machine.InRange program)

include inRange

theorem finds_twoFloats : Finds machine (fun _ => True) (twoFloats program op) :=
  (finds_mapM fun value _ => inRange.readFloat value).bind fun _ _ => finds_pure trivial

theorem finds_unaryOp (isFloat : type.isFloat = true) (compute : Float → Float) :
    Finds machine (machine.Holds type) (unaryOp program op type compute) :=
  (finds_twoFloats inRange).bind fun _ _ => finds_pure isFloat

theorem finds_floatOp (isFloat : type.isFloat = true) (compute : Float → Float → Float) :
    Finds machine (machine.Holds type) (floatOp program op type compute) :=
  (finds_twoFloats inRange).bind fun _ _ => finds_pure isFloat

theorem finds_compareOp (kind : ArithKind) :
    Finds machine (machine.Holds type) (compareOp program op kind) := by
  have integers : Finds machine (fun _ => True) (twoInts program op) :=
    (finds_mapM fun value _ => inRange.readInt value).bind fun _ _ => finds_pure trivial
  refine (finds_operand 0).bind fun lhs _ => ?_
  split
  · refine integers.bind fun pair _ => ?_
    refine (finds_elementType lhs).bind fun source _ => ?_
    exact (finds_lift fun _ _ => trivial).bind fun holds _ => finds_pure (type.holds_ofBool holds)
  · refine (finds_twoFloats inRange).bind fun pair _ => ?_
    exact (finds_lift fun _ _ => trivial).bind fun holds _ => finds_pure (type.holds_ofBool holds)

/-- Integers are computed from integers of the same type. -/
theorem finds_intOp {kind : ArithKind} {compute : Int → Int → Option Int}
    (kept : program.verifyArith op kind = .ok ()) (isCompute : kind.onInts? = some compute)
    (isElement : ∀ element, (program.results op).map program.elementOf? = [some element] → element = type) :
    Finds machine (machine.Holds type) (intOp program op type compute) := by
  obtain ⟨element, forResults, forOperands⟩ := Program.elements_of_onInts? isCompute kept
  obtain rfl := isElement element forResults
  have pairs : Finds machine (fun pair => (Number.minInt64 ≤ pair.1 ∧ pair.1 ≤ Number.maxInt64) ∧
      Number.minInt64 ≤ pair.2 ∧ pair.2 ≤ Number.maxInt64) (twoInts program op) := by
    refine (finds_mapM fun value _ => inRange.readInt value).bind fun values each => ?_
    have within (index : Nat) :
        Number.minInt64 ≤ values.getD index 0 ∧ values.getD index 0 ≤ Number.maxInt64 := by
      rw [List.getD_eq_getElem?_getD]
      cases found : values[index]? with
      | none => decide
      | some number =>
        obtain ⟨value, member, inside⟩ := forall₂_mem_right each (List.mem_of_getElem? found)
        exact inside (by rw [forOperands value member]; rfl)
    exact finds_pure ⟨within 0, within 1⟩
  refine pairs.bind fun pair ranges => ?_
  obtain ⟨a, b⟩ := pair
  dsimp only
  split
  case h_1 computed =>
    exact finds_pure (ScalarType.holds_wrapTo
      (ScalarType.mem_range_of_onInts? isCompute ranges.1 ranges.2 computed))
  case h_2 => exact ensures_throw _

/-- What is selected is one of the operands of the type. -/
theorem finds_selectOp {condition : Option ScalarType}
    (operands : (program.operands op).map program.elementOf? = [condition, some type, some type]) :
    Finds machine (machine.Holds type) (selectOp program op) := by
  refine (finds_operand 0).bind fun value _ => ?_
  refine (inRange.readInt value).bind fun chosen _ => ?_
  refine (finds_operand _).bind fun value isValue => ?_
  refine (inRange.read value).imp fun slot holds => holds type ?_
  have isElement := Program.elementOf?_of_elements operands isValue
  split at isElement
  · exact (Option.some.inj isElement).symm
  · exact (Option.some.inj isElement).symm

/-- A conversion gives a floating-point number only if the rule asks for one. -/
theorem finds_convertOp (isFloat : program.kind op = .arith .uitofp → type.isFloat = true) :
    Finds machine (machine.Holds type) (convertOp program op type) := by
  refine (finds_operand 0).bind fun value _ => ?_
  refine (finds_elementType value).bind fun source isSource => ?_
  refine (inRange.readScalar value).bind fun x holds => ?_
  have belongs := holds source isSource
  split
  case h_1 isKind => exact finds_pure (isFloat isKind)
  case h_10 => exact ensures_throw _
  case h_2 | h_3 => exact finds_pure (ScalarType.holds_wrapTo (Number.truncateToInt_mem_range _))
  all_goals exact finds_pure (ScalarType.holds_cast belongs)

/-- Operations on scalars that keep their rules give numbers of the types of their results. -/
theorem finds_scalarOp (kept : program.verifyOp symbols op = .ok ()) :
    Finds machine (machine.HoldsEach ((program.results op).map program.elementOf?) ∘ ([·]))
      (scalarOp program op) := by
  refine (finds_lift fun _ isResult => Program.getElem?_of_result isResult).bind fun result isResult => ?_
  refine (finds_elementType result).bind fun type isType => ?_
  have isElement (element : ScalarType)
      (types : (program.results op).map program.elementOf? = [some element]) : element = type := by
    have found := Program.elementOf?_of_elements types isResult
    rw [isType] at found
    exact Option.some.inj (Option.some.inj found)
  suffices computes : Finds machine (machine.Holds type) _ from
    computes.imp fun slot holds => holdsEach_of_result isResult isType holds
  unfold Program.verifyOp at kept
  cases isKind : program.kind op with
  | arith kind =>
    rw [isKind] at kept
    -- Of all conversions, only that of unsigned integers is computed without a look at the type.
    have other : kind ≠ .uitofp → program.kind op = .arith .uitofp → type.isFloat = true := by
      intro differs same
      cases isKind.symm.trans same
      exact absurd rfl differs
    cases kind with
    | constant => exact finds_constantOp
    | cmpi => exact finds_compareOp inRange .cmpi
    | cmpf => exact finds_compareOp inRange .cmpf
    | select =>
      obtain ⟨condition, element, forResults, forOperands⟩ := Program.elements_of_verifySelect kept
      cases isElement element forResults
      exact finds_selectOp inRange forOperands
    | negf =>
      obtain ⟨element, isFloat, forResults, -⟩ := Program.elements_of_verifySameTypes kept
      cases isElement element forResults
      exact finds_unaryOp inRange isFloat _
    | addi | subi | muli | divsi | remsi | maxsi | minsi =>
      exact finds_intOp inRange kept rfl isElement
    | addf | subf | mulf | divf | maximumf | minimumf =>
      obtain ⟨element, isFloat, forResults, -⟩ := Program.elements_of_verifySameTypes kept
      cases isElement element forResults
      exact finds_floatOp inRange isFloat _
    | uitofp =>
      obtain ⟨element, isFloat, forResults⟩ := Program.elements_of_verifyScalarCast kept
      cases isElement element forResults
      exact finds_convertOp inRange fun _ => isFloat
    | sitofp | fptosi | fptoui | extf | truncf | extsi | trunci | indexCast =>
      exact finds_convertOp inRange (other (by decide))
  | math kind =>
    rw [isKind] at kept
    obtain ⟨element, isFloat, forResults⟩ := Program.elements_of_verifyMath kept
    cases isElement element forResults
    exact finds_unaryOp inRange isFloat _
  | _ => exact finds_convertOp inRange fun same => by cases isKind.symm.trans same

/-! ### Operations on buffers -/

/-- The positions in a buffer are read from the operands behind it. -/
theorem finds_position (count : Nat) :
    Finds machine (fun _ => True) (((program.operands op).drop count).mapM (readInt program)) :=
  (finds_mapM fun value _ => inRange.readInt value).imp fun _ _ => trivial

/-- A new buffer is full of zeros. -/
theorem ensures_alloc : Ensures machine (program.Sets op machine) (memrefOp program op .alloc) := by
  refine (finds_lift fun _ isResult => Program.getElem?_of_result isResult).bind fun result isResult => ?_
  refine (finds_lift fun _ isType => isType).bind fun type typed => ?_
  split
  case h_1 shape element =>
    have isType : program.elementOf? result = some element := Program.elementOf?_of_typed typed
    refine (inRange.allocate (Grid.filled_holds shape element 0.0)).bind fun slot after allocated => ?_
    exact ensures_pure ⟨allocated.1, holdsEach_of_result isResult isType allocated.2⟩
  case h_2 => exact ensures_throw _

/-- What is loaded has the type of the elements of the buffer. -/
theorem ensures_load (kept : program.verifyMemref op .load = .ok ()) :
    Ensures machine (program.Sets op machine) (memrefOp program op .load) := by
  obtain ⟨memref, access, kept⟩ := of_bind_eq_ok kept
  have isElement := Program.elements_of_verifyAccess access
  have isType : program.resultType? op 0 = some (.scalar memref.element) :=
    not_not.mp (of_lastCheck_eq_ok kept)
  obtain ⟨result, isResult, isType⟩ := Option.bind_eq_some_iff.mp isType
  refine (finds_position inRange 1).bind fun indices _ => ?_
  refine (finds_operand 0).bind fun value isOperand => ?_
  refine (inRange.bufferOf value).bind fun place isBuffer => ?_
  have holds := isBuffer memref.element (by simpa [isOperand] using isElement)
  refine (finds_contents place).bind fun grid isGrid => ?_
  refine (finds_lift fun _ read => Grid.Holds.get (isGrid ▸ inRange.holds_buffer holds) read).bind ?_
  intro number belongs
  refine ensures_pure ⟨inRange.refl, holdsEach_of_result isResult ?_ belongs⟩
  rw [Program.elementOf?, isType]
  rfl

/-- What is stored has the type of the elements of the buffer. -/
theorem ensures_store (kept : program.verifyMemref op .store = .ok ()) :
    Ensures machine (program.Sets op machine) (memrefOp program op .store) := by
  obtain ⟨memref, access, kept⟩ := of_bind_eq_ok kept
  have isElement := Program.elements_of_verifyAccess access
  obtain ⟨types, typed, kept⟩ := of_bind_eq_ok kept
  have isStored : ((program.operands op).map program.elementOf?)[0]? = some (some memref.element) := by
    rw [Program.elements_of_typed typed, List.getElem?_map, ← List.head?_eq_getElem?]
    split at kept
    case h_2 => cases kept
    case h_1 element isHead =>
      rw [isHead, not_not.mp (of_lastCheck_eq_ok kept)]
      rfl
  refine (finds_position inRange 2).bind fun indices _ => ?_
  refine (finds_operand 1).bind fun value isOperand => ?_
  refine (inRange.bufferOf value).bind fun place isBuffer => ?_
  refine (finds_operand 0).bind fun stored isFirst => ?_
  refine (inRange.readScalar stored).bind fun number belongs => ?_
  have holds := isBuffer memref.element (by simpa [isOperand] using isElement)
  refine (inRange.storeAt holds (belongs memref.element (by simpa [isFirst] using isStored))).bind ?_
  intro _ after advances
  exact ensures_pure ⟨advances, Machine.holdsEach_nil⟩

theorem ensures_memrefOp {kind : MemrefKind} (kept : program.verifyMemref op kind = .ok ()) :
    Ensures machine (program.Sets op machine) (memrefOp program op kind) := by
  cases kind with
  | alloc => exact ensures_alloc inRange
  | load => exact ensures_load inRange kept
  | store => exact ensures_store inRange kept

/-! ### Operations on whole tensors -/

theorem finds_tensorOp {kind : TosaKind} {shaped : ShapedType} {source : ScalarType} {x : Grid}
    (holds : x.Holds source) (computes : kind ≠ .const) (same : kind ≠ .cast → source = shaped.element)
    (isFloat : kind ∈ [.reciprocal, .exp, .tanh, .sigmoid] → shaped.element.isFloat = true)
    (meets : kind = .clamp → shaped.element.Meets (program.attributes op)) :
    Finds machine (Grid.Holds · shaped.element) (tensorOp program op kind shaped x) := by
  have second {next : Grid → Run Grid} (goesOn : ∀ y, Finds machine (Grid.Holds · shaped.element) (next y)) :
      Finds machine (Grid.Holds · shaped.element) (do next (← readGrid program (← operand program op 1))) :=
    (finds_operand 1).bind fun value _ => (inRange.readGrid value).bind fun y _ => goesOn y
  unfold tensorOp
  extract_lets attributes
  -- What computes wraps its numbers into the element type, and what moves numbers keeps those it reads.
  cases kind with
  | const => exact absurd rfl computes
  | add | sub | mul | maximum | minimum =>
    exact second fun y => finds_lift fun _ combined =>
      Grid.holds_of_combine combined fun _ _ => ScalarType.holds_arithmetic _ _
  | reciprocal | exp | tanh | sigmoid =>
    exact finds_lift fun _ mapped => holds.map mapped fun _ _ => isFloat (by simp)
  | negate =>
    cases same (by decide)
    exact finds_lift fun _ mapped => holds.map mapped fun _ => ScalarType.holds_negated
  | abs =>
    cases same (by decide)
    exact finds_lift fun _ mapped => holds.map mapped fun _ => ScalarType.holds_absolute
  | clamp =>
    cases same (by decide)
    exact finds_lift fun _ mapped => holds.map mapped fun _ => ScalarType.holds_clamped (meets rfl)
  | cast => exact finds_lift fun _ mapped => holds.map mapped fun _ => ScalarType.holds_cast
  | reshape =>
    cases same (by decide)
    exact (finds_arrayAttribute _).bind fun shape _ => finds_pure holds
  | transpose | slice =>
    cases same (by decide)
    exact (finds_arrayAttribute _).bind fun order _ => finds_lift fun _ => holds.gather
  | tile =>
    cases same (by decide)
    exact finds_lift fun _ => holds.gather
  | pad =>
    cases same (by decide)
    exact (finds_arrayAttribute _).bind fun padding _ => finds_lift fun _ => holds.pad
  | matmul => exact second fun y => finds_lift fun _ => Grid.holds_of_matmul
  | reduceSum => exact finds_lift fun _ => Grid.holds_of_reduceSum

theorem ensures_tosaOp {kind : TosaKind} (isKind : program.kind op = .tosa kind)
    (kept : program.verifyTosa op kind = .ok ()) (meets : program.ClampMeets op) :
    Ensures machine (program.Sets op machine) (do return [.tensor (← tosaOp program op kind)]) := by
  suffices computes : Finds machine (fun grid =>
      machine.HoldsEach ((program.results op).map program.elementOf?) [.tensor grid]) (tosaOp program op kind) from
    computes.bind fun grid holds => ensures_pure ⟨inRange.refl, holds⟩
  refine (finds_lift fun _ isResult => Program.getElem?_of_result isResult).bind fun result isResult => ?_
  refine (finds_lift fun _ isType => isType).bind fun type typed => ?_
  have isType := Program.elementOf?_of_typed typed
  split
  case h_2 => exact ensures_throw _
  case h_1 shaped =>
    suffices computes : Finds machine (Grid.Holds · shaped.element) _ from
      computes.imp fun grid holds => holdsEach_of_result isResult isType holds
    -- A constant holds the numbers it states. Every other operation reads its first operand.
    split
    case isTrue =>
      split
      case h_1 => exact ensures_throw _
      case h_2 => exact finds_lift fun _ => Grid.holds_of_ofValues
    case isFalse computes =>
      obtain ⟨operand, types, value, other, forTensors, same, isFloat⟩ := Program.of_verifyTosa kept computes
      have only : value = result := by
        rw [forTensors.results] at isResult
        exact Option.some.inj isResult
      subst only
      obtain rfl : other = shaped := by
        have alike := forTensors.typed.symm.trans typed
        exact Ty.shaped.inj (Except.ok.inj alike)
      refine (finds_operand 0).bind fun source isSource => ?_
      refine (inRange.readGrid source).bind fun x holds => ?_
      have isElement := Program.elementOf?_of_elements forTensors.elements isSource
      refine finds_tensorOp inRange (holds operand.element (Option.some.inj isElement).symm) computes same
        isFloat fun isClamp => ?_
      exact meets (isClamp ▸ isKind) value (List.mem_of_getElem? isResult) other.element isType

/-- An operation without control flow that keeps its rule gives its results data of their types. -/
theorem ensures_plainOp (kept : program.verifyOp symbols op = .ok ()) (meets : program.ClampMeets op) :
    Ensures machine (program.Sets op machine) (plainOp program op) := by
  unfold plainOp
  have rule := kept
  unfold Program.verifyOp at rule
  cases isKind : program.kind op with
  | tosa kind =>
    rw [isKind] at rule
    exact ensures_tosaOp inRange isKind rule meets
  | memref kind =>
    rw [isKind] at rule
    exact ensures_memrefOp inRange rule
  | _ => exact (finds_scalarOp inRange kept).bind fun slot holds => ensures_pure ⟨inRange.refl, holds⟩

end InRange

end Run

end TensorIR
