import TensorIR.Proofs.Inference.Declared

/-!
# Stored integers as operands

The elements of a quantized tensor stand for numbers through a scale and a zero point. After lowering, the tensor is
no more than the integers that store them, so that arithmetic on it would give something else than what is meant. The
rules of functions of one tensor refuse it. The kinds of two tensors are put together as soon as both are known, so
that a quantized tensor is refused beside a tensor of a known kind, but not yet beside one of an unknown kind.

## Main definitions

* `Program.IsQuantized` — a value is known to be a quantized tensor
* `TorchKind.isArithmetic` — an operation computes with the numbers of tensors

## Main results

* `Program.not_isQuantized_of_verify` — where no operand of a valid program is quantized
* `quantized_mingling` — beside a tensor of an unknown kind, an operand may be
-/

namespace TensorIR

namespace TorchKind

/-- The operation computes with the numbers of two tensors. -/
def combinesTensors : TorchKind → Bool
  | addTensor | subTensor | mulTensor | divTensor | maximum | minimum | mm => true
  | _ => false

/-- The operation computes a function of each number of a tensor. -/
def mapsTensor : TorchKind → Bool
  | relu | neg | abs | exp | tanh | sigmoid => true
  | _ => false

/-- The operation computes with the numbers of its tensors. -/
def isArithmetic : TorchKind → Bool
  | clamp | sumDimIntList => true
  | kind => kind.mapsTensor || kind.combinesTensors

end TorchKind

/-! ### Kinds of element that are put together -/

theorem Dtype.not_isQuantized_of_promote? {a b dtype : Dtype} (promotes : a.promote? b = some dtype) :
    a.isQuantized = false ∧ b.isQuantized = false := by
  cases plain : a.isQuantized || b.isQuantized with
  | false => exact Bool.or_eq_false_iff.mp plain
  | true =>
    rw [promote?.eq_def, if_pos plain] at promotes
    cases promotes

namespace Shape

theorem not_isQuantized_of_commonDtype {a b : Dtype} {common : Option Dtype}
    (isCommon : commonDtype (some a) (some b) = .ok common) : a.isQuantized = false ∧ b.isQuantized = false := by
  cases promotes : a.promote? b with
  | some dtype => exact Dtype.not_isQuantized_of_promote? promotes
  | none =>
    rw [commonDtype, promotes] at isCommon
    cases isCommon

theorem commonDtype_of_broadcastInfo {a b info : TensorInfo} (combined : broadcastInfo a b = .ok info) :
    ∃ common, commonDtype a.dtype b.dtype = .ok common := by
  rw [broadcastInfo_eq] at combined
  cases isSizes : commonSizes a.sizes b.sizes with
  | error =>
    rw [isSizes] at combined
    cases combined
  | ok sizes =>
    cases isDtype : commonDtype a.dtype b.dtype with
    | ok common => exact ⟨common, rfl⟩
    | error =>
      rw [isSizes, isDtype] at combined
      cases combined

end Shape

namespace Program

variable {program : Program} {symbols : SymbolTable} {op : OpId} {kind : TorchKind} {value : ValueId}
  {info a b : TensorInfo}

theorem promoted_eq (a b : Option Dtype) : promoted a b = TensorIR.ofShape (Shape.commonDtype a b) := by
  rcases a with _ | a
  · rfl
  · rcases b with _ | b
    · rfl
    · cases promotes : a.promote? b <;> simp [promoted, Shape.commonDtype, promotes, TensorIR.ofShape]

/-! ### Operands -/

/-- A value is a tensor that is known to be quantized. -/
def IsQuantized (program : Program) (value : ValueId) : Prop :=
  ∃ info dtype, program.tensorInfoOf? value = some info ∧ info.dtype = some dtype ∧ dtype.isQuantized = true

/-- A value is a tensor whose kind of element is not known. -/
def HasUnknownDtype (program : Program) (value : ValueId) : Prop :=
  ∃ info, program.tensorInfoOf? value = some info ∧ info.dtype = none

theorem length_operands_of_expectOperands {count : Nat} (expected : program.expectOperands op count = .ok ()) :
    (program.operands op).length = count := by
  rw [expectOperands] at expected
  by_contra different
  simp [different, failing] at expected

/-- An operand stands at one of as many positions as are expected. -/
theorem exists_operand_eq {count : Nat} (expected : program.expectOperands op count = .ok ())
    (among : value ∈ program.operands op) : ∃ index < count, program.operand op index = .ok value := by
  obtain ⟨index, below, rfl⟩ := List.getElem_of_mem among
  refine ⟨index, ?_, operand_eq_ok_iff.mpr (List.getElem?_eq_getElem below)⟩
  rwa [length_operands_of_expectOperands expected] at below

theorem exists_tensorInfoOf? {index : Nat} (isTensor : program.tensorOperand op index = .ok info) :
    ∃ value ∈ program.operands op, program.operand op index = .ok value ∧ program.tensorInfoOf? value = some info := by
  obtain ⟨value, isOperand, hasType⟩ := of_tensorOperand_eq_ok isTensor
  exact ⟨value, List.mem_of_getElem? (operand_eq_ok_iff.mp isOperand), isOperand, by rw [tensorInfoOf?, hasType]; rfl⟩

/-- A number is no tensor. -/
theorem not_isQuantized_of_number {index : Nat} (isNumber : program.scalarOperand op index numberTypes = .ok ())
    (isOperand : program.operand op index = .ok value) : ¬program.IsQuantized value := by
  rintro ⟨info, -, isInfo, -⟩
  obtain ⟨type, isType, isTensor⟩ := Option.bind_eq_some_iff.mp isInfo
  rw [scalarOperand, isOperand, ok_bind, isType, Option.getD_some] at isNumber
  have other : numberTypes.any type.isSubtype = false := by
    cases type with
    | tensor | vtensor => simp [numberTypes, TorchType.isSubtype, TorchType.same]
    | _ => cases isTensor
  simp only [other] at isNumber
  cases isNumber

/-! ### Operations on one tensor -/

theorem not_isQuantized_of_inferUnary (run : program.inferUnary op = .ok info) (among : value ∈ program.operands op) :
    ¬program.IsQuantized value := by
  rintro ⟨known, dtype, isInfo, isDtype, isQuantized⟩
  obtain ⟨⟨⟩, expected, run⟩ := of_bind_eq_ok run
  obtain ⟨operand, isTensor, run⟩ := of_bind_eq_ok run
  obtain ⟨index, below, isValue⟩ := exists_operand_eq expected among
  obtain rfl : index = 0 := Nat.lt_one_iff.mp below
  obtain ⟨first, -, isFirst, hasInfo⟩ := exists_tensorInfoOf? isTensor
  cases isValue.symm.trans isFirst
  cases isInfo.symm.trans hasInfo
  -- The rule asks whether the kind of element is quantized, and goes on only if it is not.
  refine (of_check_eq_ok run).1 ?_
  rw [isDtype, Option.map_some, Option.getD_some]
  exact isQuantized

/-! ### Operations on two tensors -/

/-- A quantized tensor is combined with another one only if the kind of the other one is not known. -/
theorem exists_unknown_of_commonDtype (isFirst : program.tensorOperand op 0 = .ok a)
    (isSecond : program.tensorOperand op 1 = .ok b) {common : Option Dtype}
    (isCommon : Shape.commonDtype a.dtype b.dtype = .ok common) {index : Nat} (below : index < 2)
    (isValue : program.operand op index = .ok value) (quantized : program.IsQuantized value) :
    ∃ other ∈ program.operands op, program.HasUnknownDtype other := by
  obtain ⟨first, amongFirst, isFirst, firstInfo⟩ := exists_tensorInfoOf? isFirst
  obtain ⟨second, amongSecond, isSecond, secondInfo⟩ := exists_tensorInfoOf? isSecond
  cases firstDtype : a.dtype with
  | none => exact ⟨first, amongFirst, a, firstInfo, firstDtype⟩
  | some x =>
    cases secondDtype : b.dtype with
    | none => exact ⟨second, amongSecond, b, secondInfo, secondDtype⟩
    | some y =>
      obtain ⟨known, dtype, isInfo, isDtype, isQuantized⟩ := quantized
      rw [firstDtype, secondDtype] at isCommon
      -- Both kinds are known and have been put together, so neither operand is quantized.
      obtain ⟨plainFirst, plainSecond⟩ := Shape.not_isQuantized_of_commonDtype isCommon
      obtain rfl | rfl : index = 0 ∨ index = 1 := by omega
      · cases isValue.symm.trans isFirst
        cases isInfo.symm.trans firstInfo
        cases isDtype.symm.trans firstDtype
        cases isQuantized.symm.trans plainFirst
      · cases isValue.symm.trans isSecond
        cases isInfo.symm.trans secondInfo
        cases isDtype.symm.trans secondDtype
        cases isQuantized.symm.trans plainSecond

theorem exists_commonDtype_of_inferBinary (run : program.inferBinary op = .ok info) :
    ∃ a b common, program.tensorOperand op 0 = .ok a ∧ program.tensorOperand op 1 = .ok b ∧
      Shape.commonDtype a.dtype b.dtype = .ok common := by
  obtain ⟨a, isFirst, run⟩ := of_bind_eq_ok run
  obtain ⟨b, isSecond, run⟩ := of_bind_eq_ok run
  obtain ⟨common, isCommon⟩ := Shape.commonDtype_of_broadcastInfo (of_ofShape_eq_ok run)
  exact ⟨a, b, common, isFirst, isSecond, isCommon⟩

/-- The rule of an operation on two tensors puts their kinds of element together. There are no other tensors among its
operands. -/
theorem exists_commonDtype_of_inferKind (combines : kind.combinesTensors = true)
    (run : program.inferKind op kind = .ok (some info)) :
    (∃ a b common, program.tensorOperand op 0 = .ok a ∧ program.tensorOperand op 1 = .ok b ∧
      Shape.commonDtype a.dtype b.dtype = .ok common) ∧
    ∀ value ∈ program.operands op, program.IsQuantized value → ∃ index < 2, program.operand op index = .ok value := by
  cases kind with
  | addTensor | subTensor =>
    obtain ⟨⟨⟩, expected, run⟩ := of_bind_eq_ok (of_some_map_eq_ok run)
    obtain ⟨⟨⟩, isNumber, run⟩ := of_bind_eq_ok run
    refine ⟨exists_commonDtype_of_inferBinary run, fun value among quantized => ?_⟩
    obtain ⟨index, below, isValue⟩ := exists_operand_eq expected among
    -- The last operand is a number.
    have notLast : index ≠ 2 := by
      rintro rfl
      exact not_isQuantized_of_number isNumber isValue quantized
    exact ⟨index, by omega, isValue⟩
  | mulTensor | maximum | minimum =>
    obtain ⟨⟨⟩, expected, run⟩ := of_bind_eq_ok run
    exact ⟨exists_commonDtype_of_inferBinary (of_some_map_eq_ok run),
      fun value among _ => exists_operand_eq expected among⟩
  | divTensor =>
    obtain ⟨⟨⟩, expected, run⟩ := of_bind_eq_ok (of_some_map_eq_ok run)
    obtain ⟨a, isFirst, run⟩ := of_bind_eq_ok run
    obtain ⟨b, isSecond, run⟩ := of_bind_eq_ok run
    obtain ⟨combined, isCombined, -⟩ := of_bind_eq_ok run
    obtain ⟨common, isCommon⟩ := Shape.commonDtype_of_broadcastInfo (of_ofShape_eq_ok isCombined)
    exact ⟨⟨a, b, common, isFirst, isSecond, isCommon⟩, fun value among _ => exists_operand_eq expected among⟩
  | mm =>
    obtain ⟨⟨⟩, expected, run⟩ := of_bind_eq_ok (of_some_map_eq_ok run)
    obtain ⟨a, isFirst, run⟩ := of_bind_eq_ok run
    obtain ⟨b, isSecond, run⟩ := of_bind_eq_ok run
    obtain ⟨⟨⟩, -, run⟩ := of_bind_eq_ok run
    obtain ⟨⟨⟩, -, run⟩ := of_bind_eq_ok run
    -- The kinds are put together last, behind the checks of the shapes.
    have isCommon : ∃ common, Shape.commonDtype a.dtype b.dtype = .ok common := by
      rw [promoted_eq] at run
      cases isCommon : Shape.commonDtype a.dtype b.dtype with
      | ok common => exact ⟨common, rfl⟩
      | error fault =>
        rw [isCommon] at run
        split at run
        · split at run <;> cases run
        · cases run
    obtain ⟨common, isCommon⟩ := isCommon
    exact ⟨⟨a, b, common, isFirst, isSecond, isCommon⟩, fun value among _ => exists_operand_eq expected among⟩
  | _ => cases combines

/-- An operation of a valid program has no quantized operand if it computes a function of each number of a tensor, or
if it combines two tensors and their kinds of element are known. -/
theorem not_isQuantized_of_verify (valid : program.verify = .ok ()) (member : op ∈ program.tree.ops)
    (isKind : program.kind op = .torch kind) (among : value ∈ program.operands op)
    (computes : kind.mapsTensor = true ∨
      kind.combinesTensors = true ∧ ∀ other ∈ program.operands op, ¬program.HasUnknownDtype other) :
    ¬program.IsQuantized value := by
  have isTensor : kind.isTensorOp = true := by
    cases kind <;> first | rfl | rcases computes with ⟨⟨⟩⟩ | ⟨⟨⟩, -⟩
  obtain ⟨symbols, -, keeps⟩ := keepsRule_of_verify valid
  obtain ⟨inferred, run, -⟩ := (verifyOp_tensor_iff isKind isTensor).mp (keeps op member)
  rcases computes with maps | ⟨combines, known⟩
  · cases kind with
    | relu | neg | abs => exact not_isQuantized_of_inferUnary (of_some_map_eq_ok run) among
    | exp | tanh | sigmoid =>
      obtain ⟨unary, isUnary, -⟩ := of_bind_eq_ok (of_some_map_eq_ok run)
      exact not_isQuantized_of_inferUnary isUnary among
    | _ => cases maps
  · intro quantized
    obtain ⟨⟨a, b, common, isFirst, isSecond, isCommon⟩, positions⟩ := exists_commonDtype_of_inferKind combines run
    obtain ⟨index, below, isValue⟩ := positions value among quantized
    obtain ⟨other, isOther, unknown⟩ := exists_unknown_of_commonDtype isFirst isSecond isCommon below isValue quantized
    exact known other isOther unknown

end Program

/-- A quantized tensor is clamped, without bounds, and multiplied with a tensor of which the kind of element is not
known. Another tensor is compared with itself. -/
def mingling : Program where
  values := #[⟨some "%q", some (.torch (.vtensor ⟨some [some 2], some .qint8⟩)), .argument (some ⟨1⟩)⟩,
    ⟨some "%u", some (.torch (.vtensor ⟨some [some 2], none⟩)), .argument (some ⟨1⟩)⟩,
    ⟨some "%x", some (.torch (.vtensor ⟨some [some 2], some .f32⟩)), .argument (some ⟨1⟩)⟩,
    ⟨none, some (.torch (.vtensor ⟨some [some 2], none⟩)), .signature⟩,
    ⟨some "%n", some (.torch .none), .result ⟨1⟩⟩,
    ⟨some "%0", some (.torch (.vtensor ⟨some [some 2], some .qint8⟩)), .result ⟨2⟩⟩,
    ⟨some "%1", some (.torch (.vtensor ⟨some [some 2], none⟩)), .result ⟨3⟩⟩,
    ⟨some "%2", some (.torch (.vtensor ⟨some [some 2], some .f32⟩)), .result ⟨4⟩⟩]
  operations := #[
    { kind := .module },
    { kind := .torch .constantNone, results := [⟨4⟩] },
    { kind := .torch .clamp, operands := [⟨0⟩, ⟨4⟩, ⟨4⟩], results := [⟨5⟩] },
    { kind := .torch .mulTensor, operands := [⟨5⟩, ⟨1⟩], results := [⟨6⟩] },
    { kind := .torch .maximum, operands := [⟨2⟩, ⟨2⟩], results := [⟨7⟩] },
    { kind := .func .ret, operands := [⟨6⟩] },
    { kind := .func .func, results := [⟨3⟩], attributes := Attributes.empty.insert "sym_name" (.symbol "f") }]
  headers := #[{}, { arguments := [⟨0⟩, ⟨1⟩, ⟨2⟩] }]
  root := ⟨0⟩
  regions := .single ⟨0⟩ (.single ⟨6⟩ (.single ⟨1⟩ (.cons ⟨1⟩ .nil (.cons ⟨2⟩ .nil
    (.cons ⟨3⟩ .nil (.cons ⟨4⟩ .nil (.single ⟨5⟩ .nil)))))))

/-- The kinds of the numbers that are compared are known, so they are no stored integers. -/
theorem not_isQuantized_of_verify_mingling : mingling.verify = .ok () ∧ ⟨4⟩ ∈ mingling.tree.ops ∧
    mingling.kind ⟨4⟩ = .torch .maximum ∧ ⟨2⟩ ∈ mingling.operands ⟨4⟩ ∧
    (∀ other ∈ mingling.operands ⟨4⟩, ¬mingling.HasUnknownDtype other) ∧ ¬mingling.IsQuantized ⟨2⟩ := by
  have valid : mingling.verify = .ok () := by rfl
  have member : ⟨4⟩ ∈ mingling.tree.ops := by decide +kernel
  have operands_eq : mingling.operands ⟨4⟩ = [⟨2⟩, ⟨2⟩] := rfl
  have among : ⟨2⟩ ∈ mingling.operands ⟨4⟩ := operands_eq ▸ List.mem_cons_self
  have known : ∀ other ∈ mingling.operands ⟨4⟩, ¬mingling.HasUnknownDtype other := by
    rintro other isOther ⟨info, isInfo, isUnknown⟩
    rw [operands_eq] at isOther
    obtain rfl : other = ⟨2⟩ := by simpa using isOther
    cases isInfo
    cases isUnknown
  exact ⟨valid, member, rfl, among, known,
    Program.not_isQuantized_of_verify valid member rfl among (.inr ⟨rfl, known⟩)⟩

/-- A quantized tensor is accepted beside a tensor of which the kind of element is not known. -/
theorem quantized_mingling : ¬∀ (program : Program) (op : OpId) (kind : TorchKind) (value : ValueId),
    program.verify = .ok () → op ∈ program.tree.ops → program.kind op = .torch kind → kind.isArithmetic = true →
      value ∈ program.operands op → ¬program.IsQuantized value := by
  intro never
  have valid : mingling.verify = .ok () := by rfl
  have member : ⟨3⟩ ∈ mingling.tree.ops := by decide +kernel
  have among : ⟨5⟩ ∈ mingling.operands ⟨3⟩ := by decide +kernel
  exact never mingling ⟨3⟩ .mulTensor ⟨5⟩ valid member rfl rfl among ⟨_, .qint8, rfl, rfl, rfl⟩

end TensorIR
