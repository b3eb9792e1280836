import Mathlib.Data.List.Forall2
import TensorIR.Verify

/-!
# Operations that look the same

A rule reads of an operation its kind, its attributes, and the types of its operands and results. Which
values the operands are does not matter, so a rule holds of an operation as soon as it holds of one that
looks the same.

## Main definitions

* `Program.Alike` — an operation looks the same in two programs

## Main results

* `Program.Alike.verifyArith_eq`, `Program.Alike.verifyMath_eq`, `Program.Alike.verifyMemref_eq`,
  `Program.Alike.verifyTosa_eq`, `Program.Alike.verifyTorchValue_eq` — rules that are about the operation
  alone
-/

namespace TensorIR

/-- An operation looks the same in two programs: other operands and results may stand where they have
the same types. -/
structure Program.Alike (start now : Program) (op : OpId) : Prop where
  operation_eq : now.operation op =
    { start.operation op with operands := now.operands op, results := now.results op }
  operands : (now.operands op).map now.typed = (start.operands op).map start.typed
  results : (now.results op).map now.typed = (start.results op).map start.typed

section Lists

variable {α β γ : Type}

theorem mapM_congr {items : List α} {others : List β} {find : α → Except Error γ}
    {findOther : β → Except Error γ} (same : items.map find = others.map findOther) :
    items.mapM find = others.mapM findOther := by
  have mapped {δ : Type} (items : List δ) (find : δ → Except Error γ) :
      items.mapM find = (items.map find).mapM id := by
    rw [List.mapM_map]
    rfl
  rw [mapped items, mapped others, same]

theorem ok_bind (value : α) (next : α → Except Error β) : (Except.ok value >>= next) = next value := rfl

theorem bind_congr_both {first second : Except Error α} (same : first = second)
    {next other : α → Except Error β} (later : ∀ value, next value = other value) :
    first >>= next = second >>= other := by
  rw [same, funext later]

theorem bind_congr_left {first second : Except Error α} (same : first = second) (next : α → Except Error β) :
    first >>= next = second >>= next :=
  bind_congr_both same fun _ => rfl

/-- Loops whose steps are the same are the same. -/
theorem forIn_congr {related : α → β → Prop} {items : List α} {others : List β}
    (same : List.Forall₂ related items others) {step : α → γ → Except Error (ForInStep γ)}
    {stepOther : β → γ → Except Error (ForInStep γ)}
    (each : ∀ item other, related item other → step item = stepOther other) (state : γ) :
    forIn items state step = forIn others state stepOther := by
  induction same generalizing state with
  | nil => rfl
  | cons here _ ih =>
    rw [List.forIn_cons, List.forIn_cons, each _ _ here]
    refine bind_congr fun next => ?_
    cases next with
    | done => rfl
    | yield state => exact ih state

end Lists

theorem Program.typeOf?_eq (program : Program) (value : ValueId) :
    program.typeOf? value = (program.typed value).toOption := by
  unfold Program.typeOf? Program.typed
  split
  · next same => rw [same]; rfl
  · next same => rw [same]; rfl

theorem Program.torchTypeOf?_congr {start now : Program} {value other : ValueId}
    (same : now.typed value = start.typed other) : now.torchTypeOf? value = start.torchTypeOf? other := by
  rw [Program.torchTypeOf?, Program.typeOf?_eq, same, ← Program.typeOf?_eq, Program.torchTypeOf?]

theorem Program.map_typeOf_congr {start now : Program} {values others : List ValueId}
    (same : values.map now.typed = others.map start.typed) : values.map now.typeOf = others.map start.typeOf := by
  have typeOf (program : Program) (value : ValueId) :
      program.typeOf value = (program.typed value).toOption.getD default := by
    rw [Program.typeOf, Program.typeOf?_eq]
  have each := congrArg (List.map fun typed => typed.toOption.getD default) same
  simpa only [List.map_map, Function.comp_def, ← typeOf] using each

namespace Program.Alike

variable {start now : Program} {op : OpId} (alike : start.Alike now op)
include alike

theorem kind_eq : now.kind op = start.kind op := by
  rw [Program.kind, alike.operation_eq, Program.kind]

theorem opName_eq : now.opName op = start.opName op := by
  rw [Program.opName, alike.kind_eq, Program.opName]

theorem attributes_eq : now.attributes op = start.attributes op := by
  rw [Program.attributes, alike.operation_eq, Program.attributes]

theorem report_eq (message : String) : now.report op message = start.report op message := by
  rw [Program.report, alike.opName_eq, alike.operation_eq, Program.report]

theorem length_operands : (now.operands op).length = (start.operands op).length := by
  have same := congrArg List.length alike.operands
  rwa [List.length_map, List.length_map] at same

theorem length_results : (now.results op).length = (start.results op).length := by
  have same := congrArg List.length alike.results
  rwa [List.length_map, List.length_map] at same

theorem typedOperands_eq : now.typedOperands op = start.typedOperands op :=
  mapM_congr alike.operands

theorem typedResults_eq : now.typedResults op = start.typedResults op :=
  mapM_congr alike.results

theorem operandTypes_eq : now.operandTypes op = start.operandTypes op :=
  map_typeOf_congr alike.operands

theorem resultTypes_eq : now.resultTypes op = start.resultTypes op :=
  map_typeOf_congr alike.results

/-- What is asked about the type of an operand has the same answer. -/
theorem operand_typed (index : Nat) :
    ((now.operands op)[index]?).map now.typed = ((start.operands op)[index]?).map start.typed := by
  rw [← List.getElem?_map, alike.operands, List.getElem?_map]

theorem result_typed (index : Nat) :
    ((now.results op)[index]?).map now.typed = ((start.results op)[index]?).map start.typed := by
  rw [← List.getElem?_map, alike.results, List.getElem?_map]

theorem resultType?_eq (index : Nat) : now.resultType? op index = start.resultType? op index := by
  have same := alike.result_typed index
  unfold Program.resultType?
  cases old : (start.results op)[index]? <;> cases new : (now.results op)[index]? <;>
    simp only [old, new, Option.map_none, Option.map_some, reduceCtorEq] at same
  case none.none => rfl
  case some.some value other =>
    rw [Option.bind_some, Option.bind_some, Program.typeOf?_eq, Option.some.inj same, ← Program.typeOf?_eq]

theorem operandType_eq (index : Nat) : now.operandType op index = start.operandType op index := by
  have same := alike.operand_typed index
  unfold Program.operandType Program.operand
  rw [alike.opName_eq]
  cases old : (start.operands op)[index]? <;> cases new : (now.operands op)[index]? <;>
    simp only [old, new, Option.map_none, Option.map_some, reduceCtorEq] at same
  case none.none => rfl
  case some.some value other =>
    simp only [bind, Except.bind, Program.torchTypeOf?_congr (Option.some.inj same)]

theorem resultType_eq (index : Nat) : now.resultType op index = start.resultType op index := by
  have same := alike.result_typed index
  unfold Program.resultType Program.result
  rw [alike.opName_eq]
  cases old : (start.results op)[index]? <;> cases new : (now.results op)[index]? <;>
    simp only [old, new, Option.map_none, Option.map_some, reduceCtorEq] at same
  case none.none => rfl
  case some.some value other =>
    simp only [bind, Except.bind, Program.torchTypeOf?_congr (Option.some.inj same)]

theorem constantValue?_eq : now.constantValue? op = start.constantValue? op := by
  rw [Program.constantValue?, Program.constantValue?, alike.attributes_eq, alike.resultType?_eq]

/-! ### Rules for scalars and buffers -/

theorem scalarTypes_eq : now.scalarTypes op = start.scalarTypes op := by
  rw [Program.scalarTypes, alike.typedOperands_eq, alike.typedResults_eq, Program.scalarTypes]

theorem verifyArith_eq (kind : ArithKind) : now.verifyArith op kind = start.verifyArith op kind := by
  cases kind <;>
    simp only [Program.verifyArith, Program.verifyScalarConstant, Program.verifySameTypes,
      Program.verifyCompare, Program.verifySelect, Program.verifyScalarCast, alike.scalarTypes_eq,
      alike.attributes_eq, alike.resultType?_eq, alike.constantValue?_eq]

theorem verifyMath_eq : now.verifyMath op = start.verifyMath op := by
  rw [Program.verifyMath, alike.typedOperands_eq, alike.typedResults_eq, Program.verifyMath]

theorem verifyMemref_eq (kind : MemrefKind) : now.verifyMemref op kind = start.verifyMemref op kind := by
  cases kind <;>
    simp only [Program.verifyMemref, Program.verifyAccess, alike.typedOperands_eq, alike.resultType?_eq]

/-! ### Rules for tensors -/

theorem tensorTypes_eq (arity : Nat) : now.tensorTypes op arity = start.tensorTypes op arity := by
  rw [Program.tensorTypes, alike.typedOperands_eq, alike.typedResults_eq, Program.tensorTypes]

theorem expectArray_eq (name : String) : now.expectArray op name = start.expectArray op name := by
  rw [Program.expectArray, alike.attributes_eq, Program.expectArray]

theorem verifyTosa_eq (kind : TosaKind) : now.verifyTosa op kind = start.verifyTosa op kind := by
  cases kind <;>
    simp only [Program.verifyTosa, Program.verifyFloatElementwise, Program.verifyElementwise,
      Program.verifyTensorClamp, Program.verifyTensorReshape, Program.verifyTensorConstant,
      Program.unaryTypes, Program.binaryTypes, Program.outOfRange, alike.tensorTypes_eq,
      alike.expectArray_eq, alike.attributes_eq, alike.report_eq]

/-! ### Rules for values -/

theorem expectSignature_eq (operands results : List TorchType) :
    now.expectSignature op operands results = start.expectSignature op operands results := by
  simp only [Program.expectSignature, alike.length_operands, alike.length_results, alike.operandType_eq,
    alike.resultType_eq]

theorem forall₂_operands : List.Forall₂ (fun value other => now.typed value = start.typed other)
    (now.operands op) (start.operands op) := by
  have same := List.forall₂_eq_eq_eq.symm ▸ alike.operands
  rwa [List.forall₂_map_left_iff, List.forall₂_map_right_iff] at same

theorem checkElement_eq (index : Nat) (element : TorchType) :
    now.checkElement op index element = start.checkElement op index element := by
  rw [Program.checkElement, alike.operandType_eq, Program.checkElement]

theorem verifyDict_eq : now.verifyDict op = start.verifyDict op := by
  unfold Program.verifyDict
  rw [alike.resultType_eq, alike.attributes_eq]
  refine bind_congr fun type => ?_
  split
  case h_2 => rfl
  case h_1 key value =>
    simp only [alike.length_operands, List.length_take, List.length_drop]
    split
    case isTrue => rfl
    case isFalse =>
      have types := alike.forall₂_operands
      -- First the keys and then the values are compared with one type.
      have groups (count : Nat) : List.Forall₂ (fun new old => new.1 = old.1 ∧
          List.Forall₂ (fun value other => now.typed value = start.typed other) new.2 old.2)
          [(key, (now.operands op).take count), (value, (now.operands op).drop count)]
          [(key, (start.operands op).take count), (value, (start.operands op).drop count)] :=
        .cons ⟨rfl, List.forall₂_take _ types⟩ (.cons ⟨rfl, List.forall₂_drop _ types⟩ .nil)
      refine bind_congr_left (forIn_congr (groups _) ?_ _) _
      rintro ⟨expected, values⟩ ⟨_, others⟩ ⟨rfl, same⟩
      funext _
      refine bind_congr_left (forIn_congr same (fun value other typed => ?_) _) _
      rw [Program.torchTypeOf?_congr typed]

/-- The value of a constant is in its attributes. -/
theorem fold?_eq {kind : TorchKind} (isKind : start.kind op = .torch kind) (isConst : kind.isConst = true) :
    now.fold? op = start.fold? op := by
  have constant {program : Program} (isKind : program.kind op = .torch kind) :
      program.fold? op = program.torchConstant? op kind := by
    rw [Program.fold?, Program.foldWithin, isKind]
    cases kind <;> first | rfl | cases isConst
  rw [constant isKind, constant (alike.kind_eq.trans isKind)]
  cases kind <;> simp only [Program.torchConstant?, alike.attributes_eq]

theorem verifyTorchValue_eq {kind : TorchKind} (isKind : start.kind op = .torch kind) :
    now.verifyTorchValue op kind = start.verifyTorchValue op kind := by
  cases kind <;>
    simp only [Program.verifyTorchValue, Program.verifyCopy, Program.verifyStaticCast, Program.verifyList,
      Program.verifyTuple, alike.verifyDict_eq, alike.checkElement_eq, alike.expectSignature_eq,
      alike.operandType_eq, alike.resultType_eq, alike.length_operands, alike.length_results,
      TorchKind.isConst, if_true, Bool.false_eq_true, if_false]
  all_goals rw [alike.fold?_eq isKind rfl]

end Program.Alike

end TensorIR
