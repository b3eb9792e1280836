import TensorIR.Proofs.Scalar.Running
import TensorIR.Proofs.Tensors.Grids

/-!
# Operations on whole tensors have results of their type

The rule for an operation on whole tensors and its evaluation are written independently of each other. In a
valid program they agree: an operation whose operands hold arrays of their declared types has a result, and
this is an array of the declared type.

## Main definitions

* `Run.Yields` — a step gives an array that fits a type, and leaves the machine as it is
* `Program.OperandsFit`, `Program.YieldsResult` — the operands of an operation hold arrays of their declared
  types, and its result does

## Main results

* `Program.yields_of_verifyTosa` — an operation that keeps the rule of its kind
* `Program.yields_of_verify` — an operation of a valid program
-/

namespace TensorIR

open Shape

/-- The step gives an array that fits a type, and leaves the machine as it is. -/
def Run.Yields (machine : Machine) (step : Run Grid) (type : ShapedType) : Prop :=
  ∃ grid, step.run machine = .ok (grid, machine) ∧ grid.Fits type.shape type.element

/-- Every operand that is declared to be a tensor or buffer holds an array that fits its type. -/
def Program.OperandsFit (program : Program) (op : OpId) (machine : Machine) : Prop :=
  ∀ value ∈ program.operands op, ∀ type, program.typed value = .ok (.shaped type) →
    Run.Yields machine (Run.readGrid program value) type

/-- The operation has one result, and a run of it gives an array of the declared type. -/
def Program.YieldsResult (program : Program) (op : OpId) (kind : TosaKind) (machine : Machine) : Prop :=
  ∃ value type, program.results op = [value] ∧ program.typed value = .ok (.shaped type) ∧
    Run.Yields machine (Run.tosaOp program op kind) type

/-- The operands of an operation and its one result have tensor types whose sizes are all known. -/
structure Program.TensorTyped (program : Program) (op : OpId) (operands : List ShapedType) (value : ValueId)
    (result : ShapedType) : Prop where
  results : program.results op = [value]
  typed : program.typed value = .ok (.shaped result)
  static : Static result.shape
  operands : List.Forall₂ (fun value type => program.typed value = .ok (.shaped type) ∧ Static type.shape)
    (program.operands op) operands

section Rules

variable {program : Program} {op : OpId} {machine : Machine} {value : ValueId}
  {a b operand result : ShapedType}

/-! ### What the rules tell -/

theorem of_ofShape_eq_ok {α : Type} {answer : Except ShapeFault α} {found : α}
    (run : ofShape answer = .ok found) : answer = .ok found := by
  cases answer with
  | error fault => cases run
  | ok other =>
    cases run
    rfl

theorem of_expectResult {shape : List Int} {element : ScalarType}
    (kept : expectResult result shape element = .ok ()) : result.shape = shape ∧ result.element = element := by
  rw [expectResult] at kept
  split at kept
  case isTrue same => exact same
  case isFalse => cases kept

/-- The shape of the result is the one that follows. -/
theorem of_expectResult_ofShape {answer : Except ShapeFault (List Int)} {element : ScalarType}
    (kept : (do expectResult result (← ofShape answer) element) = .ok ()) :
    answer = .ok result.shape ∧ result.element = element := by
  obtain ⟨shape, isShape, kept⟩ := of_bind_eq_ok kept
  obtain ⟨same, sameElement⟩ := of_expectResult kept
  rw [same]
  exact ⟨of_ofShape_eq_ok isShape, sameElement⟩

theorem of_expectTensor {type : Ty} {shaped : ShapedType} (kept : expectTensor type = .ok shaped) :
    type = .shaped shaped ∧ Static shaped.shape := by
  rw [expectTensor.eq_def] at kept
  split at kept
  case h_2 => cases kept
  case h_1 other =>
    split at kept
    case isFalse => cases kept
    case isTrue isTensor =>
      cases kept
      have static := List.all_eq_true.mp isTensor.2
      simp only [decide_eq_true_eq] at static
      exact ⟨rfl, static⟩

namespace Program

theorem of_tensorTypes {arity : Nat} {operands : List ShapedType}
    (found : program.tensorTypes op arity = .ok (operands, result)) :
    ∃ value, program.TensorTyped op operands value result ∧ operands.length = arity := by
  obtain ⟨operandTypes, typedOperands, found⟩ := of_bind_eq_ok found
  obtain ⟨resultTypes, typedResults, found⟩ := of_bind_eq_ok found
  split at found
  case h_2 => cases found
  case h_1 type =>
    obtain ⟨counted, found⟩ := of_check_eq_ok found
    obtain ⟨tensors, areTensors, found⟩ := of_bind_eq_ok found
    obtain ⟨tensor, isTensor, found⟩ := of_bind_eq_ok found
    cases found
    obtain ⟨rfl, static⟩ := of_expectTensor isTensor
    obtain ⟨value, results, isTyped⟩ : ∃ value, program.results op = [value] ∧
        program.typed value = .ok (.shaped result) := by
      have typed := forall₂_of_mapM_eq_ok typedResults
      generalize program.results op = values at typed ⊢
      cases typed with
      | cons isTyped rest =>
        cases rest
        exact ⟨_, rfl, isTyped⟩
    have each := forall₂_comp (forall₂_of_mapM_eq_ok typedOperands) (forall₂_of_mapM_eq_ok areTensors)
    refine ⟨value, ⟨results, isTyped, static, each.imp ?_⟩, ?_⟩
    · rintro value type ⟨declared, isDeclared, isTensor⟩
      obtain ⟨rfl, static⟩ := of_expectTensor isTensor
      exact ⟨isDeclared, static⟩
    · rw [← (forall₂_of_mapM_eq_ok areTensors).length_eq]
      exact not_not.mp counted

theorem array?_of_expectArray {name : String} {values : List Int}
    (isArray : program.expectArray op name = .ok values) :
    (program.attributes op).array? name = some values := by
  unfold expectArray at isArray
  split at isArray
  case h_1 isFound =>
    cases isArray
    exact isFound
  case h_2 => cases isArray

theorem of_unaryTypes (found : program.unaryTypes op = .ok (operand, result)) :
    ∃ value, program.TensorTyped op [operand] value result := by
  obtain ⟨⟨operands, type⟩, found, isPair⟩ := of_bind_eq_ok found
  obtain ⟨value, typed, length_eq⟩ := of_tensorTypes found
  obtain ⟨first, rfl⟩ := List.length_eq_one_iff.mp length_eq
  cases isPair
  exact ⟨value, typed⟩

theorem of_binaryTypes (found : program.binaryTypes op = .ok (a, b, result)) :
    ∃ value, program.TensorTyped op [a, b] value result ∧ a.element = b.element := by
  obtain ⟨⟨operands, type⟩, found, checked⟩ := of_bind_eq_ok found
  obtain ⟨value, typed, length_eq⟩ := of_tensorTypes found
  obtain ⟨first, second, rfl⟩ := List.length_eq_two.mp length_eq
  obtain ⟨same, isPair⟩ := of_check_eq_ok checked
  cases isPair
  exact ⟨value, typed, not_not.mp same⟩

/-- Operations on whole tensors keep the type of the elements, but for conversions. Some of them are on
floating-point numbers only. -/
theorem of_verifyTosa {kind : TosaKind} (kept : program.verifyTosa op kind = .ok ())
    (computes : kind ≠ .const) : ∃ operand types value shaped,
      program.TensorTyped op (operand :: types) value shaped ∧
        (kind ≠ .cast → operand.element = shaped.element) ∧
          (kind ∈ [.reciprocal, .exp, .tanh, .sigmoid] → shaped.element.isFloat = true) := by
  have unary {operand shaped : ShapedType} (types : program.unaryTypes op = .ok (operand, shaped))
      (same : kind ≠ .cast → shaped.element = operand.element)
      (isFloat : kind ∈ [.reciprocal, .exp, .tanh, .sigmoid] → shaped.element.isFloat = true) :
      ∃ operand types value shaped, program.TensorTyped op (operand :: types) value shaped ∧
        (kind ≠ .cast → operand.element = shaped.element) ∧
          (kind ∈ [.reciprocal, .exp, .tanh, .sigmoid] → shaped.element.isFloat = true) := by
    obtain ⟨value, typed⟩ := of_unaryTypes types
    exact ⟨operand, [], value, shaped, typed, fun other => (same other).symm, isFloat⟩
  have elementwise (kept : program.verifyElementwise op = .ok ()) : ∃ operand shaped,
      program.unaryTypes op = .ok (operand, shaped) ∧ shaped.element = operand.element := by
    obtain ⟨⟨operand, shaped⟩, types, kept⟩ := of_bind_eq_ok kept
    exact ⟨operand, shaped, types, (of_expectResult kept).2⟩
  cases kind with
  | const => exact absurd rfl computes
  | add | sub | mul | maximum | minimum | matmul =>
    obtain ⟨⟨a, b, shaped⟩, types, kept⟩ := of_bind_eq_ok kept
    obtain ⟨value, typed, -⟩ := of_binaryTypes types
    obtain ⟨-, same⟩ := of_expectResult_ofShape kept
    exact ⟨a, [b], value, shaped, typed, fun _ => same.symm, by simp⟩
  | negate | abs =>
    obtain ⟨operand, shaped, types, same⟩ := elementwise kept
    exact unary types (fun _ => same) (by simp)
  | clamp =>
    obtain ⟨_, kept, -⟩ := of_bind_eq_ok kept
    obtain ⟨operand, shaped, types, same⟩ := elementwise kept
    exact unary types (fun _ => same) (by simp)
  | reciprocal | exp | tanh | sigmoid =>
    obtain ⟨⟨first, _⟩, found, kept⟩ := of_bind_eq_ok kept
    obtain ⟨isFloat, kept⟩ := of_check_eq_ok kept
    obtain ⟨operand, shaped, types, same⟩ := elementwise kept
    obtain ⟨rfl, -⟩ := Prod.mk.inj (Except.ok.inj (found.symm.trans types))
    exact unary types (fun _ => same) fun _ => by simpa [same] using isFloat
  | cast =>
    obtain ⟨⟨operand, shaped⟩, types, kept⟩ := of_bind_eq_ok kept
    exact unary types (absurd rfl) (by simp)
  | reshape =>
    obtain ⟨⟨operand, shaped⟩, types, kept⟩ := of_bind_eq_ok kept
    obtain ⟨shape, -, kept⟩ := of_bind_eq_ok kept
    obtain ⟨-, kept⟩ := of_check_eq_ok kept
    exact unary types (fun _ => (of_expectResult kept).2) (by simp)
  | transpose | tile =>
    obtain ⟨⟨operand, shaped⟩, types, kept⟩ := of_bind_eq_ok kept
    obtain ⟨_, -, kept⟩ := of_bind_eq_ok kept
    exact unary types (fun _ => (of_expectResult_ofShape kept).2) (by simp)
  | slice =>
    obtain ⟨⟨operand, shaped⟩, types, kept⟩ := of_bind_eq_ok kept
    obtain ⟨_, -, kept⟩ := of_bind_eq_ok kept
    obtain ⟨_, -, kept⟩ := of_bind_eq_ok kept
    exact unary types (fun _ => (of_expectResult_ofShape kept).2) (by simp)
  | pad =>
    obtain ⟨⟨operand, shaped⟩, types, kept⟩ := of_bind_eq_ok kept
    obtain ⟨-, kept⟩ := of_check_eq_ok kept
    obtain ⟨_, -, kept⟩ := of_bind_eq_ok kept
    exact unary types (fun _ => (of_expectResult_ofShape kept).2) (by simp)
  | reduceSum =>
    obtain ⟨⟨operand, shaped⟩, types, kept⟩ := of_bind_eq_ok kept
    dsimp only at kept
    split at kept
    case h_2 => cases kept
    exact unary types (fun _ => (of_expectResult_ofShape kept).2) (by simp)

end Program

/-- Constants have as many elements as they are asked for. -/
theorem DenseData.length_expand (data : DenseData) {count : Nat}
    (full : ¬((!data.isSplat) = true ∧ (data.values.length : Int) ≠ count)) :
    (data.expand count).length = count := by
  rw [expand]
  split
  · exact List.length_replicate
  case isFalse notSplat =>
    by_contra differs
    apply full
    exact ⟨by simpa using notSplat, by omega⟩

/-! ### Running an operation -/

namespace Program.TensorTyped

theorem result_eq {types : List ShapedType} (typed : program.TensorTyped op types value result) :
    program.result op 0 = .ok value := by
  rw [Program.result, typed.results]
  rfl

/-- An operand is there, and holds an array of its type. -/
theorem exists_operand {types : List ShapedType} (index : Nat) (typed : program.TensorTyped op types value result)
    (fit : program.OperandsFit op machine) (isType : types[index]? = some operand) :
    Static operand.shape ∧ ∃ source x, (Run.operand program op index).run machine = .ok (source, machine) ∧
      (Run.readGrid program source).run machine = .ok (x, machine) ∧ x.Fits operand.shape operand.element := by
  obtain ⟨source, isSource, isTyped, static⟩ := forall₂_getElem? typed.operands.flip isType
  obtain ⟨x, isRead, fits⟩ := fit source (List.mem_of_getElem? isSource) operand isTyped
  refine ⟨static, source, x, Run.run_operand ?_, isRead, fits⟩
  rw [Program.operand, isSource]

/-- An operation on one tensor goes on with the array that its operand holds. -/
theorem yields {kind : TosaKind} {types : List ShapedType}
    (typed : program.TensorTyped op (operand :: types) value result) (fit : program.OperandsFit op machine)
    (computes : kind ≠ .const)
    (each : Static operand.shape → ∀ x, x.Fits operand.shape operand.element →
      Run.Yields machine (Run.tensorOp program op kind result x) result) :
    Run.Yields machine (Run.tosaOp program op kind) result := by
  obtain ⟨static, source, x, isOperand, isRead, fits⟩ := typed.exists_operand 0 fit rfl
  rw [Run.Yields, Run.tosaOp, Run.run_bind_of (Run.run_lift typed.result_eq),
    Run.run_bind_of (Run.run_lift typed.typed)]
  simp only [if_neg computes]
  rw [Run.run_bind_of isOperand, Run.run_bind_of isRead]
  exact each static x fits

/-- An operation on two tensors goes on with both arrays. -/
theorem yields_second {next : Grid → Run Grid} (typed : program.TensorTyped op [a, b] value result)
    (fit : program.OperandsFit op machine)
    (each : ∀ y, y.Fits b.shape b.element → Run.Yields machine (next y) result) :
    Run.Yields machine (do next (← Run.readGrid program (← Run.operand program op 1))) result := by
  obtain ⟨-, source, y, isOperand, isRead, fits⟩ := typed.exists_operand 1 fit rfl
  rw [Run.Yields, Run.run_bind_of isOperand, Run.run_bind_of isRead]
  exact each y fits

end Program.TensorTyped

theorem yields_lift {answer : Except Error Grid}
    (found : ∃ grid, answer = .ok grid ∧ grid.Fits result.shape result.element) :
    Run.Yields machine (monadLift answer) result := by
  obtain ⟨grid, isGrid, fits⟩ := found
  exact ⟨grid, Run.run_lift isGrid, fits⟩

/-- An attribute that the rule asks for is there when the operation runs. -/
theorem yields_arrayAttribute {name : String} {values : List Int} {next : List Int → Run Grid}
    (isArray : program.expectArray op name = .ok values) (goesOn : Run.Yields machine (next values) result) :
    Run.Yields machine (do next (← Run.arrayAttribute program op name)) result := by
  have isValues : (Run.arrayAttribute program op name).run machine = .ok (values, machine) := by
    rw [Run.arrayAttribute, Program.array?_of_expectArray isArray]
    rfl
  rw [Run.Yields, Run.run_bind_of isValues]
  exact goesOn

/-! ### One operation of each kind -/

namespace Program

theorem yields_onElement {kind : TosaKind} {compute : ScalarType → Scalar → Scalar}
    (typed : program.TensorTyped op [operand] value result) (fit : program.OperandsFit op machine)
    (computes : kind ≠ .const) (same : result.shape = operand.shape)
    (single : Run.onElements? result.element kind = none)
    (isCompute : ∀ source, Run.onElement? (program.attributes op) source result.element kind =
      some (compute source)) : Run.Yields machine (Run.tosaOp program op kind) result := by
  apply typed.yields fit computes
  intro static x fits
  unfold Run.tensorOp
  simp only [single, isCompute]
  apply yields_lift
  rw [same]
  exact Grid.map_fits fits static _ _

theorem yields_onElements {kind : TosaKind} {compute : Scalar → Scalar → Scalar}
    (typed : program.TensorTyped op [a, b] value result) (fit : program.OperandsFit op machine)
    (computes : kind ≠ .const) (common : ofBroadcast a.shape b.shape = .ok result.shape)
    (isCompute : Run.onElements? result.element kind = some compute) :
    Run.Yields machine (Run.tosaOp program op kind) result := by
  apply typed.yields fit computes
  intro static x fits
  unfold Run.tensorOp
  simp only [isCompute]
  apply typed.yields_second fit
  intro y fitsToo
  apply yields_lift
  exact Grid.combine_fits fits fitsToo common typed.static _ _

/-- An operation on one tensor goes on with the array that its operand holds. -/
theorem yieldsResult_unary {kind : TosaKind} (types : program.unaryTypes op = .ok (operand, result))
    (fit : program.OperandsFit op machine) (computes : kind ≠ .const)
    (each : Static operand.shape → Static result.shape → ∀ x, x.Fits operand.shape operand.element →
      Run.Yields machine (Run.tensorOp program op kind result x) result) :
    program.YieldsResult op kind machine := by
  obtain ⟨value, typed⟩ := of_unaryTypes types
  refine ⟨value, result, typed.results, typed.typed, typed.yields fit computes fun static => ?_⟩
  exact each static typed.static

/-- An operation on each element that keeps its rule. -/
theorem yields_of_verifyElementwise {kind : TosaKind} {compute : ScalarType → ScalarType → Scalar → Scalar}
    (kept : program.verifyElementwise op = .ok ()) (fit : program.OperandsFit op machine)
    (computes : kind ≠ .const) (single : ∀ element, Run.onElements? element kind = none)
    (isCompute : ∀ source element, Run.onElement? (program.attributes op) source element kind =
      some (compute source element)) : program.YieldsResult op kind machine := by
  obtain ⟨⟨operand, result⟩, types, kept⟩ := of_bind_eq_ok kept
  obtain ⟨value, typed⟩ := of_unaryTypes types
  obtain ⟨same, -⟩ := of_expectResult kept
  exact ⟨value, result, typed.results, typed.typed,
    yields_onElement typed fit computes same (single _) fun source => isCompute source _⟩

theorem yields_reshape (kept : program.verifyTosa op .reshape = .ok ())
    (fit : program.OperandsFit op machine) : program.YieldsResult op .reshape machine := by
  obtain ⟨⟨operand, result⟩, types, kept⟩ := of_bind_eq_ok kept
  obtain ⟨shape, isArray, kept⟩ := of_bind_eq_ok kept
  obtain ⟨full, kept⟩ := of_check_eq_ok kept
  obtain ⟨same, sameElement⟩ := of_expectResult kept
  apply yieldsResult_unary types fit (by decide)
  intro static _ x fits
  apply yields_arrayAttribute isArray
  refine ⟨_, rfl, ?_⟩
  rw [same]
  exact Grid.reshaped_fits fits (not_not.mp (not_or.mp full).2)

theorem yields_transpose (kept : program.verifyTosa op .transpose = .ok ())
    (fit : program.OperandsFit op machine) : program.YieldsResult op .transpose machine := by
  obtain ⟨⟨operand, result⟩, types, kept⟩ := of_bind_eq_ok kept
  obtain ⟨order, isArray, kept⟩ := of_bind_eq_ok kept
  obtain ⟨rule, sameElement⟩ := of_expectResult_ofShape kept
  apply yieldsResult_unary types fit (by decide)
  intro _ static x fits
  apply yields_arrayAttribute isArray
  apply yields_lift
  rw [sameElement]
  exact Grid.transpose_fits fits rule static

theorem yields_slice (kept : program.verifyTosa op .slice = .ok ())
    (fit : program.OperandsFit op machine) : program.YieldsResult op .slice machine := by
  obtain ⟨⟨operand, result⟩, types, kept⟩ := of_bind_eq_ok kept
  obtain ⟨start, isArray, kept⟩ := of_bind_eq_ok kept
  obtain ⟨size, -, kept⟩ := of_bind_eq_ok kept
  obtain ⟨rule, sameElement⟩ := of_expectResult_ofShape kept
  apply yieldsResult_unary types fit (by decide)
  intro _ static x fits
  apply yields_arrayAttribute isArray
  apply yields_lift
  rw [sameElement]
  exact Grid.slice_fits fits rule static

theorem yields_pad (kept : program.verifyTosa op .pad = .ok ())
    (fit : program.OperandsFit op machine) : program.YieldsResult op .pad machine := by
  obtain ⟨⟨operand, result⟩, types, kept⟩ := of_bind_eq_ok kept
  obtain ⟨-, kept⟩ := of_check_eq_ok kept
  obtain ⟨padding, isArray, kept⟩ := of_bind_eq_ok kept
  obtain ⟨rule, -⟩ := of_expectResult_ofShape kept
  apply yieldsResult_unary types fit (by decide)
  intro static staticResult x fits
  apply yields_arrayAttribute isArray
  apply yields_lift
  exact Grid.pad_fits fits static rule staticResult _ _

theorem yields_tile (kept : program.verifyTosa op .tile = .ok ())
    (fit : program.OperandsFit op machine) : program.YieldsResult op .tile machine := by
  obtain ⟨⟨operand, result⟩, types, kept⟩ := of_bind_eq_ok kept
  obtain ⟨multiples, -, kept⟩ := of_bind_eq_ok kept
  obtain ⟨rule, sameElement⟩ := of_expectResult_ofShape kept
  apply yieldsResult_unary types fit (by decide)
  intro static staticResult x fits
  apply yields_lift
  rw [sameElement]
  exact Grid.tile_fits fits static rule staticResult

theorem yields_reduceSum (kept : program.verifyTosa op .reduceSum = .ok ())
    (fit : program.OperandsFit op machine) : program.YieldsResult op .reduceSum machine := by
  obtain ⟨⟨operand, result⟩, types, kept⟩ := of_bind_eq_ok kept
  dsimp only at kept
  split at kept
  case h_2 => cases kept
  case h_1 axis isAxis =>
    obtain ⟨rule, -⟩ := of_expectResult_ofShape kept
    apply yieldsResult_unary types fit (by decide)
    intro static staticResult x fits
    apply yields_lift
    rw [isAxis]
    exact Grid.reduceSum_fits fits static rule staticResult _

theorem yields_matmul (kept : program.verifyTosa op .matmul = .ok ())
    (fit : program.OperandsFit op machine) : program.YieldsResult op .matmul machine := by
  obtain ⟨⟨a, b, result⟩, types, kept⟩ := of_bind_eq_ok kept
  obtain ⟨value, typed, sameElement⟩ := of_binaryTypes types
  obtain ⟨rule, -⟩ := of_expectResult_ofShape kept
  refine ⟨value, result, typed.results, typed.typed, typed.yields fit (by decide) ?_⟩
  intro static x fits
  apply typed.yields_second fit
  intro y fitsToo
  apply yields_lift
  rw [← sameElement] at fitsToo
  exact Grid.matmul_fits fits fitsToo rule typed.static _

/-- A constant has as many elements as its type asks for, if these can be counted. -/
theorem yields_const (kept : program.verifyTosa op .const = .ok ())
    (small : ∀ value ∈ program.results op, ∀ type, program.typed value = .ok (.shaped type) →
      Shape.product type.shape < 2 ^ 63) : program.YieldsResult op .const machine := by
  obtain ⟨⟨operands, result⟩, types, kept⟩ := of_bind_eq_ok kept
  obtain ⟨value, typed, -⟩ := of_tensorTypes types
  refine ⟨value, result, typed.results, typed.typed, ?_⟩
  dsimp only at kept
  split at kept
  · cases kept
  case h_2 data isData =>
    split at kept
    · cases kept
    case isFalse full =>
      have isSmall := small value (by rw [typed.results]; exact List.mem_cons_self) result typed.typed
      have counted := Grid.count_eq typed.static (by omega)
      rw [Run.Yields, Run.tosaOp, Run.run_bind_of (Run.run_lift typed.result_eq),
        Run.run_bind_of (Run.run_lift typed.typed)]
      simp only [if_pos, isData]
      apply yields_lift
      apply Grid.ofValues_fits typed.static (by omega)
      rw [data.length_expand (by rw [counted]; exact full), counted]

/-- An operation that keeps its rule gives an array of its declared type. -/
theorem yields_of_verifyTosa {kind : TosaKind} (kept : program.verifyTosa op kind = .ok ())
    (fit : program.OperandsFit op machine)
    (small : ∀ value ∈ program.results op, ∀ type, program.typed value = .ok (.shaped type) →
      Shape.product type.shape < 2 ^ 63) : program.YieldsResult op kind machine := by
  cases kind with
  | add | sub | mul | maximum | minimum =>
    obtain ⟨⟨a, b, result⟩, types, kept⟩ := of_bind_eq_ok kept
    obtain ⟨value, typed, -⟩ := of_binaryTypes types
    obtain ⟨common, -⟩ := of_expectResult_ofShape kept
    exact ⟨value, result, typed.results, typed.typed, yields_onElements typed fit (by decide) common rfl⟩
  | negate | abs =>
    exact yields_of_verifyElementwise kept fit (by decide) (fun _ => rfl) fun _ _ => rfl
  | reciprocal | exp | tanh | sigmoid =>
    obtain ⟨_, -, kept⟩ := of_bind_eq_ok kept
    obtain ⟨-, kept⟩ := of_check_eq_ok kept
    exact yields_of_verifyElementwise kept fit (by decide) (fun _ => rfl) fun _ _ => rfl
  | clamp =>
    obtain ⟨_, kept, -⟩ := of_bind_eq_ok kept
    exact yields_of_verifyElementwise kept fit (by decide) (fun _ => rfl) fun _ _ => rfl
  | cast =>
    obtain ⟨⟨operand, result⟩, types, kept⟩ := of_bind_eq_ok kept
    obtain ⟨value, typed⟩ := of_unaryTypes types
    obtain ⟨same, -⟩ := of_expectResult kept
    exact ⟨value, result, typed.results, typed.typed,
      yields_onElement typed fit (by decide) same rfl fun _ => rfl⟩
  | reshape => exact yields_reshape kept fit
  | transpose => exact yields_transpose kept fit
  | slice => exact yields_slice kept fit
  | pad => exact yields_pad kept fit
  | tile => exact yields_tile kept fit
  | matmul => exact yields_matmul kept fit
  | reduceSum => exact yields_reduceSum kept fit
  | const => exact yields_const kept small

/-- Every operation on whole tensors in a valid program whose operands hold arrays of their declared types,
and whose result has no more elements than can be counted, gives an array of its declared type. -/
theorem yields_of_verify {kind : TosaKind} (valid : program.verify = .ok ()) (member : op ∈ program.tree.ops)
    (isKind : program.kind op = .tosa kind) (fit : program.OperandsFit op machine)
    (small : ∀ value ∈ program.results op, ∀ type, program.typed value = .ok (.shaped type) →
      Shape.product type.shape < 2 ^ 63) :
    ∃ value type, program.results op = [value] ∧ program.typed value = .ok (.shaped type) ∧
      Run.Yields machine (Run.tosaOp program op kind) type := by
  obtain ⟨symbols, -, rules⟩ := keepsRule_of_verify valid
  have kept := rules op member
  rw [verifyOp, isKind] at kept
  exact yields_of_verifyTosa kept fit small

end Program

end Rules

/-- A column and a row are added up, each repeated along the dimension in which it has size one. -/
def stretching : Program where
  values := #[⟨some "%x", some (.shaped (.tensor [2, 1] .i32)), .argument (some ⟨1⟩)⟩,
    ⟨some "%y", some (.shaped (.tensor [1, 3] .i32)), .argument (some ⟨1⟩)⟩,
    ⟨some "%0", some (.shaped (.tensor [2, 3] .i32)), .result ⟨2⟩⟩]
  operations := #[
    { kind := .module },
    { kind := .func .func, attributes := Attributes.empty.insert "sym_name" (.symbol "f") },
    { kind := .tosa .add, operands := [⟨0⟩, ⟨1⟩], results := [⟨2⟩] },
    { kind := .func .ret }]
  headers := #[{}, { arguments := [⟨0⟩, ⟨1⟩] }]
  root := ⟨0⟩
  regions := .single ⟨0⟩ (.single ⟨1⟩ (.single ⟨1⟩ (.cons ⟨2⟩ .nil (.single ⟨3⟩ .nil))))

/-- The machine with a column and a row as the arguments of the function. -/
def stretchingStart : Machine where
  frame := #[some (.tensor ⟨[2, 1], .i32, #[.int 10, .int 20]⟩),
    some (.tensor ⟨[1, 3], .i32, #[.int 1, .int 2, .int 3]⟩), none]

theorem stretching_operandsFit : stretching.OperandsFit ⟨2⟩ stretchingStart := by
  intro value member type typed
  rcases List.mem_cons.mp member with rfl | member
  · cases typed
    exact ⟨_, rfl, rfl, rfl, rfl⟩
  · cases List.mem_singleton.mp member
    cases typed
    exact ⟨_, rfl, rfl, rfl, rfl⟩

/-- The sum of a column and a row has all their combinations. -/
theorem yields_of_verify_stretching : stretching.verify = .ok () ∧
    Run.Yields stretchingStart (Run.tosaOp stretching ⟨2⟩ .add) (.tensor [2, 3] .i32) := by
  have valid : stretching.verify = .ok () := rfl
  have small : ∀ value ∈ stretching.results ⟨2⟩, ∀ type, stretching.typed value = .ok (.shaped type) →
      Shape.product type.shape < 2 ^ 63 := by
    intro value member type typed
    cases List.mem_singleton.mp member
    cases typed
    decide
  obtain ⟨value, type, results, typed, yields⟩ := Program.yields_of_verify valid
    (show ⟨2⟩ ∈ stretching.tree.ops by decide +kernel) rfl stretching_operandsFit small
  cases results
  cases typed
  exact ⟨valid, yields⟩

end TensorIR
