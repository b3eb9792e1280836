import TensorIR.Lower
import TensorIR.Proofs.Success

/-!
# What lowering builds

The lowering of an operation builds operations of the target only, whether it succeeds or fails on the
way. They use operands of operations that are there, and values that have been built before. What follows
from this is derived once for everything that can be concluded from how the single operations are built.

## Main definitions

* `OpKind.isSource` — the kinds of programs before lowering
* `BuildRules` — rules from which something is concluded about steps of building
* `BuildsTarget` — a step builds operations of other kinds only

## Main results

* `BuildRules.tosa_tensorOp`, `BuildRules.tosa_scalarOp` — lowering to operations on whole tensors
* `BuildRules.loops_tensorOp`, `BuildRules.loops_scalarOp` — lowering to loops over buffers
* `targetRules` — lowering builds operations of the target
-/

namespace TensorIR

variable {α β : Type}

/-- The operation belongs to programs before lowering: a module, a function, a call, a return, or a
torch operation. -/
def OpKind.isSource : OpKind → Bool
  | module | func _ | torch _ => true
  | arith _ | math _ | memref _ | scf _ | tosa _ => false

/-- The operation belongs to lowered programs only. -/
def OpKind.IsTarget (kind : OpKind) : Prop :=
  kind.isSource = false

namespace OpKind

variable {arithKind : ArithKind} {mathKind : MathKind} {memrefKind : MemrefKind} {scfKind : ScfKind}
  {tosaKind : TosaKind}

theorem isTarget_arith : IsTarget (arith arithKind) := rfl

theorem isTarget_math : IsTarget (math mathKind) := rfl

theorem isTarget_memref : IsTarget (memref memrefKind) := rfl

theorem isTarget_scf : IsTarget (scf scfKind) := rfl

theorem isTarget_tosa : IsTarget (tosa tosaKind) := rfl

end OpKind

open OpKind

/-- A type to which a type is lowered is none of torch. -/
theorem Target.torch?_of_lowered? {target : Target} {type lowered : Ty}
    (isLowered : target.lowered? type = .ok (some lowered)) : lowered.torch? = none := by
  unfold Target.lowered? at isLowered
  split at isLowered
  · cases isLowered; cases target <;> rfl
  · cases isLowered; cases target <;> rfl
  · cases isLowered; cases target <;> rfl
  · split at isLowered
    · cases isLowered; cases target <;> rfl
    · cases isLowered
  · cases isLowered
  · cases isLowered
    cases type with
    | torch type => simp_all
    | scalar type => rfl
    | shaped type => rfl

namespace Loops

/-- The counterpart of a type is found without building anything. -/
theorem of_counterpart_eq_ok {op : OpId} {type lowered : Ty} {start after : Draft}
    (run : (counterpart op type).run start = (.ok lowered, after)) :
    Target.loops.lowered? type = .ok (some lowered) ∧ after = start := by
  unfold counterpart at run
  rw [run_bind, Build.run_askFor] at run
  cases isLowered : Target.loops.lowered? type with
  | error error =>
    rw [isLowered] at run
    cases run
  | ok found =>
    rw [isLowered] at run
    cases found with
    | none => cases run
    | some found =>
      cases run
      exact ⟨rfl, rfl⟩

end Loops

theorem Program.mem_of_mem_exchanged {a b : Nat} {items : List α} {item : α}
    (among : item ∈ Program.exchanged a b items) : item ∈ items := by
  unfold Program.exchanged at among
  split at among
  case h_1 x y isX isY =>
    rcases List.mem_or_eq_of_mem_set among with among | rfl
    · rcases List.mem_or_eq_of_mem_set among with among | rfl
      · exact among
      · exact List.mem_of_getElem? isY
    · exact List.mem_of_getElem? isX
  case h_2 => exact among

/-- Rules from which something is concluded about steps that build operations of lowered programs, which
use good values only. Operands of operations that are there are good, and so are the results of what has
been made. -/
structure BuildRules (good : ValueId → Prop) (made : OpId → Prop) where
  /-- What is concluded about a step, and about what it gives. -/
  Holds : {α : Type} → Build α → (α → Prop) → Prop
  pure {α : Type} {gives : α → Prop} {value : α} (given : gives value) : Holds (Pure.pure value) gives
  throw {α : Type} {gives : α → Prop} (error : Error) : Holds (MonadExcept.throw error) gives
  bind {α β : Type} {first : Build α} {next : α → Build β} {between : α → Prop} {gives : β → Prop}
    (holds : Holds first between) (later : ∀ value, between value → Holds (next value) gives) :
    Holds (first >>= next) gives
  ask {α : Type} (question : Program → α) : Holds (Build.ask question) fun _ => True
  askFor {α : Type} {gives : α → Prop} {question : Program → Except Error α}
    (given : ∀ program answer, question program = .ok answer → gives answer) : Holds (Build.askFor question) gives
  operands (op : OpId) (skipped : Nat) :
    Holds (Build.ask fun program => (program.operands op).drop skipped) fun values => ∀ value ∈ values, good value
  operand (op : OpId) (index : Nat) : Holds (Build.askFor fun program => program.operand op index) good
  named (supply : Namer → String × Namer) : Holds (Build.named supply) fun _ => True
  create {kind : OpKind} {operands : List ValueId} (isTarget : kind.IsTarget)
    (known : ∀ operand ∈ operands, good operand) (types : List Ty) (attributes : Attributes) :
    Holds (Build.create kind operands types attributes) made
  result {op : OpId} (isMade : made op) (index : Nat) :
    Holds (Build.askFor fun program => program.result op index) good
  constant (name : String) (value : Option Attribute) (type : Ty) :
    Holds (Build.constant (.arith .constant) name value type) good
  index (position : Int) : Holds (Build.index position) good
  forLoop {lower upper step : ValueId} {initial : List ValueId}
    {body : ValueId → List ValueId → Build (List ValueId)}
    (known : ∀ value ∈ [lower, upper, step] ++ initial, good value)
    (inside : ∀ position carried, good position → (∀ value ∈ carried, good value) →
      Holds (body position carried) fun values => ∀ value ∈ values, good value) :
    Holds (Build.forLoop lower upper step initial body) fun values => ∀ value ∈ values, good value

namespace BuildRules

variable {good : ValueId → Prop} {made : OpId → Prop} (rules : BuildRules good made)

theorem ite {condition : Prop} [Decidable condition] {first second : Build α} {gives : α → Prop}
    (onTrue : rules.Holds first gives) (onFalse : rules.Holds second gives) :
    rules.Holds (if condition then first else second) gives := by
  split
  · exact onTrue
  · exact onFalse

theorem map {step : Build α} {change : α → β} {between : α → Prop} {gives : β → Prop}
    (holds : rules.Holds step between) (given : ∀ value, between value → gives (change value)) :
    rules.Holds (change <$> step) gives := by
  rw [← bind_pure_comp]
  exact rules.bind holds fun value known => rules.pure (given value known)

theorem mapM {step : α → Build β} {gives : β → Prop} (items : List α)
    (each : ∀ item ∈ items, rules.Holds (step item) gives) :
    rules.Holds (items.mapM step) fun values => ∀ value ∈ values, gives value := by
  induction items with
  | nil => exact rules.pure fun _ => (absurd · List.not_mem_nil)
  | cons item items ih =>
    obtain ⟨here, later⟩ := List.forall_mem_cons.mp each
    rw [List.mapM_cons]
    refine rules.bind here fun value given => rules.bind (ih later) fun values others => ?_
    exact rules.pure (List.forall_mem_cons.mpr ⟨given, others⟩)

theorem forIn {step : α → β → Build (ForInStep β)} (items : List α)
    (each : ∀ item ∈ items, ∀ value, rules.Holds (step item value) fun _ => True) (start : β) :
    rules.Holds (forIn items start step) fun _ => True := by
  induction items generalizing start with
  | nil => exact rules.pure trivial
  | cons item items ih =>
    obtain ⟨here, later⟩ := List.forall_mem_cons.mp each
    rw [List.forIn_cons]
    refine rules.bind (here start) fun outcome _ => ?_
    cases outcome with
    | done value => exact rules.pure trivial
    | yield value => exact ih later value

theorem failed (error : Error) : rules.Holds (MonadExcept.throw error : Build α) fun _ => True :=
  rules.throw error

theorem told (question : Program → Except Error α) : rules.Holds (Build.askFor question) fun _ => True :=
  rules.askFor fun _ _ _ => trivial

variable {op : OpId} {kind : OpKind} {operands : List ValueId} {type : Ty} {attributes : Attributes}

theorem value (isTarget : kind.IsTarget) (known : ∀ operand ∈ operands, good operand) :
    rules.Holds (Build.value kind operands type attributes) good :=
  rules.bind (rules.create isTarget known [type] attributes) fun _ isMade => rules.result isMade 0

theorem emit (isTarget : kind.IsTarget) (known : ∀ operand ∈ operands, good operand) :
    rules.Holds (Build.emit kind operands) fun _ => True :=
  rules.bind (rules.create isTarget known [] .empty) fun _ _ => rules.pure trivial

theorem int (number : Int) (type : ScalarType) : rules.Holds (Build.int number type) good :=
  rules.bind (rules.named _) fun _ _ => rules.constant _ _ _

theorem float (number : Float) (type : ScalarType) : rules.Holds (Build.float number type) good :=
  rules.bind (rules.named _) fun _ _ => rules.constant _ _ _

theorem scalar (number : Float) (type : ScalarType) : rules.Holds (Build.scalar number type) good :=
  rules.ite (rules.float number type) (rules.int _ type)

/-- A literal of a type of lowered programs. -/
theorem literal {literal : Literal} (isLowered : type.torch? = none) :
    rules.Holds (Build.literal literal type) fun constant => ∀ value ∈ constant, good value := by
  have some {step : Build ValueId} (holds : rules.Holds step good) :
      rules.Holds (some <$> step) fun constant => ∀ value ∈ constant, good value :=
    rules.map holds fun value given other same => by
      cases same
      exact given
  have none : rules.Holds (Pure.pure none) fun constant => ∀ value ∈ constant, good value :=
    rules.pure fun _ same => nomatch same
  cases type with
  | torch type => cases isLowered
  | shaped type => exact none
  | scalar type =>
    change rules.Holds (Build.scalarLiteral literal type) _
    unfold Build.scalarLiteral
    split
    · exact some (rules.float _ type)
    · exact some (rules.float _ type)
    · exact some (rules.int _ type)
    · exact some (rules.int _ type)
    · exact none

theorem loopNestFrom {positions : List ValueId} {body : List ValueId → Build Unit} (shape : List Int)
    (known : ∀ position ∈ positions, good position)
    (inside : ∀ positions, (∀ position ∈ positions, good position) → rules.Holds (body positions) fun _ => True) :
    rules.Holds (Build.loopNestFrom positions body shape) fun _ => True := by
  induction shape generalizing positions with
  | nil => exact inside positions known
  | cons size sizes ih =>
    refine rules.bind (rules.index 0) fun lower isLower => ?_
    refine rules.bind (rules.index size) fun upper isUpper => ?_
    refine rules.bind (rules.index 1) fun step isStep => ?_
    refine rules.bind (rules.forLoop (by simp [isLower, isUpper, isStep]) fun position _ isPosition _ => ?_)
      fun _ _ => rules.pure trivial
    refine rules.bind (ih ?_) fun _ _ => rules.pure fun _ => (absurd · List.not_mem_nil)
    exact List.forall_mem_append.mpr ⟨known, by simp [isPosition]⟩

theorem loopNest {body : List ValueId → Build Unit} (shape : List Int)
    (inside : ∀ positions, (∀ position ∈ positions, good position) → rules.Holds (body positions) fun _ => True) :
    rules.Holds (Build.loopNest shape body) fun _ => True :=
  rules.loopNestFrom shape (fun _ => (absurd · List.not_mem_nil)) inside

/-! ### Operations on whole tensors -/

section Tosa

open Tosa

variable {value lhs rhs : ValueId} {shape : List Int} {element : ScalarType} {kind : TosaKind}
  {index rank : Nat}

theorem tosa_tensorType : rules.Holds (tensorType value) fun _ => True :=
  rules.told _

theorem tosa_tensor (known : ∀ operand ∈ operands, good operand) :
    rules.Holds (tensor kind operands shape element attributes) good :=
  rules.value isTarget_tosa known

theorem tosa_cast (known : good value) : rules.Holds (cast value element) good :=
  rules.bind rules.tosa_tensorType fun _ _ =>
    rules.ite (rules.pure known) (rules.tosa_tensor (by simp [known]))

theorem tosa_reshape (known : good value) : rules.Holds (reshape value shape) good :=
  rules.bind rules.tosa_tensorType fun _ _ =>
    rules.ite (rules.pure known) (rules.tosa_tensor (by simp [known]))

theorem tosa_toRank (known : good value) : rules.Holds (toRank value rank) good :=
  rules.bind rules.tosa_tensorType fun _ _ => rules.ite (rules.pure known) (rules.tosa_reshape known)

theorem tosa_splat {number : Float} : rules.Holds (splat number rank element) good :=
  rules.tosa_tensor (by simp)

theorem tosa_binary (first : good lhs) (second : good rhs) : rules.Holds (binary kind lhs rhs) good :=
  rules.bind rules.tosa_tensorType fun _ _ => rules.bind rules.tosa_tensorType fun _ _ =>
    rules.bind (rules.told _) fun _ _ => rules.tosa_tensor (by simp [first, second])

theorem tosa_unary (known : good value) : rules.Holds (unary kind value) good :=
  rules.bind rules.tosa_tensorType fun _ _ => rules.value isTarget_tosa (by simp [known])

theorem tosa_clamp {least most : Float} (known : good value) : rules.Holds (clamp value least most) good :=
  rules.bind rules.tosa_tensorType fun _ _ => rules.value isTarget_tosa (by simp [known])

theorem tosa_slice {start size : List Int} (known : good value) : rules.Holds (slice value start size) good :=
  rules.bind rules.tosa_tensorType fun _ _ => rules.tosa_tensor (by simp [known])

theorem tosa_operand : rules.Holds (Tosa.operand op index) good :=
  rules.operand op index

theorem tosa_unsupported {message : String} {gives : α → Prop} :
    rules.Holds (unsupported op message) gives :=
  rules.bind (rules.ask _) fun _ _ => rules.throw _

theorem tosa_notLegalized {gives : α → Prop} : rules.Holds (notLegalized op) gives :=
  rules.bind (rules.ask _) fun _ _ => rules.throw _

theorem tosa_resultTensor : rules.Holds (resultTensor op) fun _ => True :=
  rules.told _

theorem tosa_fitted : rules.Holds (fitted op index shape element) good :=
  rules.bind rules.tosa_operand fun _ known => rules.bind (rules.tosa_cast known) fun _ converted =>
    rules.tosa_toRank converted

theorem tosa_scaled (known : good value) : rules.Holds (scaled op value element) good := by
  refine rules.bind rules.tosa_operand fun factor _ => rules.bind (rules.ask _) fun number _ => ?_
  cases number with
  | none => exact rules.tosa_unsupported
  | some number =>
    refine rules.ite (rules.pure known) (rules.bind rules.tosa_tensorType fun _ _ => ?_)
    exact rules.bind rules.tosa_splat fun _ factor => rules.tosa_binary known factor

theorem tosa_binaryOp {isScaled : Bool} : rules.Holds (binaryOp op kind isScaled) good := by
  refine rules.bind rules.tosa_resultTensor fun (shape, element, _) _ => ?_
  refine rules.bind rules.tosa_fitted fun lhs first => rules.bind rules.tosa_fitted fun rhs second => ?_
  refine rules.ite (rules.bind (rules.tosa_scaled second) fun _ scaled => ?_) (rules.tosa_binary first second)
  exact rules.tosa_binary first scaled

theorem tosa_divOp : rules.Holds (divOp op) good := by
  refine rules.bind rules.tosa_resultTensor fun (shape, element, _) _ => ?_
  refine rules.bind rules.tosa_fitted fun lhs first => rules.bind rules.tosa_fitted fun rhs second => ?_
  have quotient : rules.Holds (do binary .mul lhs (← unary .reciprocal rhs)) good :=
    rules.bind (rules.tosa_unary second) fun _ inverse => rules.tosa_binary first inverse
  have rejected : rules.Holds (unsupported op "requires a float result" : Build Unit) fun _ => True :=
    rules.tosa_unsupported
  exact rules.ite quotient (rules.bind rejected fun _ _ => quotient)

theorem tosa_bound {absent : Float} : rules.Holds (bound op index absent) fun _ => True := by
  refine rules.bind rules.tosa_operand fun value _ => rules.bind (rules.ask _) fun isNone _ => ?_
  refine rules.ite (rules.pure trivial) (rules.bind (rules.ask _) fun known _ => ?_)
  cases known with
  | none => exact rules.tosa_unsupported
  | some number => exact rules.pure trivial

theorem tosa_clampOp : rules.Holds (clampOp op) good := by
  refine rules.bind rules.tosa_resultTensor fun (shape, element, _) _ => ?_
  refine rules.bind rules.tosa_fitted fun x known => ?_
  exact rules.bind rules.tosa_bound fun _ _ => rules.bind rules.tosa_bound fun _ _ => rules.tosa_clamp known

theorem tosa_unaryOp {kind : TorchKind} : rules.Holds (unaryOp op kind) good := by
  refine rules.bind rules.tosa_resultTensor fun (shape, element, _) _ => ?_
  refine rules.bind rules.tosa_fitted fun x known => ?_
  split
  · exact rules.tosa_clamp known
  · exact rules.tosa_unary known
  · exact rules.tosa_unary known
  · exact rules.tosa_unary known
  · exact rules.tosa_unary known
  · exact rules.tosa_unary known
  · exact rules.tosa_notLegalized

theorem tosa_mmOp : rules.Holds (mmOp op) good := by
  refine rules.bind rules.tosa_resultTensor fun (shape, element, _) _ => ?_
  refine rules.bind rules.tosa_operand fun _ first => rules.bind (rules.tosa_cast first) fun lhs isLhs => ?_
  refine rules.bind rules.tosa_operand fun _ second => rules.bind (rules.tosa_cast second) fun rhs isRhs => ?_
  refine rules.bind rules.tosa_tensorType fun _ _ => rules.bind rules.tosa_tensorType fun _ _ => ?_
  refine rules.bind (rules.tosa_reshape isLhs) fun _ lhsBatch => ?_
  refine rules.bind (rules.tosa_reshape isRhs) fun _ rhsBatch => ?_
  refine rules.bind (rules.tosa_tensor ?_) fun _ product => rules.tosa_reshape product
  simp [lhsBatch, rhsBatch]

theorem tosa_reduced {dims : List Nat} (known : good value) : rules.Holds (reduced element value dims) good := by
  induction dims generalizing value with
  | nil => exact rules.pure known
  | cons dim dims ih =>
    refine rules.bind rules.tosa_tensorType fun _ _ => rules.bind (rules.told _) fun _ _ => ?_
    exact rules.bind (rules.tosa_tensor (by simp [known])) fun _ sum => ih sum

theorem tosa_sumOp : rules.Holds (sumOp op) good := by
  refine rules.bind rules.tosa_resultTensor fun (shape, element, _) _ => ?_
  refine rules.bind rules.tosa_operand fun _ first => rules.bind (rules.tosa_cast first) fun x known => ?_
  refine rules.bind rules.tosa_tensorType fun _ _ => rules.bind (rules.told _) fun dims _ => ?_
  cases dims with
  | none => exact rules.tosa_unsupported
  | some dims => exact rules.bind (rules.tosa_reduced known) fun _ sum => rules.tosa_reshape sum

theorem tosa_transposeOp : rules.Holds (transposeOp op) good := by
  refine rules.bind rules.tosa_resultTensor fun (shape, element, _) _ => ?_
  refine rules.bind rules.tosa_operand fun _ first => rules.bind (rules.tosa_cast first) fun x known => ?_
  refine rules.bind rules.tosa_tensorType fun _ _ => rules.bind (rules.told _) fun dims _ => ?_
  cases dims with
  | none => exact rules.tosa_unsupported
  | some dims => exact rules.ite (rules.pure known) (rules.tosa_tensor (by simp [known]))

theorem tosa_padBehind {dim : Nat} {missing : Int} {sizes : List Int} (known : good value) :
    rules.Holds (padBehind value dim missing sizes element) good :=
  rules.ite (rules.tosa_tensor (by simp [known])) (rules.pure known)

theorem tosa_sliceOp : rules.Holds (sliceOp op) good := by
  refine rules.bind rules.tosa_resultTensor fun (shape, element, _) _ => ?_
  refine rules.bind rules.tosa_operand fun _ first => rules.bind (rules.tosa_cast first) fun x known => ?_
  refine rules.bind rules.tosa_tensorType fun _ _ => rules.bind (rules.told _) fun params _ => ?_
  rcases params with _ | ⟨dim, start, length, step⟩
  · exact rules.tosa_unsupported
  · refine rules.ite (rules.tosa_slice known) (rules.bind (rules.tosa_slice known) fun _ part => ?_)
    refine rules.bind (rules.tosa_padBehind part) fun _ full => ?_
    refine rules.bind (rules.tosa_reshape full) fun _ steps => ?_
    exact rules.bind (rules.tosa_slice steps) fun _ first => rules.tosa_reshape first

theorem tosa_broadcastOp : rules.Holds (broadcastOp op) good := by
  refine rules.bind rules.tosa_resultTensor fun (shape, element, _) _ => ?_
  refine rules.bind rules.tosa_fitted fun x known => rules.bind rules.tosa_tensorType fun _ _ => ?_
  exact rules.ite (rules.pure known) (rules.tosa_tensor (by simp [known]))

theorem tosa_viewOp : rules.Holds (viewOp op) good :=
  rules.bind rules.tosa_resultTensor fun _ _ => rules.bind rules.tosa_operand fun _ known =>
    rules.tosa_reshape known

theorem tosa_quantizeOp : rules.Holds (quantizeOp op) fun result => good result.1 := by
  refine rules.bind rules.tosa_resultTensor fun (_, element, dtype) _ => ?_
  refine rules.bind (rules.told _) fun params _ => rules.bind rules.tosa_operand fun x known => ?_
  refine rules.bind rules.tosa_tensorType fun type _ => ?_
  refine rules.bind rules.tosa_splat fun _ inverse => ?_
  refine rules.bind (rules.tosa_binary known inverse) fun _ product => ?_
  refine rules.bind rules.tosa_splat fun _ zeroPoint => ?_
  refine rules.bind (rules.tosa_binary product zeroPoint) fun _ shifted => ?_
  refine rules.bind (rules.tosa_clamp shifted) fun _ kept => ?_
  exact rules.bind (rules.tosa_cast kept) fun _ stored => rules.pure stored

theorem tosa_dequantizeOp {table : QuantTable} : rules.Holds (dequantizeOp op table) good := by
  refine rules.bind rules.tosa_resultTensor fun (_, element, _) _ => ?_
  refine rules.bind rules.tosa_operand fun stored known => ?_
  cases table.get? stored with
  | none => exact rules.tosa_unsupported
  | some params =>
    refine rules.bind (rules.tosa_cast known) fun _ x => rules.bind rules.tosa_tensorType fun _ _ => ?_
    refine rules.bind rules.tosa_splat fun _ zeroPoint => ?_
    refine rules.bind (rules.tosa_binary x zeroPoint) fun _ shifted => ?_
    exact rules.bind rules.tosa_splat fun _ scale => rules.tosa_binary shifted scale

theorem tosa_sameOp : rules.Holds (sameOp op) good :=
  rules.bind rules.tosa_resultTensor fun _ _ => rules.tosa_operand

theorem tosa_affineOp : rules.Holds (affineOp op) fun result => good result.1 :=
  rules.bind rules.tosa_resultTensor fun _ _ => rules.bind (rules.told _) fun _ _ =>
    rules.bind rules.tosa_operand fun _ known => rules.pure known

theorem tosa_tensorOp {table : QuantTable} {kind : TorchKind} :
    rules.Holds (tensorOp op table kind) fun result => good result.1 := by
  have plain {step : Build ValueId} (holds : rules.Holds step good) :
      rules.Holds (do return (← step, (none : Option QuantParams))) fun result => good result.1 :=
    rules.bind holds fun _ known => rules.pure known
  have quantizing {step : Build (ValueId × QuantParams)} (holds : rules.Holds step fun result => good result.1) :
      rules.Holds (step >>= fun result => Pure.pure (result.1, some result.2)) fun result => good result.1 :=
    rules.bind holds fun _ known => rules.pure known
  unfold tensorOp
  split
  · exact plain rules.tosa_binaryOp
  · exact plain rules.tosa_binaryOp
  · exact plain rules.tosa_binaryOp
  · exact plain rules.tosa_binaryOp
  · exact plain rules.tosa_binaryOp
  · exact plain rules.tosa_divOp
  · exact plain rules.tosa_clampOp
  · exact plain rules.tosa_mmOp
  · exact plain rules.tosa_sumOp
  · exact plain rules.tosa_transposeOp
  · exact plain rules.tosa_viewOp
  · exact plain rules.tosa_viewOp
  · exact plain rules.tosa_sliceOp
  · exact plain rules.tosa_broadcastOp
  · exact quantizing rules.tosa_quantizeOp
  · exact plain rules.tosa_dequantizeOp
  · exact quantizing rules.tosa_affineOp
  · exact plain rules.tosa_sameOp
  · exact plain rules.tosa_sameOp
  · exact plain rules.tosa_unaryOp

theorem tosa_scalarOp : rules.Holds (scalarOp op) good := by
  refine rules.bind (rules.told _) fun result _ => rules.bind (rules.told _) fun type _ => ?_
  refine rules.bind (rules.told _) fun lowered _ => ?_
  cases lowered with
  | none => exact rules.tosa_notLegalized
  | some lowered =>
    refine rules.bind (rules.ask _) fun known _ => ?_
    cases known.bind elementValue? with
    | none => exact rules.tosa_notLegalized
    | some value => exact rules.value isTarget_tosa (by simp)

end Tosa

/-! ### Loops over buffers -/

section Loops

open Loops

variable {value lhs rhs buffer : ValueId} {position inputs : List ValueId} {shape : List Int}
  {element scalarKind : ScalarType} {index : Nat}

theorem loops_bufferType : rules.Holds (bufferType value) fun _ => True :=
  rules.told _

theorem loops_scalarType : rules.Holds (scalarType value) fun _ => True :=
  rules.told _

theorem loops_arith {kind : ArithKind} (known : ∀ operand ∈ operands, good operand) :
    rules.Holds (arith kind operands scalarKind) good :=
  rules.value isTarget_arith known

theorem loops_math {kind : MathKind} (known : good value) : rules.Holds (math kind value scalarKind) good :=
  rules.value isTarget_math (by simp [known])

theorem loops_compare {predicate : String} (first : good lhs) (second : good rhs) :
    rules.Holds (compare predicate lhs rhs) good :=
  rules.bind rules.loops_scalarType fun _ _ => rules.value isTarget_arith (by simp [first, second])

theorem loops_cast (known : good value) : rules.Holds (Loops.cast value scalarKind) good := by
  have alone {kind : ArithKind} : rules.Holds (arith kind [value] scalarKind) good :=
    rules.loops_arith (by simp [known])
  refine rules.bind rules.loops_scalarType fun source _ => rules.ite (rules.pure known) ?_
  refine rules.ite (rules.bind (rules.scalar _ _) fun _ zero => rules.loops_compare known zero) ?_
  refine rules.ite (rules.bind (rules.scalar _ _) fun _ one => ?_) ?_
  · refine rules.bind (rules.scalar _ _) fun _ zero => rules.loops_arith ?_
    simp [known, one, zero]
  split
  · exact alone
  · exact alone
  · exact alone
  · refine rules.ite alone (rules.ite ?_ alone)
    exact rules.bind (rules.loops_arith (by simp [known])) fun _ wide => rules.loops_arith (by simp [wide])

theorem loops_binary {operation : Binary} (first : good lhs) (second : good rhs) :
    rules.Holds (Loops.binary operation lhs rhs) good :=
  rules.bind rules.loops_scalarType fun _ _ => rules.loops_arith (by simp [first, second])

theorem loops_negate (known : good value) : rules.Holds (negate value) good :=
  rules.bind rules.loops_scalarType fun _ _ => rules.ite (rules.loops_arith (by simp [known]))
    (rules.bind (rules.scalar _ _) fun _ zero => rules.loops_binary zero known)

theorem loops_alloc : rules.Holds (alloc shape element) good :=
  rules.value isTarget_memref (by simp)

theorem loops_load (known : good buffer) (places : ∀ place ∈ position, good place) :
    rules.Holds (load buffer position) good :=
  rules.bind rules.loops_bufferType fun _ _ =>
    rules.value isTarget_memref (List.forall_mem_cons.mpr ⟨known, places⟩)

theorem loops_store (stored : good value) (known : good buffer) (places : ∀ place ∈ position, good place) :
    rules.Holds (store value buffer position) fun _ => True :=
  rules.emit isTarget_memref (List.forall_mem_cons.mpr ⟨stored, List.forall_mem_cons.mpr ⟨known, places⟩⟩)

theorem loops_broadcastPosition (places : ∀ place ∈ position, good place) :
    rules.Holds (broadcastPosition shape position) fun values => ∀ value ∈ values, good value := by
  induction shape generalizing position with
  | nil => exact rules.pure fun _ => (absurd · List.not_mem_nil)
  | cons size shape ih =>
    cases position with
    | nil => exact rules.pure fun _ => (absurd · List.not_mem_nil)
    | cons place position =>
      obtain ⟨here, later⟩ := List.forall_mem_cons.mp places
      have continued (first : ValueId) (known : good first) :
          rules.Holds (do return first :: (← broadcastPosition shape position)) fun values =>
            ∀ value ∈ values, good value :=
        rules.bind (ih later) fun _ others => rules.pure (List.forall_mem_cons.mpr ⟨known, others⟩)
      exact rules.ite (rules.bind (rules.index 0) continued) (rules.bind (rules.pure here) continued)

theorem loops_alignedPosition (places : ∀ place ∈ position, good place) :
    rules.Holds (alignedPosition shape position) fun values => ∀ value ∈ values, good value :=
  rules.loops_broadcastPosition fun place among => places place (List.mem_of_mem_drop among)

theorem loops_elementwise {compute : List ValueId → Build ValueId} (known : ∀ input ∈ inputs, good input)
    (computes : ∀ loaded, (∀ value ∈ loaded, good value) → rules.Holds (compute loaded) good) :
    rules.Holds (elementwise inputs shape element compute) good := by
  have shaped (input : ValueId) : rules.Holds (do return (← bufferType input).shape) fun _ => True :=
    rules.bind rules.loops_bufferType fun _ _ => rules.pure trivial
  refine rules.bind (rules.mapM inputs fun input _ => shaped input) fun shapes _ => ?_
  have filled : rules.Holds (do
      let output ← alloc shape element
      Build.loopNest shape fun position => do
        let loaded ← (inputs.zip shapes).mapM fun pair => do
          load pair.1 (← alignedPosition pair.2 position)
        let value ← Loops.cast (← compute loaded) element
        store value output position
      return output) good := by
    refine rules.bind rules.loops_alloc fun output isOutput => ?_
    refine rules.bind (rules.loopNest shape fun position places => ?_) fun _ _ => rules.pure isOutput
    have loads (pair : ValueId × List Int) (among : pair ∈ inputs.zip shapes) :
        rules.Holds (do load pair.1 (← alignedPosition pair.2 position)) good :=
      rules.bind (rules.loops_alignedPosition places) fun _ aligned =>
        rules.loops_load (known _ (List.of_mem_zip among).1) aligned
    refine rules.bind (rules.mapM _ loads) fun loaded isLoaded => ?_
    refine rules.bind (computes loaded isLoaded) fun _ computed => ?_
    exact rules.bind (rules.loops_cast computed) fun _ stored => rules.loops_store stored isOutput places
  exact rules.ite (rules.bind (rules.failed _) fun _ _ => filled) filled

theorem loops_withOne {compute : ValueId → Build ValueId} (known : ∀ input ∈ inputs, good input)
    (computes : ∀ value, good value → rules.Holds (compute value) good) :
    rules.Holds (withOne compute inputs) good := by
  cases inputs with
  | nil => exact rules.throw _
  | cons value _ => exact computes value (known value List.mem_cons_self)

theorem loops_withTwo {compute : ValueId → ValueId → Build ValueId} (known : ∀ input ∈ inputs, good input)
    (computes : ∀ first second, good first → good second → rules.Holds (compute first second) good) :
    rules.Holds (withTwo compute inputs) good := by
  unfold withTwo
  split
  · obtain ⟨first, others⟩ := List.forall_mem_cons.mp known
    exact computes _ _ first (List.forall_mem_cons.mp others).1
  · exact rules.throw _

theorem loops_operand : rules.Holds (Loops.operand op index) good :=
  rules.operand op index

theorem loops_unsupported {message : String} {gives : α → Prop} :
    rules.Holds (Loops.unsupported op message) gives :=
  rules.bind (rules.ask _) fun _ _ => rules.throw _

/-- A value that is there unless it is not needed. -/
theorem loops_scaling : rules.Holds (scaling op element) fun factor => ∀ value ∈ factor, good value := by
  refine rules.bind rules.loops_operand fun value known => rules.bind (rules.ask _) fun _ _ => ?_
  refine rules.ite (rules.pure fun _ same => nomatch same) (rules.map (rules.loops_cast known) ?_)
  rintro value given _ ⟨⟩
  exact given

theorem loops_binaryOp {kind : TorchKind} {operation : Binary} :
    rules.Holds (Loops.binaryOp op kind operation) good := by
  refine rules.bind (rules.told _) fun (shape, element, _) _ => ?_
  refine rules.bind rules.loops_operand fun lhs isLhs => rules.bind rules.loops_operand fun rhs isRhs => ?_
  have none : rules.Holds (Pure.pure none) fun factor => ∀ value ∈ factor, good value :=
    rules.pure fun _ same => nomatch same
  refine rules.ite (rules.bind rules.loops_scaling ?filled) (rules.bind none ?filled)
  intro factor isFactor
  refine rules.loops_elementwise (by simp [isLhs, isRhs]) fun _ loaded => ?_
  refine rules.loops_withTwo loaded fun a b isA isB => ?_
  refine rules.bind (rules.loops_cast isA) fun _ first => rules.bind (rules.loops_cast isB) fun _ second => ?_
  cases factor with
  | none => exact rules.bind (rules.pure second) fun _ scaled => rules.loops_binary first scaled
  | some factor =>
    exact rules.bind (rules.loops_binary second (isFactor factor rfl)) fun _ scaled =>
      rules.loops_binary first scaled

theorem loops_absolute {zero : ValueId} (isZero : good zero) (known : good value) :
    rules.Holds (absolute element zero value) good := by
  refine rules.ite (rules.loops_math known) (rules.bind (rules.loops_compare known isZero) fun _ negative => ?_)
  exact rules.bind (rules.loops_negate known) fun _ negated => rules.loops_arith (by simp [negative, negated, known])

theorem loops_logistic {one : ValueId} (isOne : good one) (known : good value) :
    rules.Holds (Loops.logistic element one value) good := by
  refine rules.bind (rules.loops_negate known) fun _ negated => rules.bind (rules.loops_math negated) fun _ power => ?_
  exact rules.bind (rules.loops_binary isOne power) fun _ denominator => rules.loops_binary isOne denominator

theorem loops_unaryFunction {kind : TorchKind} {zero one : ValueId} (isZero : good zero) (isOne : good one)
    (known : good value) : rules.Holds (unaryFunction kind element zero one value) good := by
  unfold unaryFunction
  split
  · exact rules.loops_binary known isZero
  · exact rules.loops_negate known
  · exact rules.loops_absolute isZero known
  · exact rules.loops_math known
  · exact rules.loops_math known
  · exact rules.loops_logistic isOne known

theorem loops_unaryOp {kind : TorchKind} : rules.Holds (Loops.unaryOp op kind) good := by
  refine rules.bind (rules.told _) fun (shape, element, _) _ => rules.bind rules.loops_operand fun input known => ?_
  refine rules.bind (rules.scalar _ _) fun zero isZero => rules.bind (rules.scalar _ _) fun one isOne => ?_
  refine rules.loops_elementwise (by simp [known]) fun _ loaded => rules.loops_withOne loaded fun _ isElement => ?_
  exact rules.bind (rules.loops_cast isElement) fun _ x => rules.loops_unaryFunction isZero isOne x

theorem loops_bound : rules.Holds (Loops.bound op element index) fun limit => ∀ value ∈ limit, good value := by
  refine rules.bind rules.loops_operand fun value known => rules.bind (rules.ask _) fun _ _ => ?_
  refine rules.ite (rules.pure fun _ same => nomatch same) (rules.map (rules.loops_cast known) ?_)
  rintro value given _ ⟨⟩
  exact given

theorem loops_bounded {operation : Binary} {limit : Option ValueId} (known : good value)
    (isLimit : ∀ value ∈ limit, good value) : rules.Holds (bounded operation value limit) good := by
  cases limit with
  | none => exact rules.pure known
  | some limit => exact rules.loops_binary known (isLimit limit rfl)

theorem loops_clampOp : rules.Holds (Loops.clampOp op) good := by
  refine rules.bind (rules.told _) fun (shape, element, _) _ => ?_
  refine rules.bind rules.loops_bound fun least isLeast => rules.bind rules.loops_bound fun most isMost => ?_
  refine rules.bind rules.loops_operand fun _ known => ?_
  refine rules.loops_elementwise (by simp [known]) fun _ loaded => rules.loops_withOne loaded fun _ isElement => ?_
  refine rules.bind (rules.loops_cast isElement) fun _ x => ?_
  exact rules.bind (rules.loops_bounded x isLeast) fun _ raised => rules.loops_bounded raised isMost

theorem loops_mmTerm {row column k sum : ValueId} (isLhs : good lhs) (isRhs : good rhs) (isRow : good row)
    (isColumn : good column) (isK : good k) (isSum : good sum) :
    rules.Holds (mmTerm element lhs rhs row column k sum) good := by
  refine rules.bind (rules.loops_load isLhs (by simp [isRow, isK])) fun _ loaded => ?_
  refine rules.bind (rules.loops_cast loaded) fun _ a => ?_
  refine rules.bind (rules.loops_load isRhs (by simp [isColumn, isK])) fun _ loaded => ?_
  refine rules.bind (rules.loops_cast loaded) fun _ b => ?_
  exact rules.bind (rules.loops_binary a b) fun _ product => rules.loops_binary isSum product

theorem loops_mmOp : rules.Holds (Loops.mmOp op) good := by
  refine rules.bind (rules.told _) fun (shape, element, _) _ => ?_
  refine rules.bind rules.loops_operand fun lhs isLhs => rules.bind rules.loops_operand fun rhs isRhs => ?_
  refine rules.bind rules.loops_bufferType fun _ _ => rules.bind rules.loops_alloc fun output isOutput => ?_
  refine rules.bind (rules.loopNest shape fun position places => ?_) fun _ _ => rules.pure isOutput
  refine rules.bind (rules.scalar _ _) fun zero isZero => rules.bind (rules.index _) fun lower isLower => ?_
  refine rules.bind (rules.index _) fun upper isUpper => rules.bind (rules.index _) fun step isStep => ?_
  split
  case h_1 row column others =>
    obtain ⟨isRow, others⟩ := List.forall_mem_cons.mp places
    have isColumn := (List.forall_mem_cons.mp others).1
    refine rules.bind (rules.forLoop ?_ fun k sums isK isSums => ?_) fun sums isSums => ?_
    · simp [isLower, isUpper, isStep, isZero]
    · exact rules.mapM sums fun sum among => rules.loops_mmTerm isLhs isRhs isRow isColumn isK (isSums sum among)
    · refine rules.bind (rules.forIn sums (fun sum among _ => ?_) _) fun _ _ => rules.pure trivial
      exact rules.bind (rules.loops_store (isSums sum among) isOutput places) fun _ _ => rules.pure trivial
  case h_2 => exact rules.loops_unsupported

theorem loops_reducedPosition {dims : List Nat} {keep : Bool} (places : ∀ place ∈ position, good place) :
    rules.Holds (reducedPosition dims keep index position) fun values => ∀ value ∈ values, good value := by
  induction position generalizing index with
  | nil => exact rules.pure fun _ => (absurd · List.not_mem_nil)
  | cons place position ih =>
    obtain ⟨here, later⟩ := List.forall_mem_cons.mp places
    have continued (first : List ValueId) (known : ∀ value ∈ first, good value) :
        rules.Holds (do return first ++ (← reducedPosition dims keep (index + 1) position)) fun values =>
          ∀ value ∈ values, good value :=
      rules.bind (ih later) fun _ others => rules.pure (List.forall_mem_append.mpr ⟨known, others⟩)
    refine rules.ite (rules.bind (rules.pure (by simp [here])) continued) (rules.ite ?_ ?_)
    · refine rules.bind (rules.map (rules.index 0) fun zero isZero => ?_) continued
      simpa [List.singleton] using isZero
    · exact rules.bind (rules.pure fun _ => (absurd · List.not_mem_nil)) continued

theorem loops_sumOp : rules.Holds (Loops.sumOp op) good := by
  refine rules.bind (rules.told _) fun (shape, element, _) _ => rules.bind rules.loops_operand fun input known => ?_
  refine rules.bind rules.loops_bufferType fun _ _ => rules.bind (rules.told _) fun dims _ => ?_
  cases dims with
  | none => exact rules.loops_unsupported
  | some dims =>
    refine rules.bind rules.loops_alloc fun output isOutput => ?_
    refine rules.bind (rules.loopNest _ fun _ places => ?_) fun _ _ => ?_
    · exact rules.bind (rules.scalar _ _) fun _ zero => rules.loops_store zero isOutput places
    refine rules.bind (rules.loopNest _ fun position places => ?_) fun _ _ => rules.pure isOutput
    refine rules.bind (rules.loops_reducedPosition places) fun place reduced => ?_
    refine rules.bind (rules.loops_load known places) fun _ loaded => ?_
    refine rules.bind (rules.loops_cast loaded) fun _ x => ?_
    refine rules.bind (rules.loops_load isOutput reduced) fun _ before => ?_
    exact rules.bind (rules.loops_binary before x) fun _ sum => rules.loops_store sum isOutput reduced

theorem loops_gather {source : List ValueId → Build (List ValueId)}
    (gives : ∀ position, (∀ place ∈ position, good place) →
      rules.Holds (source position) fun values => ∀ value ∈ values, good value) :
    rules.Holds (Loops.gather op source) good := by
  refine rules.bind (rules.told _) fun (shape, element, _) _ => rules.bind rules.loops_operand fun input known => ?_
  refine rules.bind rules.loops_alloc fun output isOutput => ?_
  refine rules.bind (rules.loopNest _ fun position places => ?_) fun _ _ => rules.pure isOutput
  refine rules.bind (gives position places) fun _ others => rules.bind (rules.loops_load known others) fun _ x => ?_
  exact rules.bind (rules.loops_cast x) fun _ stored => rules.loops_store stored isOutput places

theorem loops_transposeOp : rules.Holds (Loops.transposeOp op) good := by
  refine rules.bind rules.loops_operand fun _ _ => rules.bind rules.loops_bufferType fun _ _ => ?_
  refine rules.bind (rules.told _) fun dims _ => ?_
  cases dims with
  | none => exact rules.loops_unsupported
  | some dims =>
    refine rules.loops_gather fun position places => rules.pure fun value among => ?_
    exact places value (Program.mem_of_mem_exchanged among)

theorem loops_onIndices {kind : ArithKind} (first : good lhs) (second : good rhs) :
    rules.Holds (onIndices kind lhs rhs) good :=
  rules.loops_arith (by simp [first, second])

theorem loops_linearFrom {places : List (ValueId × Int)} (known : good value)
    (isPlace : ∀ place ∈ places, good place.1) : rules.Holds (linearFrom value places) good := by
  induction places generalizing value with
  | nil => exact rules.pure known
  | cons first places ih =>
    obtain ⟨here, later⟩ := List.forall_mem_cons.mp isPlace
    refine rules.bind (rules.index _) fun _ stride => rules.bind (rules.loops_onIndices here stride) fun _ term => ?_
    exact rules.bind (rules.loops_onIndices known term) fun _ sum => ih sum later

theorem loops_positionOf {sizes : List (Int × Int)} (known : good value) :
    rules.Holds (positionOf value sizes) fun values => ∀ value ∈ values, good value := by
  induction sizes with
  | nil => exact rules.pure fun _ => (absurd · List.not_mem_nil)
  | cons first sizes ih =>
    refine rules.bind (rules.index _) fun _ stride => rules.bind (rules.index _) fun _ size => ?_
    refine rules.bind (rules.loops_onIndices known stride) fun _ quotient => ?_
    refine rules.bind (rules.loops_onIndices quotient size) fun _ place => ?_
    exact rules.bind ih fun _ others => rules.pure (List.forall_mem_cons.mpr ⟨place, others⟩)

theorem loops_viewOp : rules.Holds (Loops.viewOp op) good := by
  refine rules.bind (rules.told _) fun (shape, _, _) _ => rules.bind rules.loops_operand fun _ _ => ?_
  refine rules.bind rules.loops_bufferType fun _ _ => rules.loops_gather fun position places => ?_
  refine rules.bind (rules.index _) fun _ zero => ?_
  refine rules.bind (rules.loops_linearFrom zero fun pair among => ?_) fun _ linear => rules.loops_positionOf linear
  exact places _ (List.of_mem_zip among).1

theorem loops_sliceOp : rules.Holds (Loops.sliceOp op) good := by
  refine rules.bind rules.loops_operand fun _ _ => rules.bind rules.loops_bufferType fun _ _ => ?_
  refine rules.bind (rules.told _) fun params _ => ?_
  rcases params with _ | ⟨dim, start, length, step⟩
  · exact rules.loops_unsupported
  · refine rules.loops_gather fun position places => ?_
    refine rules.bind (rules.index _) fun _ stride => rules.bind (rules.index _) fun _ first => ?_
    cases found : position[dim]? with
    | none => exact rules.pure places
    | some place =>
      have isPlace := places place (List.mem_of_getElem? found)
      refine rules.bind (rules.loops_onIndices isPlace stride) fun _ offset => ?_
      refine rules.bind (rules.loops_onIndices first offset) fun moved isMoved => rules.pure fun value among => ?_
      rcases List.mem_or_eq_of_mem_set among with old | rfl
      · exact places value old
      · exact isMoved

theorem loops_broadcastOp : rules.Holds (Loops.broadcastOp op) good :=
  rules.bind rules.loops_operand fun _ _ => rules.bind rules.loops_bufferType fun _ _ =>
    rules.loops_gather fun _ places => rules.loops_alignedPosition places

theorem loops_quantizeOp : rules.Holds (Loops.quantizeOp op) fun result => good result.1 := by
  refine rules.bind (rules.told _) fun (shape, element, dtype) _ => rules.bind (rules.told _) fun params _ => ?_
  refine rules.bind rules.loops_operand fun input known => rules.bind rules.loops_bufferType fun _ _ => ?_
  refine rules.bind (rules.float _ _) fun scale isScale => rules.bind (rules.float _ _) fun zero isZero => ?_
  refine rules.bind (rules.float _ _) fun least isLeast => rules.bind (rules.float _ _) fun most isMost => ?_
  refine rules.bind (rules.loops_elementwise (by simp [known]) fun _ loaded =>
    rules.loops_withOne loaded fun x isElement => ?_) fun _ output => rules.pure output
  refine rules.bind (rules.loops_binary isElement isScale) fun _ scaled => ?_
  refine rules.bind (rules.loops_math scaled) fun _ rounded => ?_
  refine rules.bind (rules.loops_binary rounded isZero) fun _ shifted => ?_
  refine rules.bind (rules.loops_binary shifted isLeast) fun _ raised => ?_
  exact rules.bind (rules.loops_binary raised isMost) fun _ kept => rules.loops_cast kept

theorem loops_dequantizeOp {table : QuantTable} : rules.Holds (Loops.dequantizeOp op table) good := by
  refine rules.bind (rules.told _) fun (shape, element, _) _ => rules.bind rules.loops_operand fun input known => ?_
  cases table.get? input with
  | none => exact rules.loops_unsupported
  | some params =>
    refine rules.bind (rules.float _ _) fun scale isScale => rules.bind (rules.float _ _) fun zero isZero => ?_
    refine rules.loops_elementwise (by simp [known]) fun _ loaded => ?_
    refine rules.loops_withOne loaded fun a isElement => rules.bind (rules.loops_cast isElement) fun _ x => ?_
    exact rules.bind (rules.loops_binary x isZero) fun _ shifted => rules.loops_binary shifted isScale

theorem loops_sameOp : rules.Holds (Loops.sameOp op) good :=
  rules.bind (rules.told _) fun _ _ => rules.loops_operand

theorem loops_affineOp : rules.Holds (Loops.affineOp op) fun result => good result.1 :=
  rules.bind (rules.told _) fun _ _ => rules.bind (rules.told _) fun _ _ =>
    rules.bind rules.loops_operand fun _ known => rules.pure known

theorem loops_tensorOp {table : QuantTable} {kind : TorchKind} :
    rules.Holds (Loops.tensorOp op table kind) fun result => good result.1 := by
  have plain {step : Build ValueId} (holds : rules.Holds step good) :
      rules.Holds (do return (← step, (none : Option QuantParams))) fun result => good result.1 :=
    rules.bind holds fun _ known => rules.pure known
  have quantizing {step : Build (ValueId × QuantParams)} (holds : rules.Holds step fun result => good result.1) :
      rules.Holds (step >>= fun result => Pure.pure (result.1, some result.2)) fun result => good result.1 :=
    rules.bind holds fun _ known => rules.pure known
  unfold Loops.tensorOp
  split
  · exact plain rules.loops_binaryOp
  · exact plain rules.loops_binaryOp
  · exact plain rules.loops_binaryOp
  · exact plain rules.loops_binaryOp
  · exact plain rules.loops_binaryOp
  · exact plain rules.loops_binaryOp
  · exact plain rules.loops_clampOp
  · exact plain rules.loops_mmOp
  · exact plain rules.loops_sumOp
  · exact plain rules.loops_transposeOp
  · exact plain rules.loops_viewOp
  · exact plain rules.loops_viewOp
  · exact plain rules.loops_sliceOp
  · exact plain rules.loops_broadcastOp
  · exact quantizing rules.loops_quantizeOp
  · exact plain rules.loops_dequantizeOp
  · exact quantizing rules.loops_affineOp
  · exact plain rules.loops_sameOp
  · exact plain rules.loops_sameOp
  · exact plain rules.loops_unaryOp

theorem loops_knownSize? : rules.Holds (knownSize? op) fun _ => True :=
  rules.bind rules.loops_operand fun _ _ => rules.bind rules.loops_bufferType fun _ _ =>
    rules.bind rules.loops_operand fun _ _ => rules.ask _

theorem loops_counterpart {type : Ty} : rules.Holds (counterpart op type) fun lowered => lowered.torch? = none := by
  have found : rules.Holds (Build.askFor fun _ => Target.loops.lowered? type) fun lowered =>
      ∀ type ∈ lowered, type.torch? = none :=
    rules.askFor fun _ lowered isLowered other same => by
      cases same
      exact Target.torch?_of_lowered? isLowered
  refine rules.bind found fun lowered plain => ?_
  cases lowered with
  | none => exact rules.loops_unsupported
  | some lowered => exact rules.pure (plain lowered rfl)

theorem loops_intOp {kind : TorchKind} (first : good lhs) (second : good rhs) :
    rules.Holds (intOp op kind lhs rhs) good := by
  unfold intOp
  split
  · exact rules.loops_binary first second
  · exact rules.loops_binary first second
  · exact rules.loops_binary first second
  · exact rules.loops_compare first second
  · exact rules.loops_compare first second
  · exact rules.loops_compare first second
  · exact rules.loops_compare first second
  · exact rules.bind (rules.ask _) fun _ _ => rules.throw _

theorem loops_scalarOp {kind : TorchKind} : rules.Holds (Loops.scalarOp op kind) good := by
  refine rules.bind (rules.told _) fun result _ => rules.bind (rules.told _) fun type _ => ?_
  refine rules.bind rules.loops_counterpart fun lowered plain => ?_
  refine rules.ite (rules.bind rules.loops_knownSize? ?computed) (rules.bind (rules.ask _) ?computed)
  intro known _
  cases known with
  | none =>
    exact rules.bind rules.loops_operand fun _ first => rules.bind rules.loops_operand fun _ second =>
      rules.loops_intOp first second
  | some literal =>
    refine rules.bind (rules.literal plain) fun constant isConstant => ?_
    cases constant with
    | none => exact rules.loops_unsupported
    | some constant => exact rules.pure (isConstant constant rfl)

theorem loops_resultTypes : rules.Holds (resultTypes op) fun types => ∀ type ∈ types, type.torch? = none :=
  rules.bind (rules.told _) fun types _ => rules.mapM types fun _ _ => rules.loops_counterpart

theorem loops_tripCount : rules.Holds (Change.tripCount op) good := by
  refine rules.bind rules.loops_operand fun rounds isRounds => rules.bind (rules.ask _) fun known _ => ?_
  cases known with
  | none => exact rules.value isTarget_arith (by simp [isRounds])
  | some known => exact rules.index _

end Loops

end BuildRules

/-! ### Operations of the target -/

/-- A step builds operations of lowered programs only. -/
abbrev BuildsTarget (step : Build α) : Prop :=
  Builds OpKind.IsTarget step

/-- What is built are operations of lowered programs, from whichever values. -/
def targetRules : BuildRules (fun _ => True) (fun _ => True) where
  Holds step gives := BuildsTarget step ∧
    ∀ start value after, step.run start = (.ok value, after) → gives value
  pure given := ⟨Builds.pure _, fun _ _ _ run => by cases run; exact given⟩
  throw error := ⟨Builds.throw error, fun _ _ _ run => by cases run⟩
  bind holds later := by
    refine ⟨holds.1.bind_of fun value ⟨start, after, run⟩ => (later value (holds.2 _ _ _ run)).1, ?_⟩
    intro start value after run
    obtain ⟨between, middle, first, second⟩ := of_run_bind_eq_ok run
    exact (later between (holds.2 _ _ _ first)).2 _ _ _ second
  ask question := ⟨builds_ask question, fun _ _ _ _ => trivial⟩
  askFor given := by
    refine ⟨builds_askFor _, fun start value after run => ?_⟩
    rw [Build.run_askFor] at run
    exact given start.program value (congrArg Prod.fst run)
  operands _ _ := ⟨builds_ask _, fun _ _ _ _ _ _ => trivial⟩
  operand _ _ := ⟨builds_askFor _, fun _ _ _ _ => trivial⟩
  named supply := ⟨builds_named supply, fun _ _ _ _ => trivial⟩
  create isTarget _ types attributes := ⟨builds_create isTarget _ types attributes, fun _ _ _ _ => trivial⟩
  result _ _ := ⟨builds_askFor _, fun _ _ _ _ => trivial⟩
  constant name value type := ⟨builds_constant isTarget_arith name value type, fun _ _ _ _ => trivial⟩
  index position := ⟨builds_index isTarget_arith position, fun _ _ _ _ => trivial⟩
  forLoop _ inside := by
    refine ⟨?_, fun _ _ _ _ _ _ => trivial⟩
    exact builds_forLoop isTarget_scf isTarget_scf _ _ _ _ fun position carried =>
      (inside position carried trivial fun _ _ => trivial).1

namespace Tosa

variable {op : OpId}

theorem builds_tensorOp {table : QuantTable} {kind : TorchKind} : BuildsTarget (tensorOp op table kind) :=
  targetRules.tosa_tensorOp.1

theorem builds_scalarOp : BuildsTarget (scalarOp op) :=
  targetRules.tosa_scalarOp.1

end Tosa

namespace Loops

variable {op : OpId} {kind : TorchKind}

theorem builds_index {position : Int} : BuildsTarget (Build.index position) :=
  TensorIR.builds_index isTarget_arith position

theorem builds_operand {index : Nat} : BuildsTarget (operand op index) :=
  builds_askFor _

theorem builds_tensorOp {table : QuantTable} : BuildsTarget (tensorOp op table kind) :=
  targetRules.loops_tensorOp.1

theorem builds_scalarOp : BuildsTarget (scalarOp op kind) :=
  targetRules.loops_scalarOp.1

theorem builds_resultTypes : BuildsTarget (resultTypes op) :=
  targetRules.loops_resultTypes.1

end Loops

end TensorIR
