import TensorIR.Proofs.Computing.Sums

/-!
# Sums of floating-point numbers as integers

A sum can have integers as its result where its operand holds floating-point numbers. Each number is converted before
it is added. Among loops what stands behind the point is cut off and the integer is wrapped. Among operations on whole
tensors the number is rounded to the nearest integer and kept within the range of the type. Both come to the same where
all numbers are integers of the type.

## Main definitions

* `Target.asInteger` — the integer that a floating-point number becomes

## Main results

* `Target.asInteger_ofInt` — an integer becomes itself
* `Program.computes_sum_of_numbers` — the lowering of a sum of floating-point numbers as integers
-/

namespace TensorIR

open Grid (tabulate)
open Shape (Static Inside remaining kept isSummed every Loopable)

/-- The element at a position as a floating-point number. -/
def Grid.number (grid : Grid) (position : List Int) : Float := (grid.entry position).toFloat

/-- The integer that a floating-point number becomes. Among loops it is cut and wrapped, among operations on whole
tensors it is rounded and saturated. -/
def Target.asInteger (target : Target) (type : ScalarType) (number : Float) : Int :=
  match target with
  | .loops => Number.wrapTo type (Number.truncateToInt number)
  | .tosa => Scalar.saturate type number

namespace Target

variable {type : ScalarType} (notFloat : type.isFloat = false)

include notFloat

theorem holds_asInteger (target : Target) (number : Float) : type.Holds (.int (target.asInteger type number)) := by
  cases target with
  | loops => exact ScalarType.holds_wrapTo (Number.truncateToInt_mem_range number)
  | tosa => exact ScalarType.holds_saturate (Bool.eq_false_iff.mp notFloat) number

omit notFloat in
/-- An integer becomes itself, in whichever way it is converted. -/
theorem asInteger_ofInt {value : Int} (holds : type.Holds (.int value)) (small : value.natAbs ≤ 2 ^ 53)
    (target : Target) : target.asInteger type (Float.ofInt value) = value := by
  cases target with
  | loops => rw [asInteger, Number.truncateToInt_ofInt small, ScalarType.wrapTo_of_holds holds]
  | tosa =>
    refine Scalar.saturate_ofInt small fun low high range => ?_
    simpa only [ScalarType.Holds, ScalarType.bounds, range, Option.getD_some] using holds

/-- A number that is no integer becomes different ones. -/
example : Target.loops.asInteger .i64 0.75 = 0 ∧ Target.tosa.asInteger .i64 0.75 = 1 := by decide +kernel

end Target

/-! ### What is built -/

namespace Scene

variable {σ : Type} {start : Scene σ} {value : ValueId} {shape : List Int} {element from_ : ScalarType} {x : σ → Grid}

/-- Among loops a number that is loaded is cut to an integer. -/
theorem castsTo_of_isFloat (isInteger : element.isInteger = true) (notBool : element ≠ .i1)
    (fromFloat : from_.isFloat = true) :
    CastsTo from_ element x fun s position => Target.loops.asInteger element ((x s).number position) :=
  fun _ _ _ _ _ holds => emits_cut isInteger notBool fromFloat holds

/-- Among whole tensors the numbers are rounded to integers. -/
theorem emits_roundTensor (notFloat : element.isFloat = false) (notBool : element ≠ .i1)
    (fromFloat : from_.isFloat = true) (static : Static shape) (holds : start.HoldsTensor value shape from_ x)
    (fits : ∀ s, (x s).Fits shape from_) :
    start.Emits (Tosa.cast value element) start.memory fun result now =>
      now.HoldsTensor result shape element fun s => .ofInts shape element fun position =>
        Target.tosa.asInteger element ((x s).number position) := by
  have other : from_ ≠ element := by
    rintro rfl
    exact Bool.false_ne_true (notFloat.symm.trans fromFloat)
  refine (emits_castEach other static holds fits).imp fun result now _ resultHolds =>
    resultHolds.congr fun s => congrArg Slot.tensor ?_
  refine Grid.tabulate_congr static fun position _ => ?_
  rw [Scalar.cast, if_neg (Bool.eq_false_iff.mp notFloat), if_pos fromFloat, if_neg notBool]
  rfl

end Scene

namespace Program

variable {source : Program} {now : Target → Program} {symbols : SymbolTable} {op : OpId} {shape input : List Int}
  {dtype inputDtype : Dtype} {listing flag : ValueId} {listed : List Int} {keep : Bool} {x : Grid}

/-- The lowering of a sum of floating-point numbers as integers. -/
theorem computes_sum_of_numbers (isSum : source.kind op = .torch .sumDimIntList)
    (verified : source.verifyOp symbols op = .ok ())
    (isInput : source.tensorOperand op 0 = .ok (.ofShape input inputDtype))
    (declared : source.resultType op 0 = .ok (.vtensor (.ofShape shape dtype)))
    (isListing : source.operand op 1 = .ok listing) (lists : source.ListsDims listing listed)
    (isFlag : source.operand op 2 = .ok flag) (isKept : source.foldBool? flag = some keep)
    (isInteger : dtype.isInteger = true) (isFloat : inputDtype.isFloat = true) (static : Static input)
    (loopable : Loopable shape ∧ Loopable input) (fits : x.Fits input inputDtype.storage)
    (awaits : ∀ target, source.Awaits target op (now target)) :
    shape = remaining (isSummed listed input.length) (kept keep 1) input ∧ ∃ result : Target → Grid,
      (∀ target, (result target).Fits shape dtype.storage ∧
        (∀ position, Shape.Inside position shape → (result target).get position = .ok (.int
          (Number.wrapInto dtype.storage
            (∑ item ∈ every input with remaining (isSummed listed input.length) (kept keep 0) item = position,
              target.asInteger dtype.storage (x.number item))))) ∧
        (now target).Computes target op .sumDimIntList [x] (result target)) ∧
      ((∀ item, Shape.Inside item input → ∃ value : Int, dtype.storage.Holds (.int value) ∧ value.natAbs ≤ 2 ^ 53 ∧
        x.number item = Float.ofInt value) → result .loops = result .tosa) := by
  obtain ⟨dims, among, isShape⟩ := of_sum isSum verified declared isInput isListing lists isFlag isKept
  have same {item : Option Int} (items : List Int) (length_eq : items.length = input.length) :
      remaining dims.contains item items = remaining (isSummed listed input.length) item items :=
    Shape.remaining_congr fun dim below => isSummed_of_dimsAmong among dim (below.trans_eq length_eq)
  have isShapeToo : shape = remaining dims.contains (kept keep 1) input := isShape.trans (same input rfl).symm
  have shapeStatic : Static shape := isShape ▸ static.remaining_kept keep
  have stored : dtype.storage.isInteger = true ∧ dtype.storage ≠ .i1 := by
    cases dtype <;> first | exact ⟨rfl, by decide⟩ | cases isInteger
  have notFloat := (ScalarType.isInteger_iff.mp stored.1).1
  have fromFloat : inputDtype.storage.isFloat = true := by cases inputDtype <;> first | rfl | cases isFloat
  let values (target : Target) (position : List Int) : Int := target.asInteger dtype.storage (x.number position)
  have belongs (target : Target) (position : List Int) : dtype.storage.Holds (.int (values target position)) :=
    Target.holds_asInteger notFloat target _
  refine ⟨isShape, fun target => .sums shape dtype.storage input
    (remaining (isSummed listed input.length) (kept keep 0)) (values target), fun target => ⟨Grid.ofInts_fits shapeStatic _ _, fun position inside =>
      Grid.get_sums shapeStatic inside, ?_⟩, fun whole => ?_⟩
  · dsimp only
    rw [← Grid.sums_congr static fun item inside => same item inside.length_eq]
    cases target with
    | tosa =>
      exact computes_converted_tosa (awaits .tosa) isInput declared isListing lists among isShapeToo notFloat static
        (belongs .tosa) fun σ start value holds =>
          Scene.emits_roundTensor notFloat stored.2 fromFloat static holds fun _ => fits
    | loops =>
      exact computes_converted_loops (awaits .loops) isInput declared isListing lists among isShapeToo notFloat static
        loopable.1 loopable.2 fits (belongs .loops) fun σ => Scene.castsTo_of_isFloat stored.1 stored.2 fromFloat
  · -- Either sum runs over the same positions, and at each of them stands an integer.
    refine Grid.ofInts_congr shapeStatic fun position _ => ?_
    refine congrArg (Number.wrapInto dtype.storage) (Finset.sum_congr rfl fun item member => ?_)
    obtain ⟨value, holds, small, isValue⟩ := whole item
      ((Shape.mem_every static).mp (Finset.mem_of_mem_filter item member))
    change Target.loops.asInteger _ (x.number item) = Target.tosa.asInteger _ (x.number item)
    rw [isValue, Target.asInteger_ofInt holds small, Target.asInteger_ofInt holds small]

end Program

/-- A function that adds up the rows of a matrix of numbers as integers. -/
def tallying : Program where
  values := #[⟨some "%x", some (.torch (.vtensor (.ofShape [2, 3] .f32))), .argument (some ⟨1⟩)⟩,
    ⟨none, some (.torch (.vtensor (.ofShape [2] .si64))), .signature⟩,
    ⟨some "%last", some (.torch .int), .result ⟨2⟩⟩, ⟨some "%dims", some (.torch (.list .int)), .result ⟨3⟩⟩,
    ⟨some "%keep", some (.torch .bool), .result ⟨4⟩⟩, ⟨some "%code", some (.torch .int), .result ⟨5⟩⟩,
    ⟨some "%0", some (.torch (.vtensor (.ofShape [2] .si64))), .result ⟨6⟩⟩]
  operations := #[
    { kind := .module },
    { kind := .func .func, results := [⟨1⟩], attributes := Attributes.empty.insert "sym_name" (.ofSymbol "f") },
    { kind := .torch .constantInt, results := [⟨2⟩], attributes := Attributes.empty.insert "value" (.int (-1)) },
    { kind := .torch .listConstruct, operands := [⟨2⟩], results := [⟨3⟩] },
    { kind := .torch .constantBool, results := [⟨4⟩], attributes := Attributes.empty.insert "value" (.bool false) },
    { kind := .torch .constantInt, results := [⟨5⟩], attributes := Attributes.empty.insert "value" (.int 4) },
    { kind := .torch .sumDimIntList, operands := [⟨0⟩, ⟨3⟩, ⟨4⟩, ⟨5⟩], results := [⟨6⟩] },
    { kind := .func .ret, operands := [⟨6⟩] }]
  headers := #[{}, { arguments := [⟨0⟩] }]
  root := ⟨0⟩
  regions := .single ⟨0⟩ (.single ⟨1⟩ (.single ⟨1⟩ (.cons ⟨2⟩ .nil (.cons ⟨3⟩ .nil (.cons ⟨4⟩ .nil
    (.cons ⟨5⟩ .nil (.cons ⟨6⟩ .nil (.single ⟨7⟩ .nil))))))))

/-- The function with the counterparts of its types, where the lowering of the operations begins. -/
def tallyingSigned (target : Target) : Program := ((Change.convertSignatures target).run tallying).2

theorem tallying_awaits (target : Target) : tallying.Awaits target ⟨6⟩ (tallyingSigned target) := by
  cases target
  all_goals exact
    { placed := by decide
      closed := by decide
      kind_eq := rfl
      results_eq := rfl
      types_eq := fun value member => by
        cases List.mem_singleton.mp member
        rfl
      operands := .cons (.of_tensor rfl rfl rfl rfl) (.cons (.of_parameter rfl rfl rfl)
        (.cons (.of_parameter rfl rfl rfl) (.cons (.of_parameter rfl rfl rfl) .nil))) }

/-- The sums of numbers among which there are fractions. -/
theorem computes_sum_of_numbers_tallying : tallying.verify = .ok () ∧
    let x : Grid := ⟨[2, 3], .f32, #[.float 1.0, .float (-2.0), .float 300.0, .float 0.75, .float 0.5, .float (-1.5)]⟩
    ∃ result : Target → Grid,
      (∀ target, (result target).Fits [2] .i64 ∧
        (∀ position, Shape.Inside position [2] → (result target).get position = .ok (.int (Number.wrapInto .i64
          (∑ item ∈ every [2, 3] with remaining (isSummed [-1] 2) none item = position,
            target.asInteger .i64 (x.number item))))) ∧
        (tallyingSigned target).Computes target ⟨6⟩ .sumDimIntList [x] (result target)) ∧
      ((∀ item, Shape.Inside item [2, 3] → ∃ value : Int, ScalarType.i64.Holds (.int value) ∧
        value.natAbs ≤ 2 ^ 53 ∧ x.number item = Float.ofInt value) → result .loops = result .tosa) := by
  have valid : tallying.verify = .ok () := toOption_eq_some_iff.mp (by decide +kernel)
  have verified : tallying.verifyOp {} ⟨6⟩ = .ok () := toOption_eq_some_iff.mp (by decide +kernel)
  have isInput : tallying.tensorOperand ⟨6⟩ 0 = .ok (.ofShape [2, 3] .f32) := rfl
  have declared : tallying.resultType ⟨6⟩ 0 = .ok (.vtensor (.ofShape [2] .si64)) := rfl
  have isListing : tallying.operand ⟨6⟩ 1 = .ok ⟨3⟩ := rfl
  have lists : tallying.ListsDims ⟨3⟩ [-1] := .inr (by decide)
  have isFlag : tallying.operand ⟨6⟩ 2 = .ok ⟨4⟩ := rfl
  have isKept : tallying.foldBool? ⟨4⟩ = some false := rfl
  have static : Static [2, 3] := by simp [Static]
  refine ⟨valid, ?_⟩
  intro x
  have fits : x.Fits [2, 3] .f32 := ⟨rfl, rfl, rfl⟩
  have computes := Program.computes_sum_of_numbers rfl verified isInput declared isListing lists isFlag isKept rfl rfl
    static ⟨by decide, by decide⟩ fits tallying_awaits
  exact computes.2

end TensorIR
