import TensorIR.Proofs.Emission.Steps
import TensorIR.Proofs.Tensors.Sums

/-!
# Arithmetic that is built

Operations on scalars are built whose operands are known numbers. Each rule says which number is known afterwards.
A conversion between integer types is built in one of several ways, and it always gives the integer as one of the
other type. A floating-point number is cut to an integer.

## Main results

* `Scene.emits_intOp` — what an operation computes from two integers
* `Scene.emits_floatOp` — what an operation computes from two floating-point numbers
* `Scene.emits_cast`, `Scene.emits_cut`, `Scene.emits_widen` — a conversion between types of integers, from
  floating-point numbers and to them
* `Scene.emits_binary` — an operation on two integers of one type, taken modulo its width
-/

namespace TensorIR

/-- What a conversion makes of a number of one type, as a number of another one. -/
def ArithKind.converts? (source type : ScalarType) (x : Scalar) : ArithKind → Option Scalar
  | .trunci | .extsi | .sitofp | .extf | .truncf | .indexCast => some (x.cast source type)
  | .uitofp => some (.float (Number.roundTo type (Float.ofInt (unsignedOf source x.toInt))))
  | .fptosi | .fptoui => some (.int (Number.wrapTo type (Number.truncateToInt x.toFloat)))
  | _ => none

section Running

variable {program : Program} {op : OpId} {operands : List ValueId} {attributes : Attributes} {value : ValueId}
  {type : ScalarType} {kind : ArithKind} {machine : Machine}

namespace Program.Defines

variable (defines : program.Defines op (.arith kind) operands attributes [value] [.scalar type])

include defines

theorem result_typed : program.typed value = .ok (.scalar type) :=
  Program.typed_of_typeOf? (by simpa using defines.types_eq)

omit defines in
/-- An operand of an operation that is run. -/
theorem run_operand {kind : OpKind} {results : List ValueId} {types : List Ty} {operand : ValueId} {index : Nat}
    (defines : program.Defines op kind operands attributes results types) (found : operands[index]? = some operand) :
    (Run.operand program op index).run machine = .ok (operand, machine) :=
  Run.run_operand (by rw [Program.operand, defines.operands_eq, found])

theorem run_result : (monadLift (program.result op 0) : Run ValueId).run machine = .ok (value, machine) :=
  Run.run_lift (by rw [Program.result, defines.results_eq]; rfl)

/-- A run of arithmetic is what it computes, with the type of the result. -/
theorem run_plainOp {slot : Slot}
    (computes : (Run.scalarOp program op).run machine = .ok (slot, machine)) :
    (Run.plainOp program op).run machine = .ok ([slot], machine) := by
  rw [Run.plainOp, defines.kind_eq]
  dsimp only
  rw [Run.run_bind_of computes]
  rfl

theorem run_intOp {compute : Int → Int → Option Int} {a b c : Int} (isInt : kind.onInts? = some compute)
    (reads : (Run.twoInts program op).run machine = .ok ((a, b), machine)) (computes : compute a b = some c) :
    (Run.plainOp program op).run machine = .ok ([.scalar (.int (Number.wrapTo type c))], machine) := by
  refine defines.run_plainOp ?_
  rw [Run.scalarOp, Run.run_bind_of defines.run_result,
    Run.run_bind_of (Run.run_elementType defines.result_typed), defines.kind_eq]
  have done : (Run.intOp program op type compute).run machine =
      .ok (.scalar (.int (Number.wrapTo type c)), machine) := by
    rw [Run.intOp, Run.run_bind_of reads]
    dsimp only
    rw [computes]
    rfl
  cases kind <;> first | (injection isInt with isInt; subst isInt; exact done) | cases isInt

theorem run_floatOp {compute : Float → Float → Float} {a b : Float} (isFloat : Run.onFloats? kind = some compute)
    (reads : (Run.twoFloats program op).run machine = .ok ((a, b), machine)) :
    (Run.plainOp program op).run machine = .ok ([.scalar (.float (Number.roundTo type (compute a b)))], machine) := by
  refine defines.run_plainOp ?_
  rw [Run.scalarOp, Run.run_bind_of defines.run_result,
    Run.run_bind_of (Run.run_elementType defines.result_typed), defines.kind_eq]
  have done : (Run.floatOp program op type compute).run machine =
      .ok (.scalar (.float (Number.roundTo type (compute a b))), machine) := by
    rw [Run.floatOp, Run.run_bind_of reads]
    rfl
  cases kind <;> first | (injection isFloat with isFloat; subst isFloat; exact done) | cases isFloat

/-- A conversion reads its operand and the type that it comes from. -/
theorem run_convert {operand : ValueId} {source : ScalarType} {x y : Scalar} (areOperands : operands = [operand])
    (typed : program.typed operand = .ok (.scalar source))
    (reads : (Run.readScalar program operand).run machine = .ok (x, machine))
    (converts : kind.converts? source type x = some y) :
    (Run.plainOp program op).run machine = .ok ([.scalar y], machine) := by
  subst areOperands
  refine defines.run_plainOp ?_
  rw [Run.scalarOp, Run.run_bind_of defines.run_result,
    Run.run_bind_of (Run.run_elementType defines.result_typed), defines.kind_eq]
  have read : ∀ next : ScalarType → Scalar → Run Slot,
      (do
        let value ← Run.operand program op 0
        let source ← Run.elementType program value
        let x ← Run.readScalar program value
        next source x : Run Slot).run machine = (next source x).run machine := by
    intro next
    rw [Run.run_bind_of (defines.run_operand rfl), Run.run_bind_of (Run.run_elementType typed), Run.run_bind_of reads]
  have kind_eq := defines.kind_eq
  cases kind <;> cases converts
  all_goals
    change (Run.convertOp program op type).run machine = _
    rw [Run.convertOp, read, kind_eq]
    rfl

/-- A constant integer goes through a floating-point number, unless it is a truth value. -/
theorem run_constant {number : Int} (isConstant : kind = .constant)
    (isNumber : attributes = Build.constantAttributes (some (.int number))) :
    (Run.plainOp program op).run machine = .ok ([.scalar <|
      if type = .i1 then Scalar.ofBool (number ≠ 0) else Scalar.ofFloat type (Float.ofInt number)], machine) := by
  subst isConstant isNumber
  refine defines.run_plainOp ?_
  rw [Run.scalarOp, Run.run_bind_of defines.run_result,
    Run.run_bind_of (Run.run_elementType defines.result_typed), defines.kind_eq]
  change (Run.constantOp program op type).run machine = _
  have given : (program.attributes op).int? "value" = some number := by
    rw [defines.attributes_eq, int?_constantAttributes]
  rw [Run.constantOp, Program.constantValue?, given]
  dsimp only
  rw [defines.resultType?_eq]
  by_cases isBool : type = .i1
  · subst isBool
    rw [if_pos rfl, if_pos rfl]
    rfl
  · rw [if_neg (by simpa using isBool), if_neg isBool]
    rfl

/-- A constant floating-point number. -/
theorem run_literal {number : Float} (isConstant : kind = .constant)
    (isNumber : attributes = Build.constantAttributes (some (.float number))) :
    (Run.plainOp program op).run machine = .ok ([.scalar (Scalar.ofFloat type number)], machine) := by
  subst isConstant isNumber
  refine defines.run_plainOp ?_
  rw [Run.scalarOp, Run.run_bind_of defines.run_result,
    Run.run_bind_of (Run.run_elementType defines.result_typed), defines.kind_eq]
  change (Run.constantOp program op type).run machine = _
  rw [Run.constantOp, Program.constantValue?, defines.attributes_eq]
  rfl

/-- A constant of zero or one of an integer type. -/
theorem run_bit {number : Int} (isConstant : kind = .constant)
    (isNumber : attributes = Build.constantAttributes (some (.int number))) (notFloat : type.isFloat = false)
    (isBit : number = 0 ∨ number = 1) :
    (Run.plainOp program op).run machine = .ok ([.scalar (.int number)], machine) := by
  rw [defines.run_constant isConstant isNumber]
  split
  · rcases isBit with rfl | rfl <;> rfl
  · have holds : type.Holds (.int number) := by
      rcases isBit with rfl | rfl
      · exact ScalarType.holds_zero type
      · exact ScalarType.holds_ofBool type true
    have exact : Number.truncateToInt (Float.ofInt number) = number := Number.truncateToInt_ofInt (by omega)
    rw [Scalar.ofFloat, notFloat, exact, ScalarType.wrapTo_of_holds holds]
    rfl

omit defines in
/-- A function of a floating-point number. -/
theorem run_math {kind : MathKind} {operand : ValueId} {x : Scalar}
    (defines : program.Defines op (.math kind) [operand] attributes [value] [.scalar type])
    (reads : (Run.readFloat program operand).run machine = .ok (x.toFloat, machine)) :
    (Run.plainOp program op).run machine = .ok ([.scalar (x.onFloat type (Run.onFloat kind))], machine) := by
  have result : (monadLift (program.result op 0) : Run ValueId).run machine = .ok (value, machine) :=
    Run.run_lift (by rw [Program.result, defines.results_eq]; rfl)
  have typed : program.typed value = .ok (.scalar type) := Program.typed_of_typeOf? (by simpa using defines.types_eq)
  have operands : ((program.operands op).mapM (Run.readFloat program)).run machine = .ok ([x.toFloat], machine) := by
    rw [defines.operands_eq]
    exact Run.run_mapM (.cons reads .nil)
  have floats : (Run.twoFloats program op).run machine = .ok ((x.toFloat, 0.0), machine) := by
    rw [Run.twoFloats, Run.run_bind_of operands]
    rfl
  have done : (Run.scalarOp program op).run machine = .ok (.scalar (x.onFloat type (Run.onFloat kind)), machine) := by
    rw [Run.scalarOp, Run.run_bind_of result, Run.run_bind_of (Run.run_elementType typed), defines.kind_eq]
    dsimp only
    rw [Run.unaryOp, Run.run_bind_of floats]
    rfl
  rw [Run.plainOp, defines.kind_eq]
  dsimp only
  rw [Run.run_bind_of done]
  rfl

end Program.Defines

/-- A constant position, as it is found through a floating-point number. -/
theorem Program.IsPosition.run_plainOp {position : Int} (isPosition : program.IsPosition op position value) :
    (Run.plainOp program op).run machine = .ok ([.scalar (.int (Number.asPosition position))], machine) :=
  Program.Defines.run_constant isPosition rfl rfl

end Running

/-! ### Conversions between types of integers -/

theorem ScalarType.isInteger_iff {type : ScalarType} :
    type.isInteger = true ↔ type.isFloat = false ∧ type ≠ .index := by
  simp [isInteger]

/-- An unsigned byte stays what it is when it is taken without its sign. -/
theorem unsignedOf_byte {number : Int} (holds : ScalarType.ui8.Holds (.int number)) :
    unsignedOf .ui8 number = number := by
  obtain ⟨least, most⟩ := holds
  simp only [ScalarType.bounds, ScalarType.intRange?, Option.getD_some] at least most
  exact Int.emod_eq_of_lt least (lt_of_le_of_lt most (by decide))

namespace Scene

variable {σ : Type} {start now : Scene σ} {lhs rhs value : ValueId} {type source : ScalarType} {a b c : σ → Int}
  {kind : ArithKind}

/-- The value is known to be an integer of a type. -/
abbrev HoldsInt (scene : Scene σ) (value : ValueId) (type : ScalarType) (number : σ → Int) : Prop :=
  scene.Holds value (.scalar type) fun s => .scalar (.int (number s))

theorem Meets.run_twoInts {s : σ} {program : Program} {machine : Machine} {op : OpId} {other : ScalarType}
    (meets : start.Meets s program machine) (lhsHolds : start.HoldsInt lhs type a)
    (rhsHolds : start.HoldsInt rhs other b)
    (areOperands : program.operands op = [lhs, rhs]) :
    (Run.twoInts program op).run machine = .ok ((a s, b s), machine) := by
  have reads : ((program.operands op).mapM (Run.readInt program)).run machine = .ok ([a s, b s], machine) := by
    rw [areOperands]
    exact Run.run_mapM (.cons (meets.readInt lhsHolds) (.cons (meets.readInt rhsHolds) .nil))
  rw [Run.twoInts, Run.run_bind_of reads]
  rfl

/-- The type of a scalar that is known. -/
theorem Holds.scalarType_bind {α : Type} {memory : σ → Array Grid} {slot : σ → Slot} {next : ScalarType → Build α}
    {post : α → Scene σ → Prop} (holds : start.Holds value (.scalar type) slot)
    (later : start.Emits (next type) memory post) : start.Emits (Loops.scalarType value >>= next) memory post := by
  refine Emits.askFor_bind ?_ later
  rw [Program.typed_of_typeOf? holds.typed]
  rfl

/-- A constant of zero or one. -/
theorem emits_constant (notFloat : type.isFloat = false) {number : Int} (isBit : number = 0 ∨ number = 1)
    {literal : Float} (isNumber : Number.truncateToInt literal = number) :
    start.Emits (Build.scalar literal type) start.memory fun value now => now.HoldsInt value type fun _ => number := by
  rw [Build.scalar, notFloat, isNumber]
  refine emits_of_adds rfl (fun _ placed => adds_namedConstant _ _ _ _ placed) fun _ _ _ s machine meets defines => ?_
  rw [defines.run_bit rfl rfl notFloat isBit, ← meets.memory]

theorem emits_zero (notFloat : type.isFloat = false) :
    start.Emits (Build.scalar 0.0 type) start.memory fun value now => now.HoldsInt value type fun _ => 0 :=
  emits_constant notFloat (.inl rfl) (by decide)

/-- An operation on two integers. -/
theorem emits_intOp {compute : Int → Int → Option Int} {other : ScalarType} (type : ScalarType)
    (isInt : kind.onInts? = some compute) (lhsHolds : start.HoldsInt lhs source a)
    (rhsHolds : start.HoldsInt rhs other b) (computes : ∀ s, compute (a s) (b s) = some (c s)) :
    start.Emits (Loops.arith kind [lhs, rhs] type) start.memory fun value now =>
      now.HoldsInt value type fun s => Number.wrapTo type (c s) :=
  emits_pure rfl fun _ _ _ s _ meets defines =>
    defines.run_intOp isInt (meets.run_twoInts lhsHolds rhsHolds defines.operands_eq) (computes s)

/-- A conversion of one number. -/
theorem emits_convert {x y : σ → Scalar} (holds : start.Holds value (.scalar source) fun s => .scalar (x s))
    (converts : ∀ s, kind.converts? source type (x s) = some (y s)) :
    start.Emits (Loops.arith kind [value] type) start.memory fun result now =>
      now.Holds result (.scalar type) fun s => .scalar (y s) :=
  emits_pure rfl fun _ _ _ s _ meets defines =>
    defines.run_convert rfl (meets.typed holds) (meets.readScalar holds) (converts s)

/-! #### Floating-point numbers -/

theorem Meets.readFloat {s : σ} {program : Program} {machine : Machine} {x : σ → Scalar}
    (meets : start.Meets s program machine) (holds : start.Holds value (.scalar type) fun s => .scalar (x s)) :
    (Run.readFloat program value).run machine = .ok ((x s).toFloat, machine) := by
  rw [Run.readFloat, Run.run_bind_of (meets.readScalar holds)]
  rfl

/-- A constant floating-point number, as precise as its type. -/
theorem emits_float (start : Scene σ) (isFloat : type.isFloat = true) (number : Float) :
    start.Emits (Build.float number type) start.memory fun value now =>
      now.Holds value (.scalar type) fun _ => .scalar (.float (Number.roundTo type number)) := by
  refine emits_of_adds rfl (fun _ placed => adds_namedConstant _ _ _ _ placed) fun _ _ _ s machine meets defines => ?_
  rw [defines.run_literal rfl rfl, Scalar.ofFloat, if_pos isFloat, ← meets.memory]

/-- A constant of any type; where the type has no floating-point numbers, it is zero or one. -/
theorem emits_scalar {literal : Float}
    (isBit : Number.truncateToInt literal = 0 ∨ Number.truncateToInt literal = 1) :
    start.Emits (Build.scalar literal type) start.memory fun value now =>
      now.Holds value (.scalar type) fun _ => .scalar (.ofFloat type literal) := by
  cases isFloat : type.isFloat with
  | true =>
    rw [Build.scalar, isFloat, Scalar.ofFloat, if_pos isFloat]
    exact emits_float start isFloat literal
  | false =>
    refine (emits_constant isFloat isBit rfl).imp fun _ _ _ holds => holds.congr fun _ => congrArg Slot.scalar ?_
    rw [Scalar.ofFloat, isFloat]
    rcases isBit with same | same <;> rw [same] <;> cases type <;> rfl

/-- An operation on two floating-point numbers. -/
theorem emits_floatOp {x y : σ → Scalar} {operation : Loops.Binary} {compute : Float → Float → Float}
    (isFloat : type.isFloat = true) (isCompute : Run.onFloats? (operation.kind true) = some compute)
    (lhsHolds : start.Holds lhs (.scalar type) fun s => .scalar (x s))
    (rhsHolds : start.Holds rhs (.scalar type) fun s => .scalar (y s)) :
    start.Emits (Loops.binary operation lhs rhs) start.memory fun value now =>
      now.Holds value (.scalar type) fun s =>
        .scalar (.float (Number.roundTo type (compute (x s).toFloat (y s).toFloat))) := by
  refine lhsHolds.scalarType_bind ?_
  rw [isFloat]
  refine emits_pure rfl fun program op _ s machine meets defines => defines.run_floatOp isCompute ?_
  have reads : ((program.operands op).mapM (Run.readFloat program)).run machine =
      .ok ([(x s).toFloat, (y s).toFloat], machine) := by
    rw [defines.operands_eq]
    exact Run.run_mapM (.cons (meets.readFloat lhsHolds) (.cons (meets.readFloat rhsHolds) .nil))
  rw [Run.twoFloats, Run.run_bind_of reads]
  rfl

/-- A function of a floating-point number. -/
theorem emits_math {x : σ → Scalar} {kind : MathKind}
    (holds : start.Holds value (.scalar source) fun s => .scalar (x s)) :
    start.Emits (Loops.math kind value type) start.memory fun result now =>
      now.Holds result (.scalar type) fun s => .scalar ((x s).onFloat type (Run.onFloat kind)) :=
  emits_pure rfl fun _ _ _ _ _ meets defines => defines.run_math (meets.readFloat holds)

/-- A floating-point number is cut to an integer. -/
theorem emits_cut {x : σ → Scalar} (isInteger : type.isInteger = true) (notBool : type ≠ .i1)
    (fromFloat : source.isFloat = true) (holds : start.Holds value (.scalar source) fun s => .scalar (x s)) :
    start.Emits (Loops.cast value type) start.memory fun result now =>
      now.HoldsInt result type fun s => Number.wrapTo type (Number.truncateToInt (x s).toFloat) := by
  have notFloat := (ScalarType.isInteger_iff.mp isInteger).1
  refine holds.scalarType_bind ?_
  rw [if_neg (by rintro rfl; rw [fromFloat] at notFloat; cases notFloat), if_neg notBool,
    if_neg (by rintro rfl; cases fromFloat), fromFloat, notFloat]
  exact emits_convert holds fun s => by split <;> rfl

/-- An integer of a type is widened to a floating-point number. -/
theorem emits_widen (isFloat : type.isFloat = true) (fromInteger : source.isInteger = true) (notBool : source ≠ .i1)
    (holds : start.HoldsInt value source a) (inRange : ∀ s, source.Holds (.int (a s))) :
    start.Emits (Loops.cast value type) start.memory fun result now =>
      now.Holds result (.scalar type) fun s => .scalar (.float (Number.roundTo type (Float.ofInt (a s)))) := by
  have notFloat := (ScalarType.isInteger_iff.mp fromInteger).1
  refine holds.scalarType_bind ?_
  rw [if_neg (by rintro rfl; rw [isFloat] at notFloat; cases notFloat),
    if_neg (by rintro rfl; cases isFloat), if_neg notBool, isFloat, notFloat]
  refine emits_convert holds fun s => ?_
  split
  case isTrue unsigned =>
    obtain rfl : source = .ui8 := by simpa [ScalarType.isUnsigned] using unsigned
    rw [ArithKind.converts?, Scalar.toInt, unsignedOf_byte (inRange s)]
  case isFalse => rw [ArithKind.converts?, Scalar.cast, if_pos isFloat, Scalar.toFloat]

/-! #### Integers -/

end Scene

/-! ### Operations on two integers of a type -/

/-- What an operation computes from two integers, before the result is taken modulo the width of a type. -/
def Loops.Binary.onInts? : Loops.Binary → Option (Int → Int → Int)
  | .add => some (· + ·)
  | .sub => some (· - ·)
  | .mul => some (· * ·)
  | .max => some Max.max
  | .min => some Min.min
  | .div => none

/-- The greater and the lesser of two integers of a type are integers of the type. -/
theorem ScalarType.holds_of_choice {type : ScalarType} {a b c : Int} (chosen : c = a ∨ c = b)
    (holds : type.Holds (.int a)) (holdsToo : type.Holds (.int b)) : type.Holds (.int c) := by
  rcases chosen with rfl | rfl <;> assumption

/-- What is built for an operation computes it modulo the width of the type. -/
theorem Loops.Binary.exists_compute {operation : Loops.Binary} {combine : Int → Int → Int}
    (isCombine : operation.onInts? = some combine) :
    ∃ compute, (operation.kind false).onInts? = some compute ∧
      ∀ (type : ScalarType) (a b : Int), type.Holds (.int a) → type.Holds (.int b) →
        ∃ c, compute a b = some c ∧ Number.wrapTo type c = Number.wrapInto type (combine a b) := by
  have same {type : ScalarType} {a b c : Int} (chosen : c = a ∨ c = b) (holds : type.Holds (.int a))
      (holdsToo : type.Holds (.int b)) : Number.wrapTo type c = Number.wrapInto type c := by
    have inRange := ScalarType.holds_of_choice chosen holds holdsToo
    rw [ScalarType.wrapTo_of_holds inRange, Number.wrapInto_of_holds inRange]
  cases operation with
  | div => cases isCombine
  | add | sub | mul =>
    injection isCombine with isCombine
    subst isCombine
    exact ⟨_, rfl, fun type a b _ _ => ⟨_, rfl, rfl⟩⟩
  | max =>
    injection isCombine with isCombine
    subst isCombine
    exact ⟨_, rfl, fun type a b holds holdsToo => ⟨_, rfl, same (max_choice a b) holds holdsToo⟩⟩
  | min =>
    injection isCombine with isCombine
    subst isCombine
    exact ⟨_, rfl, fun type a b holds holdsToo => ⟨_, rfl, same (min_choice a b) holds holdsToo⟩⟩

/-- An operation on two integers of a type. -/
theorem Scene.emits_binary {σ : Type} {start : Scene σ} {lhs rhs : ValueId} {type : ScalarType} {a b : σ → Int}
    {operation : Loops.Binary} {combine : Int → Int → Int} (isCombine : operation.onInts? = some combine)
    (notFloat : type.isFloat = false) (lhsHolds : start.HoldsInt lhs type a) (rhsHolds : start.HoldsInt rhs type b)
    (lhsInRange : ∀ s, type.Holds (.int (a s))) (rhsInRange : ∀ s, type.Holds (.int (b s))) :
    start.Emits (Loops.binary operation lhs rhs) start.memory fun value now =>
      now.HoldsInt value type fun s => Number.wrapInto type (combine (a s) (b s)) := by
  obtain ⟨compute, isInt, computes⟩ := Loops.Binary.exists_compute isCombine
  choose c isComputed wraps using fun s => computes type (a s) (b s) (lhsInRange s) (rhsInRange s)
  refine lhsHolds.scalarType_bind ?_
  rw [notFloat]
  simpa only [wraps] using emits_intOp type isInt lhsHolds rhsHolds isComputed

end TensorIR
