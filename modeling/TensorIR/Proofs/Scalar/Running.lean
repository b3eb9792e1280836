import TensorIR.Proofs.ExactIntegers
import TensorIR.Proofs.Scalar.Branching
import TensorIR.Proofs.Verified

/-!
# Running operations on scalars

The frame of a run shows what is known about values. An operation on integers and truth values is then
run as it is evaluated: constants are exact, and integers and positions are both of 64 bits.

## Main definitions

* `Atom.slot` — what a value is during a run
* `Machine.Shows` — the frame of a run shows what is known
* `Program.IsRunnable` — what a run needs to know about an operation

## Main results

* `Machine.Shows.writeEach` — what is assigned is shown
* `Machine.Shows.run_plainOp` — an operation without control flow
-/

namespace TensorIR

variable {program : Program} {op : OpId} {environment : Environment} {machine middle final : Machine}

/-- What a value is during a run. -/
def Atom.slot (atom : Atom) : Slot := .scalar (.int atom.toInt)

/-- The frame of a run shows what is known. -/
def Machine.Shows (machine : Machine) (environment : Environment) : Prop :=
  ∀ value atom, environment value = some atom →
    machine.frame.getD value.index none = some atom.slot

/-- A run has changed nothing in the frame but values that parts of a tree introduce. -/
structure Program.Leaves (program : Program) (parts : List Part) (machine final : Machine) : Prop where
  size_eq : final.frame.size = machine.frame.size
  others : ∀ value, (∀ part ∈ parts, (program.value value).origin ≠ part.origin) →
    final.frame.getD value.index none = machine.frame.getD value.index none

namespace Program.Leaves

variable {parts fewer : List Part}

theorem refl (program : Program) (parts : List Part) (machine : Machine) :
    program.Leaves parts machine machine :=
  ⟨rfl, fun _ _ => rfl⟩

theorem mono (leaves : program.Leaves fewer machine final) (subset : ∀ part ∈ fewer, part ∈ parts) :
    program.Leaves parts machine final :=
  ⟨leaves.size_eq, fun value outside => leaves.others value fun part member =>
    outside part (subset part member)⟩

theorem trans (first : program.Leaves parts machine middle)
    (second : program.Leaves parts middle final) : program.Leaves parts machine final :=
  ⟨second.size_eq.trans first.size_eq, fun value outside =>
    (second.others value outside).trans (first.others value outside)⟩

/-- What was known before is still shown. -/
theorem shows (leaves : program.Leaves parts machine final) (shown : machine.Shows environment)
    (admits : program.Admits parts environment) : final.Shows environment := by
  intro value atom known
  rw [leaves.others value (admits.elsewhere value atom known)]
  exact shown value atom known

end Program.Leaves

/-! ### Steps of a run -/

namespace Run

variable {α β : Type}

theorem run_bind_of {step : Run α} {next : α → Run β} {value : α}
    (done : step.run machine = .ok (value, middle)) :
    (step >>= next).run machine = (next value).run middle := by
  rw [StateT.run_bind, done]
  rfl

theorem run_lift {answer : Except Error α} {value : α} (found : answer = .ok value) :
    (monadLift answer : Run α).run machine = .ok (value, machine) := by
  rw [found]
  rfl

/-- Steps that leave the machine as it is are done one after the other. -/
theorem run_mapM {step : α → Run β} {items : List α} {values : List β}
    (each : List.Forall₂ (fun item value => (step item).run machine = .ok (value, machine)) items
      values) : (items.mapM step).run machine = .ok (values, machine) := by
  induction each with
  | nil => rfl
  | cons first _ ih =>
    rw [List.mapM_cons, run_bind_of first, run_bind_of ih]
    rfl

/-- Sets the data of values. -/
def writeEach (values : List ValueId) (slots : List Slot) : Run Unit := do
  for (value, slot) in values.zip slots do
    write value slot

theorem run_writeEach_cons (value : ValueId) (slot : Slot) (values : List ValueId) (slots : List Slot) :
    (writeEach (value :: values) (slot :: slots)).run machine = (writeEach values slots).run
      { machine with frame := machine.frame.setIfInBounds value.index (some slot) } := by
  rw [writeEach, List.zip_cons_cons, List.forIn_cons]
  rfl

end Run

namespace Machine.Shows

variable {value : ValueId} {atom : Atom} {values : List ValueId} {atoms : List Atom}

theorem read (shown : machine.Shows environment) (known : environment value = some atom) :
    (Run.read program value).run machine = .ok (atom.slot, machine) := by
  have gives : (get : Run Machine).run machine = .ok (machine, machine) := rfl
  rw [Run.read, Run.run_bind_of gives, shown value atom known]
  rfl

theorem readScalar (shown : machine.Shows environment) (known : environment value = some atom) :
    (Run.readScalar program value).run machine = .ok (.int atom.toInt, machine) := by
  rw [Run.readScalar, Run.run_bind_of (shown.read known)]
  rfl

theorem readInt (shown : machine.Shows environment) (known : environment value = some atom) :
    (Run.readInt program value).run machine = .ok (atom.toInt, machine) := by
  rw [Run.readInt, Run.run_bind_of (shown.readScalar known)]
  rfl

/-- Values that are known together are shown one by one. -/
theorem forall₂ {related : ValueId → Atom → Prop}
    (each : ∀ value atom, environment value = some atom → related value atom)
    (known : values.mapM environment = some atoms) : List.Forall₂ related values atoms := by
  induction values generalizing atoms with
  | nil =>
    cases known
    exact .nil
  | cons value values ih =>
    simp only [List.mapM_cons, Option.bind_eq_bind, Option.bind_eq_some_iff] at known
    obtain ⟨atom, first, others, later, same⟩ := known
    cases same
    exact .cons (each value atom first) (ih later)

theorem readEach (shown : machine.Shows environment) (known : values.mapM environment = some atoms) :
    (values.mapM (Run.read program)).run machine = .ok (atoms.map Atom.slot, machine) :=
  Run.run_mapM (List.forall₂_map_right_iff.mpr (forall₂ (fun _ _ => shown.read) known))

theorem readInts (shown : machine.Shows environment) (known : values.mapM environment = some atoms) :
    (values.mapM (Run.readInt program)).run machine = .ok (atoms.map Atom.toInt, machine) :=
  Run.run_mapM (List.forall₂_map_right_iff.mpr (forall₂ (fun _ _ => shown.readInt) known))

/-- What is assigned is shown when it has been written. -/
theorem writeEach {after : Environment} (shown : machine.Shows environment)
    (assigned : program.assign? environment values atoms = some after)
    (below : ∀ value ∈ values, value.index < machine.frame.size) :
    ∃ final, (Run.writeEach values (atoms.map Atom.slot)).run machine = .ok (⟨⟩, final) ∧
      final.Shows after ∧ final.frame.size = machine.frame.size ∧
      ∀ other ∉ values, final.frame.getD other.index none = machine.frame.getD other.index none := by
  induction values generalizing atoms environment machine with
  | nil =>
    cases atoms with
    | nil =>
      cases assigned
      exact ⟨machine, rfl, shown, rfl, fun _ _ => rfl⟩
    | cons => cases assigned
  | cons value values ih =>
    cases atoms with
    | nil => cases assigned
    | cons atom atoms =>
      rw [Program.assign?] at assigned
      split at assigned
      case isFalse => cases assigned
      -- One slot is written at a time, and the others stay.
      let middle : Machine :=
        { machine with frame := machine.frame.setIfInBounds value.index (some atom.slot) }
      have inside := below value List.mem_cons_self
      have self : middle.frame.getD value.index none = some atom.slot := by
        simp [middle, Array.getD_eq_getD_getElem?, inside]
      have others (other : ValueId) (distinct : other ≠ value) :
          middle.frame.getD other.index none = machine.frame.getD other.index none := by
        have apart : value.index ≠ other.index := fun same => distinct (by
          cases other
          cases value
          exact congrArg ValueId.mk same.symm)
        simp [middle, Array.getD_eq_getD_getElem?, apart]
      have shows : middle.Shows (environment.set value atom) := by
        intro other known found
        by_cases same : other = value
        · subst same
          rw [Environment.set_self] at found
          cases found
          exact self
        · rw [Environment.set_other _ _ same] at found
          rw [others other same]
          exact shown other known found
      obtain ⟨final, written, isShown, size_eq, kept⟩ := ih shows assigned fun other member => by
        rw [show middle.frame.size = machine.frame.size by simp [middle]]
        exact below other (List.mem_cons_of_mem _ member)
      refine ⟨final, ?_, isShown, size_eq.trans (by simp [middle]), fun other outside => ?_⟩
      · rw [List.map_cons, Run.run_writeEach_cons]
        exact written
      · rw [List.mem_cons, not_or] at outside
        rw [kept other outside.2, others other outside.1]

end Machine.Shows

/-! ### Single operations -/

/-- What an operation is about that a run meets: it has been lowered, it keeps the rule for arithmetic if
it is of that sort, and an integer that it is a constant of is exact in double precision. -/
structure Program.IsRunnable (program : Program) (op : OpId) : Prop where
  lowered : (program.kind op).isTorch = false
  kept : ∀ kind, program.kind op = .arith kind → program.verifyArith op kind = .ok ()
  small : ∀ value, program.kind op = .arith .constant →
    program.constantValue? op = some (.int value) → value.natAbs ≤ 2 ^ 53

/-- Values that must have scalar types have them. -/
theorem Program.of_scalarTypes_eq_ok {operands results : List ScalarType}
    (found : program.scalarTypes op = .ok (operands, results)) :
    List.Forall₂ (fun value type => program.typed value = .ok (.scalar type)) (program.operands op)
        operands ∧
      List.Forall₂ (fun value type => program.typed value = .ok (.scalar type)) (program.results op)
        results := by
  have typed {values : List ValueId} {types : List Ty} {scalars : List ScalarType}
      (areTyped : values.mapM program.typed = .ok types) (areScalar : types.mapM expectScalar = .ok scalars) :
      List.Forall₂ (fun value type => program.typed value = .ok (.scalar type)) values scalars := by
    refine (forall₂_comp (forall₂_of_mapM_eq_ok areTyped) (forall₂_of_mapM_eq_ok areScalar)).imp ?_
    rintro value scalar ⟨type, isType, isScalar⟩
    unfold expectScalar at isScalar
    split at isScalar
    case h_1 =>
      cases isScalar
      exact isType
    case h_2 => cases isScalar
  unfold Program.scalarTypes at found
  obtain ⟨operandTypes, areOperands, found⟩ := of_bind_eq_ok found
  obtain ⟨operandScalars, operandsScalar, found⟩ := of_bind_eq_ok found
  obtain ⟨resultTypes, areResults, found⟩ := of_bind_eq_ok found
  obtain ⟨resultScalars, resultsScalar, found⟩ := of_bind_eq_ok found
  cases found
  exact ⟨typed areOperands operandsScalar, typed areResults resultsScalar⟩

/-- Everything that arithmetic works on is scalar, and so is its only result. -/
theorem Program.scalarTypes_of_verifyArith {kind : ArithKind} (notConstant : kind ≠ .constant)
    (kept : program.verifyArith op kind = .ok ()) :
    ∃ operands type, program.scalarTypes op = .ok (operands, [type]) := by
  cases kind with
  | constant => exact absurd rfl notConstant
  | cmpi | cmpf =>
    obtain ⟨operands, types⟩ := of_verifyCompare kept
    exact ⟨operands, .i1, types⟩
  | select =>
    obtain ⟨type, types⟩ := of_verifySelect kept
    exact ⟨_, type, types⟩
  | sitofp | uitofp | fptosi | fptoui | extf | truncf | extsi | trunci | indexCast =>
    obtain ⟨operand, type, types, -⟩ := of_verifyScalarCast kept
    exact ⟨_, type, types⟩
  | addi | subi | muli | divsi | remsi | maxsi | minsi | addf | subf | mulf | divf | maximumf | minimumf
  | negf =>
    obtain ⟨operands, type, types, -⟩ := of_verifySameTypes kept
    exact ⟨operands, type, types⟩

theorem Program.typed_of_typeOf? {value : ValueId} {type : Ty}
    (isType : program.typeOf? value = some type) : program.typed value = .ok type := by
  unfold Program.typeOf? at isType
  unfold Program.typed
  rcases same : program.value value with ⟨name, found, origin⟩
  rw [same] at isType
  cases isType
  rfl

theorem Program.result_of_resultType? {index : Nat} {type : Ty}
    (isType : program.resultType? op index = some type) :
    ∃ result, (program.results op)[index]? = some result ∧ program.result op index = .ok result ∧
      program.typed result = .ok type := by
  obtain ⟨result, isResult, typed⟩ := Option.bind_eq_some_iff.mp isType
  refine ⟨result, isResult, ?_, Program.typed_of_typeOf? typed⟩
  unfold Program.result
  rw [isResult]

/-- The result of arithmetic is scalar. -/
theorem Program.scalar_result {kind : ArithKind} {type : Ty}
    (kept : program.verifyArith op kind = .ok ()) (isType : program.resultType? op 0 = some type) :
    ∃ scalar, type = .scalar scalar := by
  by_cases isConstant : kind = .constant
  · subst isConstant
    rw [Program.verifyArith, Program.verifyScalarConstant, isType] at kept
    cases type with
    | scalar scalar => exact ⟨scalar, rfl⟩
    | _ => cases kept
  · obtain ⟨operands, results, found⟩ := Program.scalarTypes_of_verifyArith isConstant kept
    obtain ⟨result, isResult, -, typed⟩ := Program.result_of_resultType? isType
    obtain ⟨scalar, -, isScalar⟩ :=
      forall₂_getElem? (Program.of_scalarTypes_eq_ok found).2 isResult
    exact ⟨scalar, Except.ok.inj (typed.symm.trans isScalar)⟩

/-- The first operand of arithmetic other than a constant is scalar. -/
theorem Program.scalar_operand {kind : ArithKind} {atom : Atom} {inputs : List Atom}
    (notConstant : kind ≠ .constant) (kept : program.verifyArith op kind = .ok ())
    (isInputs : (program.operands op).mapM environment = some (atom :: inputs)) :
    ∃ value scalar, program.operand op 0 = .ok value ∧ environment value = some atom ∧
      program.typed value = .ok (.scalar scalar) := by
  obtain ⟨operands, results, found⟩ := Program.scalarTypes_of_verifyArith notConstant kept
  cases areOperands : program.operands op with
  | nil =>
    rw [areOperands] at isInputs
    cases isInputs
  | cons value others =>
    have first : (program.operands op)[0]? = some value := by rw [areOperands]; rfl
    obtain ⟨known, isKnown, same⟩ := known_of_mapM isInputs first
    cases same
    obtain ⟨scalar, -, isScalar⟩ := forall₂_getElem? (Program.of_scalarTypes_eq_ok found).1 first
    refine ⟨value, scalar, ?_, isKnown, isScalar⟩
    unfold Program.operand
    rw [first]

/-- What arithmetic computes is a literal of the type of the result. -/
theorem Program.of_outputs?_arith {kind : ArithKind} {inputs outputs : List Atom}
    {enter : Nat → List Atom → Option Exit} (isKind : program.kind op = .arith kind)
    (computed : program.outputs? op inputs enter = some outputs) :
    ∃ type literal atom, program.resultType? op 0 = some type ∧
      program.literal? op inputs = some literal ∧ literal.atom? type = some atom ∧ outputs = [atom] := by
  unfold Program.outputs? at computed
  split at computed
  case h_5 =>
    simp only [Option.bind_eq_bind, Option.bind_eq_some_iff, Option.ite_none_right_eq_some,
      Option.some.injEq] at computed
    obtain ⟨type, isType, literal, isLiteral, atom, isAtom, -, rfl⟩ := computed
    exact ⟨type, literal, atom, isType, isLiteral, isAtom, rfl⟩
  all_goals
    rename_i other
    rw [isKind] at other
    cases other

theorem Literal.atom?_bool {holds : Bool} {type : Ty} {atom : Atom}
    (isAtom : (Literal.bool holds).atom? type = some atom) : atom = .bool holds := by
  unfold Literal.atom? at isAtom
  split at isAtom
  case h_4 isValue | h_5 isValue =>
    cases isValue
    cases isAtom
    rfl
  all_goals contradiction

namespace Run

variable {value : ValueId} {type : ScalarType}

theorem run_elementType (typed : program.typed value = .ok (.scalar type)) :
    (elementType program value).run machine = .ok (type, machine) := by
  unfold elementType
  rw [typed]
  rfl

theorem run_operand {index : Nat} (found : program.operand op index = .ok value) :
    (operand program op index).run machine = .ok (value, machine) :=
  run_lift found

theorem run_twoInts {a b : Atom} (shown : machine.Shows environment)
    (isInputs : (program.operands op).mapM environment = some [a, b]) :
    (twoInts program op).run machine = .ok ((a.toInt, b.toInt), machine) := by
  rw [twoInts, run_bind_of (shown.readInts isInputs)]
  rfl

/-- Integers are of 64 bits, and so are positions. -/
theorem wrapTo_of_atom? {value : Int} {atom : Atom}
    (isAtom : (Literal.int value).atom? (.scalar type) = some atom) :
    Number.wrapTo type value = value ∧ type.isFloat = false ∧ type ≠ .i1 ∧
      atom.slot = .scalar (.int value) := by
  unfold Literal.atom? at isAtom
  split at isAtom
  case h_2 isValue isScalar | h_3 isValue isScalar =>
    cases isValue
    cases isScalar
    cases isAtom
    exact ⟨rfl, rfl, nofun, rfl⟩
  all_goals contradiction

theorem run_constantOp {literal : Literal} {atom : Atom}
    (isLiteral : program.constantValue? op = some literal)
    (isAtom : literal.atom? (.scalar type) = some atom)
    (small : ∀ value, literal = .int value → value.natAbs ≤ 2 ^ 53) :
    (constantOp program op type).run machine = .ok (atom.slot, machine) := by
  unfold constantOp
  rw [isLiteral]
  cases literal with
  | int value =>
    obtain ⟨wraps, notFloat, -, same⟩ := wrapTo_of_atom? isAtom
    have exact : Scalar.ofFloat type (Float.ofInt value) = .int value := by
      rw [Scalar.ofFloat, notFloat, Number.truncateToInt_ofInt (small value rfl), wraps]
      rfl
    rw [same, ← exact]
    rfl
  | bool value =>
    unfold Literal.atom? at isAtom
    split at isAtom
    case h_5 isValue isScalar =>
      cases isValue
      cases isAtom
      rfl
    all_goals contradiction
  | _ => cases isAtom

theorem run_intOp {compute : Int → Int → Option Int} {a b value : Int} {atom : Atom}
    (shown : machine.Shows environment)
    (isInputs : (program.operands op).mapM environment = some [.int a, .int b])
    (computes : compute a b = some value)
    (isAtom : (Literal.int value).atom? (.scalar type) = some atom) :
    (intOp program op type compute).run machine = .ok (atom.slot, machine) := by
  obtain ⟨wraps, -, -, same⟩ := wrapTo_of_atom? isAtom
  rw [intOp, run_bind_of (run_twoInts shown isInputs)]
  simp only [Atom.toInt, computes, wraps, same]
  rfl

/-- A scalar that can be an integer is of 64 bits. -/
theorem eq_i64_of_fits {number : Int} (typed : program.typed value = .ok (.scalar type))
    (fits : (program.typeOf? value).any (Atom.int number).fits = true) : type = .i64 := by
  rw [Program.typeOf?_of_typed typed] at fits
  cases type <;> first | rfl | cases fits

/-- The comparison of two integers. -/
theorem run_compareOp {a b : Int} {holds : Bool} (shown : machine.Shows environment)
    (kept : program.verifyArith op .cmpi = .ok ())
    (fits : ∀ value atom, environment value = some atom →
      (program.typeOf? value).any atom.fits = true)
    (isInputs : (program.operands op).mapM environment = some [.int a, .int b])
    (compares : compareInts (program.stringOf op "predicate") .i64 a b = .ok holds) :
    (compareOp program op .cmpi).run machine = .ok (Atom.slot (.bool holds), machine) := by
  have notConstant : ArithKind.cmpi ≠ .constant := nofun
  obtain ⟨value, scalar, isOperand, isKnown, typed⟩ :=
    Program.scalar_operand notConstant kept isInputs
  obtain rfl := eq_i64_of_fits typed (fits value _ isKnown)
  unfold compareOp
  simp only [if_true]
  rw [run_bind_of (run_operand isOperand), run_bind_of (run_twoInts shown isInputs),
    run_bind_of (run_elementType typed)]
  have compared : (liftM (compareInts (program.stringOf op "predicate") .i64 a b) : Run Bool).run
      machine = .ok (holds, machine) := run_lift compares
  exact run_bind_of compared

/-- The conversion between integers and positions. -/
theorem run_convertOp {known atom : Atom} {number : Int} (shown : machine.Shows environment)
    (isKind : program.kind op = .arith .indexCast) (kept : program.verifyArith op .indexCast = .ok ())
    (fits : ∀ value atom, environment value = some atom →
      (program.typeOf? value).any atom.fits = true)
    (isInputs : (program.operands op).mapM environment = some [known])
    (isNumber : known = .int number ∨ known = .index number)
    (isAtom : (Literal.int number).atom? (.scalar type) = some atom) :
    (convertOp program op type).run machine = .ok (atom.slot, machine) := by
  have notConstant : ArithKind.indexCast ≠ .constant := nofun
  obtain ⟨value, source, isOperand, isKnown, typed⟩ :=
    Program.scalar_operand notConstant kept isInputs
  obtain ⟨wraps, notFloat, notBit, same⟩ := wrapTo_of_atom? isAtom
  have sourceNotFloat : source.isFloat = false := by
    have fitting := fits value known isKnown
    rw [Program.typeOf?_of_typed typed] at fitting
    rcases isNumber with rfl | rfl <;> cases source <;> first | rfl | cases fitting
  have isInt : known.toInt = number := by rcases isNumber with rfl | rfl <;> rfl
  unfold convertOp
  rw [run_bind_of (run_operand isOperand), run_bind_of (run_elementType typed),
    run_bind_of (shown.readScalar isKnown), isKind, isInt, same]
  simp only [Scalar.cast, notFloat, sourceNotFloat, notBit, Scalar.toInt, wraps, Bool.false_eq_true,
    if_false]
  rfl

end Run

/-- An operation on integers is run as it is evaluated. -/
theorem Machine.Shows.run_plainOp {kind : ArithKind} {inputs outputs : List Atom}
    {enter : Nat → List Atom → Option Exit} (shown : machine.Shows environment)
    (runnable : program.IsRunnable op) (isKind : program.kind op = .arith kind)
    (fits : ∀ value atom, environment value = some atom →
      (program.typeOf? value).any atom.fits = true)
    (isInputs : (program.operands op).mapM environment = some inputs)
    (computed : program.outputs? op inputs enter = some outputs) :
    (Run.plainOp program op).run machine = .ok (outputs.map Atom.slot, machine) := by
  have kept := runnable.kept kind isKind
  obtain ⟨_, literal, atom, isType, isLiteral, isAtom, rfl⟩ := Program.of_outputs?_arith isKind computed
  obtain ⟨type, rfl⟩ := Program.scalar_result kept isType
  obtain ⟨result, -, isResult, typed⟩ := Program.result_of_resultType? isType
  have scalar : (Run.scalarOp program op).run machine = .ok (atom.slot, machine) := by
    unfold Run.scalarOp
    rw [Run.run_bind_of (Run.run_lift isResult), Run.run_bind_of (Run.run_elementType typed), isKind]
    unfold Program.literal? at isLiteral
    rw [isKind] at isLiteral
    split at isLiteral
    case h_1 same =>
      cases same
      exact Run.run_constantOp isLiteral isAtom fun value isValue =>
        runnable.small value isKind (isLiteral.trans (congrArg some isValue))
    case h_2 same =>
      cases same
      cases isLiteral
      exact Run.run_convertOp shown isKind kept fits isInputs (.inl rfl) isAtom
    case h_3 same =>
      cases same
      cases isLiteral
      exact Run.run_convertOp shown isKind kept fits isInputs (.inr rfl) isAtom
    case h_4 a b same =>
      cases same
      obtain ⟨holds, isHolds, rfl⟩ := Option.map_eq_some_iff.mp isLiteral
      have compares : compareInts (program.stringOf op "predicate") .i64 a b = .ok holds := by
        cases run : compareInts (program.stringOf op "predicate") .i64 a b <;> rw [run] at isHolds <;>
          cases isHolds
        rfl
      rw [Literal.atom?_bool isAtom]
      exact Run.run_compareOp shown kept fits isInputs compares
    case h_5 a b _ same =>
      cases same
      obtain ⟨compute, isCompute, isLiteral⟩ := Option.bind_eq_some_iff.mp isLiteral
      obtain ⟨value, computes, rfl⟩ := Option.map_eq_some_iff.mp isLiteral
      cases kind <;> cases isCompute <;> exact Run.run_intOp shown isInputs computes isAtom
    all_goals contradiction
  unfold Run.plainOp
  rw [isKind]
  change (do return [← Run.scalarOp program op] : Run (List Slot)).run machine = _
  rw [Run.run_bind_of scalar]
  rfl

end TensorIR
