import TensorIR.Proofs.Execution.Bodies

/-!
# How steps of a run fail

A step of a run can fail for many reasons. One of them is that a value is read that has no data in the
frame, and then the message names the value. All other messages begin in another way, so it can be
followed through the steps of an operation which values may be named.

## Main definitions

* `Blameless` — an answer that is no report of a value without data
* `Run.Proceeds` — what holds after a step, and which values it may report to be without data
* `Machine.Covers` — a value has data, or may be reported

## Main results

* `proceeds_plainOp` — operations without control flow
-/

namespace TensorIR

variable {α β : Type}

/-! ### Messages -/

/-- The report of a value that has no data. -/
def undefinedValue (name : String) : Error := .failure s!"value {name} is not defined"

/-- The answer is no report of a value without data. -/
def Blameless (answer : Except Error α) : Prop :=
  ∀ name, answer ≠ .error (undefinedValue name)

/-- Reports of values begin with a letter of their own. -/
theorem failure_ne_undefinedValue {message : String} (head : message.toList.head? ≠ some 'v')
    (name : String) : Error.failure message ≠ undefinedValue name := by
  intro same
  injection same with same
  apply head
  rw [same]
  simp [toString]

theorem undefinedValue_inj {first second : String}
    (same : undefinedValue first = undefinedValue second) : first = second := by
  injection same with same
  have letters := congrArg String.toList same
  simp only [String.toList_append, toString] at letters
  exact String.toList_inj.mp (List.append_cancel_left (List.append_cancel_right letters))

theorem blameless_ok (value : α) : Blameless (.ok value) := by
  rintro name ⟨⟩

theorem blameless_failing {message : String} (head : message.toList.head? ≠ some 'v') :
    Blameless (failing message : Except Error α) := by
  intro name same
  injection same with same
  exact failure_ne_undefinedValue head name same

theorem Blameless.bind {answer : Except Error α} {next : α → Except Error β}
    (first : Blameless answer) (second : ∀ value, Blameless (next value)) :
    Blameless (answer >>= next) := by
  intro name same
  cases answer with
  | error error =>
    injection same with same
    exact first name (congrArg Except.error same)
  | ok value => exact second value name same

theorem blameless_mapM {step : α → Except Error β} (each : ∀ item, Blameless (step item))
    (items : List α) : Blameless (items.mapM step) := by
  induction items with
  | nil => exact blameless_ok []
  | cons item items ih =>
    rw [List.mapM_cons]
    exact (each item).bind fun _ => ih.bind fun _ => blameless_ok _

theorem blameless_foldlM {step : β → α → Except Error β} (each : ∀ state item, Blameless (step state item))
    (items : List α) (start : β) : Blameless (items.foldlM step start) := by
  induction items generalizing start with
  | nil => exact blameless_ok start
  | cons item items ih =>
    rw [List.foldlM_cons]
    exact (each start item).bind ih

theorem blameless_ofShape (answer : Except ShapeFault α) : Blameless (ofShape answer) := by
  cases answer with
  | error fault => rintro name ⟨⟩
  | ok value => exact blameless_ok value

/-- The names of operations begin with the names of their groups. -/
theorem OpKind.head_name (kind : OpKind) : kind.name.toList.head? ≠ some 'v' := by
  cases kind with
  | module => simp [name]
  | arith kind => cases kind <;> simp [name, ArithKind.name]
  | func kind => cases kind <;> simp [name, FuncKind.name]
  | math kind => cases kind <;> simp [name, MathKind.name]
  | memref kind => cases kind <;> simp [name, MemrefKind.name]
  | scf kind => cases kind <;> simp [name, ScfKind.name]
  | tosa kind => cases kind <;> simp [name, TosaKind.name]
  | torch kind => cases kind <;> simp [name, TorchKind.name]

theorem Program.head_opName (program : Program) (op : OpId) {letter : Char} (other : letter ≠ 'v') :
    (program.opName op).toList.head?.getD letter ≠ 'v' := by
  have head := (program.kind op).head_name
  unfold Program.opName
  cases first : (program.kind op).name.toList.head? with
  | none => exact other
  | some found => rwa [first, ne_eq, Option.some.injEq] at head

/-! ### Arrays -/

section Arrays

variable (grid other : Grid) (element : ScalarType) (shape : List Int)

theorem blameless_compareInts (predicate : String) (type : ScalarType) (a b : Int) :
    Blameless (compareInts predicate type a b) := by
  unfold compareInts
  extract_lets x y
  split
  case h_11 => exact blameless_failing (by simp [toString])
  all_goals exact blameless_ok _

theorem blameless_compareFloats (predicate : String) (a b : Float) :
    Blameless (compareFloats predicate a b) := by
  unfold compareFloats
  split
  · exact blameless_ok _
  split
  case h_7 => exact blameless_failing (by simp [toString])
  all_goals exact blameless_ok _

namespace Grid

theorem blameless_ofValues (values : List Float) : Blameless (Grid.ofValues shape element values) := by
  unfold Grid.ofValues
  split
  · exact blameless_ok _
  · exact blameless_failing (by simp [toString])

theorem blameless_offset (position : List Int) : Blameless (grid.offset position) := by
  unfold Grid.offset
  split
  · exact blameless_failing (by simp [toString])
  split
  · exact blameless_ok _
  · exact blameless_failing (by simp [toString])

theorem blameless_get (position : List Int) : Blameless (grid.get position) :=
  (grid.blameless_offset position).bind fun _ => blameless_ok _

theorem blameless_set (position : List Int) (value : Scalar) : Blameless (grid.set position value) :=
  (grid.blameless_offset position).bind fun _ => blameless_ok _

theorem blameless_build {compute : List Int → Except Error Scalar}
    (each : ∀ position, Blameless (compute position)) : Blameless (Grid.build shape element compute) :=
  (blameless_mapM each _).bind fun _ => blameless_ok _

theorem blameless_gather (source : List Int → List Int) : Blameless (grid.gather shape source) :=
  blameless_build _ _ fun _ => grid.blameless_get _

theorem blameless_map (compute : Scalar → Scalar) : Blameless (grid.map element compute) :=
  blameless_build _ _ fun _ => (grid.blameless_get _).bind fun _ => blameless_ok _

theorem blameless_combine (compute : Scalar → Scalar → Scalar) :
    Blameless (grid.combine other element compute) :=
  (blameless_ofShape _).bind fun _ => blameless_build _ _ fun _ =>
    (grid.blameless_get _).bind fun _ => (other.blameless_get _).bind fun _ => blameless_ok _

theorem blameless_pad (padding : List Int) (value : Float) :
    Blameless (grid.pad padding shape element value) := by
  refine blameless_foldlM (fun output position => ?_) _ _
  refine (output.blameless_offset _).bind fun _ => ?_
  exact (grid.blameless_get position).bind fun _ => output.blameless_set _ _

theorem blameless_product (batch row column : Int) :
    Blameless (grid.product other element batch row column) := by
  refine blameless_foldlM (fun sum k => ?_) _ _
  exact (grid.blameless_get _).bind fun _ => (other.blameless_get _).bind fun _ => blameless_ok _

theorem blameless_matmul : Blameless (grid.matmul other shape element) :=
  blameless_build _ _ fun _ => grid.blameless_product other _ _ _ _

theorem blameless_reduceSum (axis : Nat) : Blameless (grid.reduceSum axis shape element) := by
  refine blameless_foldlM (fun output position => ?_) _ _
  refine (output.blameless_get _).bind fun sum => ?_
  exact (grid.blameless_get position).bind fun _ => output.blameless_set _ _

end Grid

end Arrays

/-! ### Steps -/

/-- If the step succeeds, the property holds of its answer and of the machine afterwards. If it reports
a value without data, the value has one of the given names. -/
structure Run.Proceeds (names : String → Prop) (machine : Machine) (post : α → Machine → Prop)
    (step : Run α) : Prop where
  succeeds : ∀ value after, step.run machine = .ok (value, after) → post value after
  reports : ∀ name, step.run machine = .error (undefinedValue name) → names name

/-- The step proceeds and leaves the machine as it is. -/
def Run.Inspects (names : String → Prop) (machine : Machine) (post : α → Prop) (step : Run α) : Prop :=
  Run.Proceeds names machine (fun value after => after = machine ∧ post value) step

namespace Run

variable {names : String → Prop} {machine : Machine} {post : α → Machine → Prop} {found : α → Prop}
  {later : β → Machine → Prop}

theorem proceeds_pure {value : α} (holds : post value machine) :
    Proceeds names machine post (pure value) where
  succeeds := by
    rintro _ _ ⟨⟩
    exact holds
  reports := by
    rintro name ⟨⟩

theorem inspects_pure {value : α} (holds : found value) : Inspects names machine found (pure value) :=
  proceeds_pure ⟨rfl, holds⟩

theorem inspects_lift {answer : Except Error α} (blameless : Blameless answer)
    (gives : ∀ value, answer = .ok value → found value) :
    Inspects names machine found (monadLift answer) := by
  cases answer with
  | ok value => exact inspects_pure (gives value rfl)
  | error error =>
    constructor
    · rintro value after ⟨⟩
    · intro name same
      injection same with same
      exact absurd (congrArg Except.error same) (blameless name)

theorem proceeds_throw {message : String} (head : message.toList.head? ≠ some 'v') :
    Proceeds names machine post (throw (.failure message)) where
  succeeds := by
    rintro value after ⟨⟩
  reports := by
    intro name same
    injection same with same
    exact absurd same (failure_ne_undefinedValue head name)

theorem proceeds_get : Proceeds names machine (fun value after => value = machine ∧ after = machine) get where
  succeeds := by
    rintro _ _ ⟨⟩
    exact ⟨rfl, rfl⟩
  reports := by
    rintro name ⟨⟩

theorem proceeds_modify (change : Machine → Machine) :
    Proceeds names machine (fun _ after => after = change machine) (modify change) where
  succeeds := by
    rintro _ _ ⟨⟩
    rfl
  reports := by
    rintro name ⟨⟩

theorem Proceeds.bind {step : Run α} {next : α → Run β} (first : Proceeds names machine post step)
    (second : ∀ value after, post value after → Proceeds names after later (next value)) :
    Proceeds names machine later (step >>= next) := by
  constructor
  · intro value after run
    obtain ⟨between, middle, ran, rest⟩ := run_bind_eq_ok run
    exact (second between middle (first.succeeds between middle ran)).succeeds value after rest
  · intro name run
    rw [StateT.run_bind] at run
    cases ran : step.run machine with
    | error error =>
      rw [ran] at run
      injection run with same
      exact first.reports name (ran.trans (congrArg Except.error same))
    | ok outcome =>
      obtain ⟨between, middle⟩ := outcome
      rw [ran] at run
      exact (second between middle (first.succeeds between middle ran)).reports name run

theorem Inspects.bind {step : Run α} {next : α → Run β} (first : Inspects names machine found step)
    (second : ∀ value, found value → Proceeds names machine later (next value)) :
    Proceeds names machine later (step >>= next) := by
  refine Proceeds.bind first fun value after holds => ?_
  obtain ⟨rfl, holds⟩ := holds
  exact second value holds

/-- Nothing comes after a step that fails with another message. -/
theorem proceeds_throw_bind {message : String} {next : α → Run β} (head : message.toList.head? ≠ some 'v') :
    Proceeds names machine later (throw (.failure message) >>= next) where
  succeeds := by
    rintro value after ⟨⟩
  reports := by
    intro name same
    injection same with same
    exact absurd same (failure_ne_undefinedValue head name)

theorem Proceeds.imp {weaker : α → Machine → Prop} {step : Run α}
    (proceeds : Proceeds names machine post step)
    (imp : ∀ value after, post value after → weaker value after) :
    Proceeds names machine weaker step :=
  ⟨fun value after run => imp value after (proceeds.succeeds value after run), proceeds.reports⟩

/-- Steps that only look are done one after the other. -/
theorem inspects_mapM {step : β → Run α} {items : List β}
    (each : ∀ item ∈ items, Inspects names machine (fun _ => True) (step item)) :
    Inspects names machine (fun values => values.length = items.length) (items.mapM step) := by
  induction items with
  | nil => exact inspects_pure rfl
  | cons item items ih =>
    rw [List.mapM_cons]
    have others := ih fun other member => each other (List.mem_cons_of_mem item member)
    refine (each item List.mem_cons_self).bind fun value _ => ?_
    refine others.bind fun values length_eq => ?_
    exact inspects_pure (congrArg (· + 1) length_eq)

end Run

/-! ### Values -/

/-- The frame has data for the value. -/
def Machine.Has (machine : Machine) (value : ValueId) : Prop :=
  (machine.frame.getD value.index none).isSome = true

/-- The frame has data for the value, or the value has one of the names. -/
def Machine.Covers (machine : Machine) (program : Program) (names : String → Prop) (value : ValueId) :
    Prop :=
  machine.Has value ∨ names (program.nameOf value)

section Values

variable {program : Program} {op : OpId} {names : String → Prop} {machine : Machine} {value : ValueId}

namespace Run

theorem inspects_read (covers : machine.Covers program names value) :
    Inspects names machine (fun _ => True) (read program value) := by
  have gives : (get : Run Machine).run machine = .ok (machine, machine) := rfl
  constructor
  · intro slot after run
    rw [read, run_bind_of gives] at run
    cases isKnown : machine.frame.getD value.index none with
    | none => rw [isKnown] at run; cases run
    | some known =>
      rw [isKnown] at run
      cases run
      exact ⟨rfl, trivial⟩
  · intro name run
    rw [read, run_bind_of gives] at run
    cases isKnown : machine.frame.getD value.index none with
    | some known => rw [isKnown] at run; cases run
    | none =>
      rw [isKnown] at run
      injection run with same
      rcases covers with has | named
      · rw [Machine.Has, isKnown] at has
        cases has
      · rwa [← undefinedValue_inj same]

theorem inspects_readScalar (covers : machine.Covers program names value) :
    Inspects names machine (fun _ => True) (readScalar program value) := by
  refine (inspects_read covers).bind fun slot _ => ?_
  cases slot with
  | scalar value => exact inspects_pure trivial
  | tensor | buffer => exact proceeds_throw (by decide)

theorem inspects_readInt (covers : machine.Covers program names value) :
    Inspects names machine (fun _ => True) (readInt program value) :=
  (inspects_readScalar covers).bind fun _ _ => inspects_pure trivial

theorem inspects_readFloat (covers : machine.Covers program names value) :
    Inspects names machine (fun _ => True) (readFloat program value) :=
  (inspects_readScalar covers).bind fun _ _ => inspects_pure trivial

theorem inspects_contents (place : Nat) : Inspects names machine (fun _ => True) (contents place) := by
  constructor
  · rintro value after ⟨⟩
    exact ⟨rfl, trivial⟩
  · rintro name ⟨⟩

theorem inspects_readGrid (covers : machine.Covers program names value) :
    Inspects names machine (fun _ => True) (readGrid program value) := by
  refine (inspects_read covers).bind fun slot _ => ?_
  cases slot with
  | scalar value => exact proceeds_throw (by decide)
  | tensor contents => exact inspects_pure trivial
  | buffer place => exact inspects_contents place

theorem inspects_operand (index : Nat) :
    Inspects names machine (· ∈ program.operands op) (operand program op index) := by
  refine inspects_lift ?_ fun value isOperand => ?_
  · unfold Program.operand
    split
    · exact blameless_ok _
    · exact blameless_failing (by simp [toString, program.head_opName])
  · exact List.mem_of_getElem? (Program.getElem?_of_operand isOperand)

theorem blameless_typed (value : ValueId) : Blameless (program.typed value) := by
  unfold Program.typed
  split
  · exact blameless_ok _
  · exact blameless_failing (by simp [toString])

theorem blameless_functionBody (function : OpId) : Blameless (program.functionBody function) := by
  unfold Program.functionBody
  split
  · exact blameless_ok _
  · exact blameless_failing (by decide)

theorem blameless_result (index : Nat) : Blameless (program.result op index) := by
  unfold Program.result
  split
  · exact blameless_ok _
  · exact blameless_failing (by simp [toString, program.head_opName])

theorem inspects_elementType (value : ValueId) :
    Inspects names machine (fun _ => True) (elementType program value) := by
  refine inspects_lift ((blameless_typed value).bind fun type => ?_) fun _ _ => trivial
  cases type with
  | torch => exact blameless_failing (by simp [toString])
  | scalar | shaped => exact blameless_ok _

end Run

end Values

/-! ### Operations -/

/-- The number of values that an operation without control flow computes. -/
def OpKind.plainCount : OpKind → Nat
  | .memref .store => 0
  | _ => 1

section Operations

variable {program : Program} {op : OpId} {names : String → Prop} {machine : Machine}

namespace Run

theorem inspects_constantOp (type : ScalarType) :
    Inspects names machine (fun _ => True) (constantOp program op type) := by
  unfold constantOp
  split
  case h_4 => exact proceeds_throw (by decide)
  all_goals exact inspects_pure trivial

theorem proceeds_storeAt (place : Nat) (position : List Int) (value : Scalar) :
    Proceeds names machine (fun _ after => after.frame = machine.frame) (storeAt place position value) := by
  refine (inspects_contents place).bind fun grid _ => ?_
  refine (inspects_lift (grid.blameless_offset position) fun _ _ => trivial).bind fun offset _ => ?_
  constructor
  · rintro _ _ ⟨⟩
    rfl
  · rintro name ⟨⟩

theorem inspects_arrayAttribute (name : String) :
    Inspects names machine (fun _ => True) (arrayAttribute program op name) := by
  unfold arrayAttribute
  split
  · exact inspects_pure trivial
  · exact proceeds_throw (by simp [toString, program.head_opName])

theorem inspects_bufferOf {value : ValueId} (covers : machine.Covers program names value) :
    Inspects names machine (fun _ => True) (bufferOf program op value) := by
  refine (inspects_read covers).bind fun slot _ => ?_
  cases slot with
  | buffer place => exact inspects_pure trivial
  | scalar | tensor => exact proceeds_throw (by simp [toString, program.head_opName])

section Covered

variable (covers : ∀ operand ∈ program.operands op, machine.Covers program names operand)

include covers

theorem inspects_twoInts : Inspects names machine (fun _ => True) (twoInts program op) := by
  refine (inspects_mapM fun operand isOperand => inspects_readInt (covers operand isOperand)).bind ?_
  exact fun _ _ => inspects_pure trivial

theorem inspects_twoFloats : Inspects names machine (fun _ => True) (twoFloats program op) := by
  refine (inspects_mapM fun operand isOperand => inspects_readFloat (covers operand isOperand)).bind ?_
  exact fun _ _ => inspects_pure trivial

theorem inspects_intOp (type : ScalarType) (compute : Int → Int → Option Int) :
    Inspects names machine (fun _ => True) (intOp program op type compute) := by
  refine (inspects_twoInts covers).bind fun pair _ => ?_
  obtain ⟨a, b⟩ := pair
  dsimp only
  split
  · exact inspects_pure trivial
  · exact proceeds_throw (by simp [toString, program.head_opName])

theorem inspects_compareOp (kind : ArithKind) :
    Inspects names machine (fun _ => True) (compareOp program op kind) := by
  refine (inspects_operand 0).bind fun lhs isOperand => ?_
  split
  · refine (inspects_twoInts covers).bind fun pair _ => ?_
    refine (inspects_elementType lhs).bind fun type _ => ?_
    refine (inspects_lift (blameless_compareInts _ _ _ _) fun _ _ => trivial).bind fun _ _ => ?_
    exact inspects_pure trivial
  · refine (inspects_twoFloats covers).bind fun pair _ => ?_
    refine (inspects_lift (blameless_compareFloats _ _ _) fun _ _ => trivial).bind fun _ _ => ?_
    exact inspects_pure trivial

theorem inspects_selectOp :
    Inspects names machine (fun _ => True) (selectOp program op) := by
  refine (inspects_operand 0).bind fun condition isCondition => ?_
  refine (inspects_readInt (covers condition isCondition)).bind fun chosen _ => ?_
  refine (inspects_operand _).bind fun value isValue => ?_
  exact inspects_read (covers value isValue)

theorem inspects_convertOp (type : ScalarType) :
    Inspects names machine (fun _ => True) (convertOp program op type) := by
  refine (inspects_operand 0).bind fun value isOperand => ?_
  refine (inspects_elementType value).bind fun source _ => ?_
  refine (inspects_readScalar (covers value isOperand)).bind fun x _ => ?_
  split
  case h_10 => exact proceeds_throw (by simp [toString])
  all_goals exact inspects_pure trivial

theorem inspects_scalarOp :
    Inspects names machine (fun _ => True) (scalarOp program op) := by
  refine (inspects_lift (blameless_result 0) fun _ _ => trivial).bind fun result _ => ?_
  refine (inspects_elementType result).bind fun type _ => ?_
  have unary (compute : Float → Float) :
      Inspects names machine (fun _ => True) (unaryOp program op type compute) :=
    (inspects_twoFloats covers).bind fun _ _ => inspects_pure trivial
  have binary (compute : Float → Float → Float) :
      Inspects names machine (fun _ => True) (floatOp program op type compute) :=
    (inspects_twoFloats covers).bind fun _ _ => inspects_pure trivial
  split
  · exact inspects_constantOp type
  · exact inspects_compareOp covers .cmpi
  · exact inspects_compareOp covers .cmpf
  · exact inspects_selectOp covers
  · exact unary _
  · exact unary _
  · split
    · exact inspects_intOp covers type _
    · exact binary _
    · exact inspects_convertOp covers type
  · exact inspects_convertOp covers type

theorem proceeds_memrefOp (kind : MemrefKind) :
    Proceeds names machine
      (fun slots after => after.frame = machine.frame ∧ slots.length = (OpKind.memref kind).plainCount)
      (memrefOp program op kind) := by
  have positions (count : Nat) : Inspects names machine (fun _ => True)
      (((program.operands op).drop count).mapM (readInt program)) := by
    refine (inspects_mapM fun operand isOperand => ?_).imp fun _ _ holds => ⟨holds.1, trivial⟩
    exact inspects_readInt (covers operand (List.mem_of_mem_drop isOperand))
  cases kind with
  | alloc =>
    refine (inspects_lift (blameless_result 0) fun _ _ => trivial).bind fun result _ => ?_
    refine (inspects_lift (blameless_typed result) fun _ _ => trivial).bind fun type _ => ?_
    split
    · constructor
      · rintro slots after ⟨⟩
        exact ⟨rfl, rfl⟩
      · rintro name ⟨⟩
    · exact proceeds_throw (by decide)
  | load =>
    refine (positions 1).bind fun position _ => ?_
    refine (inspects_operand 0).bind fun value isOperand => ?_
    refine (inspects_bufferOf (covers value isOperand)).bind fun place _ => ?_
    refine (inspects_contents place).bind fun grid _ => ?_
    refine (inspects_lift (grid.blameless_get position) fun _ _ => trivial).bind fun scalar _ => ?_
    exact proceeds_pure ⟨rfl, rfl⟩
  | store =>
    refine (positions 2).bind fun position _ => ?_
    refine (inspects_operand 1).bind fun value isOperand => ?_
    refine (inspects_bufferOf (covers value isOperand)).bind fun place _ => ?_
    refine (inspects_operand 0).bind fun stored isStored => ?_
    refine (inspects_readScalar (covers stored isStored)).bind fun scalar _ => ?_
    refine (proceeds_storeAt place position scalar).bind fun _ after same => ?_
    exact proceeds_pure ⟨same, rfl⟩

theorem inspects_tensorOp (kind : TosaKind) (type : ShapedType) (x : Grid) :
    Inspects names machine (fun _ => True) (tensorOp program op kind type x) := by
  have second {next : Grid → Run Grid}
      (goesOn : ∀ y, Inspects names machine (fun _ => True) (next y)) :
      Inspects names machine (fun _ => True) (do next (← readGrid program (← operand program op 1))) :=
    (inspects_operand 1).bind fun value isOperand =>
      (inspects_readGrid (covers value isOperand)).bind fun y _ => goesOn y
  have answers {answer : Except Error Grid} (blameless : Blameless answer) :
      Inspects names machine (fun _ => True) (monadLift answer) :=
    inspects_lift blameless fun _ _ => trivial
  unfold tensorOp
  extract_lets attributes
  split
  · exact second fun y => answers (x.blameless_combine y _ _)
  · exact answers (x.blameless_map _ _)
  split
  · exact (inspects_arrayAttribute _).bind fun _ _ => inspects_pure trivial
  · exact (inspects_arrayAttribute _).bind fun _ _ => answers (x.blameless_gather _ _)
  · exact (inspects_arrayAttribute _).bind fun _ _ => answers (x.blameless_gather _ _)
  · exact answers (x.blameless_gather _ _)
  · exact (inspects_arrayAttribute _).bind fun _ _ => answers (x.blameless_pad _ _ _ _)
  · exact second fun y => answers (x.blameless_matmul y _ _)
  · exact answers (x.blameless_reduceSum _ _ _)
  · exact proceeds_throw (by simp [toString])

theorem inspects_tosaOp (kind : TosaKind) :
    Inspects names machine (fun _ => True) (tosaOp program op kind) := by
  refine (inspects_lift (blameless_result 0) fun _ _ => trivial).bind fun result _ => ?_
  refine (inspects_lift (blameless_typed result) fun _ _ => trivial).bind fun type _ => ?_
  split
  · split
    · split
      · exact proceeds_throw (by decide)
      · exact inspects_lift (Grid.blameless_ofValues _ _ _) fun _ _ => trivial
    · refine (inspects_operand 0).bind fun value isOperand => ?_
      refine (inspects_readGrid (covers value isOperand)).bind fun x _ => ?_
      exact inspects_tensorOp covers kind _ x
  · exact proceeds_throw (by simp [toString, program.head_opName])

/-- An operation without control flow leaves the frame as it is, and computes one value unless it stores
an element. -/
theorem proceeds_plainOp :
    Proceeds names machine
      (fun slots after => after.frame = machine.frame ∧ slots.length = (program.kind op).plainCount)
      (plainOp program op) := by
  unfold plainOp
  cases isKind : program.kind op with
  | tosa kind =>
    refine (inspects_tosaOp covers kind).bind fun grid _ => ?_
    exact proceeds_pure ⟨rfl, rfl⟩
  | memref kind => exact proceeds_memrefOp covers kind
  | _ =>
    refine (inspects_scalarOp covers).bind fun slot _ => ?_
    exact proceeds_pure ⟨rfl, rfl⟩

end Covered

end Run

end Operations

end TensorIR
