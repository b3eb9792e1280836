import TensorIR.Proofs.Scalar.Adequacy

/-!
# Operations that read corresponding data

The runs of two programs are compared while both read values. What is stored under a value in the
frame of the first run is found under the image of the value in the frame of the second one. Numbers
and tensors are found as they are; buffers may have other places in memory, where their contents are
the same.

## Main definitions

* `Slot.Corresponds` — data that is the same but for the places of buffers
* `Tracking`, `Tracking.Holds` — where the values of a run are found in another one
* `Agrees` — a step that only reads, and a step of the other run with a corresponding answer
* `Program.Copies` — an operation of the second program that does what one of the first does

## Main results

* `agrees_scalarOp`, `agrees_tosaOp`, `agrees_loadOp` — operations without effects
-/

namespace TensorIR

/-- Which buffers of two runs correspond, by their places in memory. -/
abbrev Links := Nat → Nat → Prop

/-- Data of two runs is the same but for the places of buffers. -/
inductive Slot.Corresponds (links : Links) : Slot → Slot → Prop
  | scalar (value : Scalar) : Corresponds links (.scalar value) (.scalar value)
  | tensor (contents : Grid) : Corresponds links (.tensor contents) (.tensor contents)
  | buffer {place other : Nat} (linked : links place other) :
    Corresponds links (.buffer place) (.buffer other)

theorem Slot.Corresponds.mono {links more : Links} {slot other : Slot}
    (corresponds : slot.Corresponds links other)
    (widens : ∀ place image, links place image → more place image) : slot.Corresponds more other := by
  cases corresponds with
  | scalar value => exact .scalar value
  | tensor contents => exact .tensor contents
  | buffer linked => exact .buffer (widens _ _ linked)

/-- Buffers that correspond exist and have the same contents, and each corresponds to one other. -/
structure Links.Hold (links : Links) (memory image : Array Grid) : Prop where
  left : ∀ place other, links place other → place < memory.size
  right : ∀ place other, links place other → other < image.size
  contents : ∀ place other, links place other →
    memory.getD place default = image.getD other default
  functional : ∀ place first second, links place first → links place second → first = second
  injective : ∀ first second other, links first other → links second other → first = second

/-- How the values of a run are followed in another one. -/
structure Tracking where
  /-- The values that may be in the frame. -/
  inside : ValueId → Prop
  /-- The values that the other run need not have. -/
  dead : ValueId → Prop
  /-- Where the other values are found. -/
  image : ValueId → ValueId
  /-- What data a value may have. -/
  known : ValueId → Slot → Prop
  /-- The size of the other frame. -/
  size : Nat

/-- The values in the frame of a run are followed in the frame of another one. -/
structure Tracking.Holds (tracking : Tracking) (links : Links) (machine image : Machine) : Prop where
  memory : links.Hold machine.memory image.memory
  inside : ∀ value slot, machine.frame.getD value.index none = some slot → tracking.inside value
  known : ∀ value slot, machine.frame.getD value.index none = some slot → tracking.known value slot
  found : ∀ value slot, machine.frame.getD value.index none = some slot → ¬tracking.dead value →
    ∃ other, image.frame.getD (tracking.image value).index none = some other ∧
      slot.Corresponds links other
  size_eq : image.frame.size = tracking.size

variable {α β γ δ : Type}

/-! ### Steps that read -/

/-- If a step succeeds it changes nothing, and the other step changes nothing either and has a
corresponding answer. -/
def Agrees (machine image : Machine) (related : α → β → Prop) (step : Run α) (other : Run β) : Prop :=
  ∀ value after, step.run machine = .ok (value, after) → after = machine ∧
    ∃ result, other.run image = .ok (result, image) ∧ related value result

section Rules

variable {machine image : Machine} {related : α → β → Prop} {later : γ → δ → Prop}

theorem agrees_pure {value : α} {result : β} (same : related value result) :
    Agrees machine image related (pure value) (pure result) := by
  rintro _ _ ⟨⟩
  exact ⟨rfl, result, rfl, same⟩

theorem agrees_throw (error : Error) (other : Run β) :
    Agrees machine image related (throw error) other := by
  rintro _ _ ⟨⟩

theorem Run.run_bind_eq_ok {step : Run α} {next : α → Run β} {value : β} {after : Machine}
    (run : (step >>= next).run machine = .ok (value, after)) :
    ∃ first middle, step.run machine = .ok (first, middle) ∧
      (next first).run middle = .ok (value, after) := by
  rw [StateT.run_bind] at run
  obtain ⟨⟨first, middle⟩, ran, later⟩ := of_bind_eq_ok run
  exact ⟨first, middle, ran, later⟩

theorem Run.run_lift_eq_ok {answer : Except Error α} {value : α} {after : Machine}
    (run : (monadLift answer : Run α).run machine = .ok (value, after)) :
    answer = .ok value ∧ after = machine := by
  cases answer with
  | error error => cases run
  | ok found =>
    cases run
    exact ⟨rfl, rfl⟩

theorem Agrees.bind {step : Run α} {other : Run β} {next : α → Run γ} {otherNext : β → Run δ}
    (first : Agrees machine image related step other)
    (second : ∀ value result, related value result →
      Agrees machine image later (next value) (otherNext result)) :
    Agrees machine image later (step >>= next) (other >>= otherNext) := by
  intro value after run
  obtain ⟨between, middle, ran, rest⟩ := Run.run_bind_eq_ok run
  obtain ⟨rfl, result, otherRan, same⟩ := first between middle ran
  obtain ⟨rfl, final, otherRest, corresponds⟩ := second between result same value after rest
  exact ⟨rfl, final, (Run.run_bind_of otherRan).trans otherRest, corresponds⟩

/-- Going on with the same answer. -/
theorem Agrees.bind_eq {step other : Run α} {next : α → Run γ} {otherNext : α → Run δ}
    (first : Agrees machine image Eq step other)
    (second : ∀ value, Agrees machine image later (next value) (otherNext value)) :
    Agrees machine image later (step >>= next) (other >>= otherNext) :=
  first.bind fun value _ same => same ▸ second value

theorem Agrees.imp {weaker : α → β → Prop} {step : Run α} {other : Run β}
    (agrees : Agrees machine image related step other)
    (imp : ∀ value result, related value result → weaker value result) :
    Agrees machine image weaker step other := by
  intro value after run
  obtain ⟨rfl, result, ran, same⟩ := agrees value after run
  exact ⟨rfl, result, ran, imp value result same⟩

theorem agrees_lift {answer : Except Error α} {other : Except Error β}
    (gives : ∀ value, answer = .ok value → ∃ result, other = .ok result ∧ related value result) :
    Agrees machine image related (monadLift answer) (monadLift other) := by
  intro value after run
  obtain ⟨found, rfl⟩ := Run.run_lift_eq_ok run
  obtain ⟨result, same, corresponds⟩ := gives value found
  exact ⟨rfl, result, Run.run_lift same, corresponds⟩

/-- The same answer that does not depend on the state. -/
theorem agrees_answer (answer : Except Error α) :
    Agrees machine image Eq (monadLift answer) (monadLift answer) :=
  agrees_lift fun value found => ⟨value, found, rfl⟩

theorem agrees_mapM {step : α → Run γ} {other : β → Run δ} {items : List α} {others : List β}
    (each : List.Forall₂ (fun item other' => Agrees machine image later (step item) (other other'))
      items others) :
    Agrees machine image (List.Forall₂ later) (items.mapM step) (others.mapM other) := by
  induction each with
  | nil => exact agrees_pure .nil
  | cons first _ ih =>
    rw [List.mapM_cons, List.mapM_cons]
    exact first.bind fun _ _ head => ih.bind fun _ _ tail => agrees_pure (.cons head tail)

theorem Agrees.ite {condition : Prop} [Decidable condition] {first second : Run α}
    {otherFirst otherSecond : Run β} (onTrue : Agrees machine image related first otherFirst)
    (onFalse : Agrees machine image related second otherSecond) :
    Agrees machine image related (if condition then first else second)
      (if condition then otherFirst else otherSecond) := by
  split
  · exact onTrue
  · exact onFalse

end Rules

/-! ### Values -/

section Values

variable {program other : Program} {tracking : Tracking} {links : Links} {machine image : Machine}
  {op : OpId}

/-- A value of the second program stands for one of the first. -/
structure Program.StandsFor (tracking : Tracking) (program other : Program) (value image : ValueId) :
    Prop where
  type_eq : other.typeOf? image = program.typeOf? value
  found : tracking.inside value → ¬tracking.dead value ∧ image = tracking.image value

/-- An operation of the second program does what the operation of the same name does in the first. -/
structure Program.Copies (tracking : Tracking) (program other : Program) (op : OpId) : Prop where
  kind_eq : other.kind op = program.kind op
  attributes_eq : other.attributes op = program.attributes op
  results_eq : other.results op = program.results op
  types_eq : ∀ result ∈ program.results op, other.typeOf? result = program.typeOf? result
  operands : List.Forall₂ (program.StandsFor tracking other) (program.operands op)
    (other.operands op)

theorem Program.typed_eq_ok {value : ValueId} {type : Ty} :
    program.typed value = .ok type ↔ program.typeOf? value = some type := by
  unfold Program.typed Program.typeOf?
  rcases program.value value with ⟨name, _ | found, origin⟩
  · exact iff_of_false nofun nofun
  · exact ⟨fun same => congrArg some (Except.ok.inj same), fun same => congrArg Except.ok (Option.some.inj same)⟩

theorem Agrees.read (holds : tracking.Holds links machine image) {value stands : ValueId}
    (standsFor : program.StandsFor tracking other value stands) :
    Agrees machine image (Slot.Corresponds links) (Run.read program value)
      (Run.read other stands) := by
  intro slot after run
  have gives (state : Machine) : (get : Run Machine).run state = .ok (state, state) := rfl
  rw [Run.read, Run.run_bind_of (gives machine)] at run
  cases known : machine.frame.getD value.index none with
  | none => rw [known] at run; cases run
  | some found =>
    rw [known] at run
    cases run
    obtain ⟨alive, rfl⟩ := standsFor.found (holds.inside value slot known)
    obtain ⟨answer, isFound, corresponds⟩ := holds.found value slot known alive
    refine ⟨rfl, answer, ?_, corresponds⟩
    rw [Run.read, Run.run_bind_of (gives image), isFound]
    rfl

theorem Agrees.readScalar (holds : tracking.Holds links machine image) {value stands : ValueId}
    (standsFor : program.StandsFor tracking other value stands) :
    Agrees machine image Eq (Run.readScalar program value) (Run.readScalar other stands) := by
  refine (Agrees.read holds standsFor).bind fun slot found corresponds => ?_
  cases corresponds with
  | scalar value => exact agrees_pure rfl
  | tensor | buffer => exact agrees_throw _ _

theorem Agrees.readInt (holds : tracking.Holds links machine image) {value stands : ValueId}
    (standsFor : program.StandsFor tracking other value stands) :
    Agrees machine image Eq (Run.readInt program value) (Run.readInt other stands) :=
  (Agrees.readScalar holds standsFor).bind_eq fun _ => agrees_pure rfl

theorem Agrees.readFloat (holds : tracking.Holds links machine image) {value stands : ValueId}
    (standsFor : program.StandsFor tracking other value stands) :
    Agrees machine image Eq (Run.readFloat program value) (Run.readFloat other stands) :=
  (Agrees.readScalar holds standsFor).bind_eq fun _ => agrees_pure rfl

theorem Agrees.contents (holds : tracking.Holds links machine image) {place stands : Nat}
    (linked : links place stands) :
    Agrees machine image Eq (Run.contents place) (Run.contents stands) := by
  rintro _ _ ⟨⟩
  exact ⟨rfl, _, rfl, holds.memory.contents place stands linked⟩

theorem Agrees.readGrid (holds : tracking.Holds links machine image) {value stands : ValueId}
    (standsFor : program.StandsFor tracking other value stands) :
    Agrees machine image Eq (Run.readGrid program value) (Run.readGrid other stands) := by
  refine (Agrees.read holds standsFor).bind fun slot found corresponds => ?_
  cases corresponds with
  | scalar value => exact agrees_throw _ _
  | tensor contents => exact agrees_pure rfl
  | buffer linked => exact Agrees.contents holds linked

/-! ### Operands -/

theorem agrees_operand (copies : program.Copies tracking other op) (index : Nat) :
    Agrees machine image (program.StandsFor tracking other) (Run.operand program op index)
      (Run.operand other op index) := by
  refine agrees_lift fun value found => ?_
  have isOperand := Program.getElem?_of_operand found
  obtain ⟨stands, isStands, standsFor⟩ := forall₂_getElem? copies.operands isOperand
  exact ⟨stands, by rw [Program.operand, isStands], standsFor⟩

theorem agrees_operands {later : β → γ → Prop} (copies : program.Copies tracking other op)
    {step : ValueId → Run β} {otherStep : ValueId → Run γ}
    (each : ∀ value stands, program.StandsFor tracking other value stands →
      Agrees machine image later (step value) (otherStep stands)) :
    Agrees machine image (List.Forall₂ later) ((program.operands op).mapM step)
      ((other.operands op).mapM otherStep) :=
  agrees_mapM (copies.operands.imp each)

theorem forall₂_eq_iff {first second : List α} : List.Forall₂ Eq first second ↔ first = second := by
  rw [List.forall₂_eq_eq_eq]

theorem agrees_twoInts (holds : tracking.Holds links machine image)
    (copies : program.Copies tracking other op) :
    Agrees machine image Eq (Run.twoInts program op) (Run.twoInts other op) :=
  (agrees_operands copies fun _ _ => Agrees.readInt holds).bind fun values others same => by
    rw [forall₂_eq_iff.mp same]
    exact agrees_pure rfl

theorem agrees_twoFloats (holds : tracking.Holds links machine image)
    (copies : program.Copies tracking other op) :
    Agrees machine image Eq (Run.twoFloats program op) (Run.twoFloats other op) :=
  (agrees_operands copies fun _ _ => Agrees.readFloat holds).bind fun values others same => by
    rw [forall₂_eq_iff.mp same]
    exact agrees_pure rfl

theorem agrees_elementType {value stands : ValueId}
    (type_eq : other.typeOf? stands = program.typeOf? value) :
    Agrees machine image Eq (Run.elementType program value) (Run.elementType other stands) := by
  refine agrees_lift fun type found => ⟨type, ?_, rfl⟩
  obtain ⟨full, typed, isElement⟩ := of_bind_eq_ok found
  rw [Program.typed_eq_ok.mpr (type_eq.trans (Program.typed_eq_ok.mp typed))]
  cases full with
  | torch => cases isElement
  | scalar | shaped => exact isElement

theorem agrees_result (copies : program.Copies tracking other op) :
    Agrees machine image (fun result same => result = same ∧ result ∈ program.results op)
      (monadLift (program.result op 0)) (monadLift (other.result op 0)) := by
  refine agrees_lift fun result found => ⟨result, ?_, rfl, ?_⟩
  all_goals
    unfold Program.result at found
    split at found
    case h_2 => cases found
    case h_1 isResult =>
      cases found
      first
      | rw [Program.result, copies.results_eq, isResult]
      | exact List.mem_of_getElem? isResult

theorem Program.Copies.resultType?_eq (copies : program.Copies tracking other op) (index : Nat) :
    other.resultType? op index = program.resultType? op index := by
  rw [Program.resultType?, Program.resultType?, copies.results_eq]
  cases found : (program.results op)[index]? with
  | none => rfl
  | some result => exact copies.types_eq result (List.mem_of_getElem? found)

theorem Program.Copies.constantValue?_eq (copies : program.Copies tracking other op) :
    other.constantValue? op = program.constantValue? op := by
  unfold Program.constantValue?
  rw [copies.attributes_eq, copies.resultType?_eq]

/-! ### Operations without effects -/

variable (holds : tracking.Holds links machine image) (copies : program.Copies tracking other op)
include copies

theorem agrees_constantOp (type : ScalarType) :
    Agrees machine image (Slot.Corresponds links) (Run.constantOp program op type)
      (Run.constantOp other op type) := by
  unfold Run.constantOp
  rw [copies.constantValue?_eq]
  split
  · exact agrees_pure (.scalar _)
  · exact agrees_pure (.scalar _)
  · exact agrees_pure (.scalar _)
  · exact agrees_throw _ _

include holds

theorem agrees_intOp (type : ScalarType) (compute : Int → Int → Option Int) :
    Agrees machine image (Slot.Corresponds links) (Run.intOp program op type compute)
      (Run.intOp other op type compute) := by
  refine (agrees_twoInts holds copies).bind_eq fun values => ?_
  obtain ⟨a, b⟩ := values
  dsimp only
  cases compute a b with
  | none => exact agrees_throw _ _
  | some value => exact agrees_pure (.scalar _)

theorem agrees_floatOp (type : ScalarType) (compute : Float → Float → Float) :
    Agrees machine image (Slot.Corresponds links) (Run.floatOp program op type compute)
      (Run.floatOp other op type compute) :=
  (agrees_twoFloats holds copies).bind_eq fun _ => agrees_pure (.scalar _)

theorem agrees_unaryOp (type : ScalarType) (compute : Float → Float) :
    Agrees machine image (Slot.Corresponds links) (Run.unaryOp program op type compute)
      (Run.unaryOp other op type compute) :=
  (agrees_twoFloats holds copies).bind_eq fun _ => agrees_pure (.scalar _)

theorem agrees_compareOp (kind : ArithKind) :
    Agrees machine image (Slot.Corresponds links) (Run.compareOp program op kind)
      (Run.compareOp other op kind) := by
  have predicate : other.stringOf op "predicate" = program.stringOf op "predicate" := by
    unfold Program.stringOf
    rw [copies.attributes_eq]
  unfold Run.compareOp
  rw [predicate]
  refine (agrees_operand copies 0).bind fun value stands standsFor => Agrees.ite ?_ ?_
  · refine (agrees_twoInts holds copies).bind_eq fun values => ?_
    refine (agrees_elementType standsFor.type_eq).bind_eq fun type => ?_
    exact (agrees_answer _).bind_eq fun _ => agrees_pure (.scalar _)
  · refine (agrees_twoFloats holds copies).bind_eq fun values => ?_
    exact (agrees_answer _).bind_eq fun _ => agrees_pure (.scalar _)

theorem agrees_selectOp :
    Agrees machine image (Slot.Corresponds links) (Run.selectOp program op)
      (Run.selectOp other op) := by
  refine (agrees_operand copies 0).bind fun _ _ standsFor => ?_
  refine (Agrees.readInt holds standsFor).bind_eq fun _ => ?_
  exact (agrees_operand copies _).bind fun _ _ standsFor => Agrees.read holds standsFor

theorem agrees_convertOp (type : ScalarType) :
    Agrees machine image (Slot.Corresponds links) (Run.convertOp program op type)
      (Run.convertOp other op type) := by
  unfold Run.convertOp
  rw [copies.kind_eq]
  refine (agrees_operand copies 0).bind fun _ _ standsFor => ?_
  refine (agrees_elementType standsFor.type_eq).bind_eq fun source => ?_
  refine (Agrees.readScalar holds standsFor).bind_eq fun x => ?_
  split
  all_goals first | exact agrees_pure (.scalar _) | exact agrees_throw _ _

/-- An operation on scalars computes corresponding data. -/
theorem agrees_scalarOp :
    Agrees machine image (Slot.Corresponds links) (Run.scalarOp program op)
      (Run.scalarOp other op) := by
  unfold Run.scalarOp
  rw [copies.kind_eq]
  refine (agrees_result copies).bind fun result _ ⟨same, among⟩ => ?_
  subst same
  refine (agrees_elementType (copies.types_eq result among)).bind_eq fun type => ?_
  split
  · exact agrees_constantOp copies type
  · exact agrees_compareOp holds copies .cmpi
  · exact agrees_compareOp holds copies .cmpf
  · exact agrees_selectOp holds copies
  · exact agrees_unaryOp holds copies type _
  · exact agrees_unaryOp holds copies type _
  · split
    · exact agrees_intOp holds copies type _
    · exact agrees_floatOp holds copies type _
    · exact agrees_convertOp holds copies type
  · exact agrees_convertOp holds copies type

omit holds copies in
theorem agrees_array {name : String} (attributes : other.attributes op = program.attributes op) :
    Agrees machine image Eq (Run.arrayAttribute program op name) (Run.arrayAttribute other op name) := by
  unfold Run.arrayAttribute
  rw [attributes]
  split
  · exact agrees_pure rfl
  · exact agrees_throw _ _

theorem agrees_tensorOp (kind : TosaKind) (type : ShapedType) (x : Grid) :
    Agrees machine image Eq (Run.tensorOp program op kind type x)
      (Run.tensorOp other op kind type x) := by
  have second {next : Grid → Except Error Grid} : Agrees machine image Eq
      (do let y ← Run.readGrid program (← Run.operand program op 1); monadLift (next y) : Run Grid)
      (do let y ← Run.readGrid other (← Run.operand other op 1); monadLift (next y)) :=
    (agrees_operand copies 1).bind fun _ _ standsFor =>
      (Agrees.readGrid holds standsFor).bind_eq fun _ => agrees_answer _
  have attributes := copies.attributes_eq
  unfold Run.tensorOp
  rw [attributes]
  dsimp only
  split
  · exact second
  · exact agrees_answer _
  · split
    · exact (agrees_array attributes).bind_eq fun _ => agrees_pure rfl
    · exact (agrees_array attributes).bind_eq fun _ => agrees_answer _
    · exact (agrees_array attributes).bind_eq fun _ => agrees_answer _
    · exact agrees_answer _
    · exact (agrees_array attributes).bind_eq fun _ => agrees_answer _
    · exact second
    · exact agrees_answer _
    · exact agrees_throw _ _

/-- An operation on whole tensors computes the same tensor. -/
theorem agrees_tosaOp (kind : TosaKind) :
    Agrees machine image Eq (Run.tosaOp program op kind) (Run.tosaOp other op kind) := by
  unfold Run.tosaOp
  rw [copies.attributes_eq]
  refine (agrees_result copies).bind fun result _ ⟨same, among⟩ => ?_
  subst same
  have typed : Agrees machine image Eq (monadLift (program.typed result) : Run Ty)
      (monadLift (other.typed result)) :=
    agrees_lift fun type found => ⟨type, Program.typed_eq_ok.mpr
      ((copies.types_eq result among).trans (Program.typed_eq_ok.mp found)), rfl⟩
  refine typed.bind_eq fun type => ?_
  cases type with
  | shaped type =>
    refine Agrees.ite ?_ ?_
    · cases (program.attributes op).dense? "value" with
      | none => exact agrees_throw _ _
      | some value => exact agrees_answer _
    · refine (agrees_operand copies 0).bind fun _ _ standsFor => ?_
      exact (Agrees.readGrid holds standsFor).bind_eq fun x => agrees_tensorOp holds copies kind type x
  | torch | scalar => exact agrees_throw _ _

omit copies in
theorem agrees_bufferOf {value stands : ValueId}
    (standsFor : program.StandsFor tracking other value stands) :
    Agrees machine image links (Run.bufferOf program op value) (Run.bufferOf other op stands) := by
  refine (Agrees.read holds standsFor).bind fun slot found corresponds => ?_
  cases corresponds with
  | buffer linked => exact agrees_pure linked
  | scalar | tensor => exact agrees_throw _ _

/-- An operation that loads an element of a buffer computes the same number. -/
theorem agrees_loadOp :
    Agrees machine image (List.Forall₂ (Slot.Corresponds links)) (Run.memrefOp program op .load)
      (Run.memrefOp other op .load) := by
  have position : Agrees machine image Eq (((program.operands op).drop 1).mapM (Run.readInt program))
      (((other.operands op).drop 1).mapM (Run.readInt other)) :=
    (agrees_mapM ((List.forall₂_drop 1 copies.operands).imp fun _ _ => Agrees.readInt holds)).imp
      fun _ _ => forall₂_eq_iff.mp
  refine position.bind_eq fun position => ?_
  refine (agrees_operand copies 0).bind fun _ _ standsFor => ?_
  refine (agrees_bufferOf holds standsFor).bind fun place _ linked => ?_
  refine (Agrees.contents holds linked).bind_eq fun contents => ?_
  exact (agrees_answer _).bind_eq fun value => agrees_pure (.cons (.scalar _) .nil)

end Values

end TensorIR
