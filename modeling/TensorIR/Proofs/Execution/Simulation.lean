import TensorIR.Proofs.Execution.Agreement

/-!
# Runs that simulate each other

If a step of a run succeeds and the values in its frame are followed in the frame of another run, the
step of the other run succeeds as well, and its answer is the same but for the places of buffers. There
is a rule for each way to put steps together, and one for each sort of operation.

## Main definitions

* `Simulates` — a step of one run is followed by a step of the other
* `Caller.Corresponds` — calls of the two programs have corresponding answers

## Main results

* `Tracking.Holds.write`, `simulates_writeEach` — values that are written are followed
* `simulates_inner` — an operation that does not end its block
-/

namespace TensorIR

variable {α β γ δ : Type}

/-- All buffers that correspond still do. -/
def Links.Widens (links more : Links) : Prop :=
  ∀ place other, links place other → more place other

theorem Links.Widens.refl (links : Links) : links.Widens links :=
  fun _ _ linked => linked

theorem Links.Widens.trans {links middle more : Links} (first : links.Widens middle)
    (second : middle.Widens more) : links.Widens more :=
  fun place other linked => second place other (first place other linked)

/-- Lists of data are the same but for the places of buffers. -/
abbrev Slots (links : Links) : List Slot → List Slot → Prop :=
  List.Forall₂ (Slot.Corresponds links)

theorem Slots.mono {links more : Links} {slots others : List Slot} (corresponds : Slots links slots others)
    (widens : links.Widens more) : Slots more slots others :=
  corresponds.imp fun _ _ same => same.mono widens

/-- If a step succeeds from a state that is followed in another one, the other step succeeds with a
corresponding answer, and the states are followed again. -/
def Simulates (tracking : Tracking) (links : Links) (related : Links → α → β → Prop) (step : Run α)
    (other : Run β) : Prop :=
  ∀ machine image value after, tracking.Holds links machine image →
    step.run machine = .ok (value, after) →
      ∃ more result final, links.Widens more ∧ other.run image = .ok (result, final) ∧
        tracking.Holds more after final ∧ related more value result

section Rules

variable {tracking : Tracking} {links : Links} {related : Links → α → β → Prop}
  {later : Links → γ → δ → Prop}

theorem simulates_throw (error : Error) (other : Run β) :
    Simulates tracking links related (throw error) other := by
  rintro _ _ _ _ - ⟨⟩

theorem Simulates.of_agrees {step : Run α} {other : Run β}
    (agrees : ∀ machine image, tracking.Holds links machine image →
      Agrees machine image (related links) step other) :
    Simulates tracking links related step other := by
  intro machine image value after holds run
  obtain ⟨rfl, result, ran, same⟩ := agrees machine image holds value after run
  exact ⟨links, result, image, .refl links, ran, holds, same⟩

theorem simulates_pure {value : α} {result : β} (same : related links value result) :
    Simulates tracking links related (pure value) (pure result) :=
  .of_agrees fun _ _ _ => agrees_pure same

theorem Simulates.bind {step : Run α} {other : Run β} {next : α → Run γ} {otherNext : β → Run δ}
    (first : Simulates tracking links related step other)
    (second : ∀ more value result, links.Widens more → related more value result →
      Simulates tracking more later (next value) (otherNext result)) :
    Simulates tracking links later (step >>= next) (other >>= otherNext) := by
  intro machine image value after holds run
  obtain ⟨between, middle, ran, rest⟩ := Run.run_bind_eq_ok run
  obtain ⟨more, result, imageMiddle, widens, otherRan, between', same⟩ :=
    first machine image between middle holds ran
  obtain ⟨most, final, imageAfter, widens', otherRest, finally', corresponds⟩ :=
    second more between result widens same middle imageMiddle value after between' rest
  exact ⟨most, final, imageAfter, widens.trans widens', (Run.run_bind_of otherRan).trans otherRest,
    finally', corresponds⟩

/-- A step that only reads, and others after it. -/
theorem Simulates.of_agrees_bind {answers : α → β → Prop} {step : Run α} {other : Run β}
    {next : α → Run γ} {otherNext : β → Run δ}
    (first : ∀ machine image, tracking.Holds links machine image →
      Agrees machine image answers step other)
    (second : ∀ value result, answers value result →
      Simulates tracking links later (next value) (otherNext result)) :
    Simulates tracking links later (step >>= next) (other >>= otherNext) := by
  intro machine image value after holds run
  obtain ⟨between, middle, ran, rest⟩ := Run.run_bind_eq_ok run
  obtain ⟨rfl, result, otherRan, same⟩ := first machine image holds between middle ran
  obtain ⟨more, final, imageAfter, widens, otherRest, finally', corresponds⟩ :=
    second between result same middle image value after holds rest
  exact ⟨more, final, imageAfter, widens, (Run.run_bind_of otherRan).trans otherRest, finally',
    corresponds⟩

end Rules

/-! ### Memory -/

section Memory

variable {tracking : Tracking} {links more : Links} {machine image : Machine}

theorem Tracking.Holds.with_memory (holds : tracking.Holds links machine image)
    (widens : links.Widens more) {memory imageMemory : Array Grid}
    (memoryHolds : more.Hold memory imageMemory) :
    tracking.Holds more { machine with memory } { image with memory := imageMemory } where
  memory := memoryHolds
  inside := holds.inside
  known := holds.known
  found value slot isSlot alive := by
    obtain ⟨other, isOther, corresponds⟩ := holds.found value slot isSlot alive
    exact ⟨other, isOther, corresponds.mono widens⟩
  size_eq := holds.size_eq

/-- Buffers with the places that new ones get. -/
def Links.push (links : Links) (place other : Nat) : Links := fun first second =>
  links first second ∨ first = place ∧ second = other

theorem Links.Hold.push {memory imageMemory : Array Grid} (holds : links.Hold memory imageMemory)
    (grid : Grid) : (links.push memory.size imageMemory.size).Hold (memory.push grid)
      (imageMemory.push grid) where
  left place other linked := by
    rw [Array.size_push]
    rcases linked with linked | ⟨rfl, -⟩
    · exact Nat.lt_succ_of_lt (holds.left place other linked)
    · exact Nat.lt_succ_self _
  right place other linked := by
    rw [Array.size_push]
    rcases linked with linked | ⟨-, rfl⟩
    · exact Nat.lt_succ_of_lt (holds.right place other linked)
    · exact Nat.lt_succ_self _
  contents place other linked := by
    rcases linked with linked | ⟨rfl, rfl⟩
    · have same := holds.contents place other linked
      have left := holds.left place other linked
      have right := holds.right place other linked
      simp only [Array.getD_eq_getD_getElem?, Array.getElem?_push, left.ne, right.ne, if_false] at same ⊢
      exact same
    · simp
  functional place first second := by
    rintro (linked | ⟨rfl, rfl⟩) (other | ⟨same, rfl⟩)
    · exact holds.functional place first second linked other
    · exact absurd (holds.left _ _ linked) (same ▸ lt_irrefl _)
    · exact absurd (holds.left _ _ other) (lt_irrefl _)
    · rfl
  injective first second other := by
    rintro (linked | ⟨rfl, rfl⟩) (other | ⟨rfl, same⟩)
    · exact holds.injective first second _ linked other
    · exact absurd (holds.right _ _ linked) (same ▸ lt_irrefl _)
    · exact absurd (holds.right _ _ other) (lt_irrefl _)
    · rfl

/-- A new buffer in both runs. -/
theorem simulates_allocate (grid : Grid) :
    Simulates tracking links Slot.Corresponds (Run.allocate grid) (Run.allocate grid) := by
  rintro machine image _ _ holds ⟨⟩
  refine ⟨links.push machine.memory.size image.memory.size, _, _, fun _ _ => .inl, rfl,
    holds.with_memory (fun _ _ => .inl) (holds.memory.push grid), ?_⟩
  exact .buffer (.inr ⟨rfl, rfl⟩)

theorem Links.Hold.modify {memory imageMemory : Array Grid} (holds : links.Hold memory imageMemory)
    {place other : Nat} (linked : links place other) (change : Grid → Grid) :
    links.Hold (memory.modify place change) (imageMemory.modify other change) where
  left first second same := by
    rw [Array.size_modify]
    exact holds.left first second same
  right first second same := by
    rw [Array.size_modify]
    exact holds.right first second same
  contents first second same := by
    have left := holds.left first second same
    have right := holds.right first second same
    have contents := holds.contents first second same
    simp only [Array.getD_eq_getD_getElem?, Array.getElem?_eq_getElem left,
      Array.getElem?_eq_getElem right, Option.getD_some] at contents
    by_cases isPlace : place = first
    · subst isPlace
      obtain rfl := holds.functional _ _ _ linked same
      simp [Array.getD_eq_getD_getElem?, Array.getElem_modify, left, right, contents]
    · have apart : other ≠ second := by
        rintro rfl
        exact isPlace (holds.injective _ _ _ linked same)
      simp [Array.getD_eq_getD_getElem?, Array.getElem_modify, isPlace, apart, left, right, contents]
  functional := holds.functional
  injective := holds.injective

/-- An element of corresponding buffers changes. -/
theorem simulates_storeAt {place other : Nat} (linked : links place other) (position : List Int)
    (value : Scalar) : Simulates tracking links (fun _ _ _ => True) (Run.storeAt place position value)
      (Run.storeAt other position value) := by
  refine .of_agrees_bind (fun _ _ holds => Agrees.contents holds linked) ?_
  rintro contents _ rfl
  refine .of_agrees_bind (fun _ _ _ => agrees_answer _) ?_
  rintro offset _ rfl machine image _ _ holds ⟨⟩
  exact ⟨links, _, _, .refl links, rfl,
    holds.with_memory (.refl links) (holds.memory.modify linked _), trivial⟩

end Memory

/-! ### Values -/

section Writing

variable {tracking : Tracking} {links : Links}

/-- A value is followed under its own name. -/
structure Tracking.Assigns (tracking : Tracking) (value : ValueId) : Prop where
  inside : tracking.inside value
  image_eq : tracking.image value = value
  only : ∀ other, tracking.inside other → ¬tracking.dead other → tracking.image other = value →
    other = value
  below : value.index < tracking.size

theorem ValueId.index_inj {first second : ValueId} (same : first.index = second.index) :
    first = second := by
  cases first
  cases second
  exact congrArg ValueId.mk same

/-- What is in a frame after a value has been written. -/
theorem getD_setIfInBounds_eq_some {frame : Array (Option Slot)} {value other : ValueId} {slot found : Slot}
    (isFound : (frame.setIfInBounds value.index (some slot)).getD other.index none = some found) :
    other = value ∧ found = slot ∨
      other ≠ value ∧ frame.getD other.index none = some found := by
  rw [Array.getD_eq_getD_getElem?, Array.getElem?_setIfInBounds] at isFound
  split at isFound
  case isTrue same =>
    split at isFound
    · exact .inl ⟨(ValueId.index_inj same).symm, by simpa using isFound.symm⟩
    · cases isFound
  case isFalse apart =>
    refine .inr ⟨fun same => apart (by rw [same]), ?_⟩
    rwa [Array.getD_eq_getD_getElem?]

theorem Tracking.Holds.write {machine image : Machine} {value : ValueId} {slot other : Slot}
    (holds : tracking.Holds links machine image) (assigns : tracking.Assigns value)
    (known : tracking.known value slot) (corresponds : slot.Corresponds links other) :
    tracking.Holds links
      { machine with frame := machine.frame.setIfInBounds value.index (some slot) }
      { image with frame := image.frame.setIfInBounds value.index (some other) } where
  memory := holds.memory
  inside item found isFound := by
    rcases getD_setIfInBounds_eq_some isFound with ⟨rfl, -⟩ | ⟨-, before⟩
    · exact assigns.inside
    · exact holds.inside item found before
  known item found isFound := by
    rcases getD_setIfInBounds_eq_some isFound with ⟨rfl, rfl⟩ | ⟨-, before⟩
    · exact known
    · exact holds.known item found before
  found item found isFound alive := by
    have below : value.index < image.frame.size := holds.size_eq ▸ assigns.below
    rcases getD_setIfInBounds_eq_some isFound with ⟨rfl, rfl⟩ | ⟨apart, before⟩
    · refine ⟨other, ?_, corresponds⟩
      rw [assigns.image_eq]
      simp [Array.getD_eq_getD_getElem?, below]
    · obtain ⟨answer, isAnswer, same⟩ := holds.found item found before alive
      refine ⟨answer, ?_, same⟩
      have elsewhere : value.index ≠ (tracking.image item).index := fun same => apart
        (assigns.only item (holds.inside item found before) alive (ValueId.index_inj same.symm))
      rw [Array.getD_eq_getD_getElem?, Array.getElem?_setIfInBounds_ne elsewhere]
      rwa [Array.getD_eq_getD_getElem?] at isAnswer
  size_eq := by
    rw [Array.size_setIfInBounds]
    exact holds.size_eq

theorem simulates_writeEach {values : List ValueId} {slots others : List Slot}
    (assigns : ∀ value ∈ values, tracking.Assigns value)
    (known : ∀ pair ∈ values.zip slots, tracking.known pair.1 pair.2)
    (corresponds : Slots links slots others) :
    Simulates tracking links (fun _ _ _ => True) (Run.writeEach values slots)
      (Run.writeEach values others) := by
  induction values generalizing slots others with
  | nil => exact simulates_pure trivial
  | cons value values ih =>
    cases corresponds with
    | nil => exact simulates_pure trivial
    | cons first later =>
      intro machine image result after holds run
      rw [Run.run_writeEach_cons] at run ⊢
      exact ih (fun other member => assigns other (List.mem_cons_of_mem _ member))
        (fun pair member => known pair (List.mem_cons_of_mem _ member)) later _ _ result after
        (holds.write (assigns value List.mem_cons_self) (known _ List.mem_cons_self) first) run

end Writing

/-! ### Single operations -/

section Operations

variable {tracking : Tracking} {links : Links} {program other : Program} {op : OpId}

theorem simulates_memrefOp (copies : program.Copies tracking other op) (kind : MemrefKind) :
    Simulates tracking links Slots (Run.memrefOp program op kind) (Run.memrefOp other op kind) := by
  cases kind with
  | load => exact .of_agrees fun machine image holds => agrees_loadOp holds copies
  | alloc =>
    refine .of_agrees_bind (fun _ _ _ => agrees_result copies) ?_
    rintro result _ ⟨rfl, among⟩
    have typed (machine image : Machine) : Agrees machine image Eq
        (monadLift (program.typed result) : Run Ty) (monadLift (other.typed result)) :=
      agrees_lift fun type found => ⟨type, Program.typed_eq_ok.mpr
        ((copies.types_eq result among).trans (Program.typed_eq_ok.mp found)), rfl⟩
    refine .of_agrees_bind (fun machine image _ => typed machine image) ?_
    rintro type _ rfl
    split
    · exact (simulates_allocate _).bind fun _ _ _ _ corresponds =>
        simulates_pure (.cons corresponds .nil)
    · exact simulates_throw _ _
  | store =>
    have position (machine image : Machine) (holds : tracking.Holds links machine image) :
        Agrees machine image Eq (((program.operands op).drop 2).mapM (Run.readInt program))
          (((other.operands op).drop 2).mapM (Run.readInt other)) :=
      (agrees_mapM ((List.forall₂_drop 2 copies.operands).imp fun _ _ => Agrees.readInt holds)).imp
        fun _ _ => forall₂_eq_iff.mp
    refine .of_agrees_bind position ?_
    rintro position _ rfl
    refine .of_agrees_bind (fun _ _ _ => agrees_operand copies 1) fun _ _ isBuffer => ?_
    refine .of_agrees_bind (fun _ _ holds => agrees_bufferOf holds isBuffer) fun _ _ linked => ?_
    refine .of_agrees_bind (fun _ _ _ => agrees_operand copies 0) fun _ _ isValue => ?_
    refine .of_agrees_bind (fun _ _ holds => Agrees.readScalar holds isValue) ?_
    rintro value _ rfl
    exact (simulates_storeAt linked position value).bind fun _ _ _ _ _ => simulates_pure .nil

theorem simulates_plainOp (copies : program.Copies tracking other op) :
    Simulates tracking links Slots (Run.plainOp program op) (Run.plainOp other op) := by
  unfold Run.plainOp
  rw [copies.kind_eq]
  split
  · refine .of_agrees_bind (fun _ _ holds => agrees_tosaOp holds copies _) ?_
    rintro contents _ rfl
    exact simulates_pure (.cons (.tensor _) .nil)
  · exact simulates_memrefOp copies _
  · refine .of_agrees_bind (fun _ _ holds => agrees_scalarOp holds copies) fun _ _ corresponds => ?_
    exact simulates_pure (.cons corresponds .nil)

theorem simulates_exit (copies : program.Copies tracking other op) :
    Simulates tracking links Slots ((program.operands op).mapM (Run.read program))
      ((other.operands op).mapM (Run.read other)) :=
  .of_agrees fun _ _ holds => agrees_operands copies fun _ _ => Agrees.read holds

end Operations

/-! ### Control flow -/

/-- Calls of the same function with corresponding data have corresponding answers. They leave the
frame of the caller as it is. -/
def Caller.Corresponds (call other : Caller) : Prop :=
  ∀ name links slots stands machine image answers after, Slots links slots stands →
    links.Hold machine.memory image.memory →
    (call name slots).run machine = .ok (answers, after) →
      ∃ more results final, links.Widens more ∧ (other name stands).run image = .ok (results, final) ∧
        more.Hold after.memory final.memory ∧ after.frame = machine.frame ∧
        final.frame = image.frame ∧ Slots more answers results

section Control

variable {tracking : Tracking} {links : Links} {program other : Program} {op : OpId}
  {call otherCall : Caller}

/-- A call with corresponding data. -/
theorem Caller.Corresponds.simulates (calls : call.Corresponds otherCall) (name : String)
    {slots stands : List Slot} (same : Slots links slots stands) :
    Simulates tracking links Slots (call name slots) (otherCall name stands) := by
  intro machine image answers after holds run
  obtain ⟨more, results, final, widens, ran, memory, frame, imageFrame, corresponds⟩ :=
    calls name links slots stands machine image answers after same holds.memory run
  refine ⟨more, results, final, widens, ran, ?_, corresponds⟩
  have kept := holds.with_memory widens memory
  rwa [show { machine with memory := after.memory } = after by rw [← frame],
    show { image with memory := final.memory } = final by rw [← imageFrame]] at kept

theorem simulates_callOp (copies : program.Copies tracking other op)
    (calls : call.Corresponds otherCall) :
    Simulates tracking links Slots (Run.callOp program call op) (Run.callOp other otherCall op) := by
  unfold Run.callOp
  rw [copies.attributes_eq]
  split
  · exact simulates_throw _ _
  · exact .of_agrees_bind (fun _ _ holds => agrees_operands copies fun _ _ => Agrees.read holds)
      fun slots stands same => calls.simulates _ same

/-- The rounds of a loop. -/
theorem simulates_repeated {body otherBody : List Slot → Run (List Slot)} {width : Int}
    (each : ∀ more arguments others, links.Widens more → Slots more arguments others →
      Simulates tracking more Slots (body arguments) (otherBody others)) (count : Nat) (position : Int)
    {carried others : List Slot} (corresponds : Slots links carried others) :
    Simulates tracking links Slots (Run.repeated body width count position carried)
      (Run.repeated otherBody width count position others) := by
  induction count generalizing links position carried others with
  | zero => exact simulates_pure corresponds
  | succ count ih =>
    refine (each links _ _ (.refl links) (.cons (.scalar _) corresponds)).bind
      fun more next otherNext widens same => ?_
    exact ih (fun most arguments others wider => each most arguments others (widens.trans wider))
      (position + width) same

theorem agrees_bounds {machine image : Machine} (holds : tracking.Holds links machine image)
    (copies : program.Copies tracking other op) :
    Agrees machine image (fun bounds stands => bounds.1 = stands.1 ∧ bounds.2.1 = stands.2.1 ∧
        bounds.2.2.1 = stands.2.2.1 ∧ Slots links bounds.2.2.2 stands.2.2.2)
      (Run.bounds program op) (Run.bounds other op) := by
  have operands := copies.operands
  unfold Run.bounds
  generalize program.operands op = values, other.operands op = stands at operands
  match operands with
  | .nil | .cons _ .nil | .cons _ (.cons _ .nil) => exact agrees_throw _ _
  | .cons lower (.cons upper (.cons step initial)) =>
    refine (Agrees.readInt holds lower).bind_eq fun first => ?_
    refine (Agrees.readInt holds upper).bind_eq fun last => ?_
    refine (Agrees.readInt holds step).bind_eq fun width => ?_
    refine Agrees.ite (agrees_throw _ _) ?_
    refine (agrees_mapM (initial.imp fun _ _ => Agrees.read holds)).bind fun slots others same => ?_
    exact agrees_pure ⟨rfl, rfl, rfl, same⟩

theorem agrees_side {machine image : Machine} (holds : tracking.Holds links machine image)
    (copies : program.Copies tracking other op) :
    Agrees machine image Eq (Run.side program op) (Run.side other op) :=
  (agrees_operand copies 0).bind fun _ _ standsFor =>
    (Agrees.readInt holds standsFor).bind_eq fun _ => agrees_pure rfl

/-- An operation that does not end its block. -/
theorem simulates_inner {regions otherRegions : Regions} (copies : program.Copies tracking other op)
    (calls : call.Corresponds otherCall)
    (inside : ∀ more index skipped arguments others, links.Widens more → Slots more arguments others →
      Simulates tracking more Slots (regions.run program call op index skipped arguments)
        (otherRegions.run other otherCall op index skipped others)) :
    Simulates tracking links Slots (Run.inner program call op regions)
      (Run.inner other otherCall op otherRegions) := by
  unfold Run.inner
  rw [copies.kind_eq]
  split
  · refine .of_agrees_bind (fun _ _ holds => agrees_bounds holds copies) ?_
    rintro ⟨first, last, width, initial⟩ ⟨_, _, _, others⟩ ⟨rfl, rfl, rfl, same⟩
    exact simulates_repeated (fun more arguments others widens => inside more 0 0 arguments others widens)
      _ _ same
  · refine .of_agrees_bind (fun _ _ holds => agrees_side holds copies) ?_
    rintro side _ rfl
    exact inside links side side [] [] (.refl links) .nil
  · exact simulates_callOp copies calls
  · exact simulates_plainOp copies

end Control

end TensorIR
