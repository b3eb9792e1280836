import TensorIR.Proofs.Calls
import TensorIR.Proofs.Execution.Defined
import TensorIR.Proofs.Ranges.Numbers

/-!
# Machines whose data is in range

Values of scalar, tensor and buffer types have elements of a scalar type. Where values are handed on, the rules
of a program compare their types by texts. Types with the same text have elements of the same type, although
they may differ in sizes that are unknown.

The type of a value tells the type of its data. In memory a buffer has a type of its own, which never changes,
so it does not matter under how many names a buffer is known. What is read from a machine whose data is in range
is in range, and the data stays in range when something is written that is.

## Main definitions

* `Ty.element?`, `Program.elementOf?` — the type of the elements
* `Run.Ensures`, `Run.Finds` — what holds after a step that succeeds
* `Machine.Holds` — the data of a value belongs to a type
* `Machine.InRange` — the data of all values and the contents of all buffers are in range
* `Machine.Advances` — a later machine in which the data is in range

## Main results

* `Ty.element?_eq_of_text` — the text of a type tells the type of its elements
* `elements_eq_of_checkSameTypes`, `elements_eq_of_checkAssignable` — types that fit
* `Machine.InRange.read`, `Machine.InRange.readGrid` — what is read
* `Machine.InRange.writeEach`, `Machine.InRange.enter` — what is written
-/

namespace TensorIR

/-- The type of the elements of a tensor or buffer, or of a number itself. -/
def Ty.element? : Ty → Option ScalarType
  | .scalar type => some type
  | .shaped type => some type.element
  | .torch _ => none

/-- The type of the elements of a value, or of the value itself. -/
def Program.elementOf? (program : Program) (value : ValueId) : Option ScalarType :=
  (program.typeOf? value).bind Ty.element?

/-! ### Texts -/

theorem ScalarType.text_injective {first second : ScalarType} (same : first.text = second.text) :
    first = second := by
  have read := read_text first
  rw [same, read_text] at read
  exact (Except.ok.inj read).symm

/-- Seen from its end, the text of a scalar type behind a bracket or a size tells the type. -/
theorem ScalarType.eq_of_isPrefix {first second : ScalarType} {c d : Char} (isEnd : c = 'x' ∨ c = '<')
    (before : first.text.toList.reverse ++ [c] <+: second.text.toList.reverse ++ [d]) : first = second := by
  cases first <;> cases second <;> first
    | rfl
    | (simp [text] at before; done)
    | (rcases isEnd with rfl | rfl <;> simp [text] at before)

/-- Behind a bracket or a size, the text of a tensor or buffer ends with the type of the elements. -/
theorem ShapedType.exists_text (type : ShapedType) : ∃ (front : List Char) (c : Char), (c = 'x' ∨ c = '<') ∧
    type.text.toList = front ++ c :: (type.element.text.toList ++ ['>']) := by
  have text_eq : type.text.toList = type.kind.word.toList ++ '<' ::
      (type.shape.flatMap fun size => (sizeText size).toList) ++ (type.element.text.toList ++ ['>']) := by
    simp [text, String.toList_join, List.flatMap_map]
  rcases List.eq_nil_or_concat type.shape with empty | ⟨sizes, last, isShape⟩
  · refine ⟨type.kind.word.toList, '<', .inr rfl, ?_⟩
    simp [text_eq, empty]
  · refine ⟨type.kind.word.toList ++ '<' :: (sizes.flatMap fun size => (sizeText size).toList) ++
      (if last < 0 then "?" else toString last).toList, 'x', .inl rfl, ?_⟩
    simp [text_eq, isShape, sizeText]

theorem ShapedType.element_eq_of_text {first second : ShapedType} (same : first.text = second.text) :
    first.element = second.element := by
  obtain ⟨front, c, isEnd, text_eq⟩ := first.exists_text
  obtain ⟨otherFront, d, otherEnd, otherText⟩ := second.exists_text
  have reversed : (first.element.text.toList.reverse ++ [c]) ++ front.reverse =
      (second.element.text.toList.reverse ++ [d]) ++ otherFront.reverse := by
    have letters := congrArg (List.reverse ∘ String.toList) same
    simpa [text_eq, otherText] using letters
  have left : first.element.text.toList.reverse ++ [c] <+: _ := List.prefix_append _ front.reverse
  have right : second.element.text.toList.reverse ++ [d] <+: _ := List.prefix_append _ otherFront.reverse
  rw [reversed] at left
  rcases le_total (first.element.text.toList.reverse ++ [c]).length
    (second.element.text.toList.reverse ++ [d]).length with shorter | longer
  · exact ScalarType.eq_of_isPrefix isEnd (List.prefix_of_prefix_length_le left right shorter)
  · exact (ScalarType.eq_of_isPrefix otherEnd
      (List.prefix_of_prefix_length_le right left longer)).symm

namespace Ty

theorem element?_eq_of_text {first second : Ty} (same : first.text = second.text) :
    first.element? = second.element? := by
  have stops : Text.Stops [] := by simp [Text.Stops]
  have alike : first.ctorIdx = second.ctorIdx := ctorIdx_eq_of_append stops stops (by rw [same])
  cases first <;> cases second <;> cases alike
  case scalar.scalar.refl => exact congrArg some (ScalarType.text_injective same)
  case shaped.shaped.refl => exact congrArg some (ShapedType.element_eq_of_text same)
  case torch.torch.refl => rfl

theorem element?_eq_of_isAssignable {first second : Ty} (fits : first.isAssignable second = true) :
    first.element? = second.element? := by
  unfold isAssignable at fits
  split at fits
  · rfl
  · exact element?_eq_of_text (beq_iff_eq.mp fits)

end Ty

/-! ### Lists of values -/

section Lists

variable {first second types : List Ty} {what : String} {value : Unit}

theorem elements_eq_of_checkAssignable (checked : checkAssignable what first second = .ok value) :
    first.map Ty.element? = second.map Ty.element? :=
  map_eq_map_iff_forall₂.mpr ((fitEach_of_checkAssignable checked).imp fun _ _ => Ty.element?_eq_of_isAssignable)

theorem elements_eq_of_checkSameTypes (checked : checkSameTypes what first second = .ok value) :
    first.map Ty.element? = second.map Ty.element? := by
  unfold checkSameTypes at checked
  split at checked
  case isFalse => cases checked
  case isTrue same =>
    have texts : first.map Ty.text = second.map Ty.text := beq_iff_eq.mp same
    exact map_eq_map_iff_forall₂.mpr ((map_eq_map_iff_forall₂.mp texts).imp fun _ _ => Ty.element?_eq_of_text)

namespace Program

variable {program : Program}

theorem elementOf?_of_typed {value : ValueId} {type : Ty} (typed : program.typed value = .ok type) :
    program.elementOf? value = type.element? := by
  rw [elementOf?, typeOf?_of_typed typed]
  rfl

theorem getElem?_of_result {op : OpId} {index : Nat} {value : ValueId}
    (found : program.result op index = .ok value) : (program.results op)[index]? = some value := by
  unfold result at found
  split at found
  case h_1 isResult =>
    cases found
    exact isResult
  case h_2 => cases found

theorem elementOf?_of_elements {values : List ValueId} {elements : List (Option ScalarType)} {index : Nat}
    {value : ValueId} (areElements : values.map program.elementOf? = elements)
    (found : values[index]? = some value) : elements[index]? = some (program.elementOf? value) := by
  rw [← areElements, List.getElem?_map, found]
  rfl

theorem elements_of_typed {values : List ValueId} (typed : values.mapM program.typed = .ok types) :
    values.map program.elementOf? = types.map Ty.element? :=
  map_eq_map_iff_forall₂.mpr ((forall₂_of_mapM_eq_ok typed).imp fun _ _ => elementOf?_of_typed)

end Program

end Lists

/-! ### Steps that succeed -/

namespace Run

variable {α β : Type} {machine : Machine} {post : α → Machine → Prop} {found : α → Prop}
  {later : β → Machine → Prop}

/-- If the step succeeds, the property holds of its answer and of the machine afterwards. -/
def Ensures (machine : Machine) (post : α → Machine → Prop) (step : Run α) : Prop :=
  ∀ value after, step.run machine = .ok (value, after) → post value after

/-- If the step succeeds, the property holds of its answer, and the machine is as before. -/
def Finds (machine : Machine) (found : α → Prop) (step : Run α) : Prop :=
  Ensures machine (fun value after => after = machine ∧ found value) step

theorem ensures_pure {value : α} (holds : post value machine) : Ensures machine post (pure value) := by
  rintro _ _ ⟨⟩
  exact holds

theorem finds_pure {value : α} (holds : found value) : Finds machine found (pure value) :=
  ensures_pure ⟨rfl, holds⟩

theorem ensures_throw (error : Error) : Ensures machine post (throw error) := by
  rintro _ _ ⟨⟩

theorem finds_lift {answer : Except Error α} (gives : ∀ value, answer = .ok value → found value) :
    Finds machine found (monadLift answer) := by
  intro value after run
  obtain ⟨isAnswer, rfl⟩ := run_lift_eq_ok run
  exact ⟨rfl, gives value isAnswer⟩

theorem Ensures.bind {step : Run α} {next : α → Run β} (first : Ensures machine post step)
    (second : ∀ value after, post value after → Ensures after later (next value)) :
    Ensures machine later (step >>= next) := by
  intro value after run
  obtain ⟨between, middle, ran, rest⟩ := run_bind_eq_ok run
  exact second between middle (first between middle ran) value after rest

theorem Finds.bind {step : Run α} {next : α → Run β} (first : Finds machine found step)
    (second : ∀ value, found value → Ensures machine later (next value)) :
    Ensures machine later (step >>= next) := by
  refine Ensures.bind first fun value after holds => ?_
  obtain ⟨rfl, holds⟩ := holds
  exact second value holds

theorem ensures_throw_bind (error : Error) {next : α → Run β} :
    Ensures machine later (throw error >>= next) := by
  have fails : Ensures machine (fun _ _ => False) (throw error : Run α) := ensures_throw error
  exact fails.bind fun _ _ impossible => impossible.elim

theorem Ensures.imp {weaker : α → Machine → Prop} {step : Run α} (ensures : Ensures machine post step)
    (imp : ∀ value after, post value after → weaker value after) : Ensures machine weaker step :=
  fun value after run => imp value after (ensures value after run)

theorem Finds.imp {weaker : α → Prop} {step : Run α} (finds : Finds machine found step)
    (imp : ∀ value, found value → weaker value) : Finds machine weaker step :=
  Ensures.imp finds fun value _ holds => ⟨holds.1, imp value holds.2⟩

/-- Steps that only look find something for each item. -/
theorem finds_mapM {related : α → β → Prop} {step : α → Run β} {items : List α}
    (each : ∀ item ∈ items, Finds machine (related item) (step item)) :
    Finds machine (List.Forall₂ related items) (items.mapM step) := by
  induction items with
  | nil => exact finds_pure .nil
  | cons item items ih =>
    rw [List.mapM_cons]
    refine (each item List.mem_cons_self).bind fun value first => ?_
    refine (ih fun other member => each other (List.mem_cons_of_mem item member)).bind fun values others => ?_
    exact finds_pure (.cons first others)

theorem finds_get : Finds machine (· = machine) (get : Run Machine) := by
  rintro _ _ ⟨⟩
  exact ⟨rfl, rfl⟩

theorem ensures_modify (change : Machine → Machine) :
    Ensures machine (fun _ after => after = change machine) (modify change) := by
  rintro _ _ ⟨⟩
  rfl

theorem finds_contents (place : Nat) :
    Finds machine (· = machine.memory.getD place default) (contents place) := by
  rintro _ _ ⟨⟩
  exact ⟨rfl, rfl⟩

theorem finds_read {program : Program} (value : ValueId) :
    Finds machine (fun slot => machine.frame.getD value.index none = some slot) (read program value) := by
  refine finds_get.bind fun before isBefore => ?_
  rw [isBefore]
  split
  case h_1 isKnown => exact finds_pure isKnown
  case h_2 => exact ensures_throw _

theorem finds_operand {program : Program} {op : OpId} (index : Nat) :
    Finds machine (fun value => (program.operands op)[index]? = some value) (operand program op index) :=
  finds_lift fun _ isOperand => Program.getElem?_of_operand isOperand

theorem finds_elementType {program : Program} (value : ValueId) :
    Finds machine (fun type => program.elementOf? value = some type) (elementType program value) := by
  refine finds_lift fun element found => ?_
  obtain ⟨type, typed, found⟩ := of_bind_eq_ok found
  rw [Program.elementOf?_of_typed typed]
  cases type with
  | torch => cases found
  | scalar | shaped =>
    cases found
    rfl

end Run

/-! ### Data of a type -/

namespace Machine

variable {machine middle after : Machine} {type : ScalarType} {slot : Slot} {slots : List Slot}
  {types : List (Option ScalarType)}

/-- The data of a value belongs to a type: it is a number of the type, an array of such numbers, or a buffer
that is meant for them. -/
def Holds (machine : Machine) (type : ScalarType) : Slot → Prop
  | .scalar value => type.Holds value
  | .tensor grid => grid.Holds type
  | .buffer place => ∃ grid, machine.memory[place]? = some grid ∧ grid.element = type

/-- The data of values belongs to their types, as far as these are types of numbers. -/
def HoldsEach (machine : Machine) (types : List (Option ScalarType)) (slots : List Slot) : Prop :=
  ∀ pair ∈ types.zip slots, ∀ type ∈ pair.1, machine.Holds type pair.2

/-- Buffers stay where they are, and stay meant for the same numbers. -/
def Grows (machine after : Machine) : Prop :=
  ∀ (place : Nat) (grid : Grid), machine.memory[place]? = some grid →
    ∃ later : Grid, after.memory[place]? = some later ∧ later.element = grid.element

theorem Grows.of_memory_eq (same : after.memory = machine.memory) : machine.Grows after :=
  fun _ grid found => ⟨grid, by rw [same, found], rfl⟩

theorem Grows.trans (first : machine.Grows middle) (second : middle.Grows after) : machine.Grows after := by
  intro place grid found
  obtain ⟨between, isBetween, same⟩ := first place grid found
  obtain ⟨later, isLater, alike⟩ := second place between isBetween
  exact ⟨later, isLater, alike.trans same⟩

theorem Holds.grow (holds : machine.Holds type slot) (grows : machine.Grows after) :
    after.Holds type slot := by
  cases slot with
  | scalar | tensor => exact holds
  | buffer place =>
    obtain ⟨grid, found, rfl⟩ := holds
    exact grows place grid found

theorem HoldsEach.grow (holds : machine.HoldsEach types slots) (grows : machine.Grows after) :
    after.HoldsEach types slots :=
  fun pair member type isType => (holds pair member type isType).grow grows

theorem holdsEach_cons {element : Option ScalarType} :
    machine.HoldsEach (element :: types) (slot :: slots) ↔
      (∀ type ∈ element, machine.Holds type slot) ∧ machine.HoldsEach types slots :=
  List.forall_mem_cons

theorem holdsEach_nil : machine.HoldsEach types [] := by
  simp [HoldsEach]

/-- The data of every value belongs to its type, and so do the contents of every buffer to the type that the
buffer is meant for. -/
structure InRange (machine : Machine) (program : Program) : Prop where
  stored : ∀ grid ∈ machine.memory, grid.Holds grid.element
  known : ∀ (value : ValueId) slot type, machine.frame.getD value.index none = some slot →
    program.elementOf? value = some type → machine.Holds type slot

/-- The machine comes after another one, and its data is in range. -/
structure Advances (machine : Machine) (program : Program) (after : Machine) : Prop where
  inRange : after.InRange program
  grows : machine.Grows after

theorem Advances.trans {program : Program} (first : machine.Advances program middle)
    (second : middle.Advances program after) : machine.Advances program after :=
  ⟨second.inRange, first.grows.trans second.grows⟩

theorem InRange.refl {program : Program} (inRange : machine.InRange program) :
    machine.Advances program machine :=
  ⟨inRange, .of_memory_eq rfl⟩

namespace InRange

variable {program : Program} {value : ValueId} {op : OpId}

theorem holds_buffer {place : Nat} (inRange : machine.InRange program)
    (holds : machine.Holds type (.buffer place)) : (machine.memory.getD place default).Holds type := by
  obtain ⟨grid, found, rfl⟩ := holds
  rw [Array.getD_eq_getD_getElem?, found]
  exact inRange.stored grid (Array.mem_of_getElem? found)

/-! ### Reading -/

theorem read (inRange : machine.InRange program) (value : ValueId) :
    Run.Finds machine (fun slot => ∀ type ∈ program.elementOf? value, machine.Holds type slot)
      (Run.read program value) :=
  (Run.finds_read value).imp fun slot isKnown type isType => inRange.known value slot type isKnown isType

theorem readEach (inRange : machine.InRange program) (values : List ValueId) :
    Run.Finds machine (machine.HoldsEach (values.map program.elementOf?))
      (values.mapM (Run.read program)) := by
  refine (Run.finds_mapM fun value _ => inRange.read value).imp fun slots each => ?_
  induction each with
  | nil => exact holdsEach_nil
  | cons first _ ih => exact holdsEach_cons.mpr ⟨first, ih⟩

theorem readScalar (inRange : machine.InRange program) (value : ValueId) :
    Run.Finds machine (fun number => ∀ type ∈ program.elementOf? value, type.Holds number)
      (Run.readScalar program value) := by
  refine (inRange.read value).bind fun slot holds => ?_
  cases slot with
  | scalar => exact Run.finds_pure holds
  | tensor | buffer => exact Run.ensures_throw _

/-- The integers that values of known types are have 64 bits. -/
theorem readInt (inRange : machine.InRange program) (value : ValueId) :
    Run.Finds machine (fun number => (program.elementOf? value).isSome →
      Number.minInt64 ≤ number ∧ number ≤ Number.maxInt64) (Run.readInt program value) := by
  refine (inRange.readScalar value).bind fun number holds => Run.finds_pure fun isTyped => ?_
  obtain ⟨type, isType⟩ := Option.isSome_iff_exists.mp isTyped
  exact (holds type isType).toInt_mem_range

theorem readFloat (inRange : machine.InRange program) (value : ValueId) :
    Run.Finds machine (fun _ => True) (Run.readFloat program value) :=
  (inRange.readScalar value).bind fun _ _ => Run.finds_pure trivial

theorem readGrid (inRange : machine.InRange program) (value : ValueId) :
    Run.Finds machine (fun grid => ∀ type ∈ program.elementOf? value, grid.Holds type)
      (Run.readGrid program value) := by
  refine (inRange.read value).bind fun slot holds => ?_
  cases slot with
  | scalar => exact Run.ensures_throw _
  | tensor => exact Run.finds_pure holds
  | buffer place =>
    refine (Run.finds_contents place).imp fun grid isGrid type isType => ?_
    rw [isGrid]
    exact inRange.holds_buffer (holds type isType)

theorem bufferOf (inRange : machine.InRange program) (value : ValueId) :
    Run.Finds machine (fun place => ∀ type ∈ program.elementOf? value, machine.Holds type (.buffer place))
      (Run.bufferOf program op value) := by
  refine (inRange.read value).bind fun slot holds => ?_
  cases slot with
  | buffer => exact Run.finds_pure holds
  | scalar | tensor => exact Run.ensures_throw _

/-! ### Writing -/

theorem write (inRange : machine.InRange program)
    (holds : ∀ type ∈ program.elementOf? value, machine.Holds type slot) :
    Run.Ensures machine (fun _ after => machine.Advances program after) (Run.write value slot) := by
  rintro _ _ ⟨⟩
  refine ⟨⟨inRange.stored, fun other known type isKnown isType => ?_⟩, .of_memory_eq rfl⟩
  dsimp only at isKnown
  -- Only the value that is written may have other data than before.
  by_cases same : value.index = other.index
  · obtain rfl : value = other := congrArg ValueId.mk same
    by_cases below : value.index < machine.frame.size
    · obtain rfl : slot = known := by simpa [Array.getD_eq_getD_getElem?, below] using isKnown
      exact holds type isType
    · simp [Array.getD_eq_getD_getElem?, below] at isKnown
  · refine inRange.known other known type ?_ isType
    rwa [Array.getD_eq_getD_getElem?, Array.getElem?_setIfInBounds_ne same, ← Array.getD_eq_getD_getElem?]
      at isKnown

theorem writeEach (inRange : machine.InRange program) {values : List ValueId}
    (holds : machine.HoldsEach (values.map program.elementOf?) slots) :
    Run.Ensures machine (fun _ after => machine.Advances program after) (Run.writeEach values slots) := by
  induction values generalizing slots machine with
  | nil => exact Run.ensures_pure inRange.refl
  | cons value values ih =>
    cases slots with
    | nil => exact Run.ensures_pure inRange.refl
    | cons slot slots =>
      obtain ⟨here, others⟩ := holdsEach_cons.mp holds
      rw [Run.writeEach_cons]
      refine (inRange.write here).bind fun _ middle written => ?_
      exact (ih written.inRange (others.grow written.grows)).imp fun _ after later => written.trans later

theorem enter (inRange : machine.InRange program) {block : BlockId}
    (holds : machine.HoldsEach ((program.header block).arguments.map program.elementOf?) slots) :
    Run.Ensures machine (fun _ after => machine.Advances program after) (Run.enter program block slots) := by
  unfold Run.enter
  extract_lets parameters
  split
  · exact Run.ensures_throw_bind _
  · have writes := inRange.writeEach holds
    rw [Run.writeEach] at writes
    exact writes

/-- Memory is changed so that buffers stay meant for the same numbers, and hold such numbers. -/
theorem changeMemory (inRange : machine.InRange program) {memory : Array Grid}
    (grows : machine.Grows { machine with memory }) (stored : ∀ grid ∈ memory, grid.Holds grid.element) :
    machine.Advances program { machine with memory } :=
  ⟨⟨stored, fun value slot type isKnown isType => (inRange.known value slot type isKnown isType).grow grows⟩,
    grows⟩

theorem allocate (inRange : machine.InRange program) {grid : Grid} (holds : grid.Holds grid.element) :
    Run.Ensures machine (fun slot after => machine.Advances program after ∧ after.Holds grid.element slot)
      (Run.allocate grid) := by
  rintro _ _ ⟨⟩
  refine ⟨inRange.changeMemory (fun place other found => ⟨other, ?_, rfl⟩) fun other member => ?_,
    grid, by simp, rfl⟩
  · have below := (Array.getElem?_eq_some_iff.mp found).1
    rwa [Array.getElem?_push_lt below, ← Array.getElem?_eq_getElem below]
  · rcases Array.mem_push.mp member with before | rfl
    · exact inRange.stored other before
    · exact holds

/-- A number is stored in a buffer that is meant for it. -/
theorem storeAt (inRange : machine.InRange program) {place : Nat} {position : List Int} {number : Scalar}
    (isBuffer : machine.Holds type (.buffer place)) (holds : type.Holds number) :
    Run.Ensures machine (fun _ after => machine.Advances program after)
      (Run.storeAt place position number) := by
  refine (Run.finds_contents place).bind fun _ _ => ?_
  refine (Run.finds_lift fun _ _ => trivial).bind fun offset _ => ?_
  rintro _ _ ⟨⟩
  -- A buffer keeps the type that it is meant for, and its contents change in one place at most.
  obtain ⟨grid, isGrid, rfl⟩ := isBuffer
  refine inRange.changeMemory (fun other before found => ?_) fun changed member => ?_
  · rw [Array.getElem?_modify, found]
    split
    · exact ⟨_, rfl, rfl⟩
    · exact ⟨before, rfl, rfl⟩
  · obtain ⟨index, isChanged⟩ := Array.getElem?_of_mem member
    rw [Array.getElem?_modify] at isChanged
    split at isChanged
    case isTrue same =>
      rw [← same, isGrid] at isChanged
      cases isChanged
      exact (inRange.stored grid (Array.mem_of_getElem? isGrid)).setIfInBounds holds offset
    case isFalse => exact inRange.stored changed (Array.mem_of_getElem? isChanged)

end InRange

end Machine

end TensorIR
