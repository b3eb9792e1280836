import TensorIR.Proofs.Execution.Scope
import TensorIR.Proofs.Reading.Quiet

/-!
# Stages of reading

While a program is read its tables are in order: every entry mentions entries only, and values know what
introduces them. What has been read so far is a stage: parts that are distinct, arguments that wait for
the block they belong to, and values that have been mentioned.

## Main definitions

* `Program.Ordered` — the tables are in order
* `Program.Stage` — how far the reading of a program has got
* `Reads` — what a step of reading starts from and what it leaves

## Main results

* `Reads.bind`, `Along.andThen` — steps one after the other
* `reads_operand`, `reads_blockArgument` — values that exist and new ones
* `reads_addOperation`, `reads_addBlock` — the parts of a tree
-/

namespace TensorIR

variable {α β : Type}

/-! ### Tables in order -/

/-- Where the results of an operation say that they come from. Those of a function only state types. -/
def Program.resultOrigin (program : Program) (op : OpId) : Origin :=
  if program.kind op = .func .func then .signature else .result op

/-- What the tables mention has an entry, and values know what introduces them. -/
structure Program.Ordered (program : Program) : Prop where
  operands : ∀ op, ∀ operand ∈ program.operands op, operand.index < program.values.size
  origins : ∀ value : ValueId, value.index < program.values.size →
    ∀ op, (program.value value).origin = .result op → op.index < program.operations.size
  results : ∀ op : OpId, op.index < program.operations.size →
    program.Owns (program.resultOrigin op) (program.results op)
  arguments : ∀ block : BlockId, block.index < program.headers.size →
    program.Owns (.argument block) (program.header block).arguments

/-- The part has an entry. -/
def Program.Has (program : Program) : Part → Prop
  | .op op => op.index < program.operations.size
  | .block block => block.index < program.headers.size

/-- How far the reading of a program has got: distinct parts of the tree have been read, arguments wait
for their block, and values have been mentioned. -/
structure Program.Stage (program : Program) (parts : List Part) (waiting mentioned : List ValueId) :
    Prop where
  nodup : parts.Nodup
  has : ∀ part ∈ parts, program.Has part
  waits : program.Owns (.argument none) waiting
  known : ∀ value ∈ mentioned, value.index < program.values.size

section Tables

variable {program now : Program} {parts : List Part} {waiting mentioned : List ValueId}

namespace Program

theorem value_addValue (program : Program) (added : Value) (value : ValueId) :
    (program.addValue added).2.value value =
      if value.index = program.values.size then added else program.value value := by
  simp only [Program.value, Program.addValue, Array.getD_eq_getD_getElem?, Array.getElem?_push]
  split <;> rfl

theorem operation_addOperation (program : Program) (added : Operation) (op : OpId) :
    (program.addOperation added).2.operation op =
      if op.index = program.operations.size then added else program.operation op := by
  simp only [Program.operation, Program.addOperation, Array.getD_eq_getD_getElem?, Array.getElem?_push]
  split <;> rfl

theorem header_addBlock (program : Program) (added : BlockHeader) (block : BlockId) :
    (program.addBlock added).2.header block =
      if block.index = program.headers.size then added else program.header block := by
  simp only [Program.header, Program.addBlock, Array.getD_eq_getD_getElem?, Array.getElem?_push]
  split <;> rfl

theorem lt_of_name {value : ValueId} {name : String} (named : (program.value value).name = some name) :
    value.index < program.values.size := by
  by_contra above
  rw [Program.value, Array.getD_eq_getD_getElem?, Array.getElem?_eq_none (Nat.le_of_not_lt above)] at named
  cases named

/-- The values that exist keep their origin. -/
theorem origin_addValue (program : Program) (added : Value) {value : ValueId}
    (below : value.index < program.values.size) :
    ((program.addValue added).2.value value).origin = (program.value value).origin := by
  rw [value_addValue, if_neg below.ne]

/-- A new value comes from where it says, like those before it. -/
theorem Owns.addValue (added : Value) {values : List ValueId} (owns : program.Owns added.origin values) :
    (program.addValue added).2.Owns added.origin (values ++ [(program.addValue added).1]) where
  nodup := by
    refine List.nodup_append.mpr ⟨owns.nodup, List.nodup_singleton _, ?_⟩
    rintro value member _ (_ | ⟨_, ⟨⟩⟩) rfl
    exact absurd (owns.lt _ member) (lt_irrefl _)
  lt value member := by
    rw [show (program.addValue added).2.values.size = program.values.size + 1 from Array.size_push ..]
    rcases List.mem_append.mp member with old | new
    · exact (owns.lt value old).trans (Nat.lt_succ_self _)
    · rw [List.mem_singleton.mp new]
      exact Nat.lt_succ_self _
  origin_eq value member := by
    rcases List.mem_append.mp member with old | new
    · rw [origin_addValue program added (owns.lt value old), owns.origin_eq value old]
    · rw [List.mem_singleton.mp new, value_addValue]
      exact congrArg Value.origin (if_pos rfl)

theorem Owns.nil {origin : Origin} : program.Owns origin [] where
  nodup := List.nodup_nil
  lt _ member := absurd member List.not_mem_nil
  origin_eq _ member := absurd member List.not_mem_nil

/-- Only the values matter for where values come from. -/
theorem Owns.of_values {origin : Origin} {values : List ValueId} (owns : program.Owns origin values)
    (same : now.values = program.values) : now.Owns origin values :=
  owns.grow (by rw [same]) fun value _ => by simp only [Program.value, same]

/-- Values of other origins stay what they are. -/
theorem Owns.addValue_of {added : Value} {origin : Origin} {values : List ValueId}
    (owns : program.Owns origin values) : (program.addValue added).2.Owns origin values :=
  owns.grow (by simp [Program.addValue]) fun _ => origin_addValue program added

namespace Ordered

theorem tabled (ordered : program.Ordered) : program.Tabled where
  operands := ordered.operands
  origins := ordered.origins
  outputs op isFunction value member := by
    by_cases below : op.index < program.operations.size
    · rw [(ordered.results op below).origin_eq value member, resultOrigin, if_pos isFunction]
    · rw [Program.results, operation_of_size_le (Nat.le_of_not_lt below)] at member
      cases member

/-- What has been read is known. -/
theorem knows (ordered : program.Ordered) {part : Part} (has : program.Has part) :
    program.Knows part := by
  cases part with
  | op op =>
    refine ⟨has, fun other => ?_⟩
    have owns := ordered.results op has
    rwa [resultOrigin, if_neg other] at owns
  | block block => exact ⟨has, ordered.arguments block has⟩

theorem addValue (ordered : program.Ordered) {added : Value}
    (origin : ∀ op, added.origin = .result op → op.index < program.operations.size) :
    (program.addValue added).2.Ordered where
  operands op operand isOperand := (ordered.operands op operand isOperand).trans (by simp [Program.addValue])
  origins value below op := by
    rw [value_addValue]
    split
    · exact origin op
    · refine ordered.origins value ?_ op
      simp only [Program.addValue, Array.size_push] at below
      omega
  results op below := (ordered.results op below).addValue_of
  arguments block below := (ordered.arguments block below).addValue_of

/-- An operation that refers to existing values. -/
theorem addOperation (ordered : program.Ordered) {added : Operation}
    (operands : ∀ operand ∈ added.operands, operand.index < program.values.size)
    (results : program.Owns (if added.kind = .func .func then .signature
      else .result ⟨program.operations.size⟩) added.results) :
    (program.addOperation added).2.Ordered where
  operands op operand isOperand := by
    rw [Program.operands, operation_addOperation] at isOperand
    split at isOperand
    · exact operands operand isOperand
    · exact ordered.operands op operand isOperand
  origins value below op origin := (ordered.origins value below op origin).trans (by simp [Program.addOperation])
  results op below := by
    rw [resultOrigin, Program.kind, Program.results, operation_addOperation]
    split
    case isTrue last =>
      rw [show op = ⟨program.operations.size⟩ from congrArg OpId.mk last]
      exact results.of_values rfl
    case isFalse other =>
      refine (ordered.results op ?_).of_values rfl
      simp only [Program.addOperation, Array.size_push] at below
      omega
  arguments block below := (ordered.arguments block below).of_values rfl

/-- An operation gets its results. -/
theorem setResults (ordered : program.Ordered) {op : OpId} {results : List ValueId}
    (other : program.kind op ≠ .func .func) (owns : program.Owns (.result op) results) :
    (program.modifyOperation op fun operation => { operation with results }).Ordered where
  operands op' operand isOperand := by
    refine ordered.operands op' operand ?_
    rw [Program.operands, operation_modifyOperation] at isOperand
    split at isOperand
    all_goals exact isOperand
  origins value below op' origin := (ordered.origins value below op' origin).trans_eq (by simp [modifyOperation])
  results op' below := by
    have below : op'.index < program.operations.size := by simpa [modifyOperation] using below
    rw [resultOrigin, Program.kind, Program.results, operation_modifyOperation]
    split
    case isTrue same =>
      obtain ⟨rfl, -⟩ := same
      rw [if_neg (show (program.operation op).kind ≠ _ from other)]
      exact owns.of_values rfl
    case isFalse => exact (ordered.results op' below).of_values rfl
  arguments block below := (ordered.arguments block below).of_values rfl

theorem setType (ordered : program.Ordered) (value : ValueId) (type : Ty) :
    (program.setType value type).Ordered := by
  have size : (program.setType value type).values.size = program.values.size := by
    simp [Program.setType, modifyValue]
  have origin_eq (other : ValueId) :
      ((program.setType value type).value other).origin = (program.value other).origin := by
    rw [Program.setType, value_modifyValue]
    split <;> rfl
  have owns {origin : Origin} {values : List ValueId} (before : program.Owns origin values) :
      (program.setType value type).Owns origin values :=
    before.grow size.ge fun other _ => origin_eq other
  exact {
    operands op operand isOperand := size ▸ ordered.operands op operand isOperand
    origins other below op origin := ordered.origins other (size ▸ below) op (origin_eq other ▸ origin)
    results op below := owns (ordered.results op below)
    arguments block below := owns (ordered.arguments block below) }

end Ordered

/-- The program with values as arguments of a block. -/
def claim (program : Program) (block : BlockId) (arguments : List ValueId) : Program :=
  arguments.foldl (fun program argument => program.modifyValue argument fun value =>
    { value with origin := .argument (some block) }) program

section Claim

variable {block : BlockId} {arguments : List ValueId}

@[simp]
theorem operations_claim : (program.claim block arguments).operations = program.operations := by
  induction arguments generalizing program with
  | nil => rfl
  | cons argument arguments ih => exact ih

@[simp]
theorem headers_claim : (program.claim block arguments).headers = program.headers := by
  induction arguments generalizing program with
  | nil => rfl
  | cons argument arguments ih => exact ih

@[simp]
theorem size_claim : (program.claim block arguments).values.size = program.values.size := by
  induction arguments generalizing program with
  | nil => rfl
  | cons argument arguments ih => exact ih.trans (by simp [modifyValue])

theorem origin_claim (program : Program) (value : ValueId) :
    ((program.claim block arguments).value value).origin =
      if value ∈ arguments ∧ value.index < program.values.size then .argument (some block)
      else (program.value value).origin := by
  induction arguments generalizing program with
  | nil => rw [if_neg (fun among => List.not_mem_nil among.1), claim, List.foldl_nil]
  | cons argument arguments ih =>
    rw [show program.claim block (argument :: arguments) = (program.modifyValue argument _).claim _ _ from rfl,
      ih, value_modifyValue]
    by_cases here : argument = value
    · by_cases below : value.index < program.values.size <;> simp [here, below, modifyValue]
    · simp [here, Ne.symm here, modifyValue]

/-- What comes from elsewhere is not claimed. -/
theorem Owns.claim {origin : Origin} {values : List ValueId} (owns : program.Owns origin values)
    (waits : program.Owns (.argument none) arguments) (different : origin ≠ .argument none) :
    (program.claim block arguments).Owns origin values where
  nodup := owns.nodup
  lt value member := by
    rw [size_claim]
    exact owns.lt value member
  origin_eq value member := by
    rw [origin_claim, if_neg, owns.origin_eq value member]
    rintro ⟨claimed, -⟩
    exact different ((owns.origin_eq value member).symm.trans (waits.origin_eq value claimed))

/-- Arguments that have been waiting belong to the block. -/
theorem Owns.claimed (waits : program.Owns (.argument none) arguments) :
    (program.claim block arguments).Owns (.argument (some block)) arguments where
  nodup := waits.nodup
  lt value member := by
    rw [size_claim]
    exact waits.lt value member
  origin_eq value member := by rw [origin_claim, if_pos ⟨member, waits.lt value member⟩]

/-- The program with another block that has given arguments. -/
def withArguments (program : Program) (label : Option String) (arguments : List ValueId) : Program :=
  (program.addBlock ⟨label, arguments⟩).2.claim ⟨program.headers.size⟩ arguments

theorem operation_withArguments (program : Program) (label : Option String) (arguments : List ValueId)
    (op : OpId) : (program.withArguments label arguments).operation op = program.operation op :=
  congrArg (·.getD op.index default) operations_claim

/-- A block whose arguments have been waiting for it. -/
theorem Ordered.withArguments (ordered : program.Ordered) (label : Option String)
    (waits : program.Owns (.argument none) arguments) :
    (program.withArguments label arguments).Ordered := by
  have size : (program.withArguments label arguments).values.size = program.values.size := size_claim
  have header_eq (block : BlockId) : (program.withArguments label arguments).header block =
      if block.index = program.headers.size then ⟨label, arguments⟩ else program.header block :=
    (congrArg (·.getD block.index default) headers_claim).trans (header_addBlock ..)
  have waits' : (program.addBlock ⟨label, arguments⟩).2.Owns (.argument none) arguments := waits.of_values rfl
  have owns {origin : Origin} {values : List ValueId} (before : program.Owns origin values)
      (different : origin ≠ .argument none) :
      (program.withArguments label arguments).Owns origin values :=
    Owns.claim (before.of_values rfl) waits' different
  refine ⟨fun op operand isOperand => ?_, fun value below op origin => ?_, fun op below => ?_, fun block below => ?_⟩
  · rw [Program.operands, operation_withArguments] at isOperand
    exact (ordered.operands op operand isOperand).trans_eq size.symm
  · rw [Program.withArguments, origin_claim] at origin
    rw [Program.withArguments, operations_claim]
    split at origin
    · cases origin
    · exact ordered.origins value (below.trans_eq size) op origin
  · rw [Program.withArguments, operations_claim] at below
    rw [resultOrigin, Program.kind, Program.results, operation_withArguments]
    refine owns (ordered.results op below) ?_
    split <;> simp
  · rw [Program.withArguments, headers_claim, Program.addBlock, Array.size_push] at below
    rw [header_eq]
    split
    case isTrue last =>
      rw [show block = ⟨program.headers.size⟩ from congrArg BlockId.mk last]
      exact waits'.claimed
    case isFalse other =>
      exact owns (ordered.arguments block (by omega)) (by simp)

end Claim

end Program

namespace Program.Stage

theorem mono (stage : program.Stage parts waiting mentioned) {fewer : List ValueId}
    (subset : ∀ value ∈ fewer, value ∈ mentioned) : program.Stage parts waiting fewer :=
  { stage with known value member := stage.known value (subset value member) }

theorem forget (stage : program.Stage parts waiting mentioned) : program.Stage parts waiting [] :=
  stage.mono fun _ member => absurd member List.not_mem_nil

/-- Arguments that nothing is going to use. -/
theorem drop (stage : program.Stage parts waiting mentioned) : program.Stage parts [] mentioned :=
  { stage with waits := .nil }

/-- Another value, which is not waiting for a block. -/
theorem addValue (stage : program.Stage parts waiting mentioned) (added : Value) :
    (program.addValue added).2.Stage parts waiting mentioned where
  nodup := stage.nodup
  has := stage.has
  waits := stage.waits.addValue_of
  known value member := (stage.known value member).trans (by simp [Program.addValue])

/-- Another value, which is waiting. -/
theorem wait (stage : program.Stage parts waiting mentioned) (name : Option String) (type : Option Ty) :
    (program.addValue ⟨name, type, .argument none⟩).2.Stage parts
      (waiting ++ [(program.addValue ⟨name, type, .argument none⟩).1]) mentioned :=
  { stage.addValue _ with waits := Owns.addValue ⟨name, type, .argument none⟩ stage.waits }

/-- Another operation. -/
theorem addOperation (stage : program.Stage parts waiting mentioned) (added : Operation) :
    (program.addOperation added).2.Stage (parts ++ [.op (program.addOperation added).1]) waiting mentioned where
  nodup := by
    refine List.nodup_append.mpr ⟨stage.nodup, List.nodup_singleton _, ?_⟩
    rintro part member _ (_ | ⟨_, ⟨⟩⟩) rfl
    exact absurd (stage.has _ member) (lt_irrefl _)
  has part member := by
    have size : (program.addOperation added).2.operations.size = program.operations.size + 1 := Array.size_push ..
    rcases List.mem_append.mp member with old | new
    · have has := stage.has part old
      cases part with
      | op op => exact has.trans (by omega)
      | block block => exact has
    · rw [List.mem_singleton.mp new, Program.Has, size]
      exact Nat.lt_succ_self _
  waits := stage.waits.of_values rfl
  known := stage.known

/-- The values of another operation. -/
theorem modifyOperation (stage : program.Stage parts waiting mentioned) (op : OpId)
    (change : Operation → Operation) : (program.modifyOperation op change).Stage parts waiting mentioned where
  nodup := stage.nodup
  has part member := by
    have has := stage.has part member
    cases part with
    | op other => exact has.trans_eq (by simp [Program.modifyOperation])
    | block block => exact has
  waits := stage.waits.of_values rfl
  known := stage.known

/-- Another block, which takes all arguments that have been waiting. -/
theorem withArguments (stage : program.Stage parts waiting mentioned) (label : Option String) :
    (program.withArguments label waiting).Stage (parts ++ [.block ⟨program.headers.size⟩]) [] mentioned where
  nodup := by
    refine List.nodup_append.mpr ⟨stage.nodup, List.nodup_singleton _, ?_⟩
    rintro part member _ (_ | ⟨_, ⟨⟩⟩) rfl
    exact absurd (stage.has _ member) (lt_irrefl _)
  has part member := by
    have size : (program.withArguments label waiting).headers.size = program.headers.size + 1 := by
      rw [Program.withArguments, headers_claim]
      exact Array.size_push ..
    have operations : (program.withArguments label waiting).operations = program.operations := operations_claim
    rcases List.mem_append.mp member with old | new
    · have has := stage.has part old
      cases part with
      | op op =>
        rw [Program.Has, operations]
        exact has
      | block block => exact has.trans (by omega)
    · rw [List.mem_singleton.mp new, Program.Has, size]
      exact Nat.lt_succ_self _
  waits := .nil
  known value member := by
    rw [Program.withArguments, size_claim]
    exact stage.known value member

/-- Another type of a value. -/
theorem setType (stage : program.Stage parts waiting mentioned) (value : ValueId) (type : Ty) :
    (program.setType value type).Stage parts waiting mentioned where
  nodup := stage.nodup
  has := stage.has
  waits := stage.waits.grow (by simp [Program.setType, modifyValue]) fun other _ => by
    rw [Program.setType, value_modifyValue]
    split <;> rfl
  known other member := (stage.known other member).trans_eq (by simp [Program.setType, modifyValue])

end Program.Stage

end Tables

/-- The tables of the program are in order, and visible names stand for values in them. -/
structure Reader.IsSound (reader : Reader) : Prop where
  ordered : reader.program.Ordered
  visible : ∀ scope ∈ reader.scopes, ∀ entry ∈ scope, entry.2.index < reader.program.values.size

/-- Started on a sound reader with a program of one kind, the step leaves a sound one with a program of
another kind, if it succeeds. -/
def Reads (before : Program → Prop) (step : Reading α) (after : α → Program → Prop) : Prop :=
  ∀ reader value left, reader.IsSound → before reader.program → step.run reader = .ok (value, left) →
    left.IsSound ∧ after value left.program

section Rules

variable {γ : Type} {before between : Program → Prop} {after : α → Program → Prop}
  {step : Reading α} {next : α → Reading β} {later : β → Program → Prop}

theorem reads_iff : Reads before step after ↔ Leads (fun reader => reader.IsSound ∧ before reader.program) step
    fun value left => left.IsSound ∧ after value left.program :=
  ⟨fun reads reader value left start => reads reader value left start.1 start.2,
    fun leads reader value left sound holds => leads reader value left ⟨sound, holds⟩⟩

theorem Reader.MovesTo.isSound {reader left : Reader} (moved : reader.MovesTo left) (sound : reader.IsSound) :
    left.IsSound :=
  ⟨moved.program ▸ sound.ordered, by
    rw [moved.program, moved.scopes]
    exact sound.visible⟩

/-- A quiet step leaves everything as it is. -/
theorem Along.reads (quiet : Quiet step) : Reads before step fun _ => before := by
  intro reader value left sound holds run
  have moved := quiet.movesTo run
  exact ⟨moved.isSound sound, moved.program ▸ holds⟩

namespace Reads

theorem pure {value : α} (holds : ∀ program, before program → after value program) :
    Reads before (Pure.pure value) after :=
  reads_iff.mpr <| .pure fun reader start => ⟨start.1, holds reader.program start.2⟩

theorem throw (error : Error) : Reads before (MonadExcept.throw error : Reading α) after :=
  reads_iff.mpr <| .throw error

theorem bind (first : Reads before step after) (second : ∀ value, Reads (after value) (next value) later) :
    Reads before (step >>= next) later :=
  reads_iff.mpr <| (reads_iff.mp first).bind fun value => reads_iff.mp (second value)

/-- What is known already need not be read. -/
theorem given {value : α} (reads : Reads before (next value) later) :
    Reads before (Pure.pure value >>= next) later := by
  rwa [pure_bind]

theorem ite {condition : Prop} {_ : Decidable condition} {other : Reading α} (onTrue : Reads before step after)
    (onFalse : Reads before other after) : Reads before (if condition then step else other) after :=
  reads_iff.mpr <| .ite (reads_iff.mp onTrue) (reads_iff.mp onFalse)

theorem strengthen (reads : Reads between step after) (holds : ∀ program, before program → between program) :
    Reads before step after :=
  fun reader value left sound start => reads reader value left sound (holds _ start)

theorem weaken {weaker : α → Program → Prop} (reads : Reads before step after)
    (holds : ∀ value program, after value program → weaker value program) : Reads before step weaker :=
  reads_iff.mpr <| (reads_iff.mp reads).weaken fun value left ends => ⟨ends.1, holds value left.program ends.2⟩

/-- What has been read before stands in front of the rest of a list. -/
theorem commaList {state : List α → Program → Prop} {more : Reading Bool} (quiet : Quiet more)
    (each : ∀ read, Reads (state read) step fun value => state (read ++ [value])) :
    Reads (state []) (Reading.commaList more step) state :=
  reads_iff.mpr <| .commaList
    (fun _ => (reads_iff.mp quiet.reads).weaken fun _ _ holds => ⟨holds, fun _ => trivial⟩)
    (fun read => (reads_iff.mp (each read)).strengthen fun _ => And.left)
    fun _ => reads_iff.mp (Reading.quiet_accept _).reads

theorem mapM {state : List β → Program → Prop} {change : α → Reading β} (items : List α)
    (each : ∀ item read, Reads (state read) (change item) fun value => state (read ++ [value])) :
    Reads (state []) (items.mapM change) state := by
  have each := fun item read => reads_iff.mp (each item read)
  exact reads_iff.mpr (Leads.mapM items each)

theorem forIn {state : β → Program → Prop} {change : α → β → Reading (ForInStep β)} (items : List α)
    (each : ∀ item now, Reads (state now) (change item now) fun next program =>
      ∃ value, next = .yield value ∧ state value program) (start : β) :
    Reads (state start) (ForIn.forIn items start change) state := by
  refine reads_iff.mpr <| .forIn items (fun item now => (reads_iff.mp (each item now)).weaken ?_) start
  rintro _ _ ⟨sound, value, yields, holds⟩
  exact ⟨value, yields, sound, holds⟩

/-- Looking at the program that is being built. -/
theorem get : Reads before MonadState.get fun reader program =>
    reader.program.Ordered ∧ before reader.program ∧ before program := by
  rintro reader _ _ sound holds ⟨⟩
  exact ⟨sound, sound.ordered, holds, holds⟩

/-- Asking about the program that is being built. -/
theorem ask {answer : Type} (question : Program → answer) : Reads before (Reading.ask question)
    fun given program => question program = given ∧ before program := by
  rintro reader _ _ sound holds ⟨⟩
  exact ⟨sound, rfl, holds⟩

/-- A step of building. -/
theorem build {change : Program → α × Program} (changes : ∀ program, program.Ordered → before program →
      (change program).2.Ordered ∧ program.values.size ≤ (change program).2.values.size ∧
        after (change program).1 (change program).2) :
    Reads before (Reading.build change) after := by
  refine reads_iff.mpr <| .build fun reader ⟨sound, holds⟩ => ?_
  obtain ⟨ordered, size, ends⟩ := changes reader.program sound.ordered holds
  exact ⟨⟨ordered, fun scope inScope entry inEntry => (sound.visible scope inScope entry inEntry).trans_le size⟩,
    ends⟩

end Reads

/-- What follows a quiet step starts from the same. -/
theorem Along.andThen (quiet : Quiet step) (rest : ∀ value, Reads before (next value) later) :
    Reads before (step >>= next) later :=
  quiet.reads.bind rest

end Rules

/-! ### Names -/

section Names

variable {before : Program → Prop} {parts : List Part} {waiting mentioned : List ValueId}

open Reading

/-- Visible names stand for values that exist. -/
theorem Reader.IsSound.lt_of_lookup {reader : Reader} (sound : reader.IsSound) {name : String} {value : ValueId}
    (found : reader.scopes.findSome? (·.lookup name) = some value) :
    value.index < reader.program.values.size := by
  obtain ⟨scope, inScope, entry⟩ := List.exists_of_findSome?_eq_some found
  obtain ⟨front, back, rfl, -⟩ := List.lookup_eq_some_iff.mp entry
  exact sound.visible _ inScope (name, value) (List.mem_append_right front List.mem_cons_self)

theorem reads_operand : Reads (·.Stage parts waiting mentioned) operand fun value program =>
    program.Stage parts waiting (mentioned ++ [value]) := by
  refine (quiet_expect _).andThen fun token => ?_
  intro reader value left sound stage run
  obtain ⟨found, middle, ⟨⟩, run⟩ := run_bind_eq_ok run
  split at run
  case h_1 value found =>
    cases run
    refine ⟨sound, { stage with known value member := ?_ }⟩
    rcases List.mem_append.mp member with before | here
    · exact stage.known value before
    · rw [List.mem_singleton.mp here]
      exact sound.lt_of_lookup found
  case h_2 => cases run

theorem reads_operands : Reads (·.Stage parts waiting mentioned) operands fun values program =>
    program.Stage parts waiting (mentioned ++ values) := by
  have each (read : List ValueId) : Reads (·.Stage parts waiting (mentioned ++ read)) operand
      fun value program => program.Stage parts waiting (mentioned ++ (read ++ [value])) :=
    reads_operand.weaken fun value program stage => by rwa [List.append_assoc] at stage
  refine (Reads.commaList (along_check _) each).strengthen fun program stage => ?_
  rwa [List.append_nil]

/-- Nothing is defined that has no entry. -/
theorem reads_define (value : ValueId) : Reads before (define value) fun _ => before := by
  intro reader _ left sound holds run
  unfold define at run
  obtain ⟨_, _, ⟨⟩, run⟩ := run_bind_eq_ok run
  split at run
  case h_1 =>
    cases run
    exact ⟨sound, holds⟩
  case h_2 => cases run
  case h_3 name scope scopes named inside =>
    have adds : Reads before (set { reader with scopes := ((name, value) :: scope) :: scopes } : Reading PUnit)
        fun _ => before := by
      rintro _ _ _ _ - ⟨⟩
      refine ⟨⟨sound.ordered, fun other inScope entry inEntry => ?_⟩, holds⟩
      have visible := fun other within => sound.visible other (inside ▸ within)
      rcases List.mem_cons.mp inScope with rfl | outer
      · rcases List.mem_cons.mp inEntry with rfl | old
        · exact Program.lt_of_name named
        · exact visible scope List.mem_cons_self entry old
      · exact visible other (List.mem_cons_of_mem _ outer) entry inEntry
    exact Reads.ite ((along_failBefore _).andThen fun _ => adds) adds reader _ left sound holds run

theorem reads_openScope : Reads before openScope fun _ => before := by
  rintro reader _ _ sound holds ⟨⟩
  refine ⟨⟨sound.ordered, fun scope inScope entry inEntry => ?_⟩, holds⟩
  rcases List.mem_cons.mp inScope with rfl | outside
  · cases inEntry
  · exact sound.visible scope outside entry inEntry

theorem reads_closeScope : Reads before closeScope fun _ => before := by
  rintro reader _ _ sound holds ⟨⟩
  exact ⟨⟨sound.ordered, fun scope inScope => sound.visible scope (List.mem_of_mem_drop inScope)⟩, holds⟩

end Names

/-! ### Parts of the tree -/

section Parts

variable {parts : List Part} {waiting mentioned : List ValueId}

open Reading

theorem reads_blockArgument : Reads (·.Stage parts waiting mentioned) blockArgument fun value program =>
    program.Stage parts (waiting ++ [value]) mentioned := by
  refine (quiet_expect _).andThen fun name => (quiet_expect _).andThen fun _ => quiet_type.andThen fun type => ?_
  refine Reads.build fun program ordered stage => ⟨ordered.addValue ?_, ?_, stage.wait _ _⟩
  · simp
  · simp [Program.addValue]

theorem reads_blockArguments : Reads (·.Stage parts [] mentioned) blockArguments fun values program =>
    program.Stage parts values mentioned := by
  refine (quiet_expect _).andThen fun _ => ?_
  have each (read : List ValueId) : Reads (·.Stage parts read mentioned) blockArgument fun value program =>
      program.Stage parts (read ++ [value]) mentioned := reads_blockArgument
  refine (Reads.commaList ((along_check _).bind fun _ => .pure _) each).bind fun _ => ?_
  exact (quiet_expect _).andThen fun _ => .pure fun _ => id

/-- An operation whose operands have been mentioned, with its kind. -/
theorem reads_addOperation_kind {operation : Operation} (names : List String) (types : Option (List Ty))
    (other : operation.kind ≠ .func .func) (new : operation.results = [])
    (operands : ∀ operand ∈ operation.operands, operand ∈ mentioned) :
    Reads (·.Stage parts waiting mentioned) (addOperation operation names types) fun op program =>
      program.Stage (parts ++ [.op op]) waiting [] ∧ program.kind op = operation.kind := by
  -- the results wait for the operation, as arguments do for a block
  let stands (op : OpId) (results : List ValueId) (program : Program) : Prop :=
    program.Stage (parts ++ [.op op]) waiting [] ∧ program.kind op = operation.kind ∧
      program.Owns (.result op) results
  have allocates : Reads (·.Stage parts waiting mentioned) (build fun program => program.addOperation operation)
      fun op => stands op [] := by
    refine Reads.build fun program ordered stage => ⟨?_, le_rfl, (stage.addOperation _).forget, ?_, .nil⟩
    · refine ordered.addOperation (fun operand isOperand => stage.known operand (operands operand isOperand)) ?_
      rw [new]
      exact .nil
    · rw [Program.kind, Program.operation_addOperation]
      exact congrArg Operation.kind (if_pos rfl)
  have each (op : OpId) (name : String) (type : Option Ty) (results : List ValueId) :
      Reads (stands op results) (build fun program => program.addValue ⟨some name, type, .result op⟩)
        fun value => stands op (results ++ [value]) := by
    refine Reads.build ?_
    rintro program ordered ⟨stage, kind, owns⟩
    refine ⟨ordered.addValue ?_, by simp [Program.addValue], stage.addValue _, kind,
      Program.Owns.addValue ⟨some name, type, .result op⟩ owns⟩
    rintro _ ⟨⟩
    exact stage.has (.op op) (List.mem_append_right _ List.mem_cons_self)
  have settles (op : OpId) (results : List ValueId) : Reads (stands op results)
      (build fun program =>
        ((), program.modifyOperation op fun operation => { operation with results }))
      fun _ program => program.Stage (parts ++ [.op op]) waiting [] ∧ program.kind op = operation.kind := by
    refine Reads.build ?_
    rintro program ordered ⟨stage, kind, owns⟩
    refine ⟨ordered.setResults (kind ▸ other) owns, le_rfl, stage.modifyOperation _ _, ?_⟩
    rw [Program.kind, Program.operation_modifyOperation]
    split <;> exact kind
  have gives (op : OpId) : Reads
      (fun program => program.Stage (parts ++ [.op op]) waiting [] ∧ program.kind op = operation.kind)
      (Pure.pure op) fun op program => program.Stage (parts ++ [.op op]) waiting [] ∧
        program.kind op = operation.kind :=
    .pure fun _ => id
  have goesOn := allocates.bind fun op => (Reads.forIn names.zipIdx (fun item results =>
    (each op item.1 (types.bind fun types => types[item.2]?) results).bind fun _ =>
      .pure fun _ stage => ⟨_, rfl, stage⟩) []).bind fun results => (settles op results).bind fun _ => gives op
  cases types with
  | none => exact goesOn
  | some types => exact .ite ((Reads.throw _).bind fun _ => goesOn) goesOn

theorem reads_addOperation {operation : Operation} (names : List String) (types : Option (List Ty))
    (other : operation.kind ≠ .func .func) (new : operation.results = [])
    (operands : ∀ operand ∈ operation.operands, operand ∈ mentioned) :
    Reads (·.Stage parts waiting mentioned) (addOperation operation names types) fun op program =>
      program.Stage (parts ++ [.op op]) waiting [] :=
  (reads_addOperation_kind names types other new operands).weaken fun _ _ => And.left

theorem run_addBlock (label : Option String) (arguments : List ValueId) (reader : Reader) :
    (addBlock label arguments).run reader = .ok (⟨reader.program.headers.size⟩,
      { reader with program := reader.program.withArguments label arguments }) := by
  have claims (block : BlockId) (reader : Reader) :
      (ForIn.forIn arguments PUnit.unit fun argument _ => do
        build fun program => ((), program.modifyValue argument fun value =>
          { value with origin := .argument (some block) })
        return ForInStep.yield PUnit.unit : Reading PUnit).run reader =
          .ok (⟨⟩, { reader with program := reader.program.claim block arguments }) := by
    induction arguments generalizing reader with
    | nil => rfl
    | cons argument arguments ih =>
      rw [List.forIn_cons]
      exact ih _
  exact (Reading.run_bind_of_ok rfl).trans (Reading.run_bind_of_ok (claims _ _))

theorem reads_addBlock (label : Option String) : Reads (·.Stage parts waiting mentioned) (addBlock label waiting)
    fun block program => program.Stage (parts ++ [.block block]) [] [] := by
  intro reader _ _ sound stage run
  rw [run_addBlock] at run
  cases run
  refine ⟨⟨sound.ordered.withArguments label stage.waits, fun scope inScope entry inEntry => ?_⟩,
    (stage.withArguments label).forget⟩
  rw [Program.withArguments, Program.size_claim]
  exact sound.visible scope inScope entry inEntry

theorem reads_setResultTypes (op : OpId) (types : List Ty) :
    Reads (·.Stage parts waiting mentioned) (setResultTypes op types) fun _ program =>
      program.Stage parts waiting mentioned := by
  have each (value : ValueId) (type : Ty) : Reads (·.Stage parts waiting mentioned)
      (build fun program => ((), program.setType value type)) fun _ program =>
        program.Stage parts waiting mentioned :=
    Reads.build fun program ordered stage =>
      ⟨ordered.setType value type, by simp [Program.setType, Program.modifyValue], stage.setType value type⟩
  refine (along_ask _).andThen fun results => ?_
  have ends : Reads (·.Stage parts waiting mentioned) (Pure.pure ()) fun _ program =>
      program.Stage parts waiting mentioned :=
    .pure fun _ => id
  have goesOn := (Reads.forIn (results.zip types) (fun item _ => (each item.1 item.2).bind fun _ =>
    .pure fun _ stage => ⟨PUnit.unit, rfl, stage⟩) PUnit.unit).bind fun _ => ends
  exact .ite ((Reads.throw _).bind fun _ => goesOn) goesOn

end Parts

end TensorIR
