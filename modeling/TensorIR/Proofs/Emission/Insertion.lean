import TensorIR.Proofs.Emission.Buffers
import TensorIR.Proofs.Emission.Wholes

/-!
# Running what has been put in front of an operation

What is built for a tensor operation is put in front of it: first the constant positions, then everything else. A
run sets the constant positions and goes on as the scenes say. In the end a value is known to carry the result, and
what was there before is unchanged.

## Main definitions

* `Target.Carries` — a value carries an array, as a tensor or as a buffer
* `Program.ComputesBy`, `Program.Computes` — what is built for an operation computes an array
* `Program.opening` — the scene in which building begins

## Main results

* `Program.computesBy_of_emits` — a step of building that leads to a result computes it
-/

namespace TensorIR

/-! ### Constant positions -/

/-- The value of a constant position is set. -/
def Machine.HasPosition (machine : Machine) (pair : Int × ValueId) : Prop :=
  machine.frame.getD pair.2.index none = some (.scalar (.int (Number.asPosition pair.1)))

/-- Values of constant positions have been set, and nothing else has changed. -/
structure Machine.Positioned (indices : List (Int × ValueId)) (machine final : Machine) : Prop where
  memory : final.memory = machine.memory
  size_eq : final.frame.size = machine.frame.size
  others : ∀ value : ValueId, (∀ pair ∈ indices, pair.2 ≠ value) →
    final.frame.getD value.index none = machine.frame.getD value.index none
  kept : ∀ pair ∈ indices, machine.HasPosition pair → final.HasPosition pair

namespace Machine.Positioned

variable {indices : List (Int × ValueId)} {machine middle final : Machine}

theorem refl (machine : Machine) : machine.Positioned indices machine :=
  ⟨rfl, rfl, fun _ _ => rfl, fun _ _ => id⟩

theorem trans (first : machine.Positioned indices middle) (second : middle.Positioned indices final) :
    machine.Positioned indices final where
  memory := second.memory.trans first.memory
  size_eq := second.size_eq.trans first.size_eq
  others value other := (second.others value other).trans (first.others value other)
  kept pair member set := second.kept pair member (first.kept pair member set)

theorem set (distinct : ∀ first ∈ indices, ∀ second ∈ indices, first.2 = second.2 → first = second)
    {pair : Int × ValueId} (member : pair ∈ indices) (room : pair.2.index < machine.frame.size) :
    let final : Machine := { machine with
      frame := machine.frame.setIfInBounds pair.2.index (some (.scalar (.int (Number.asPosition pair.1)))) }
    machine.Positioned indices final ∧ final.HasPosition pair := by
  refine ⟨⟨rfl, Array.size_setIfInBounds, fun value other => ?_, fun second isSecond set => ?_⟩, ?_⟩
  · exact getD_setIfInBounds_of_ne fun same => other pair member (congrArg ValueId.mk same)
  · by_cases same : pair.2 = second.2
    · obtain rfl := distinct pair member second isSecond same
      exact getD_setIfInBounds_self _ room
    · refine Eq.trans (getD_setIfInBounds_of_ne fun equal => same (congrArg ValueId.mk equal)) set
  · exact getD_setIfInBounds_self _ room

end Machine.Positioned

/-- Constant positions are set one after the other. -/
theorem Body.run_positions {program : Program} {indices : List (Int × ValueId)}
    (distinct : ∀ first ∈ indices, ∀ second ∈ indices, first.2 = second.2 → first = second) (call : Caller) :
    (constants : Body) →
    (∀ op ∈ constants.heads, ∃ pair ∈ indices, program.IsPosition op pair.1 pair.2) →
    ∀ machine : Machine, program.values.size ≤ machine.frame.size →
      ∃ final, machine.Positioned indices final ∧
        (∀ pair ∈ indices, (∃ op ∈ constants.heads, program.IsPosition op pair.1 pair.2) → final.HasPosition pair) ∧
        ∀ rest, ((constants.append rest).run program call).run machine = (rest.run program call).run final
  | .nil, _, machine, _ => by
    refine ⟨machine, .refl machine, ?_, fun _ => rfl⟩
    rintro pair - ⟨op, member, -⟩
    cases member
  | .cons op regions rest, positions, machine, room => by
    obtain ⟨pair, among, isPosition⟩ := positions op List.mem_cons_self
    have below := (isPosition.lt (List.mem_singleton_self _)).trans_le room
    obtain ⟨positioned, isSet⟩ := Machine.Positioned.set distinct among below
    obtain ⟨final, later, reached, run⟩ := Body.run_positions distinct call rest
      (fun op member => positions op (List.mem_cons_of_mem _ member)) _ (room.trans_eq positioned.size_eq.symm)
    refine ⟨final, positioned.trans later, ?_, fun further => ?_⟩
    · rintro other isOther ⟨id, member, isToo⟩
      rcases List.mem_cons.mp member with rfl | member
      · have same : [other.2] = [pair.2] := isToo.results_eq.symm.trans isPosition.results_eq
        obtain rfl := distinct other isOther pair among (List.singleton_inj.mp same)
        exact later.kept other isOther isSet
      · exact reached other isOther ⟨id, member, isToo⟩
    · have plain : (program.kind op).isPlain = true := by
        rw [isPosition.kind_eq]
        rfl
      change ((Body.cons op regions (rest.append further)).run program call).run machine = _
      rw [Body.run_cons call regions _ (OpKind.isExit_of_isPlain plain), OpKind.inner_of_isPlain plain,
        Run.run_bind_of isPosition.run_plainOp, isPosition.results_eq]
      exact run further

/-! ### Where building begins -/

section Opening

variable {now : Program} {op : OpId} {placed : op ≠ now.root} {given : Machine → Prop}

/-- The scene in which building in front of an operation begins. A run finds the values and buffers of one of the
given machines. -/
def Program.opening (now : Program) (op : OpId) (placed : op ≠ now.root) (given : Machine → Prop) :
    Scene { machine // given machine } where
  draft := now.draft op .before
  view s :=
    { slot? := fun value => if value.index < now.values.size then s.1.frame.getD value.index none else none
      memory := s.1.memory }
  tidy := tidy_draft .before placed
  below s value slot known := by
    dsimp only at known
    split at known
    case isTrue below => exact below
    case isFalse => cases known
  positions s pair member := by cases member

theorem Program.holds_opening {value : ValueId} {type : Ty} {slot : { machine // given machine } → Slot}
    (typed : now.typeOf? value = some type)
    (known : ∀ s, s.1.frame.getD value.index none = some (slot s)) :
    (now.opening op placed given).Holds value type slot where
  typed := typed
  known s := (if_pos (Program.lt_of_typeOf? typed)).trans (known s)

/-- The values of a program that are set stay as they are, and so do the buffers. -/
structure Machine.Remains (now : Program) (machine final : Machine) : Prop where
  slot : ∀ value : ValueId, value.index < now.values.size → ∀ slot,
    machine.frame.getD value.index none = some slot → final.frame.getD value.index none = some slot
  memory : ∀ (place : Nat) (grid : Grid), machine.memory[place]? = some grid → final.memory[place]? = some grid

/-- A step of building that leads from the opening scene to another one puts operations in front of the anchor that
do what the scenes say. -/
theorem Program.run_of_emits {α : Type} {step : Build α} {memory : { machine // given machine } → Array Grid}
    {post : α → Scene { machine // given machine } → Prop}
    (emits : (now.opening op placed given).Emits step memory post) :
    ∃ (answer : α) (emitted : Body) (after : Program) (last : Scene { machine // given machine }),
      (Change.build op step).run now = (.ok answer, after) ∧
      after.regions = now.regions.alterAt op (fun regions rest => emitted.append (.cons op regions rest)) ∧
      (∀ value, after.typeOf? value = last.draft.program.typeOf? value) ∧
      post answer last ∧ ∀ (s : { machine // given machine }) call, after.values.size ≤ s.1.frame.size →
        ∃ final, (emitted.run after call).run s.1 = .ok ([], final) ∧ final.Fits ⟨(last.view s).slot?, memory s⟩ ∧
          ∀ value : ValueId, value.index < now.values.size → ∀ slot,
            s.1.frame.getD value.index none = some slot → final.frame.getD value.index none = some slot := by
  obtain ⟨answer, added, last, run, leads, rfl, holds⟩ := emits
  have code : last.draft.code = added := leads.code
  have placement : last.draft.placement = .before := leads.follows.placement
  have anchor : last.draft.anchor = op := leads.follows.anchor
  let constants := last.draft.constants
  have finished : last.draft.finished = last.draft.program.alterAt op
      fun regions rest => (constants.append added).append (.cons op regions rest) := by
    rw [Draft.finished_eq, anchor]
    congr 1
    funext regions rest
    rw [Draft.change, placement, anchor, code]
    exact (Body.append_assoc constants added _).symm
  refine ⟨answer, constants.append added, last.draft.finished, last, ?_, ?_, fun value => ?_, holds,
    fun s call room => ?_⟩
  · have run' : step.run (now.draft op .before) = (.ok answer, last.draft) := run
    rw [Change.run_build, run']
  · rw [finished]
    change last.draft.program.regions.alterAt op _ = _
    rw [leads.follows.program.regions]
    rfl
  · rw [finished]
    rfl
  · let setting : Setting := ⟨last.draft.finished, last.draft.indices⟩
    have hosts : setting.Hosts last.draft :=
      ⟨⟨le_rfl, fun _ _ => rfl, le_rfl, fun _ _ => rfl, fun _ _ => rfl⟩, fun _ => id, fun _ member _ => member⟩
    -- First the constant positions are set, and from there on everything runs as it was built.
    obtain ⟨middle, positioned, isSet, runConstants⟩ := Body.run_positions last.tidy.distinct call constants
      (fun op member => by
        obtain ⟨pair, among, isPosition⟩ := last.tidy.heads op member
        exact ⟨pair, among, hosts.covers.defines isPosition⟩) s.1 room
    have serves : setting.Serves middle := by
      refine ⟨room.trans_eq positioned.size_eq.symm, fun pair member => ?_⟩
      obtain ⟨op, among, isPosition⟩ := last.tidy.indices pair member
      exact isSet pair member ⟨op, among, hosts.covers.defines isPosition⟩
    have fits : middle.Fits ((now.opening op placed given).view s) := by
      refine ⟨fun value slot known => ?_, positioned.memory⟩
      have below := (now.opening op placed given).below s value slot known
      rw [positioned.others value fun pair member same => ?_]
      · exact (if_pos below).symm.trans known
      · -- All constant positions are new.
        cases leads.follows.fresh pair member (same ▸ below)
    obtain ⟨final, -, fitsFinal, runAdded⟩ := leads.runs setting hosts s middle call serves fits
    refine ⟨final, ?_, fitsFinal, fun value below slot set => ?_⟩
    · rw [runConstants, ← Body.append_nil added, runAdded]
      rfl
    · exact fitsFinal.slot value slot (leads.slots s value slot ((if_pos below).trans set))

end Opening

/-! ### What is computed for an operation -/

/-- A value carries an array: it is the array among operations on whole tensors, and among loops it is a buffer that
holds the array. -/
def Target.Carries (target : Target) (machine : Machine) (value : ValueId) (grid : Grid) : Prop :=
  match target with
  | .loops => ∃ place, machine.frame.getD value.index none = some (.buffer place) ∧ machine.memory[place]? = some grid
  | .tosa => machine.frame.getD value.index none = some (.tensor grid)

/-- What is built in the place of a tensor operation. -/
def Target.tensorOp (target : Target) (op : OpId) (table : QuantTable) (kind : TorchKind) :
    Build (ValueId × Option QuantParams) :=
  match target with
  | .loops => Loops.tensorOp op table kind
  | .tosa => Tosa.tensorOp op table kind

/-- The first operands of an operation carry arrays. -/
def Program.Feeds (now : Program) (target : Target) (op : OpId) (inputs : List Grid) (machine : Machine) : Prop :=
  ∀ pair ∈ (now.operands op).zip inputs, target.Carries machine pair.1 pair.2

/-- What a step builds for an operation computes an array: building succeeds and puts operations in front of the
operation. In a machine in which the first operands carry the given arrays, running them ends with the result in the
value that has been built. Values and buffers from before stay as they are. -/
def Program.ComputesBy (now : Program) (target : Target) (op : OpId) (step : Build (ValueId × Option QuantParams))
    (inputs : List Grid) (params : Option QuantParams) (result : Grid) : Prop :=
  ∃ (value : ValueId) (emitted : Body) (after : Program),
    (Change.build op step).run now = (.ok (value, params), after) ∧
    after.regions = now.regions.alterAt op (fun regions rest => emitted.append (.cons op regions rest)) ∧
    after.typeOf? value = some (target.ofShape result.shape result.element) ∧
    ∀ machine call, now.Feeds target op inputs machine → after.values.size ≤ machine.frame.size →
      ∃ final, (emitted.run after call).run machine = .ok ([], final) ∧ target.Carries final value result ∧
        machine.Remains now final

/-- What is built for a tensor operation computes an array that stands for itself, whatever parameters are known. -/
def Program.Computes (now : Program) (target : Target) (op : OpId) (kind : TorchKind) (inputs : List Grid)
    (result : Grid) : Prop :=
  ∀ table, now.ComputesBy target op (target.tensorOp op table kind) inputs none result

namespace Program

variable {now : Program} {op : OpId} (placed : op ≠ now.root) {kind : TorchKind} {inputs : List Grid} {result : Grid}
  {step : Build (ValueId × Option QuantParams)} {plain : Build ValueId} {params : Option QuantParams}

/-- What is built in front of an operation is computed for it if it carries the result in the end. -/
theorem computesBy_of_emits {target : Target}
    {memory : { machine // now.Feeds target op inputs machine } → Array Grid}
    {post : ValueId × Option QuantParams → Scene { machine // now.Feeds target op inputs machine } → Prop}
    (emits : (now.opening op placed (now.Feeds target op inputs)).Emits step memory post)
    (gives : ∀ answer last, post answer last → answer.2 = params ∧
      last.draft.program.typeOf? answer.1 = some (target.ofShape result.shape result.element))
    (carries : ∀ answer last s final, post answer last → Machine.Fits final ⟨(last.view s).slot?, memory s⟩ →
      target.Carries final answer.1 result)
    (kept : ∀ s (place : Nat) grid, s.1.memory[place]? = some grid → (memory s)[place]? = some grid) :
    now.ComputesBy target op step inputs params result := by
  obtain ⟨answer, emitted, after, last, run, regions, types, holds, runs⟩ := run_of_emits emits
  obtain ⟨rfl, typed⟩ := gives answer last holds
  refine ⟨answer.1, emitted, after, run, regions, (types answer.1).trans typed, fun machine call feeds room => ?_⟩
  obtain ⟨final, runFinal, fits, slots⟩ := runs ⟨machine, feeds⟩ call room
  refine ⟨final, runFinal, carries answer last _ final holds fits, slots, fun place grid found => ?_⟩
  rw [fits.memory]
  exact kept ⟨machine, feeds⟩ place grid found

/-- A tensor that is built in front of an operation is what is computed for it. -/
theorem computesBy_of_emits_tensor
    (emits : (now.opening op placed (now.Feeds .tosa op inputs)).Emits step
      (now.opening op placed (now.Feeds .tosa op inputs)).memory fun answer last =>
        answer.2 = params ∧ last.HoldsTensor answer.1 result.shape result.element fun _ => result) :
    now.ComputesBy .tosa op step inputs params result :=
  computesBy_of_emits placed emits (fun _ _ holds => ⟨holds.1, holds.2.typed⟩)
    (fun answer _ s _ holds fits => fits.slot answer.1 _ (holds.2.known s)) fun _ _ _ => id

/-- A new buffer that is built and filled in front of an operation is what is computed for it. -/
theorem computesBy_of_emits_buffer
    (emits : (now.opening op placed (now.Feeds .loops op inputs)).Emits step
      (fun s => s.1.memory.push result) fun answer last => answer.2 = params ∧
        last.HoldsBuffer answer.1 result.shape result.element fun s => s.1.memory.size) :
    now.ComputesBy .loops op step inputs params result := by
  refine computesBy_of_emits placed emits (fun _ _ holds => ⟨holds.1, holds.2.typed⟩)
    (fun answer _ s _ holds fits => ⟨_, fits.slot answer.1 _ (holds.2.known s), ?_⟩) fun s place grid found => ?_
  · rw [fits.memory, Array.getElem?_push_size]
  · rw [Array.getElem?_push_lt (Array.getElem?_eq_some_iff.mp found).1]
    exact (Array.getElem?_eq_getElem _).symm.trans found

theorem computes_of_emits_tensor (isStep : ∀ table, Tosa.tensorOp op table kind = do return (← plain, none))
    (emits : (now.opening op placed (now.Feeds .tosa op inputs)).Emits plain
      (now.opening op placed (now.Feeds .tosa op inputs)).memory fun value last =>
        last.HoldsTensor value result.shape result.element fun _ => result) :
    now.Computes .tosa op kind inputs result := by
  intro table
  rw [Target.tensorOp, isStep]
  exact computesBy_of_emits_tensor placed (emits.bind fun value last _ memory holds =>
    (Scene.Emits.pure ⟨rfl, holds⟩).of_memory memory)

theorem computes_of_emits_buffer (isStep : ∀ table, Loops.tensorOp op table kind = do return (← plain, none))
    (emits : (now.opening op placed (now.Feeds .loops op inputs)).Emits plain
      (fun s => s.1.memory.push result) fun value last =>
        last.HoldsBuffer value result.shape result.element fun s => s.1.memory.size) :
    now.Computes .loops op kind inputs result := by
  intro table
  rw [Target.tensorOp, isStep]
  exact computesBy_of_emits_buffer placed (emits.bind fun value last _ memory holds =>
    (Scene.Emits.pure ⟨rfl, holds⟩).of_memory memory)

end Program

end TensorIR
