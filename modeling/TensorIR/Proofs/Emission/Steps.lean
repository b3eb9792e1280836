import TensorIR.Proofs.Emission.Scenes

/-!
# Steps of building and what they do when they are run

A step of building succeeds in a scene and leads to another scene, in which more is known. Steps one after the
other lead from scene to scene. A constant position is known from then on, and so is the result of an operation
whose run is known where its operands are.

## Main definitions

* `Scene.Emits` — a step of building leads to a scene with given contents of the buffers

## Main results

* `Scene.Emits.bind` — steps one after the other
* `Scene.emits_index` — a constant position
* `Scene.emits_value`, `Scene.emits_emit` — an operation with one result and one without
-/

namespace TensorIR

/-- A constant position has been built before, or it is built in front of everything else. -/
theorem Build.run_index {start : Draft} (position : Int) (placed : start.anchor ≠ start.program.root) :
    (∃ value, start.indices.lookup position = some value ∧ (Build.index position).run start = (.ok value, start)) ∨
      ∃ name namer, (Build.index position).run start = (.ok ⟨start.program.values.size⟩,
        Draft.withPosition { start with namer } position name) := by
  unfold Build.index
  rw [run_bind, run_get]
  dsimp only
  split
  case h_1 value known => exact .inl ⟨value, known, rfl⟩
  case h_2 =>
    have build (supply : Namer → String × Namer) : ∃ name namer, (Build.named supply >>= fun name => do
        let op ← Build.define (.arith .constant) [] [(name, .scalar .index)]
          (Build.constantAttributes (some (.int position)))
        Build.hoist op
        let id ← Build.askFor fun program => program.result op 0
        modify fun draft => { draft with indices := (position, id) :: draft.indices }
        return id : Build ValueId).run start =
          (.ok ⟨start.program.values.size⟩, Draft.withPosition { start with namer } position name) := by
      refine ⟨(supply start.namer).1, (supply start.namer).2, ?_⟩
      rw [run_bind, Build.run_named]
      exact Build.run_position position (supply start.namer).1 placed
    right
    split
    · exact build _
    · exact build _

theorem Draft.follows_withPosition (start : Draft) (position : Int) (name : String) :
    start.Follows (start.withPosition position name) where
  program := start.extends_withPosition position name
  anchor := by
    unfold Draft.withPosition
    split <;> rfl
  placement := by
    unfold Draft.withPosition
    split <;> rfl
  indices pair member := by
    rw [Draft.indices_withPosition]
    exact List.mem_cons_of_mem _ member
  fresh pair member below := by
    rw [Draft.indices_withPosition, List.mem_cons] at member
    rcases member with rfl | old
    · exact absurd below (lt_irrefl _)
    · exact old

namespace Draft.Tidy

variable {start : Draft}

theorem renamed (tidy : start.Tidy) (namer : Namer) : Draft.Tidy { start with namer } :=
  ⟨tidy.placed, tidy.lead, tidy.heads, tidy.indices, tidy.distinct⟩

theorem positioned (tidy : start.Tidy) : start.Positioned where
  heads op member := by
    obtain ⟨pair, -, isPosition⟩ := tidy.heads op member
    exact ⟨_, _, isPosition⟩
  indices position value member := tidy.indices (position, value) member
  lead := tidy.lead

/-- The new constant position stands in front among the others. -/
theorem mem_heads_withPosition (tidy : start.Tidy) (position : Int) (name : String) (op : OpId) :
    op ∈ (start.withPosition position name).constants.heads ↔
      op ∈ start.constants.heads ∨ op = ⟨start.program.operations.size⟩ := by
  obtain ⟨front, behind, before, after⟩ := tidy.positioned.exists_place position name
  rw [Draft.constants, Draft.constants, before, after]
  simp only [Body.heads_append, Body.heads, List.mem_append, List.mem_cons]
  tauto

/-- A new constant position has a value of its own. -/
theorem withPosition (tidy : start.Tidy) (position : Int) (name : String) :
    (start.withPosition position name).Tidy := by
  have follows := start.follows_withPosition position name
  have isPosition := start.isPosition_withPosition position name
  have heads := tidy.mem_heads_withPosition position name
  have indices := start.indices_withPosition position name
  have apart : ∀ pair ∈ start.indices, pair.2 ≠ ⟨start.program.values.size⟩ := by
    intro pair member same
    have lt := tidy.index_lt member
    rw [same] at lt
    exact lt_irrefl _ lt
  constructor
  case placed => rw [follows.anchor, follows.program.root]; exact tidy.placed
  case lead => exact (tidy.positioned.withPosition position name).lead
  case heads =>
    intro op member
    rcases (heads op).mp member with old | rfl
    · obtain ⟨pair, among, isPair⟩ := tidy.heads op old
      exact ⟨pair, follows.indices pair among, isPair.extend follows.program⟩
    · exact ⟨(position, _), indices ▸ List.mem_cons_self, isPosition⟩
  case indices =>
    intro pair member
    rw [indices, List.mem_cons] at member
    rcases member with rfl | old
    · exact ⟨_, (heads _).mpr (.inr rfl), isPosition⟩
    · obtain ⟨op, among, isPair⟩ := tidy.indices pair old
      exact ⟨op, (heads op).mpr (.inl among), isPair.extend follows.program⟩
  case distinct =>
    -- Only the new position has the value behind all others.
    intro first isFirst second isSecond same
    rw [indices, List.mem_cons] at isFirst isSecond
    rcases isFirst with rfl | isFirst <;> rcases isSecond with rfl | isSecond
    · rfl
    · exact absurd same.symm (apart second isSecond)
    · exact absurd same (apart first isFirst)
    · exact tidy.distinct first isFirst second isSecond same

end Draft.Tidy

/-- An operation that a run carries out at once. -/
def OpKind.isPlain : OpKind → Bool
  | .arith _ | .math _ | .memref _ | .tosa _ => true
  | _ => false

namespace OpKind

theorem isExit_of_isPlain {kind : OpKind} (plain : kind.isPlain = true) : kind.isExit = false := by
  cases kind <;> first | rfl | cases plain

theorem inner_of_isPlain {program : Program} {op : OpId} (plain : (program.kind op).isPlain = true) (call : Caller)
    (regions : Regions) : Run.inner program call op regions = Run.plainOp program op := by
  rw [Run.inner]
  cases isKind : program.kind op <;> rw [isKind] at plain <;> first | rfl | cases plain

end OpKind

namespace Scene

variable {α β σ : Type} {start now : Scene σ} {memory between : σ → Array Grid}

/-- The step succeeds in the scene and leads to another one, in which the contents of all buffers are given and
something holds about the answer. -/
def Emits (start : Scene σ) (step : Build α) (memory : σ → Array Grid) (post : α → Scene σ → Prop) : Prop :=
  ∃ value added now, step.run start.draft = (.ok value, now.draft) ∧ start.Leads added now ∧
    now.memory = memory ∧ post value now

namespace Emits

variable {step : Build α} {next : α → Build β} {post : β → Scene σ → Prop} {middle : α → Scene σ → Prop}

theorem pure {value : α} (holds : middle value start) : start.Emits (Pure.pure value) start.memory middle :=
  ⟨value, .nil, start, rfl, .refl start, rfl, holds⟩

theorem bind (first : start.Emits step between middle)
    (later : ∀ value now, start.Reaches id now → now.memory = between → middle value now →
      now.Emits (next value) memory post) : start.Emits (step >>= next) memory post := by
  obtain ⟨value, added, between, run, leads, memoryEq, holds⟩ := first
  obtain ⟨answer, more, now, runNext, leadsNext, memoryNext, holdsNext⟩ :=
    later value between leads.toReaches memoryEq holds
  refine ⟨answer, added.append more, now, ?_, leads.trans leadsNext, memoryNext, holdsNext⟩
  rw [run_bind, run]
  exact runNext

/-- Going on with an answer about the program. -/
theorem askFor_bind {question : Program → Except Error α} {answer : α}
    (found : question start.draft.program = .ok answer) (later : start.Emits (next answer) memory post) :
    start.Emits (Build.askFor question >>= next) memory post := by
  obtain ⟨value, added, now, run, holds⟩ := later
  refine ⟨value, added, now, ?_, holds⟩
  rw [run_bind, Build.run_askFor, found]
  exact run

theorem ask_bind {question : Program → α} (later : start.Emits (next (question start.draft.program)) memory post) :
    start.Emits (Build.ask question >>= next) memory post := by
  obtain ⟨value, added, now, run, holds⟩ := later
  refine ⟨value, added, now, ?_, holds⟩
  rw [run_bind, Build.run_ask]
  exact run

/-- Going on with an answer that has nothing to do with the draft. -/
theorem pure_bind {value : α} (later : start.Emits (next value) memory post) :
    start.Emits (Pure.pure value >>= next) memory post := later

theorem imp {weaker : β → Scene σ → Prop} {step : Build β} (emits : start.Emits step memory post)
    (imp : ∀ value now, start.Reaches id now → post value now → weaker value now) :
    start.Emits step memory weaker := by
  obtain ⟨value, added, now, run, leads, memoryEq, holds⟩ := emits
  exact ⟨value, added, now, run, leads, memoryEq, imp value now leads.toReaches holds⟩

theorem of_memory {step : Build β} (emits : start.Emits step between post) (same : between = memory) :
    start.Emits step memory post := same ▸ emits

end Emits

/-! ### What more is known -/

section Continued

variable {after : Draft} {value : ValueId} {slot : σ → Slot} {type : Ty}

/-- The scene in which the draft has been continued in another way: what was known is known, and so are the
constant positions that have been built. -/
def continued (start : Scene σ) (after : Draft) (memory : σ → Array Grid) (follows : start.draft.Follows after)
    (tidy : after.Tidy) : Scene σ where
  draft := after
  view s :=
    { slot? := fun value =>
        match after.indices.find? fun pair => pair.2 = value with
        | some pair => some (.scalar (.int (Number.asPosition pair.1)))
        | none => (start.view s).slot? value
      memory := memory s }
  tidy := tidy
  below s value slot known := by
    dsimp only at known
    split at known
    case h_1 pair found =>
      have same : pair.2 = value := by simpa using List.find?_some found
      exact same ▸ tidy.index_lt (List.mem_of_find?_eq_some found)
    case h_2 => exact (start.below s value slot known).trans_le follows.program.values_le
  positions s pair member := by
    dsimp only
    split
    case h_1 other found =>
      -- The pair that is found has the same value, which only one pair has.
      have same : other.2 = pair.2 := by simpa using List.find?_some found
      rw [tidy.distinct other (List.mem_of_find?_eq_some found) pair member same]
    case h_2 absent => exact absurd (decide_eq_true rfl) (List.find?_eq_none.mp absent pair member)

variable {follows : start.draft.Follows after} {tidy : after.Tidy}

theorem reaches_continued : start.Reaches id (start.continued after memory follows tidy) where
  follows := follows
  slots s value slot known := by
    change (match after.indices.find? fun pair => pair.2 = value with
      | some pair => some (Slot.scalar (.int (Number.asPosition pair.1)))
      | none => (start.view s).slot? value) = some slot
    split
    case h_1 pair found =>
      -- A constant position that was known before has been built before.
      obtain rfl : pair.2 = value := by simpa using List.find?_some found
      have old := follows.fresh pair (List.mem_of_find?_eq_some found) (start.below s _ slot known)
      exact (start.positions s pair old).symm.trans known
    case h_2 => exact known

theorem holds_continued {pair : Int × ValueId} (member : pair ∈ after.indices)
    (typed : after.program.typeOf? pair.2 = some type) :
    (start.continued after memory follows tidy).Holds pair.2 type
      fun _ => .scalar (.int (Number.asPosition pair.1)) where
  typed := typed
  known s := (start.continued after memory follows tidy).positions s pair member

/-- In a setting in which the draft is run, the further constant positions have been set from the beginning. -/
theorem fits_continued {setting : Setting} (hosts : setting.Hosts after) {s : σ} {machine : Machine}
    (serves : setting.Serves machine) (fits : machine.Fits ⟨(start.view s).slot?, memory s⟩) :
    machine.Fits ((start.continued after memory follows tidy).view s) where
  slot value slot known := by
    change (match after.indices.find? fun pair => pair.2 = value with
      | some pair => some (Slot.scalar (.int (Number.asPosition pair.1)))
      | none => (start.view s).slot? value) = some slot at known
    split at known
    case h_1 pair found =>
      obtain rfl : pair.2 = value := by simpa using List.find?_some found
      rw [← known]
      exact serves.position pair (hosts.indices pair (List.mem_of_find?_eq_some found))
    case h_2 => exact fits.slot value slot known
  memory := fits.memory

/-- The scene in which the data of a new value is known as well. -/
def withValue (start : Scene σ) (after : Draft) (value : ValueId) (slot : σ → Slot) (memory : σ → Array Grid)
    (follows : start.draft.Follows after) (tidy : after.Tidy) (indices : after.indices = start.draft.indices)
    (new : start.draft.program.values.size ≤ value.index) (below : value.index < after.program.values.size) :
    Scene σ where
  draft := after
  view s := ⟨fun other => if other = value then some (slot s) else (start.view s).slot? other, memory s⟩
  tidy := tidy
  below s other found known := by
    dsimp only at known
    split at known
    case isTrue same => rwa [same]
    case isFalse => exact (start.below s other found known).trans_le follows.program.values_le
  positions s pair member := by
    have old := indices ▸ member
    have lt := start.tidy.index_lt old
    dsimp only
    rw [if_neg (by rintro rfl; omega)]
    exact start.positions s pair old

variable {indices : after.indices = start.draft.indices} {new : start.draft.program.values.size ≤ value.index}
  {below : value.index < after.program.values.size}

theorem reaches_withValue :
    start.Reaches id (start.withValue after value slot memory follows tidy indices new below) where
  follows := follows
  slots s other found known := by
    have lt := start.below s other found known
    change (if other = value then some (slot s) else (start.view s).slot? other) = some found
    rw [if_neg (by rintro rfl; omega)]
    exact known

theorem holds_withValue (typed : after.program.typeOf? value = some type) :
    (start.withValue after value slot memory follows tidy indices new below).Holds value type slot where
  typed := typed
  known _ := if_pos rfl

/-- A machine that fits still fits when the new value has been written. -/
theorem fits_withValue {s : σ} {machine : Machine} {earlier : Array Grid}
    (fits : machine.Fits ⟨(start.view s).slot?, earlier⟩) (room : value.index < machine.frame.size) :
    Machine.Fits { frame := machine.frame.setIfInBounds value.index (some (slot s)), memory := memory s }
      ((start.withValue after value slot memory follows tidy indices new below).view s) where
  slot other found known := by
    change (if other = value then some (slot s) else (start.view s).slot? other) = some found at known
    split at known
    case isTrue same =>
      rw [same, getD_setIfInBounds_self _ room]
      exact known
    case isFalse different =>
      rw [getD_setIfInBounds_of_ne fun same => different (congrArg ValueId.mk same.symm)]
      exact fits.slot other found known
  memory := rfl

end Continued

/-- A constant position is known from then on. -/
theorem emits_index (start : Scene σ) (position : Int) :
    start.Emits (Build.index position) start.memory fun value now =>
      now.Holds value (.scalar .index) fun _ => .scalar (.int (Number.asPosition position)) := by
  rcases Build.run_index position start.tidy.placed with ⟨value, known, run⟩ | ⟨name, namer, run⟩
  · -- It has been built before, and nothing is added.
    have member := mem_of_lookup known
    obtain ⟨op, -, isPosition⟩ := start.tidy.indices _ member
    refine ⟨value, .nil, start, run, .refl start, rfl, ⟨?_, fun s => start.positions s _ member⟩⟩
    simpa using isPosition.types_eq
  · -- It is put in front of everything, so that nothing runs at the point where it is built.
    have tidy := (start.tidy.renamed namer).withPosition position name
    have isPosition := Draft.isPosition_withPosition { start.draft with namer } position name
    have renamed : start.draft.Follows { start.draft with namer } := .of_indices (.refl _) rfl rfl rfl
    have follows := renamed.trans (Draft.follows_withPosition _ position name)
    have member : (position, ⟨start.draft.program.values.size⟩) ∈
        (Draft.withPosition { start.draft with namer } position name).indices := by
      rw [Draft.indices_withPosition]
      exact List.mem_cons_self
    refine ⟨_, .nil, start.continued _ start.memory follows tidy, run, ⟨reaches_continued, ?_, ?_⟩, rfl,
      holds_continued member (by simpa using isPosition.types_eq)⟩
    · rw [Body.append_nil]
      exact Draft.code_withPosition ..
    · exact fun setting hosts s machine call serves fits =>
        ⟨machine, serves, fits_continued hosts serves fits, fun _ => rfl⟩

/-! ### Single operations -/

section Operations

variable {kind : OpKind} {operands : List ValueId} {attributes : Attributes} {types : List Ty} {type : Ty}
  {after : Draft} {slot : σ → Slot}

/-- The draft with one more operation is in order. -/
theorem tidy_of_adds (adds : start.draft.Adds kind operands attributes types after) : after.Tidy :=
  start.tidy.grow (adds.reached trivial : start.draft.program.Extends (fun _ => True) after.program) adds.anchor
    adds.hoisted adds.lead adds.indices
    adds.started

theorem follows_of_adds (adds : start.draft.Adds kind operands attributes types after) :
    start.draft.Follows after :=
  .of_indices (adds.reached trivial) adds.anchor adds.placement adds.indices

/-- What adds an operation with one result gives this result, whose data is what a run of the operation gives. -/
theorem emits_of_adds {step : Build ValueId} (plain : kind.isPlain = true)
    (built : ∀ draft : Draft, draft.anchor ≠ draft.program.root → ∃ after,
      step.run draft = (.ok ⟨draft.program.values.size⟩, after) ∧ draft.Adds kind operands attributes [type] after)
    (runs : ∀ program op value s machine, start.Meets s program machine →
      program.Defines op kind operands attributes [value] [type] →
        (Run.plainOp program op).run machine = .ok ([slot s], { machine with memory := memory s })) :
    start.Emits step memory fun value now => now.Holds value type slot := by
  obtain ⟨after, run, adds⟩ := built start.draft start.tidy.placed
  have defines := adds.defines
  have fresh : start.draft.program.freshValues [type].length = [⟨start.draft.program.values.size⟩] := rfl
  rw [fresh] at defines
  have below := defines.lt (List.mem_singleton_self _)
  refine ⟨_, .single ⟨start.draft.program.operations.size⟩ .nil, start.withValue after
    ⟨start.draft.program.values.size⟩ slot memory (follows_of_adds adds) (tidy_of_adds adds) adds.indices le_rfl
    below, run, ⟨reaches_withValue, adds.code, ?_⟩, rfl, holds_withValue (by simpa using defines.types_eq)⟩
  intro setting hosts s machine call serves fits
  have given := hosts.covers.defines defines
  have meets : start.Meets s setting.program machine :=
    ⟨(hosts.of_follows (follows_of_adds adds)).covers, fits⟩
  -- The result is written where no constant position and no value from before is.
  have room := (below.trans_le hosts.covers.values_le).trans_le serves.size_le
  refine ⟨_, serves.write (hosts.ne_of_new start.tidy adds.indices le_rfl below) (slot s) (memory s),
    fits_withValue fits room, fun rest => ?_⟩
  have isPlain : (setting.program.kind ⟨start.draft.program.operations.size⟩).isPlain = true :=
    given.kind_eq ▸ plain
  change ((Body.cons ⟨start.draft.program.operations.size⟩ .nil rest).run setting.program call).run machine = _
  rw [Body.run_cons call .nil rest (OpKind.isExit_of_isPlain isPlain), OpKind.inner_of_isPlain isPlain,
    Run.run_bind_of (runs _ _ _ _ _ meets given), given.results_eq]
  rfl

/-- A new operation with one result. -/
theorem emits_value (plain : kind.isPlain = true)
    (runs : ∀ program op value s machine, start.Meets s program machine →
      program.Defines op kind operands attributes [value] [type] →
        (Run.plainOp program op).run machine = .ok ([slot s], { machine with memory := memory s })) :
    start.Emits (Build.value kind operands type attributes) memory fun value now => now.Holds value type slot :=
  emits_of_adds plain (fun _ placed => adds_value kind operands type attributes placed) runs

/-- A new operation with one result whose run changes no buffer. -/
theorem emits_pure (plain : kind.isPlain = true)
    (runs : ∀ program op value s machine, start.Meets s program machine →
      program.Defines op kind operands attributes [value] [type] →
        (Run.plainOp program op).run machine = .ok ([slot s], machine)) :
    start.Emits (Build.value kind operands type attributes) start.memory fun value now =>
      now.Holds value type slot := by
  refine emits_value plain fun program op value s machine meets defines => ?_
  rw [runs program op value s machine meets defines, ← meets.memory]

/-- A new operation without results. -/
theorem emits_emit (plain : kind.isPlain = true)
    (runs : ∀ program op s machine, start.Meets s program machine → program.Defines op kind operands .empty [] [] →
      (Run.plainOp program op).run machine = .ok ([], { machine with memory := memory s })) :
    start.Emits (Build.emit kind operands) memory fun _ _ => True := by
  obtain ⟨after, run, adds⟩ := adds_create kind operands [] .empty start.tidy.placed
  have defines := adds.defines
  have follows := follows_of_adds adds
  let now : Scene σ :=
    { draft := after
      view := fun s => ⟨(start.view s).slot?, memory s⟩
      tidy := tidy_of_adds adds
      below := fun s value slot known => (start.below s value slot known).trans_le follows.program.values_le
      positions := fun s pair member => start.positions s pair (adds.indices ▸ member) }
  refine ⟨⟨⟩, .single ⟨start.draft.program.operations.size⟩ .nil, now, ?_, ⟨⟨follows, fun _ _ _ => id⟩, adds.code, ?_⟩,
    rfl, trivial⟩
  · rw [Build.emit, run_bind, run]
    rfl
  · intro setting hosts s machine call serves fits
    have given := hosts.covers.defines defines
    have meets : start.Meets s setting.program machine := ⟨(hosts.of_follows follows).covers, fits⟩
    refine ⟨{ machine with memory := memory s }, ⟨serves.size_le, serves.position⟩, ⟨fits.slot, rfl⟩,
      fun rest => ?_⟩
    have isPlain : (setting.program.kind ⟨start.draft.program.operations.size⟩).isPlain = true :=
      given.kind_eq ▸ plain
    change ((Body.cons ⟨start.draft.program.operations.size⟩ .nil rest).run setting.program call).run machine = _
    rw [Body.run_cons call .nil rest (OpKind.isExit_of_isPlain isPlain), OpKind.inner_of_isPlain isPlain,
      Run.run_bind_of (runs _ _ _ _ meets given), given.results_eq]
    rfl

end Operations

end Scene

end TensorIR
