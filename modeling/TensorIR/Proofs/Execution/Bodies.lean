import TensorIR.Proofs.Execution.Simulation
import TensorIR.Proofs.Scalar.Calling

/-!
# Runs of programs that differ at one operation

A program is changed at one operation. Where a run of it comes to another operation or to a block, the
changed program does the same with the values that stand for those of the first program. If this is so
at the operation itself as well, every run of a function that succeeds is followed by a run of the
changed program with the same outcome.

## Main definitions

* `Body.entered` — what a run can come to
* `Tracking.Repeats` — what a part of the tree does is done in the changed program
* `Program.Refines` — every call that succeeds has the same outcome in the second program

## Main results

* `Body.simulates` — a block in which one operation has been changed
* `Program.FollowsFunctions.refines` — a program in which the bodies of all functions are followed
-/

namespace TensorIR

/-! ### What a run can come to -/

mutual

/-- The operations and blocks that a run can come to. Of a region only the entry block is run. -/
def Body.entered : Body → List Part
  | .nil => []
  | .cons op regions rest => .op op :: (Regions.entered regions ++ Body.entered rest)

/-- The entry block of a region, and what a run can come to in it. -/
def Blocks.entered : Blocks → List Part
  | .nil => []
  | .cons block body _ => .block block :: Body.entered body

/-- What a run can come to in regions. -/
def Regions.entered : Regions → List Part
  | .nil => []
  | .cons blocks rest => Blocks.entered blocks ++ Regions.entered rest

end

mutual

theorem Body.entered_sublist : (body : Body) → body.entered.Sublist body.parts
  | .nil => .slnil
  | .cons op regions rest => by
    rw [Body.entered, Body.parts]
    exact (regions.entered_sublist.append rest.entered_sublist).cons_cons _

theorem Blocks.entered_sublist : (blocks : Blocks) → blocks.entered.Sublist blocks.parts
  | .nil => .slnil
  | .cons block body rest => by
    rw [Blocks.entered, Blocks.parts]
    exact (body.entered_sublist.trans (List.sublist_append_left _ _)).cons_cons _

theorem Regions.entered_sublist : (regions : Regions) → regions.entered.Sublist regions.parts
  | .nil => .slnil
  | .cons blocks rest => by
    rw [Regions.entered, Regions.parts]
    exact blocks.entered_sublist.append rest.entered_sublist

end

/-! ### Operations that no run gets past -/

/-- No run gets past an operation of the kind. -/
def OpKind.isStuck : OpKind → Bool
  | .torch _ | .module | .func .func => true
  | _ => false

section Stuck

variable {program : Program} {op : OpId} {machine after : Machine}

theorem Run.convertOp_ne_ok {type : ScalarType} {slot : Slot}
    (stuck : (program.kind op).isStuck = true) :
    (Run.convertOp program op type).run machine ≠ .ok (slot, after) := by
  intro run
  obtain ⟨value, middle, -, run⟩ := Run.run_bind_eq_ok run
  obtain ⟨source, last, -, run⟩ := Run.run_bind_eq_ok run
  obtain ⟨scalar, final, -, run⟩ := Run.run_bind_eq_ok run
  cases kind : program.kind op with
  | torch | module => rw [kind] at run; cases run
  | func => rw [kind] at run; cases run
  | _ => rw [kind] at stuck; cases stuck

theorem Run.plainOp_ne_ok {slots : List Slot} (stuck : (program.kind op).isStuck = true) :
    (Run.plainOp program op).run machine ≠ .ok (slots, after) := by
  have converts {slot : Slot} {start final : Machine} :
      (Run.scalarOp program op).run start ≠ .ok (slot, final) := by
    intro run
    obtain ⟨result, middle, -, run⟩ := Run.run_bind_eq_ok run
    obtain ⟨type, last, -, run⟩ := Run.run_bind_eq_ok run
    cases kind : program.kind op with
    | torch | module | func =>
      rw [kind] at run
      exact Run.convertOp_ne_ok stuck run
    | _ => rw [kind] at stuck; cases stuck
  intro run
  unfold Run.plainOp at run
  cases kind : program.kind op with
  | torch | module | func =>
    rw [kind] at run
    obtain ⟨slot, middle, run, -⟩ := Run.run_bind_eq_ok run
    exact converts run
  | _ => rw [kind] at stuck; cases stuck

theorem Body.run_ne_ok {call : Caller} {regions : Regions} {rest : Body} {slots : List Slot}
    (stuck : (program.kind op).isStuck = true) :
    ((Body.cons op regions rest).run program call).run machine ≠ .ok (slots, after) := by
  intro run
  rw [Body.run] at run
  cases kind : program.kind op with
  | torch | module =>
    rw [kind] at run
    obtain ⟨slots, middle, run, -⟩ := Run.run_bind_eq_ok run
    exact Run.plainOp_ne_ok stuck run
  | func name =>
    cases name with
    | func =>
      rw [kind] at run
      obtain ⟨slots, middle, run, -⟩ := Run.run_bind_eq_ok run
      exact Run.plainOp_ne_ok stuck run
    | _ => rw [kind] at stuck; cases stuck
  | _ => rw [kind] at stuck; cases stuck

end Stuck

/-! ### Blocks -/

/-- Whenever an operation has been run, what may be known about its results is so. -/
def Program.Tells (program : Program) (known : ValueId → Slot → Prop) (op : OpId) : Prop :=
  ∀ call regions machine slots after,
    (∀ value slot, machine.frame.getD value.index none = some slot → known value slot) →
    (Run.inner program call op regions).run machine = .ok (slots, after) →
      ∀ pair ∈ (program.results op).zip slots, known pair.1 pair.2

/-- What a part of the tree does in a run is done in the second program as well. -/
def Tracking.Repeats (tracking : Tracking) (program other : Program) : Part → Prop
  | .op op => (program.kind op).isStuck = false → program.Copies tracking other op ∧
    (∀ result ∈ program.results op, tracking.Assigns result) ∧ program.Tells tracking.known op
  | .block block => (other.header block).arguments = (program.header block).arguments ∧
    ∀ argument ∈ (program.header block).arguments,
      tracking.Assigns argument ∧ ∀ slot, tracking.known argument slot

section Blocks

variable {tracking : Tracking} {program other : Program} {call otherCall : Caller} {links : Links}

/-- The arguments of a block are set. -/
theorem simulates_enter {block : BlockId} {arguments others : List Slot}
    (repeats : tracking.Repeats program other (.block block)) (same : Slots links arguments others) :
    Simulates tracking links (fun _ _ _ => True) (Run.enter program block arguments)
      (Run.enter other block others) := by
  obtain ⟨arguments_eq, assigned⟩ := repeats
  have writes : Simulates tracking links (fun _ _ _ => True)
      (Run.writeEach (program.header block).arguments arguments)
      (Run.writeEach (program.header block).arguments others) :=
    simulates_writeEach (fun argument among => (assigned argument among).1)
      (fun pair member => (assigned pair.1 (List.of_mem_zip member).1).2 _) same
  unfold Run.enter
  rw [arguments_eq, ← same.length_eq]
  dsimp only
  split
  · exact simulates_throw _ _
  · exact writes

/-- A step that is followed however buffers correspond. -/
def Tracking.Follows (tracking : Tracking) (step other : Run (List Slot)) : Prop :=
  ∀ links, Simulates tracking links Slots step other

theorem Tracking.follows_of_ne_ok {step other : Run (List Slot)}
    (fails : ∀ machine answer, step.run machine ≠ .ok answer) : tracking.Follows step other :=
  fun _ machine _ value after _ run => absurd run (fails machine (value, after))

/-- A block goes on after one of its operations. -/
theorem Tracking.Repeats.follows_cons {op : OpId} {regions otherRegions : Regions}
    {rest otherRest : Body} (repeats : tracking.Repeats program other (.op op))
    (calls : call.Corresponds otherCall)
    (inside : ∀ links index skipped arguments others, Slots links arguments others →
      Simulates tracking links Slots (regions.run program call op index skipped arguments)
        (otherRegions.run other otherCall op index skipped others))
    (later : tracking.Follows (rest.run program call) (otherRest.run other otherCall)) :
    tracking.Follows ((Body.cons op regions rest).run program call)
      ((Body.cons op otherRegions otherRest).run other otherCall) := by
  cases stuck : (program.kind op).isStuck with
  | true => exact Tracking.follows_of_ne_ok fun _ _ => Body.run_ne_ok stuck
  | false =>
    obtain ⟨copies, assigns, tells⟩ := repeats stuck
    intro links
    cases isExit : (program.kind op).isExit with
    | true =>
      have lowered : (program.kind op).isTorch = false := by
        cases kind : program.kind op with
        | torch => rw [kind] at stuck; cases stuck
        | _ => rfl
      rw [Body.run_exit call _ _ isExit lowered, Body.run_exit otherCall _ _
        (copies.kind_eq ▸ isExit) (copies.kind_eq ▸ lowered)]
      exact simulates_exit copies
    | false =>
      rw [Body.run_cons call _ _ isExit, Body.run_cons otherCall _ _ (copies.kind_eq ▸ isExit),
        copies.results_eq]
      intro machine image value after holds run
      obtain ⟨slots, middle, ran, run⟩ := Run.run_bind_eq_ok run
      have told := tells call regions machine slots middle holds.known ran
      obtain ⟨more, others, imageMiddle, widens, otherRan, between, same⟩ :=
        simulates_inner copies calls
          (fun more index skipped arguments others _ => inside more index skipped arguments others)
          machine image slots middle holds ran
      obtain ⟨most, final, imageAfter, wider, otherRun, finally', answer⟩ :=
        (simulates_writeEach assigns told same).bind (fun most _ _ _ _ => later most)
          middle imageMiddle value after between run
      exact ⟨most, final, imageAfter, widens.trans wider, (Run.run_bind_of otherRan).trans otherRun,
        finally', answer⟩

variable {op : OpId} {change : Regions → Body → Body}

/-- What follows the operation goes on in the same way, if what is put in its place does. -/
def Tracking.FollowsAt (tracking : Tracking) (program other : Program) (call otherCall : Caller)
    (op : OpId) (change : Regions → Body → Body) : Prop :=
  ∀ regions rest, tracking.Follows (rest.run program call) (rest.run other otherCall) →
    tracking.Follows ((Body.cons op regions rest).run program call)
      ((change regions rest).run other otherCall)

mutual

/-- A block in which one operation has been changed. -/
theorem Body.simulates (calls : call.Corresponds otherCall) : (body : Body) → body.ops.Nodup →
    (∀ part ∈ body.entered, part ≠ .op op → tracking.Repeats program other part) →
    (.op op ∈ body.entered → tracking.FollowsAt program other call otherCall op change) →
    tracking.Follows (body.run program call) ((body.alterAt op change).run other otherCall)
  | .nil, _, _, _ => fun _ => simulates_pure .nil
  | .cons head regions rest, nodup, repeats, followsAt => by
    rw [Body.ops] at nodup
    rw [Body.entered] at repeats followsAt
    obtain ⟨absent, apart⟩ := List.nodup_cons.mp nodup
    have later := Body.simulates calls rest (List.nodup_append.mp apart).2.1
      (fun part member => repeats part (List.mem_cons_of_mem _ (List.mem_append_right _ member)))
      (fun member => followsAt (List.mem_cons_of_mem _ (List.mem_append_right _ member)))
    rw [Body.alterAt]
    split
    case isTrue same =>
      subst same
      rw [rest.alterAt_of_notMem fun member => absent (List.mem_append_right _ member)] at later
      exact followsAt List.mem_cons_self regions rest later
    case isFalse other =>
      refine (repeats (.op head) List.mem_cons_self fun same => other (Part.op.inj same)).follows_cons
        calls ?_ later
      exact Regions.simulates calls regions (List.nodup_append.mp apart).1
        (fun part member => repeats part (List.mem_cons_of_mem _ (List.mem_append_left _ member)))
        (fun member => followsAt (List.mem_cons_of_mem _ (List.mem_append_left _ member))) head

theorem Blocks.simulates (calls : call.Corresponds otherCall) : (blocks : Blocks) →
    blocks.ops.Nodup →
    (∀ part ∈ blocks.entered, part ≠ .op op → tracking.Repeats program other part) →
    (.op op ∈ blocks.entered → tracking.FollowsAt program other call otherCall op change) →
    ∀ around links index arguments others, Slots links arguments others →
      Simulates tracking links Slots (blocks.run program call around index arguments)
        ((blocks.alterAt op change).run other otherCall around index others)
  | .nil, _, _, _ => fun _ _ _ _ _ _ => simulates_throw _ _
  | .cons block body rest, nodup, repeats, followsAt => by
    intro around links index arguments others same
    rw [Blocks.ops] at nodup
    rw [Blocks.entered] at repeats followsAt
    have inside := Body.simulates calls body (List.nodup_append.mp nodup).1
      (fun part member => repeats part (List.mem_cons_of_mem _ member))
      (fun member => followsAt (List.mem_cons_of_mem _ member))
    rw [Blocks.alterAt, Blocks.run, Blocks.run]
    exact (simulates_enter (repeats (.block block) List.mem_cons_self (by simp)) same).bind
      fun more _ _ _ _ => inside more

theorem Regions.simulates (calls : call.Corresponds otherCall) : (regions : Regions) →
    regions.ops.Nodup →
    (∀ part ∈ regions.entered, part ≠ .op op → tracking.Repeats program other part) →
    (.op op ∈ regions.entered → tracking.FollowsAt program other call otherCall op change) →
    ∀ around links index skipped arguments others, Slots links arguments others →
      Simulates tracking links Slots (regions.run program call around index skipped arguments)
        ((regions.alterAt op change).run other otherCall around index skipped others)
  | .nil, _, _, _ => fun _ _ _ _ _ _ _ => simulates_throw _ _
  | .cons blocks rest, nodup, repeats, followsAt => by
    intro around links index skipped arguments others same
    rw [Regions.ops] at nodup
    rw [Regions.entered] at repeats followsAt
    rw [Regions.alterAt]
    cases skipped with
    | zero =>
      rw [Regions.run, Regions.run]
      exact Blocks.simulates calls blocks (List.nodup_append.mp nodup).1
        (fun part member => repeats part (List.mem_append_left _ member))
        (fun member => followsAt (List.mem_append_left _ member)) around links index arguments others
        same
    | succ skipped =>
      rw [Regions.run, Regions.run]
      exact Regions.simulates calls rest (List.nodup_append.mp nodup).2.1
        (fun part member => repeats part (List.mem_append_right _ member))
        (fun member => followsAt (List.mem_append_right _ member)) around links index skipped
        arguments others same

end

end Blocks

/-! ### Functions -/

/-- Calls a function on data in a memory, of which several may be the same buffer. The answer is what
it returns, and what its arguments are afterwards. -/
def Program.call (program : Program) (memory : Array Grid) (name : String) (slots : List Slot) :
    Except Error (List Data × List Data) := do
  let step : Run (List Data × List Data) := do
    let results ← program.callWithin Program.callDepth name slots
    return (← results.mapM Run.snapshot, ← slots.mapM Run.snapshot)
  return (← step.run { memory }).1

/-- Every call that succeeds has the same outcome in the second program. -/
def Program.Refines (program other : Program) : Prop :=
  ∀ memory name slots outcome, (∀ place, .buffer place ∈ slots → place < memory.size) →
    program.call memory name slots = .ok outcome → other.call memory name slots = .ok outcome

theorem Program.Refines.refl (program : Program) : program.Refines program :=
  fun _ _ _ _ _ => id

theorem Program.Refines.trans {first second third : Program} (one : first.Refines second)
    (two : second.Refines third) : first.Refines third :=
  fun memory name slots outcome exist run =>
    two memory name slots outcome exist (one memory name slots outcome exist run)

/-- A function is found in the second program as well, with a body that follows the one in the first
program. -/
def Program.FollowsFunctions (program other : Program) : Prop :=
  ∀ name function, program.function? name = some function → other.function? name = some function ∧
    ∀ block body, program.functionBody function = .ok (block, body) →
      ∃ (tracking : Tracking) (image : Body), other.functionBody function = .ok (block, image) ∧
        tracking.size = other.values.size ∧ tracking.Repeats program other (.block block) ∧
        ∀ call otherCall : Caller, call.Corresponds otherCall →
          tracking.Follows (body.run program call) (image.run other otherCall)

section Functions

variable {program other : Program}

theorem getD_replicate_none (size index : Nat) :
    (Array.replicate size (none : Option Slot)).getD index none = none := by
  rw [Array.getD_eq_getD_getElem?, Array.getElem?_replicate]
  split <;> rfl

/-- In an empty frame there is nothing to be followed. -/
theorem Tracking.holds_of_empty {tracking : Tracking} {links : Links} {machine image : Machine}
    (memory : links.Hold machine.memory image.memory) (size : Nat) :
    tracking.Holds links { machine with frame := Array.replicate size none }
      { image with frame := Array.replicate tracking.size none } where
  memory := memory
  inside value slot found := by
    rw [getD_replicate_none] at found
    cases found
  known value slot found := by
    rw [getD_replicate_none] at found
    cases found
  found value slot found := by
    rw [getD_replicate_none] at found
    cases found
  size_eq := Array.size_replicate

/-- Calls are followed by calls, however deep they are nested. -/
theorem Program.FollowsFunctions.callWithin (follows : program.FollowsFunctions other)
    (depth : Nat) : (program.callWithin depth).Corresponds (other.callWithin depth) := by
  induction depth with
  | zero => rintro name links slots stands machine image answers after same memory ⟨⟩
  | succ depth ih =>
    intro name links slots stands machine image answers after same memory run
    rw [Program.callWithin] at run ⊢
    cases found : program.function? name with
    | none =>
      rw [found] at run
      cases run
    | some function =>
      obtain ⟨otherFound, bodies⟩ := follows name function found
      rw [found] at run
      rw [otherFound]
      -- The callee runs in a frame of its own, so at its start only the memories correspond.
      obtain ⟨⟨block, body⟩, middle, lifted, called⟩ := Run.run_bind_eq_ok run
      obtain ⟨isBody, rfl⟩ := Run.run_lift_eq_ok lifted
      obtain ⟨tracking, imageBody, isImage, size_eq, enters, bodyFollows⟩ := bodies block body isBody
      obtain ⟨_, _, ⟨⟩, framed⟩ := Run.run_bind_eq_ok called
      obtain ⟨_, _, ⟨⟩, emptied⟩ := Run.run_bind_eq_ok framed
      obtain ⟨_, entered, enter, inside⟩ := Run.run_bind_eq_ok emptied
      obtain ⟨results, left, ran, restored⟩ := Run.run_bind_eq_ok inside
      obtain ⟨_, _, ⟨⟩, ⟨⟩⟩ := Run.run_bind_eq_ok restored
      have start : tracking.Holds links { middle with frame := Array.replicate program.values.size none }
          { image with frame := Array.replicate tracking.size none } :=
        tracking.holds_of_empty memory _
      obtain ⟨more, _, imageEntered, widens, imageEnter, between, -⟩ :=
        simulates_enter enters same _ _ _ _ start enter
      obtain ⟨most, imageResults, imageLeft, wider, imageRan, ended, corresponds⟩ :=
        bodyFollows _ _ ih more _ _ _ _ between ran
      refine ⟨most, imageResults, { imageLeft with frame := image.frame }, widens.trans wider, ?_,
        ended.memory, rfl, rfl, corresponds⟩
      rw [size_eq] at imageEnter
      rw [Run.run_bind_of (Run.run_lift isImage)]
      change (Run.enter other block stands >>= fun _ => _).run
        { image with frame := Array.replicate other.values.size none } = _
      rw [Run.run_bind_of imageEnter, Run.run_bind_of imageRan]
      rfl

/-- Arguments are put into a memory of their own. -/
theorem Run.run_loadData (arguments : List Data) (machine : Machine) :
    ∃ slots memory, (arguments.mapM Run.load).run machine = .ok (slots, { machine with memory }) ∧
      machine.memory.size ≤ memory.size ∧ ∀ place, .buffer place ∈ slots → place < memory.size := by
  induction arguments generalizing machine with
  | nil => exact ⟨[], machine.memory, rfl, le_rfl, nofun⟩
  | cons first others ih =>
    have loads : ∃ slot memory, (Run.load first).run machine = .ok (slot, { machine with memory }) ∧
        machine.memory.size ≤ memory.size ∧ ∀ place, slot = .buffer place → place < memory.size := by
      cases first with
      | scalar value => exact ⟨_, machine.memory, rfl, le_rfl, nofun⟩
      | tensor contents => exact ⟨_, machine.memory, rfl, le_rfl, nofun⟩
      | memref contents =>
        refine ⟨_, _, rfl, ?_, ?_⟩
        · rw [Array.size_push]
          exact Nat.le_succ _
        · rintro place ⟨⟩
          rw [Array.size_push]
          exact Nat.lt_succ_self _
    obtain ⟨slot, memory, loaded, grown, exists'⟩ := loads
    obtain ⟨slots, final, later, more, exist⟩ := ih { machine with memory }
    refine ⟨slot :: slots, final, ?_, grown.trans more, fun place among => ?_⟩
    · rw [List.mapM_cons, Run.run_bind_of loaded, Run.run_bind_of later]
      rfl
    · rcases List.mem_cons.mp among with same | behind
      · exact (exists' place same.symm).trans_le more
      · exact exist place behind

/-- Running a function is calling it on data that has been loaded. -/
theorem Program.exists_run_eq_call (arguments : List Data) :
    ∃ memory slots, (∀ place, .buffer place ∈ slots → place < memory.size) ∧
      ∀ (program : Program) name, program.run name arguments = program.call memory name slots := by
  obtain ⟨slots, memory, loaded, -, exist⟩ := Run.run_loadData arguments {}
  refine ⟨memory, slots, exist, fun program name => ?_⟩
  unfold Program.run Program.call
  dsimp only
  rw [Run.run_bind_of loaded]

/-- Programs with the same outcomes of calls have the same outcomes of runs. -/
theorem Program.Refines.run_eq (refines : program.Refines other) {name : String}
    {arguments : List Data} {outcome : List Data × List Data}
    (run : program.run name arguments = .ok outcome) : other.run name arguments = .ok outcome := by
  obtain ⟨memory, slots, exist, same⟩ := Program.exists_run_eq_call arguments
  rw [same] at run ⊢
  exact refines memory name slots outcome exist run

theorem agrees_snapshotEach {tracking : Tracking} {links : Links} {machine image : Machine}
    (holds : tracking.Holds links machine image) {slots others : List Slot}
    (same : Slots links slots others) :
    Agrees machine image Eq (slots.mapM Run.snapshot) (others.mapM Run.snapshot) := by
  refine (agrees_mapM (same.imp fun slot other corresponds => ?_)).imp fun _ _ => forall₂_eq_iff.mp
  cases corresponds with
  | scalar value => exact agrees_pure rfl
  | tensor contents => exact agrees_pure rfl
  | buffer linked => exact (Agrees.contents holds linked).bind_eq fun _ => agrees_pure rfl

/-- Every buffer of a memory corresponds to itself. -/
theorem Links.hold_same (memory : Array Grid) :
    Links.Hold (fun place other => place = other ∧ place < memory.size) memory memory where
  left _ _ linked := linked.2
  right _ _ linked := linked.1 ▸ linked.2
  contents _ _ linked := by rw [linked.1]
  functional _ _ _ first second := first.1.symm.trans second.1
  injective _ _ _ first second := first.1.trans second.1.symm

/-- If the bodies of all functions are followed, all calls are. -/
theorem Program.FollowsFunctions.refines (follows : program.FollowsFunctions other) :
    program.Refines other := by
  intro memory name slots outcome exist run
  -- Nothing is in the frame outside of calls.
  let tracking : Tracking := ⟨fun _ => False, fun _ => False, id, fun _ _ => False, 0⟩
  let links : Links := fun place other => place = other ∧ place < memory.size
  have start : tracking.Holds links { memory } { memory } :=
    ⟨Links.hold_same memory, nofun, nofun, nofun, rfl⟩
  have same : Slots links slots slots := by
    refine List.forall₂_same.mpr fun slot among => ?_
    cases slot with
    | scalar value => exact .scalar value
    | tensor contents => exact .tensor contents
    | buffer place => exact .buffer ⟨rfl, exist place among⟩
  have simulated : Simulates tracking links (fun _ => Eq)
      (do
        let results ← program.callWithin Program.callDepth name slots
        return (← results.mapM Run.snapshot, ← slots.mapM Run.snapshot))
      (do
        let results ← other.callWithin Program.callDepth name slots
        return (← results.mapM Run.snapshot, ← slots.mapM Run.snapshot)) := by
    refine ((follows.callWithin _).simulates name same).bind fun more answers stands wider answered => ?_
    refine .of_agrees_bind (fun _ _ holds => agrees_snapshotEach holds answered) ?_
    rintro results _ rfl
    refine .of_agrees_bind (fun _ _ holds => agrees_snapshotEach holds (same.mono wider)) ?_
    rintro contents _ rfl
    exact simulates_pure rfl
  obtain ⟨⟨found, after⟩, ran, ⟨⟩⟩ := of_bind_eq_ok run
  obtain ⟨_, result, final, -, otherRan, -, rfl⟩ := simulated _ _ _ _ start ran
  unfold Program.call
  exact congrArg (Except.map Prod.fst) otherRan

end Functions

end TensorIR
