import TensorIR.Proofs.Scalar.Alteration
import TensorIR.Proofs.Scalar.Running

/-!
# Running functions on scalars

A lowered function on scalars that has a meaning is run without failing and returns what it means. A
block leaves nothing behind in the frame but values that are introduced inside, so what was known
before it is still shown.

## Main definitions

* `Run.inner` — the run of an operation that does not end its block

## Main results

* `Body.run_of_eval` — a block is run as it is evaluated
* `Program.run_of_means` — a function returns what it means
-/

namespace TensorIR

variable {program : Program} {op : OpId} {environment : Environment} {machine middle final : Machine}

/-! ### The operations of a block -/

/-- Runs an operation that does not end its block. -/
def Run.inner (program : Program) (call : Caller) (op : OpId) (regions : Regions) : Run (List Slot) := do
  match program.kind op with
  | .scf .forLoop =>
    let (first, last, width, initial) ← Run.bounds program op
    Run.repeated (fun arguments => regions.run program call op 0 0 arguments) width
      (Run.rounds first last width) first initial
  | .scf .ifElse =>
    let side ← Run.side program op
    regions.run program call op side side []
  | .func .call => Run.callOp program call op
  | _ => Run.plainOp program op

theorem Body.run_exit (call : Caller) (regions : Regions) (rest : Body)
    (isExit : (program.kind op).isExit = true) (lowered : (program.kind op).isTorch = false) :
    (Body.cons op regions rest).run program call = (program.operands op).mapM (Run.read program) := by
  rw [Body.run]
  cases isKind : program.kind op with
  | func kind => cases kind <;> rw [isKind] at isExit <;> first | rfl | cases isExit
  | scf kind => cases kind <;> rw [isKind] at isExit <;> first | rfl | cases isExit
  | torch => rw [isKind] at lowered; cases lowered
  | _ => rw [isKind] at isExit; cases isExit

theorem Body.run_cons (call : Caller) (regions : Regions) (rest : Body)
    (goesOn : (program.kind op).isExit = false) :
    (Body.cons op regions rest).run program call = (do
      let slots ← Run.inner program call op regions
      Run.writeEach (program.results op) slots
      rest.run program call) := by
  rw [Body.run, Run.inner]
  cases isKind : program.kind op with
  | func kind =>
    cases kind with
    | ret => rw [isKind] at goesOn; cases goesOn
    | _ => simp [Run.writeEach]
  | scf kind =>
    cases kind with
    | yield => rw [isKind] at goesOn; cases goesOn
    | _ => simp [Run.writeEach]
  | _ => simp [Run.writeEach]

/-- Where the frame shows what is known, a step of a run gives values and changes only what parts of a
tree introduce. -/
def Program.RunsTo (program : Program) (parts : List Part) (environment : Environment)
    (step : Run (List Slot)) (atoms : List Atom) : Prop :=
  ∀ machine, machine.Shows environment → program.values.size ≤ machine.frame.size →
    ∃ final, step.run machine = .ok (atoms.map Atom.slot, final) ∧ program.Leaves parts machine final

namespace Program.RunsTo

variable {parts fewer : List Part} {step : Run (List Slot)} {atoms : List Atom}

/-- A step that does not change the machine. -/
theorem of_stays (stays : ∀ machine : Machine, machine.Shows environment →
      step.run machine = .ok (atoms.map Atom.slot, machine)) :
    program.RunsTo parts environment step atoms :=
  fun machine shown _ => ⟨machine, stays machine shown, .refl ..⟩

theorem mono (runs : program.RunsTo fewer environment step atoms)
    (subset : ∀ part ∈ fewer, part ∈ parts) : program.RunsTo parts environment step atoms := by
  intro machine shown size_le
  obtain ⟨final, done, leaves⟩ := runs machine shown size_le
  exact ⟨final, done, leaves.mono subset⟩

/-- A step whose values another step goes on with. -/
theorem bind {next : List Slot → Run (List Slot)} {later : List Atom}
    (first : program.RunsTo parts environment step atoms) (admits : program.Admits parts environment)
    (second : program.RunsTo parts environment (next (atoms.map Atom.slot)) later) :
    program.RunsTo parts environment (step >>= next) later := by
  intro machine shown size_le
  obtain ⟨middle, done, leaves⟩ := first machine shown size_le
  obtain ⟨final, ended, others⟩ :=
    second middle (leaves.shows shown admits) (size_le.trans_eq leaves.size_eq.symm)
  exact ⟨final, by rw [Run.run_bind_of done, ended], leaves.trans others⟩

/-- Rounds that all go on are run one after the other. -/
theorem repeated {body : List Slot → Run (List Slot)} {round : Int → List Atom → Option Exit}
    (admits : program.Admits parts environment)
    (each : ∀ position carried exit, round position carried = some exit → program.RunsTo parts
      environment (body (.scalar (.int position) :: carried.map Atom.slot)) exit.atoms)
    {width position : Int} {count : Nat} {carried outputs : List Atom}
    (iterated : iterate? round (fun _ => true) width count position carried = some outputs) :
    program.RunsTo parts environment (Run.repeated body width count position (carried.map Atom.slot))
      outputs := by
  induction count generalizing position carried with
  | zero =>
    cases iterated
    exact of_stays fun _ _ => rfl
  | succ count ih =>
    rw [iterate?, Option.bind_eq_bind, Option.bind_eq_some_iff] at iterated
    obtain ⟨exit, isRound, later⟩ := iterated
    exact (each position carried exit isRound).bind admits (ih later)

end Program.RunsTo

/-- The bounds of a loop and the values that it starts with. -/
theorem Machine.Shows.run_bounds {first last width : Int} {carried : List Atom}
    (shown : machine.Shows environment)
    (isInputs : (program.operands op).mapM environment =
      some (.index first :: .index last :: .index width :: carried)) (positive : 0 < width) :
    (Run.bounds program op).run machine = .ok ((first, last, width, carried.map Atom.slot), machine) := by
  have known := Machine.Shows.forall₂ (fun _ _ => id) isInputs
  unfold Run.bounds
  generalize program.operands op = operands at known
  rcases operands with _ | ⟨lower, _ | ⟨upper, _ | ⟨step, others⟩⟩⟩
  · cases known
  · obtain _ | ⟨-, none⟩ := known
    cases none
  · obtain _ | ⟨-, _ | ⟨-, none⟩⟩ := known
    cases none
  obtain _ | ⟨isFirst, _ | ⟨isLast, _ | ⟨isWidth, isCarried⟩⟩⟩ := known
  have initial : (others.mapM (Run.read program)).run machine =
      .ok (carried.map Atom.slot, machine) :=
    Run.run_mapM (List.forall₂_map_right_iff.mpr (isCarried.imp fun _ _ => shown.read))
  have isPositive : ¬(Atom.index width).toInt ≤ 0 := not_le.mpr positive
  simp only []
  rw [Run.run_bind_of (shown.readInt isFirst), Run.run_bind_of (shown.readInt isLast),
    Run.run_bind_of (shown.readInt isWidth), if_neg isPositive, Run.run_bind_of initial]
  rfl

/-- The side of a branch. -/
theorem Machine.Shows.run_side {condition : Bool} (shown : machine.Shows environment)
    (isInputs : (program.operands op).mapM environment = some [.bool condition]) :
    (Run.side program op).run machine = .ok (if condition then 0 else 1, machine) := by
  have known := Machine.Shows.forall₂ (fun _ _ => id) isInputs
  cases operands : program.operands op with
  | nil =>
    rw [operands] at known
    cases known
  | cons value others =>
    rw [operands] at known
    obtain _ | ⟨isCondition, -⟩ := known
    have isOperand : program.operand op 0 = .ok value := by
      unfold Program.operand
      rw [operands]
      rfl
    unfold Run.side
    rw [Run.run_bind_of (Run.run_operand isOperand), Run.run_bind_of (shown.readInt isCondition)]
    cases condition <;> rfl

/-- Regions of an operation run as they are evaluated. -/
def Program.RegionsRun (program : Program) (call : Caller) (op : OpId) (regions : Regions)
    (environment : Environment) : Prop :=
  ∀ index given exit, regions.eval program index given environment = some exit →
    program.RunsTo regions.parts environment
      (regions.run program call op index index (given.map Atom.slot)) exit.atoms

section Inner

variable {regions : Regions} {inputs outputs : List Atom} {call : Caller}

/-- A loop runs as it is evaluated, round by round. -/
theorem Program.runsTo_forLoop (isLoop : program.kind op = .scf .forLoop)
    (admits : program.Admits regions.parts environment)
    (inside : program.RegionsRun call op regions environment)
    (isInputs : (program.operands op).mapM environment = some inputs)
    (isOutputs : program.outputs? op inputs
      (fun index given => regions.eval program index given environment) = some outputs) :
    program.RunsTo regions.parts environment (Run.inner program call op regions) outputs := by
  obtain ⟨first, last, width, carried, rfl, positive, iterated⟩ :=
    (Program.outputs?_for_iff isLoop).mp isOutputs
  unfold Run.inner
  rw [isLoop]
  intro machine shown size_le
  have each (position : Int) (carried : List Atom) (exit : Exit)
      (isRound : program.round? op (fun index given =>
        regions.eval program index given environment) (.index position) carried = some exit) :
      program.RunsTo regions.parts environment
        ((fun arguments => regions.run program call op 0 0 arguments)
          (.scalar (.int position) :: carried.map Atom.slot)) exit.atoms := by
    rw [Program.round?] at isRound
    split at isRound
    case isFalse => cases isRound
    case isTrue => exact inside 0 (.index position :: carried) exit isRound
  have repeated : program.RunsTo regions.parts environment
      (Run.repeated (fun arguments => regions.run program call op 0 0 arguments) width
        (Run.rounds first last width) first (carried.map Atom.slot)) outputs :=
    .repeated admits each iterated
  obtain ⟨final, done, leaves⟩ := repeated machine shown size_le
  exact ⟨final, by rw [Run.run_bind_of (shown.run_bounds isInputs positive)]; exact done, leaves⟩

/-- A branch runs the side that is evaluated. -/
theorem Program.runsTo_ifElse (isBranch : program.kind op = .scf .ifElse)
    (inside : program.RegionsRun call op regions environment)
    (isInputs : (program.operands op).mapM environment = some inputs)
    (isOutputs : program.outputs? op inputs
      (fun index given => regions.eval program index given environment) = some outputs) :
    program.RunsTo regions.parts environment (Run.inner program call op regions) outputs := by
  obtain ⟨condition, rfl, taken⟩ := (Program.outputs?_branch_iff (.inr isBranch)).mp isOutputs
  obtain ⟨exit, entered, passed⟩ := Option.bind_eq_some_iff.mp taken
  obtain rfl : exit.atoms = outputs := by
    rcases exit with ⟨_ | _, atoms⟩ <;> cases passed
    rfl
  unfold Run.inner
  rw [isBranch]
  intro machine shown size_le
  rw [Run.run_bind_of (shown.run_side isInputs)]
  exact inside _ [] exit entered machine shown size_le

/-- An operation that does not end its block is run as it is evaluated. -/
theorem Program.runsTo_inner (runnable : program.IsRunnable op)
    (goesOn : (program.kind op).isExit = false) (admits : program.Admits regions.parts environment)
    (inside : program.RegionsRun call op regions environment)
    (isInputs : (program.operands op).mapM environment = some inputs)
    (isOutputs : program.outputs? op inputs
      (fun index given => regions.eval program index given environment) = some outputs) :
    program.RunsTo regions.parts environment (Run.inner program call op regions) outputs := by
  cases isKind : program.kind op with
  | scf kind =>
    cases kind with
    | forLoop => exact Program.runsTo_forLoop isKind admits inside isInputs isOutputs
    | ifElse => exact Program.runsTo_ifElse isKind inside isInputs isOutputs
    | yield =>
      rw [isKind] at goesOn
      cases goesOn
  | arith kind =>
    unfold Run.inner
    rw [isKind]
    exact .of_stays fun machine shown => shown.run_plainOp runnable isKind admits.fits isInputs isOutputs
  | torch =>
    have lowered := runnable.lowered
    rw [isKind] at lowered
    cases lowered
  | func kind =>
    cases kind with
    | ret =>
      rw [isKind] at goesOn
      cases goesOn
    | _ =>
      rw [Program.outputs?_of_hasMeaning (by rw [isKind]; rfl)] at isOutputs
      cases isOutputs
  | _ =>
    rw [Program.outputs?_of_hasMeaning (by rw [isKind]; rfl)] at isOutputs
    cases isOutputs

end Inner

/-- A step whose values are written, and another one that goes on with them. -/
theorem Program.RunsTo.write {parts behind : List Part} {part : Part} {values : List ValueId}
    {atoms later : List Atom} {after : Environment} {step next : Run (List Slot)}
    {first : List Slot → Run (List Slot)}
    (written : ∀ slots, first slots = (Run.writeEach values slots >>= fun _ => next))
    (admits : program.Admits parts environment) (runs : program.RunsTo parts environment step atoms)
    (member : part ∈ parts) (owns : program.Owns part.origin values)
    (assigned : program.assign? environment values atoms = some after)
    (goesOn : program.RunsTo behind after next later) (subset : ∀ part ∈ behind, part ∈ parts) :
    program.RunsTo parts environment (step >>= first) later := by
  intro machine shown size_le
  obtain ⟨middle, done, leaves⟩ := runs machine shown size_le
  have enough := size_le.trans_eq leaves.size_eq.symm
  obtain ⟨assignedMachine, isWritten, shows, size_eq, kept⟩ :=
    (leaves.shows shown admits).writeEach assigned fun value isValue =>
      (owns.lt value isValue).trans_le enough
  have changed : program.Leaves parts middle assignedMachine :=
    ⟨size_eq, fun value outside => kept value fun isValue =>
      outside part member (owns.origin_eq value isValue)⟩
  obtain ⟨final, ended, others⟩ := goesOn assignedMachine shows (enough.trans_eq size_eq.symm)
  refine ⟨final, ?_, (leaves.trans changed).trans (others.mono subset)⟩
  rw [Run.run_bind_of done, written, Run.run_bind_of isWritten, ended]

theorem Run.enter_bind {block : BlockId} {atoms : List Atom} {after : Environment}
    {next : Run (List Slot)}
    (assigned : program.assign? environment (program.header block).arguments atoms = some after) :
    (Run.enter program block (atoms.map Atom.slot) >>= fun _ => next) =
      (Run.writeEach (program.header block).arguments (atoms.map Atom.slot) >>= fun _ => next) := by
  have length_eq := (Program.of_assign? assigned).1
  rw [Run.enter, Run.writeEach]
  simp [length_eq]

theorem exit?_atoms {kind : OpKind} {inputs : List Atom} {exit : Exit} (lowered : kind.isTorch = false)
    (ends : exit? kind inputs = some exit) : exit.atoms = inputs := by
  cases kind with
  | torch => cases lowered
  | _ =>
    cases ends
    rfl

mutual

/-- A block is run as it is evaluated. -/
theorem Body.run_of_eval (call : Caller) : (body : Body) → {environment : Environment} → {exit : Exit} →
    body.parts.Nodup → (∀ part ∈ body.parts, program.Knows part) →
    (∀ op ∈ body.ops, program.IsRunnable op) → program.Admits body.parts environment →
    body.eval program environment = some exit →
    program.RunsTo body.parts environment (body.run program call) exit.atoms
  | .nil, _, _, _, _, _, _, ended => by cases ended
  | .cons op regions rest, environment, exit, nodup, knows, runnable, admits, ended => by
    obtain ⟨-, apart⟩ := List.nodup_cons.mp nodup
    obtain ⟨nodupInside, nodupBehind, -⟩ := List.nodup_append.mp apart
    have isPart : Part.op op ∈ (Body.cons op regions rest).parts := List.mem_cons_self
    have inside (part : Part) (member : part ∈ regions.parts) :
        part ∈ (Body.cons op regions rest).parts :=
      List.mem_cons_of_mem _ (List.mem_append_left _ member)
    have behind (part : Part) (member : part ∈ rest.parts) :
        part ∈ (Body.cons op regions rest).parts :=
      List.mem_cons_of_mem _ (List.mem_append_right _ member)
    have self := runnable op List.mem_cons_self
    obtain ⟨inputs, isInputs, ⟨isExit, -, ends⟩ | ⟨goesOn, outputs, after, isOutputs, assigned, later⟩⟩ :=
      Body.eval_cons_iff.mp ended
    case inl =>
      rw [Body.run_exit call regions rest isExit self.lowered, exit?_atoms self.lowered ends]
      exact .of_stays fun machine shown => shown.readEach isInputs
    case inr =>
      have notFunction : program.kind op ≠ .func .func := by
        intro isFunction
        rw [Program.outputs?_of_function isFunction] at isOutputs
        cases isOutputs
      have owns := (knows _ isPart).2 notFunction
      have computed := Program.runsTo_inner self goesOn (admits.mono inside)
        (fun index given exit entered => Regions.run_of_eval call op index index regions nodupInside
          (fun part member => knows part (inside part member))
          (fun other member => runnable other (List.mem_cons_of_mem _ (List.mem_append_left _ member)))
          (admits.mono inside) entered) isInputs isOutputs
      rw [Body.run_cons call regions rest goesOn]
      exact .write (fun _ => rfl) admits (computed.mono inside) isPart owns assigned
        (Body.run_of_eval call rest nodupBehind (fun part member => knows part (behind part member))
          (fun other member => runnable other (List.mem_cons_of_mem _ (List.mem_append_right _ member)))
          (admits.step (knows _ isPart) nodup isInputs isOutputs assigned) later) behind

theorem Blocks.run_of_eval (call : Caller) (op : OpId) (index : Nat) : (blocks : Blocks) →
    {environment : Environment} → {given : List Atom} → {exit : Exit} → blocks.parts.Nodup →
    (∀ part ∈ blocks.parts, program.Knows part) → (∀ op ∈ blocks.ops, program.IsRunnable op) →
    program.Admits blocks.parts environment → blocks.eval program given environment = some exit →
    program.RunsTo blocks.parts environment (blocks.run program call op index (given.map Atom.slot))
      exit.atoms
  | .nil, _, _, _, _, _, _, _, ended => by cases ended
  | .cons block body rest, environment, given, exit, nodup, knows, runnable, admits, ended => by
    obtain ⟨-, apart⟩ := List.nodup_cons.mp nodup
    have isPart : Part.block block ∈ (Blocks.cons block body rest).parts := List.mem_cons_self
    have inside (part : Part) (member : part ∈ body.parts) :
        part ∈ (Blocks.cons block body rest).parts :=
      List.mem_cons_of_mem _ (List.mem_append_left _ member)
    obtain ⟨after, assigned, later⟩ := Blocks.eval_cons_iff.mp ended
    have entered := Body.run_of_eval call body (List.nodup_append.mp apart).1
      (fun part member => knows part (inside part member))
      (fun other member => runnable other (List.mem_append_left _ member))
      (admits.enter (knows _ isPart) nodup assigned) later
    rw [Blocks.run, Run.enter_bind assigned]
    exact Program.RunsTo.write (fun _ => rfl) admits (.of_stays fun _ _ => rfl)
      isPart (knows _ isPart).2 assigned entered inside

theorem Regions.run_of_eval (call : Caller) (op : OpId) (index skipped : Nat) : (regions : Regions) →
    {environment : Environment} → {given : List Atom} → {exit : Exit} → regions.parts.Nodup →
    (∀ part ∈ regions.parts, program.Knows part) → (∀ op ∈ regions.ops, program.IsRunnable op) →
    program.Admits regions.parts environment →
    regions.eval program skipped given environment = some exit →
    program.RunsTo regions.parts environment
      (regions.run program call op index skipped (given.map Atom.slot)) exit.atoms
  | .nil, _, _, _, _, _, _, _, ended => by cases ended
  | .cons blocks rest, environment, given, exit, nodup, knows, runnable, admits, ended => by
    obtain ⟨first, later, -⟩ := List.nodup_append.mp nodup
    cases skipped with
    | zero =>
      exact (Blocks.run_of_eval call op index blocks first
        (fun part member => knows part (List.mem_append_left _ member))
        (fun other member => runnable other (List.mem_append_left _ member))
        (admits.mono fun _ member => List.mem_append_left _ member) ended).mono
          fun _ member => List.mem_append_left _ member
    | succ skipped =>
      exact (Regions.run_of_eval call op index skipped rest later
        (fun part member => knows part (List.mem_append_right _ member))
        (fun other member => runnable other (List.mem_append_right _ member))
        (admits.mono fun _ member => List.mem_append_right _ member) ended).mono
          fun _ member => List.mem_append_right _ member

end

end TensorIR
