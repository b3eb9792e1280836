import TensorIR.Proofs.Execution.Rewiring
import TensorIR.Proofs.Relowering.Sparing
import TensorIR.Proofs.Scalar.Converting
import TensorIR.Proofs.Scalar.Positions

/-!
# Lowering operations leaves functions what they have

Lowering an operation builds operations that use its operands, operands of operations that are there, and
what has been built before. If all that is good, so are the values that new operations use and compute. This
is another thing that follows from how the single operations are built.

Whatever is lowered next, what is built for it uses good values, and it is put where no function stands. So
functions keep what they take and return until everything is lowered.

## Main definitions

* `Draft.Draws` — the program of a draft uses good values, and its constant positions are good
* `Drawing` — a step of building keeps it so
* `Program.Upholds` — a program that has evolved and in which functions have what they had

## Main results

* `drawRules` — all that lowering builds uses good values
* `Program.Upholds.opToLoops`, `Program.Upholds.opToTosa` — the lowering of one operation
* `Program.Upholds.convert` — the lowering of all operations
* `carries_upholds_exhaust` — canonicalization
-/

namespace TensorIR

variable {α β : Type} {good : ValueId → Prop} {start : Program}

/-- The program of the draft uses good values, and so does what is built from constant positions. -/
structure Draft.Draws (good : ValueId → Prop) (start : Program) (draft : Draft) : Prop where
  program : start.Draws good draft.program
  indices : ∀ pair ∈ draft.indices, good pair.2

/-- A step of building uses good values, also if it fails on the way, and what it gives has a property. -/
def Drawing (good : ValueId → Prop) (start : Program) (step : Build α) (gives : α → Prop) : Prop :=
  ∀ draft : Draft, draft.Draws good start →
    (step.run draft).2.Draws good start ∧ ∀ value, (step.run draft).1 = .ok value → gives value

/-! ### Steps -/

namespace Drawing

variable {gives : α → Prop} {step : Build α}

theorem pure {value : α} (given : gives value) : Drawing good start (Pure.pure value) gives :=
  fun _ draws => ⟨draws, fun _ same => by cases same; exact given⟩

theorem throw (error : Error) : Drawing good start (MonadExcept.throw error : Build α) gives :=
  fun _ draws => ⟨draws, fun _ same => by cases same⟩

theorem bind {next : α → Build β} {between : α → Prop} {gives : β → Prop}
    (first : Drawing good start step between)
    (later : ∀ value, between value → Drawing good start (next value) gives) :
    Drawing good start (step >>= next) gives := by
  intro draft draws
  have ⟨left, given⟩ := first draft draws
  rw [run_bind]
  revert left given
  rcases step.run draft with ⟨error | value, middle⟩ <;> intro left given
  · exact ⟨left, fun _ same => by cases same⟩
  · exact later value (given value rfl) middle left

theorem ofGet {next : Draft → Build α} (later : ∀ draft : Draft, draft.Draws good start →
    Drawing good start (next draft) gives) : Drawing good start (get >>= next) gives :=
  fun draft draws => later draft draws draft draws

/-- A question about a program of which it is known what its operations use and compute. -/
theorem ofAsk {question : Program → α} (given : ∀ program, start.Draws good program → gives (question program)) :
    Drawing good start (Build.ask question) gives :=
  fun draft draws => ⟨draws, fun _ same => by cases same; exact given draft.program draws.program⟩

theorem ofAskFor {question : Program → Except Error α}
    (given : ∀ program answer, start.Draws good program → question program = .ok answer → gives answer) :
    Drawing good start (Build.askFor question) gives := by
  intro draft draws
  rw [Build.run_askFor]
  exact ⟨draws, fun answer => given draft.program answer draws.program⟩

/-- A change of a draft that leaves its program and its constant positions alone. -/
theorem ofModify {change : Draft → Draft} (program : ∀ draft, (change draft).program = draft.program)
    (indices : ∀ draft, (change draft).indices = draft.indices) :
    Drawing good start (modify change : Build PUnit) fun _ => True :=
  fun draft draws =>
    ⟨⟨(program draft) ▸ draws.program, (indices draft) ▸ draws.indices⟩, fun _ _ => trivial⟩

theorem named (supply : Namer → String × Namer) : Drawing good start (Build.named supply) fun _ => True :=
  fun _ draws => ⟨⟨draws.program, draws.indices⟩, fun _ _ => trivial⟩

/-- The operations that a step builds may be kept in a body of their own. -/
theorem gather (drawing : Drawing good start step gives) :
    Drawing good start (Build.gather step) fun _ => True :=
  fun draft draws => by
    obtain ⟨left, -⟩ := drawing { draft with code := .nil } ⟨draws.program, draws.indices⟩
    exact ⟨⟨left.program, left.indices⟩, fun _ _ => trivial⟩

theorem settle (outcome : Except Error α) : Drawing good start (Build.settle outcome) fun _ => True := by
  cases outcome with
  | error error => exact throw error
  | ok value => exact pure trivial

theorem hoist (op : OpId) : Drawing good start (Build.hoist op) fun _ => True := by
  refine ofModify (fun draft => ?_) fun draft => ?_
  all_goals split <;> rfl

theorem append (op : OpId) (inside : Regions) : Drawing good start (Build.append op inside) fun _ => True :=
  ofModify (fun _ => rfl) fun _ => rfl

end Drawing

/-! ### Operations -/

section Operations

variable (fresh : ∀ value : ValueId, start.values.size ≤ value.index → good value)
include fresh

/-- The next values are new, whichever have been added before. -/
theorem Program.Draws.good_freshValues {program : Program} (draws : start.Draws good program) (count : Nat) :
    ∀ value ∈ program.freshValues count, good value := by
  intro value among
  rw [Program.freshValues, List.mem_map] at among
  obtain ⟨index, inRange, rfl⟩ := among
  exact fresh _ (draws.values_le.trans (List.mem_range'_1.mp inRange).1)

namespace Drawing

theorem define {kind : OpKind} {operands : List ValueId} (known : ∀ operand ∈ operands, good operand)
    (results : List (String × Ty)) (attributes : Attributes) :
    Drawing good start (Build.define kind operands results attributes)
      fun op => start.operations.size ≤ op.index := by
  intro draft draws
  refine ⟨?_, fun op => ?_⟩
  · rw [Build.run_define_snd]
    exact ⟨draws.program.withDefinition known (draws.program.good_freshValues fresh _), draws.indices⟩
  · rw [Build.run_define_eq]
    intro same
    split at same <;> cases same
    exact draws.program.operations_le

omit fresh in
theorem result {op : OpId} (isNew : start.operations.size ≤ op.index) (index : Nat) :
    Drawing good start (Build.askFor fun program => program.result op index) good :=
  .ofAskFor fun _ _ draws isResult =>
    draws.results op isNew _ (List.mem_of_getElem? (Program.result_eq_ok_iff.mp isResult))

theorem allocate {kind : OpKind} {operands : List ValueId} (known : ∀ operand ∈ operands, good operand)
    (types : List Ty) (attributes : Attributes) :
    Drawing good start (Build.allocate kind operands types attributes)
      fun op => start.operations.size ≤ op.index := by
  have names : Drawing good start (types.mapM fun type => return (← Build.fresh, type)) fun _ => True := by
    intro draft draws
    obtain ⟨names, namer, -, same⟩ := Build.run_freshNames types draft
    rw [same]
    exact ⟨⟨draws.program, draws.indices⟩, fun _ _ => trivial⟩
  refine names.bind fun results _ => (define fresh known results attributes).bind fun op isNew => ?_
  refine (ofModify ?_ ?_).bind fun _ _ => pure isNew
  all_goals exact fun _ => rfl

theorem create {kind : OpKind} {operands : List ValueId} (known : ∀ operand ∈ operands, good operand)
    (types : List Ty) (attributes : Attributes) :
    Drawing good start (Build.create kind operands types attributes)
      fun op => start.operations.size ≤ op.index :=
  (allocate fresh known types attributes).bind fun op isNew => (append op .nil).bind fun _ _ => pure isNew

theorem constant (name : String) (value : Option Attribute) (type : Ty) :
    Drawing good start (Build.constant (.arith .constant) name value type) good := by
  refine (define fresh (fun _ => (absurd · List.not_mem_nil)) _ _).bind fun op isNew => ?_
  refine (ofModify ?_ ?_).bind fun _ _ => (append op .nil).bind fun _ _ => result isNew 0
  all_goals exact fun _ => rfl

/-- A constant position is built once and known from then on. -/
theorem index (position : Int) : Drawing good start (Build.index position) good := by
  unfold Build.index
  refine ofGet fun draft draws => ?_
  split
  case h_1 known isKnown => exact pure (draws.indices _ (mem_of_lookup isKnown))
  case h_2 =>
    extract_lets rest
    have build (name : String) : Drawing good start (rest name) good := by
      refine (define fresh (fun _ => (absurd · List.not_mem_nil)) _ _).bind fun op isNew => ?_
      refine (hoist op).bind fun _ _ => (result isNew 0).bind fun id isGood => ?_
      have remember : Drawing good start (modify fun draft =>
          { draft with indices := (position, id) :: draft.indices } : Build PUnit) fun _ => True :=
        fun draft draws =>
          ⟨⟨draws.program, List.forall_mem_cons.mpr ⟨isGood, draws.indices⟩⟩, fun _ _ => trivial⟩
      exact remember.bind fun _ _ => pure isGood
    split
    · exact (named _).bind fun name _ => build name
    · exact (named _).bind fun name _ => build name

theorem block (types : List Ty) :
    Drawing good start (Build.block types) fun made => ∀ value ∈ made.2, good value := by
  intro draft draws
  obtain ⟨names, namer, -, same⟩ := Build.run_block types draft
  rw [same]
  refine ⟨⟨?_, draws.indices⟩, fun made isMade => ?_⟩
  · exact draws.program.congr rfl (by simp [Program.withBlock])
  · cases isMade
    exact draws.program.good_freshValues fresh _

theorem forLoop {lower upper step : ValueId} {initial : List ValueId}
    {body : ValueId → List ValueId → Build (List ValueId)}
    (known : ∀ value ∈ [lower, upper, step] ++ initial, good value)
    (inside : ∀ position carried, good position → (∀ value ∈ carried, good value) →
      Drawing good start (body position carried) fun values => ∀ value ∈ values, good value) :
    Drawing good start (Build.forLoop lower upper step initial body)
      fun values => ∀ value ∈ values, good value := by
  refine (ofAskFor fun _ _ _ _ => trivial).bind fun types _ => ?_
  refine (allocate fresh known types _).bind fun op isNew => (block fresh _).bind fun (_, arguments) areGood => ?_
  cases arguments with
  | nil => exact throw _
  | cons position carried =>
    obtain ⟨isPosition, areCarried⟩ := List.forall_mem_cons.mp areGood
    have yielding : Drawing good start (Build.yielding (body position carried)) fun _ => True :=
      (inside position carried isPosition areCarried).bind fun values areValues =>
        (create fresh areValues [] .empty).bind fun _ _ => pure trivial
    refine yielding.gather.bind fun (outcome, _) _ => (append op _).bind fun _ _ => ?_
    refine (settle outcome).bind fun _ _ => ?_
    exact ofAsk fun _ draws => draws.results op isNew

end Drawing

/-- All that lowering builds uses good values. -/
def drawRules : BuildRules good (start.operations.size ≤ ·.index) where
  Holds step gives := Drawing good start step gives
  pure := .pure
  throw := .throw
  bind := .bind
  ask _ := .ofAsk fun _ _ => trivial
  askFor given := .ofAskFor fun program answer _ => given program answer
  operands op _ := .ofAsk fun _ draws value among =>
    draws.operands op value (List.mem_of_mem_drop among)
  operand op _ := .ofAskFor fun _ value draws isOperand =>
    draws.operands op value (mem_operands_of_operand isOperand)
  named := .named
  create _ := .create fresh
  result := .result
  constant := .constant fresh
  index := .index fresh
  forLoop := .forLoop fresh

end Operations

/-! ### Operations inside of functions -/

/-- The operation is neither a function nor a call nor a return. -/
def OpKind.IsInner (kind : OpKind) : Prop :=
  ∀ other, kind ≠ .func other

theorem OpKind.IsTarget.isInner {kind : OpKind} (isTarget : kind.IsTarget) : kind.IsInner := by
  rintro other rfl
  cases isTarget

/-- A well-formed program to which no functions, calls or returns have been added, and in which functions have
what they had at the start. -/
structure Program.Upholds (good : ValueId → Prop) (start now : Program) : Prop where
  formed : now.WellFormed
  evolves : start.Evolves OpKind.IsInner now
  spares : start.Spares good now
  isModule : now.kind now.root = .module

variable {program after : Program} {op : OpId} {value : ValueId}

/-- The outermost operation stays what it is. -/
theorem Program.Evolves.isModule {allowed : OpKind → Prop} (evolves : program.Evolves allowed after)
    (formed : program.WellFormed) (isModule : program.kind program.root = .module) :
    after.kind after.root = .module := by
  have root : program.root.index < program.operations.size :=
    (formed.knows (.op program.root) List.mem_cons_self).1
  rw [evolves.root, evolves.kind_eq _ root, isModule]

theorem Program.Upholds.follow (upholds : start.Upholds good program)
    (evolves : program.Evolves OpKind.IsInner after) (spares : start.Spares good after) :
    start.Upholds good after where
  formed := evolves.wellFormed upholds.formed
  evolves := upholds.evolves.trans evolves
  spares := spares
  isModule := evolves.isModule upholds.formed upholds.isModule

/-- An operation of torch has been no function. -/
theorem Program.Upholds.notFunction (upholds : start.Upholds good program) {kind : TorchKind}
    (isKind : program.kind op = .torch kind) : start.kind op ≠ .func .func := by
  intro isFunction
  rw [upholds.spares.isFunction op isFunction] at isKind
  cases isKind

/-- What is in the body of an operation of torch is not the outermost operation. -/
theorem Program.Upholds.ne_root_of_entry {kind : TorchKind} (upholds : start.Upholds good program)
    (present : op ∈ program.tree.ops) (isKind : program.kind op = .torch kind) {block : BlockId} {body : Body}
    (entry : program.entryOf? op = some (block, body)) {inner : OpId} (inside : inner ∈ body.ops) :
    inner ≠ program.root := by
  obtain ⟨visit, visited, rfl⟩ := Program.exists_visit present
  rw [Program.entryOf?, upholds.formed.regionsOf_eq visited] at entry
  have notRoot : visit.op ≠ program.root := by
    intro isRoot
    rw [isRoot, upholds.isModule] at isKind
    cases isKind
  refine upholds.formed.ne_root_of_inside visited notRoot (Regions.op_mem_parts.mp ?_)
  exact (Regions.parts_of_entryBlock? entry).2 _ (Body.op_mem_parts.mpr inside)

/-! ### Building -/

/-- What a step builds is put next to the anchor. -/
theorem Program.Spares.build {allowed : OpKind → Prop} {step : Build α} {gives : α → Prop} {placement : Placement}
    {given : α} (spares : start.Spares good program) (draws : Drawing good start step gives)
    (builds : Builds allowed step) (run : (Change.build op step placement).run program = (.ok given, after)) :
    start.Spares good after ∧ gives given := by
  obtain ⟨draft, ran, rfl⟩ := of_build_eq_ok run
  have extended := builds (program.draft op placement)
  obtain ⟨left, given⟩ := draws (program.draft op placement)
    ⟨spares.toDraws, fun _ => (absurd · List.not_mem_nil)⟩
  rw [ran] at extended left given
  exact ⟨spares.finished extended left.program, given _ rfl⟩

/-- The value that is built for an operation comes in its place. -/
theorem Program.Spares.exec_supersede {state : Lowering.State} {build : Build (ValueId × Option QuantParams)}
    {table : QuantTable} (spares : start.Spares good state.1)
    (draws : Drawing good start build fun result => good result.1) (builds : BuildsTarget build)
    (run : Lowering.exec (Lowering.supersede op build) state = (.ok ((), table), after)) :
    start.Spares good after := by
  obtain ⟨value, params, draft, built, superseded⟩ := of_exec_supersede_eq_ok run
  have run : (Change.build op build).run state.1 = (.ok (value, params), draft.finished) := by
    rw [Change.run_build, built]
  obtain ⟨left, isGood⟩ := spares.build draws builds run
  exact left.supersede isGood superseded

/-- A new operation with the regions of another one comes in its place. -/
theorem Program.Upholds.replaceHead {build : Build OpId} {finish : Change Unit} {kind : TorchKind}
    (upholds : start.Upholds good program) (present : op ∈ program.tree.ops)
    (isKind : program.kind op = .torch kind)
    (draws : Drawing good start build fun new => start.operations.size ≤ new.index) (builds : BuildsTarget build)
    (finishes : ∀ middle finished, Placed OpKind.IsTarget program op middle → start.Spares good middle →
      finish.run middle = (.ok (), finished) →
      Placed OpKind.IsTarget program op finished ∧ start.Spares good finished)
    (run : (Change.replaceHead op build finish).run program = (.ok (), after)) : start.Spares good after := by
  obtain ⟨new, middle, finished, built, done, superseded⟩ := of_replaceHead_eq_ok run
  have placed : Placed OpKind.IsTarget program op middle := by
    have keeps := keeps_placed_build builds op .before _ (placed_self upholds.formed present)
    rwa [built] at keeps
  obtain ⟨left, isNew⟩ := upholds.spares.build draws builds built
  obtain ⟨⟨⟨formed, -⟩, still⟩, ready⟩ := finishes middle finished placed left done
  have newKind : start.kind new ≠ .func .func := fun isFunction =>
    Nat.not_lt.mpr isNew (Program.lt_of_isFunction isFunction)
  have moved := ready.moveRegions formed still (upholds.notFunction isKind) newKind
  exact moved.supersedeAll (moved.results new isNew) superseded

section Lowering

variable (fresh : ∀ value : ValueId, start.values.size ≤ value.index → good value)
include fresh

/-! ### Ends of blocks -/

theorem Program.Spares.terminatorToLoops {skipped : Nat} (spares : start.Spares good program)
    (run : (Change.terminatorToLoops op skipped).run program = (.ok (), after)) : start.Spares good after := by
  unfold Change.terminatorToLoops at run
  rw [run_bind, Change.run_ask] at run
  simp only [] at run
  obtain ⟨⟨⟩, middle, built, erased⟩ := of_run_bind_eq_ok run
  have draws : Drawing good start (Build.emit (.scf .yield) ((program.operands op).drop skipped)) fun _ => True :=
    (drawRules fresh).emit OpKind.isTarget_scf fun value among =>
      spares.operands op value (List.mem_of_mem_drop among)
  obtain ⟨left, -⟩ := spares.build draws (builds_emit OpKind.isTarget_scf _) built
  exact left.erase erased

/-! ### Branches and loops -/

theorem Program.Upholds.branchToLoops (upholds : start.Upholds good program) (present : op ∈ program.tree.ops)
    (isBranch : program.kind op = .torch .primIf)
    (run : (Change.branchToLoops op).run program = (.ok (), after)) : start.Spares good after := by
  let rules : BuildRules good (start.operations.size ≤ ·.index) := drawRules fresh
  refine upholds.replaceHead present isBranch ?_ ?_ ?_ run
  · refine rules.bind rules.loops_resultTypes fun types _ => rules.bind rules.loops_operand fun condition known => ?_
    exact rules.create OpKind.isTarget_scf (by simpa using known) _ _
  · refine Loops.builds_resultTypes.bind fun types => Loops.builds_operand.bind fun condition => ?_
    exact builds_create OpKind.isTarget_scf _ _ _
  · intro middle finished placed spares done
    cases done
    exact ⟨placed, spares⟩

/-- The arguments of the body of a loop get types of lowered programs. -/
theorem Program.Spares.convertBody {block : BlockId} {body : Body} {types : List Ty}
    (spares : start.Spares good program) (inside : ∀ first ∈ body.heads, first ≠ program.root)
    (areGood : ∀ argument ∈ (program.header block).arguments, good argument)
    (noTorch : ∀ type ∈ types, type.torch? = none)
    (run : (Change.convertBody block body types).run program = (.ok (), after)) : start.Spares good after := by
  rcases of_convertBody_eq_ok inside run with ⟨-, rfl⟩ | ⟨round, rest, isArguments, casts⟩
  · exact spares
  have typed : start.Spares good (program.setTypes (roundTypes round rest types)) := by
    refine spares.setTypes fun pair among => ?_
    rw [roundTypes, List.mem_append, List.mem_singleton] at among
    rcases among with zipped | rfl
    · exact noTorch pair.2 (List.of_mem_zip zipped).2
    · rfl
  cases casts with
  | unused none => exact typed
  | @used first regions later draft adds =>
    have isRound : good round := areGood round (isArguments ▸ List.mem_cons_self)
    have drawn := typed.toDraws.adds adds (by simpa using isRound) (typed.toDraws.good_freshValues fresh _)
    refine Program.Spares.setUses ?_ _ (fresh _ typed.values_le)
    exact typed.finished (adds.extended OpKind.isTarget_arith) drawn

theorem Program.Upholds.loopToLoops (upholds : start.Upholds good program) (present : op ∈ program.tree.ops)
    (isLoop : program.kind op = .torch .primLoop)
    (isArgument : ∀ value block, (start.value value).origin = .argument block → good value)
    (run : (Change.loopToLoops op).run program = (.ok (), after)) : start.Spares good after := by
  let rules : BuildRules good (start.operations.size ≤ ·.index) := drawRules fresh
  obtain ⟨block, body, types, entry, -, lowered, replaced⟩ := of_loopToLoops_eq_ok run
  refine upholds.replaceHead present isLoop ?_ (builds_buildLoop types) ?_ replaced
  · refine rules.bind rules.loops_tripCount fun upper isUpper => ?_
    refine rules.bind (rules.index 0) fun lower isLower => rules.bind (rules.index 1) fun step isStep => ?_
    refine rules.bind (rules.operands op 2) fun initial areInitial => ?_
    refine rules.create OpKind.isTarget_scf ?_ _ _
    simpa [isUpper, isLower, isStep] using areInitial
  · intro middle finished placed spares done
    obtain ⟨isBlock, -⟩ := upholds.formed.entry_mem present entry
    obtain ⟨below, owns⟩ := upholds.formed.knows _ isBlock
    have areGood (argument : ValueId) (among : argument ∈ (middle.header block).arguments) : good argument := by
      rw [placed.1.2.arguments_eq block below] at among
      by_cases old : argument.index < start.values.size
      · exact isArgument argument block ((upholds.evolves.origin_eq argument old).symm.trans
          (owns.origin_eq argument among))
      · exact fresh argument (Nat.le_of_not_lt old)
    have notRoot (first : OpId) (among : first ∈ body.heads) : first ≠ middle.root := by
      rw [placed.1.2.root]
      exact upholds.ne_root_of_entry present isLoop entry (Body.mem_ops_of_heads body among)
    have noTorch (type : Ty) (among : type ∈ types) : type.torch? = none := by
      obtain ⟨value, -, old, -, isLowered⟩ := forall₂_mem_right lowered among
      exact Target.torch?_of_lowered? isLowered
    have still := keeps_convertBody OpKind.isTarget_arith body types upholds.formed isBlock middle placed
    rw [done] at still
    exact ⟨still, spares.convertBody fresh notRoot areGood noTorch done⟩

/-! ### Single operations -/

theorem Program.Upholds.opToLoops {kind : TorchKind} {state : Lowering.State} {table : QuantTable}
    (upholds : start.Upholds good state.1) (present : op ∈ state.1.tree.ops)
    (isKind : state.1.kind op = .torch kind)
    (isArgument : ∀ value block, (start.value value).origin = .argument block → good value)
    (run : Lowering.exec (Lowering.opToLoops op kind) state = (.ok ((), table), after)) :
    start.Spares good after := by
  let rules : BuildRules good (start.operations.size ≤ ·.index) := drawRules fresh
  unfold Lowering.opToLoops at run
  split at run
  case isTrue => exact upholds.spares.erase (of_exec_lift_eq_ok run)
  case isFalse =>
    split at run
    case h_1 => exact upholds.branchToLoops fresh present isKind (of_exec_lift_eq_ok run)
    case h_2 => exact upholds.loopToLoops fresh present isKind isArgument (of_exec_lift_eq_ok run)
    case h_3 => exact upholds.spares.terminatorToLoops fresh (of_exec_lift_eq_ok run)
    case h_4 => exact upholds.spares.terminatorToLoops fresh (of_exec_lift_eq_ok run)
    case h_5 =>
      split at run
      case isTrue =>
        refine upholds.spares.exec_supersede ?_ (Loops.builds_scalarOp.bind fun _ => Builds.pure _) run
        exact rules.bind rules.loops_scalarOp fun _ isGood => rules.pure isGood
      case isFalse =>
        split at run
        case isTrue =>
          rw [Lowering.exec_bind, Lowering.exec_get] at run
          exact upholds.spares.exec_supersede rules.loops_tensorOp Loops.builds_tensorOp run
        case isFalse => cases run

theorem Program.Upholds.opToTosa {kind : TorchKind} {state : Lowering.State} {table : QuantTable}
    (upholds : start.Upholds good state.1)
    (run : Lowering.exec (Lowering.opToTosa op kind) state = (.ok ((), table), after)) :
    start.Spares good after := by
  let rules : BuildRules good (start.operations.size ≤ ·.index) := drawRules fresh
  unfold Lowering.opToTosa at run
  split at run
  case isTrue => exact upholds.spares.erase (of_exec_lift_eq_ok run)
  case isFalse =>
    split at run
    case isTrue =>
      rw [Lowering.exec_bind, Lowering.exec_lift, Change.run_ask] at run
      simp only [] at run
      split at run
      case isTrue => exact upholds.spares.erase (of_exec_lift_eq_ok run)
      case isFalse =>
        refine upholds.spares.exec_supersede ?_ (Tosa.builds_scalarOp.bind fun _ => Builds.pure _) run
        exact rules.bind rules.tosa_scalarOp fun _ isGood => rules.pure isGood
    case isFalse =>
      split at run
      case isTrue =>
        rw [Lowering.exec_bind, Lowering.exec_get] at run
        exact upholds.spares.exec_supersede rules.tosa_tensorOp Tosa.builds_tensorOp run
      case isFalse => cases run

/-! ### Programs -/

omit fresh in
/-- What the lowering of each operation upholds is upheld along a run. -/
theorem Program.Upholds.exhaust {isDue : Program → OpId → TorchKind → Bool}
    {lower : OpId → TorchKind → Lowering Unit} {changed : Bool} {table : QuantTable}
    (upholds : start.Upholds good program)
    (each : ∀ (state final : Lowering.State) op kind, start.Upholds good state.1 → op ∈ state.1.tree.ops →
      state.1.kind op = .torch kind → Lowering.exec (lower op kind) state = (.ok ((), final.2), final.1) →
      start.Spares good final.1)
    (evolves : ∀ op kind (state : Lowering.State), state.1.WellFormed → op ∈ state.1.tree.ops →
      state.1.Evolves OpKind.IsTarget (Lowering.exec (lower op kind) state).2)
    (run : ((Lowering.exhaust isDue lower).run {}).run program = (.ok (changed, table), after)) :
    start.Upholds good after := by
  have along {final : Lowering.State} (steps : Lowering.Steps isDue lower (program, {}) final) :
      start.Upholds good final.1 := by
    induction steps with
    | refl => exact upholds
    | @tail middle final op kind before next ran ih =>
      have evolved := evolves op kind middle ih.formed next.mem
      rw [ran] at evolved
      exact ih.follow (evolved.mono fun _ => OpKind.IsTarget.isInner)
        (each middle final op kind ih next.mem next.isKind ran)
  have chain (result : Except Error (Bool × QuantTable) × Program)
      (same : Lowering.exec (Lowering.exhaust isDue lower) (program, {}) = result) :
      Lowering.Run isDue lower (program, {}) result :=
    same ▸ Lowering.run_exhaust (program, {})
  cases chain _ run with
  | done changed steps => exact along steps

/-- The lowering of all operations. -/
theorem Program.Upholds.convert {target : Target} {changed : Bool} {table : QuantTable}
    (upholds : start.Upholds good program)
    (isArgument : ∀ value block, (start.value value).origin = .argument block → good value)
    (run : (Change.convert target).run program = (.ok (changed, table), after)) : start.Upholds good after := by
  cases target with
  | loops =>
    refine upholds.exhaust (fun state final op kind upholds present isKind step => ?_)
      (fun _ _ _ formed member => evolves_opToLoops formed member) run
    exact upholds.opToLoops fresh present isKind isArgument step
  | tosa =>
    refine upholds.exhaust (fun state final op kind upholds _ _ step => ?_)
      (fun _ _ _ formed member => evolves_opToTosa formed member) run
    exact upholds.opToTosa fresh step

/-- Rewrites of canonicalization, applied as often as possible. -/
theorem carries_upholds_exhaust {rewrites : List Rewrite}
    (canonical : ∀ rewrite ∈ rewrites, rewrite ∈ Rewrite.canonical) :
    Carries (fun now => start.Upholds good now) (Rewrite.exhaust rewrites) := by
  refine carries_exhaust (fun rewrite among => Rewrite.idle_canonical rewrite (canonical rewrite among))
    fun rewrite among op program after upholds present run => ?_
  have evolving : EvolvingAt OpKind.IsInner op (rewrite op) :=
    evolvingAt_canonical (fun _ same => by cases same) (fun _ _ _ same => by cases same)
      (canonical rewrite among) op
  refine upholds.follow (evolving.of_run upholds.formed present run) ?_
  refine upholds.spares.canonical upholds.formed (canonical rewrite among) present run fun value above _ => ?_
  exact fresh value (upholds.spares.values_le.trans above)

end Lowering

end TensorIR
