import TensorIR.Proofs.Interfaces.Retaining

/-!
# Lowering operations leaves functions their interfaces

What is built for an operation comes in its place, and no function is built. A branch or a loop hands its regions
to the operation that replaces it, so functions in there stay where they are. The only values that get other
types are those that the body of a loop takes.

## Main results

* `Program.Declared.conserves_opToLoops`, `Program.Declared.conserves_opToTosa` — the lowering of one operation
* `Program.Advances.convert` — the lowering of all operations
* `Program.carries_advances_cleanups`, `Program.carries_advances_refineTypes` — the rewrites around it
-/

namespace TensorIR

namespace Program

variable {enters : OpKind → Bool} {kept : ValueId → Prop} {canonicalize : Bool} {allowed : OpKind → Prop}
  {program start now after : Program} {op : OpId} {options : LowerOptions}

/-- What a step builds is put next to the anchor. -/
theorem Conserves.build {α : Type} {step : Build α} {placement : Placement} {given : α}
    (formed : program.WellFormed) (inner : ∀ kind, allowed kind → kind ≠ .func .func) (builds : Builds allowed step)
    (run : (Change.build op step placement).run program = (.ok given, after)) :
    program.Conserves enters kept after := by
  obtain ⟨draft, ran, rfl⟩ := of_build_eq_ok run
  have extended := builds (program.draft op placement)
  rw [ran] at extended
  exact .finished formed inner extended

theorem inner_of_isTarget (kind : OpKind) (isTarget : kind.IsTarget) : kind ≠ .func .func :=
  isTarget.isInner _

/-! ### Ends of blocks -/

theorem Declared.conserves_terminatorToLoops (declared : program.Declared) {skipped : Nat}
    (present : op ∈ program.tree.ops) (notFunction : program.kind op ≠ .func .func)
    (leaves : enters (program.kind op) = false)
    (run : (Change.terminatorToLoops op skipped).run program = (.ok (), after)) :
    program.Conserves enters kept after := by
  have formed := declared.formed
  unfold Change.terminatorToLoops at run
  rw [run_bind, Change.run_ask] at run
  simp only [] at run
  obtain ⟨⟨⟩, middle, built, erased⟩ := of_run_bind_eq_ok run
  have builds : BuildsTarget (Build.emit (.scf .yield) ((program.operands op).drop skipped)) :=
    builds_emit OpKind.isTarget_scf _
  have evolved : program.Evolves OpKind.IsTarget middle := (evolving_build builds op .before).of_run formed built
  have kind : middle.kind op = program.kind op :=
    evolved.kind_eq op (formed.lt_of_mem present)
  exact (Conserves.build formed inner_of_isTarget builds built).trans
    (.erase (evolved.wellFormed formed) (kind ▸ notFunction) (kind ▸ leaves) erased)

/-! ### Branches and loops -/

theorem Declared.conserves_branchToLoops (declared : program.Declared) (present : op ∈ program.tree.ops)
    (isBranch : program.kind op = .torch .primIf)
    (run : (Change.branchToLoops op).run program = (.ok (), after)) :
    program.Conserves (·.isLasting canonicalize) kept after := by
  have formed := declared.formed
  have notRoot := declared.ne_root isBranch
  have notFunction : program.kind op ≠ .func .func := by simp [isBranch]
  obtain ⟨visit, visited, rfl⟩ := Program.exists_visit present
  obtain ⟨types, condition, draft, -, -, adds, extended, moves⟩ :=
    branchMoves_of_eq_ok formed visited notRoot notFunction run
  have reached := extended.evolves formed
  have built := adds.defines.placed
  have newKind : after.kind ⟨program.operations.size⟩ = .scf .ifElse :=
    (moves.grown.kind_eq _ built.below).trans built.kind_eq
  have known := formed.lt_of_mem present
  have kind : after.kind visit.op = program.kind visit.op :=
    (moves.grown.kind_eq _ (known.trans_le reached.operations_le)).trans (reached.kind_eq _ known)
  have first : program.Conserves (·.isLasting canonicalize) kept draft.finished :=
    .finished formed inner_of_isTarget extended
  exact first.trans (.moveRegions moves formed visited (reached.wellFormed formed) reached.root notRoot
    (by simpa [kind]) (by simp [newKind]) (by simp [newKind, OpKind.isLasting, OpKind.isPure]))

/-- No type follows for an argument that is not one of those given. -/
theorem value_setTypes {types : List (ValueId × Ty)} {value : ValueId} (absent : value ∉ types.map Prod.fst)
    (program : Program) : (program.setTypes types).value value = program.value value := by
  induction types generalizing program with
  | nil => rfl
  | cons pair types ih =>
    rw [List.map_cons, List.mem_cons, not_or] at absent
    rw [setTypes_cons, ih absent.2, value_setType absent.1]

/-- The arguments of the body of a loop get types of lowered programs. -/
theorem Conserves.convertBody {block : BlockId} {body : Body} {types : List Ty} (formed : program.WellFormed)
    (isBlock : .block block ∈ program.tree.parts) (inside : ∀ first ∈ body.heads, first ≠ program.root)
    (run : (Change.convertBody block body types).run program = (.ok (), after)) :
    program.Conserves enters (· ∉ (program.header block).arguments) after := by
  rcases of_convertBody_eq_ok inside run with ⟨-, rfl⟩ | ⟨round, rest, isArguments, casts⟩
  · exact .refl _
  have given (pair : ValueId × Ty) (member : pair ∈ roundTypes round rest types) :
      pair.1 ∈ (program.header block).arguments := isArguments ▸ mem_of_roundTypes member
  have grown : program.Grows OpKind.IsTarget (program.setTypes (roundTypes round rest types)) :=
    grows_setTypes fun pair member => formed.isPassed_argument isBlock (given pair member)
  have tree := tree_setTypes program (roundTypes round rest types)
  have values : program.KeepsValues (· ∉ (program.header block).arguments)
      (program.setTypes (roundTypes round rest types)) := by
    refine ⟨(values_setTypes ..).ge, fun value _ outside => value_setTypes (fun among => outside ?_) program⟩
    obtain ⟨pair, member, rfl⟩ := List.mem_map.mp among
    exact given pair member
  have typed : program.Conserves enters (· ∉ (program.header block).arguments)
      (program.setTypes (roundTypes round rest types)) := .of_tree formed grown values tree
  have typedFormed : (program.setTypes (roundTypes round rest types)).WellFormed :=
    (Evolves.of_count_le grown fun part => by rw [tree]).wellFormed formed
  cases casts with
  | unused none => exact typed
  | @used first regions later draft adds =>
    have extended := adds.extended OpKind.isTarget_arith
    have evolved := extended.evolves typedFormed
    refine (typed.trans (.finished typedFormed inner_of_isTarget extended)).trans ?_
    have reused : draft.finished.Grows OpKind.IsTarget _ := grows_setUses (program.usesOf round)
      ⟨(program.setTypes (roundTypes round rest types)).values.size⟩ draft.finished
    exact .of_tree (evolved.wellFormed typedFormed) reused (.of_eq (tables_setUses ..).2.1) (tree_setUses ..)

theorem Declared.conserves_loopToLoops (declared : program.Declared) (present : op ∈ program.tree.ops)
    (isLoop : program.kind op = .torch .primLoop)
    (run : (Change.loopToLoops op).run program = (.ok (), after)) :
    program.Conserves (·.isLasting canonicalize) program.IsInterface after := by
  have formed := declared.formed
  have notRoot := declared.ne_root isLoop
  have notFunction : program.kind op ≠ .func .func := by simp [isLoop]
  obtain ⟨block, body, types, isEntry, -, -, replaced⟩ := of_loopToLoops_eq_ok run
  obtain ⟨visit, visited, rfl⟩ := Program.exists_visit present
  have entry : visit.regions.entryBlock? = some (block, body) := by
    rwa [Program.entryOf?, formed.regionsOf_eq visited] at isEntry
  obtain ⟨rounds, front, new, inner, draft, finished, moves⟩ :=
    loopMoves_of_eq_ok formed visited notRoot notFunction entry replaced
  have reached := moves.extended.evolves formed
  have evolved := reached.trans moves.evolved
  have known := formed.lt_of_mem present
  obtain ⟨isBlock, inBody⟩ := formed.entry_mem present isEntry
  obtain ⟨_, _, _, -, -, -, built⟩ := moves.places.defines
  have newKind : after.kind new = .scf .forLoop :=
    (moves.keeps formed visited entry (.inr rfl) built (by simp)).kind_eq
  have kind : after.kind visit.op = program.kind visit.op :=
    (moves.moves.grown.kind_eq _ (known.trans_le evolved.operations_le)).trans (evolved.kind_eq _ known)
  -- First a loop is built, then the body is converted, and at last it moves to the new loop.
  have first : program.Conserves (·.isLasting canonicalize) program.IsInterface draft.finished :=
    .finished formed inner_of_isTarget moves.extended
  have second : draft.finished.Conserves (·.isLasting canonicalize) program.IsInterface finished := by
    have heads (first : OpId) (among : first ∈ body.heads) : first ≠ draft.finished.root :=
      reached.root ▸ formed.ne_root_of_inside visited notRoot (Regions.op_mem_parts.mp
        ((Regions.parts_of_entryBlock? entry).2 _ (Body.op_mem_parts.mpr (Body.mem_ops_of_heads body among))))
    have converted : draft.finished.Conserves (·.isLasting canonicalize)
        (· ∉ (draft.finished.header block).arguments) finished :=
      .convertBody (reached.wellFormed formed) (moves.extended.mem_finished formed isBlock) heads moves.converted
    refine converted.mono fun value isInterface => ?_
    rw [reached.arguments_eq block (formed.knows _ isBlock).1]
    exact declared.notMem_arguments isInterface present notFunction isEntry
  have third : finished.Conserves (·.isLasting canonicalize) program.IsInterface after :=
    .moveRegions moves.moves formed visited (evolved.wellFormed formed) evolved.root notRoot
      (by simpa [kind]) (by simp [newKind]) (by simp [newKind, OpKind.isLasting, OpKind.isPure])
  exact (first.trans second).trans third

/-! ### Single operations -/

theorem Declared.conserves_exec_supersede (declared : program.Declared)
    {build : Build (ValueId × Option QuantParams)} {table given : QuantTable} (present : op ∈ program.tree.ops)
    (notFunction : program.kind op ≠ .func .func) (leaves : enters (program.kind op) = false)
    (builds : BuildsTarget build)
    (run : Lowering.exec (Lowering.supersede op build) (program, given) = (.ok ((), table), after)) :
    program.Conserves enters kept after := by
  have formed := declared.formed
  obtain ⟨value, params, draft, built, superseded⟩ := of_exec_supersede_eq_ok run
  have run : (Change.build op build).run program = (.ok (value, params), draft.finished) := by
    rw [Change.run_build, built]
  have evolved : program.Evolves OpKind.IsTarget draft.finished := (evolving_build builds op .before).of_run formed run
  have kind : draft.finished.kind op = program.kind op :=
    evolved.kind_eq op (formed.lt_of_mem present)
  exact (Conserves.build formed inner_of_isTarget builds run).trans
    (.supersede (evolved.wellFormed formed) (kind ▸ notFunction) (kind ▸ leaves) superseded)

theorem isLasting_torch_of_ne {kind : TorchKind} (notIf : kind ≠ .primIf) (notLoop : kind ≠ .primLoop) :
    (OpKind.torch kind).isLasting canonicalize = false := by
  unfold OpKind.isLasting
  split
  case h_1 same => cases same; exact absurd rfl notIf
  case h_2 same => cases same; exact absurd rfl notLoop
  case h_3 => rfl
  case h_4 other => exact absurd rfl (other kind)

theorem Declared.conserves_opToLoops (declared : program.Declared) {kind : TorchKind} {table given : QuantTable}
    (present : op ∈ program.tree.ops) (isKind : program.kind op = .torch kind)
    (run : Lowering.exec (Lowering.opToLoops op kind) (program, given) = (.ok ((), table), after)) :
    program.Conserves (·.isLasting canonicalize) program.IsInterface after := by
  have formed := declared.formed
  have notFunction : program.kind op ≠ .func .func := by simp [isKind]
  -- An operation is erased, turned into another one in its place, or superseded by what is built.
  unfold Lowering.opToLoops at run
  split at run
  case isTrue isParameter =>
    refine .erase formed notFunction ?_ (of_exec_lift_eq_ok run)
    rw [isKind]
    refine isLasting_torch_of_ne ?_ ?_
    all_goals
      rintro rfl
      cases isParameter
  case isFalse =>
    split at run
    case h_1 => exact declared.conserves_branchToLoops present isKind (of_exec_lift_eq_ok run)
    case h_2 => exact declared.conserves_loopToLoops present isKind (of_exec_lift_eq_ok run)
    case h_3 =>
      exact declared.conserves_terminatorToLoops present notFunction (isKind ▸ rfl) (of_exec_lift_eq_ok run)
    case h_4 =>
      exact declared.conserves_terminatorToLoops present notFunction (isKind ▸ rfl) (of_exec_lift_eq_ok run)
    case h_5 notIf notLoop _ _ =>
      have leaves : (program.kind op).isLasting canonicalize = false := isKind ▸ isLasting_torch_of_ne notIf notLoop
      split at run
      case isTrue =>
        exact declared.conserves_exec_supersede present notFunction leaves
          (Loops.builds_scalarOp.bind fun _ => Builds.pure _) run
      case isFalse =>
        split at run
        case isTrue =>
          rw [Lowering.exec_bind, Lowering.exec_get] at run
          exact declared.conserves_exec_supersede present notFunction leaves Loops.builds_tensorOp run
        case isFalse => cases run

theorem Declared.conserves_opToTosa (declared : program.Declared) {kind : TorchKind} {table given : QuantTable}
    (present : op ∈ program.tree.ops) (isKind : program.kind op = .torch kind)
    (run : Lowering.exec (Lowering.opToTosa op kind) (program, given) = (.ok ((), table), after)) :
    program.Conserves (·.isLasting canonicalize) kept after := by
  have formed := declared.formed
  have notFunction : program.kind op ≠ .func .func := by simp [isKind]
  have leaves (notIf : kind ≠ .primIf) (notLoop : kind ≠ .primLoop) :
      (program.kind op).isLasting canonicalize = false := isKind ▸ isLasting_torch_of_ne notIf notLoop
  unfold Lowering.opToTosa at run
  split at run
  case isTrue isParameter =>
    refine .erase formed notFunction (leaves ?_ ?_) (of_exec_lift_eq_ok run)
    all_goals
      rintro rfl
      cases isParameter
  case isFalse =>
    split at run
    case isTrue isScalar =>
      have leaves := leaves (by rintro rfl; cases isScalar) (by rintro rfl; cases isScalar)
      rw [Lowering.exec_bind, Lowering.exec_lift, Change.run_ask] at run
      simp only [] at run
      split at run
      case isTrue => exact .erase formed notFunction leaves (of_exec_lift_eq_ok run)
      case isFalse =>
        exact declared.conserves_exec_supersede present notFunction leaves
          (Tosa.builds_scalarOp.bind fun _ => Builds.pure _) run
    case isFalse =>
      split at run
      case isTrue isTensor =>
        have leaves := leaves (by rintro rfl; cases isTensor) (by rintro rfl; cases isTensor)
        rw [Lowering.exec_bind, Lowering.exec_get] at run
        exact declared.conserves_exec_supersede present notFunction leaves Tosa.builds_tensorOp run
      case isFalse => cases run

/-! ### Programs -/

/-- A program whose functions have the interfaces that they had at the start. -/
structure Advances (enters : OpKind → Bool) (start now : Program) : Prop where
  declared : now.Declared
  retains : start.Retains enters now

theorem Declared.advances (declared : program.Declared) : program.Advances enters program :=
  ⟨declared, .refl program⟩

theorem Advances.step (advances : start.Advances enters program) (retains : program.Retains enters after)
    (evolves : program.Evolves allowed after) : start.Advances enters after :=
  ⟨retains.declared advances.declared evolves, advances.retains.trans retains⟩

/-- Where the lowering of one operation starts, so that what it keeps is kept from there. -/
theorem Declared.upholds (declared : program.Declared) : program.Upholds (fun _ => True) program where
  formed := declared.formed
  evolves := .refl program
  spares := .refl fun _ _ _ => trivial
  isModule := declared.isModule

/-- What the lowering of each operation leaves is left along a run. -/
theorem Advances.exhaust {isDue : Program → OpId → TorchKind → Bool} {lower : OpId → TorchKind → Lowering Unit}
    {changed : Bool} {table : QuantTable} (advances : start.Advances enters program)
    (each : ∀ (state final : Lowering.State) op kind, state.1.Declared → op ∈ state.1.tree.ops →
      state.1.kind op = .torch kind → Lowering.exec (lower op kind) state = (.ok ((), final.2), final.1) →
      state.1.Retains enters final.1 ∧ state.1.Evolves OpKind.IsTarget final.1)
    (run : ((Lowering.exhaust isDue lower).run {}).run program = (.ok (changed, table), after)) :
    start.Advances enters after := by
  -- The induction is on the operations that have been lowered, the last one at the end.
  have along {final : Lowering.State} (steps : Lowering.Steps isDue lower (program, {}) final) :
      start.Advances enters final.1 := by
    induction steps with
    | refl => exact advances
    | @tail middle final op kind before next ran ih =>
      obtain ⟨retains, evolves⟩ := each middle final op kind ih.declared next.mem next.isKind ran
      exact ih.step retains evolves
  have chain (result : Except Error (Bool × QuantTable) × Program)
      (same : Lowering.exec (Lowering.exhaust isDue lower) (program, {}) = result) :
      Lowering.Run isDue lower (program, {}) result :=
    same ▸ Lowering.run_exhaust (program, {})
  cases chain _ run with
  | done changed steps => exact along steps

/-- The lowering of all operations leaves functions their interfaces. -/
theorem Advances.convert {target : Target} {result : Bool × QuantTable}
    (advances : start.Advances (·.isLasting canonicalize) program)
    (run : (Change.convert target).run program = (.ok result, after)) :
    start.Advances (·.isLasting canonicalize) after := by
  cases target with
  | loops =>
    refine advances.exhaust (fun state final op kind declared present isKind step => ?_) run
    have evolved : state.1.Evolves OpKind.IsTarget (Lowering.exec (Lowering.opToLoops op kind) state).2 :=
      evolves_opToLoops declared.formed present
    rw [step] at evolved
    have spares : state.1.Spares (fun _ => True) final.1 :=
      declared.upholds.opToLoops (fun _ _ => trivial) present isKind (fun _ _ _ => trivial) step
    exact ⟨(declared.conserves_opToLoops present isKind step).retains_of_spares declared evolved spares, evolved⟩
  | tosa =>
    refine advances.exhaust (fun state final op kind declared present isKind step => ?_) run
    have evolved : state.1.Evolves OpKind.IsTarget (Lowering.exec (Lowering.opToTosa op kind) state).2 :=
      evolves_opToTosa declared.formed present
    rw [step] at evolved
    have spares : state.1.Spares (fun _ => True) final.1 :=
      declared.upholds.opToTosa (fun _ _ => trivial) step
    exact ⟨(declared.conserves_opToTosa present isKind step).retains_of_spares declared evolved spares, evolved⟩

theorem carries_advances_cleanups :
    Carries (start.Advances (·.isLasting options.canonicalize)) (Rewrite.exhaust options.cleanups) := by
  refine carries_exhaust (fun rewrite among => Rewrite.idle_canonical rewrite (LowerOptions.mem_canonical among))
    fun rewrite among op program after advances present run => ?_
  have evolving : EvolvingAt (fun _ => True) op (rewrite op) :=
    evolvingAt_canonical trivial (fun _ _ => trivial) (LowerOptions.mem_canonical among) op
  exact advances.step (advances.declared.retains_cleanup among present run)
    (evolving.of_run advances.declared.formed present run)

theorem carries_advances_refineTypes : Carries (start.Advances enters) Change.refineTypes := by
  refine carries_exhaust (fun rewrite among => ?_) fun rewrite among => ?_
  all_goals cases List.mem_singleton.mp among
  · exact Rewrite.idle_refine
  · intro op program after advances present run
    have evolving : Evolving (fun _ => True) (Rewrite.refine op) := evolving_refine trivial op
    exact advances.step (advances.declared.retains_refine present run)
      (evolving.of_run advances.declared.formed run)

end Program

end TensorIR
