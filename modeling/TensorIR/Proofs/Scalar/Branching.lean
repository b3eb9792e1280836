import TensorIR.Proofs.Scalar.Moving

/-!
# Lowering branches keeps what functions return

A branch is replaced by one that looks at the same condition, gets the regions as they are, and computes
values of the counterparts of the types.

## Main results

* `Loops.of_resultTypes_eq_ok` — the types that the results get
* `branchMoves_of_eq_ok` — what has come in the place of the branch
* `Program.Means.branchToLoops` — the lowering of a branch
-/

namespace TensorIR

variable {program after : Program} {op function : OpId} {arguments results : List Atom}

/-- A loop of steps that do not change the state succeeds if each of them does. -/
theorem of_mapM_eq_ok {σ α β : Type} {step : α → ExceptT Error (StateM σ) β}
    {related : α → β → Prop} {start final : σ}
    (each : ∀ item value final, (step item).run start = (.ok value, final) →
      related item value ∧ final = start) {items : List α} {values : List β}
    (run : (items.mapM step).run start = (.ok values, final)) :
    List.Forall₂ related items values ∧ final = start := by
  induction items generalizing values with
  | nil =>
    cases run
    exact ⟨.nil, rfl⟩
  | cons item items ih =>
    rw [List.mapM_cons] at run
    obtain ⟨value, middle, isValue, others⟩ := of_run_bind_eq_ok run
    obtain ⟨holds, rfl⟩ := each item value middle isValue
    obtain ⟨later, last, areLater, done⟩ := of_run_bind_eq_ok others
    cases done
    obtain ⟨also, same⟩ := ih areLater
    exact ⟨.cons holds also, same⟩

/-- The counterparts of types are found without building anything. -/
theorem Loops.of_resultTypes_eq_ok {start final : Draft} {types : List Ty}
    (run : (Loops.resultTypes op).run start = (.ok types, final)) :
    List.Forall₂ (fun value lowered => ∃ type, start.program.typed value = .ok type ∧
      Target.loops.lowered? type = .ok (some lowered)) (start.program.results op) types ∧
      final = start := by
  unfold Loops.resultTypes at run
  obtain ⟨sources, typed, others⟩ := Build.of_askFor_bind_eq_ok run
  obtain ⟨lowered, same⟩ := of_mapM_eq_ok (fun type lowered final => of_counterpart_eq_ok) others
  exact ⟨forall₂_comp (forall₂_of_mapM_eq_ok typed) lowered, same⟩

/-- The values of a type are values of its counterpart. -/
theorem fits_lowered {type lowered : Ty} {atom : Atom}
    (isLowered : Target.loops.lowered? type = .ok (some lowered)) (fits : atom.fits type = true) :
    atom.fits lowered = true := by
  refine fits_counterpart ?_ fits
  unfold Target.counterpart
  rw [isLowered]
  rfl

/-- Values of the counterparts of types may be what values of the types may be. -/
theorem Program.widens_of_lowered {olds news : List ValueId} {types : List Ty}
    (lowered : List.Forall₂ (fun value lowered => ∃ type, program.typed value = .ok type ∧
      Target.loops.lowered? type = .ok (some lowered)) olds types)
    (typed : news.map after.typeOf? = types.map some) : program.Widens after olds news := by
  induction lowered generalizing news with
  | nil =>
    cases news with
    | nil => exact .nil
    | cons => cases typed
  | cons isLowered _ ih =>
    cases news with
    | nil => cases typed
    | cons new news =>
      obtain ⟨same, others⟩ := List.cons.inj typed
      obtain ⟨type, isType, found⟩ := isLowered
      refine .cons (fun atom fits => ?_) (ih others)
      rw [Program.typeOf?_of_typed isType] at fits
      rw [same]
      exact fits_lowered found fits

/-- What is built for a branch. -/
theorem of_branch_eq_ok {start final : Draft} {new : OpId}
    (placed : start.anchor ≠ start.program.root)
    (run : (do
      let types ← Loops.resultTypes op
      let condition ← Loops.operand op 0
      Build.create (.scf .ifElse) [condition] types).run start = (.ok new, final)) :
    ∃ types condition, List.Forall₂ (fun value lowered => ∃ type,
        start.program.typed value = .ok type ∧ Target.loops.lowered? type = .ok (some lowered))
        (start.program.results op) types ∧
      start.program.operand op 0 = .ok condition ∧ new = ⟨start.program.operations.size⟩ ∧
      start.Adds (.scf .ifElse) [condition] .empty types final := by
  obtain ⟨types, middle, typed, others⟩ := of_run_bind_eq_ok run
  obtain ⟨lowered, rfl⟩ := Loops.of_resultTypes_eq_ok typed
  obtain ⟨condition, isCondition, created⟩ := Build.of_askFor_bind_eq_ok others
  obtain ⟨draft, made, adds⟩ := adds_create (.scf .ifElse) [condition] types .empty placed
  obtain ⟨isNew, rfl⟩ := Prod.mk.inj (made.symm.trans created)
  cases isNew
  exact ⟨types, condition, lowered, isCondition, rfl, adds⟩

/-- A new branch has taken the place of an old one, with its regions. -/
theorem branchMoves_of_eq_ok {visit : Visit} (formed : program.WellFormed) (visited : visit ∈ program.visits)
    (notRoot : visit.op ≠ program.root) (notFunction : program.kind visit.op ≠ .func .func)
    (run : (Change.branchToLoops visit.op).run program = (.ok (), after)) :
    ∃ types condition draft, List.Forall₂ (fun value lowered => ∃ type, program.typed value = .ok type ∧
        Target.loops.lowered? type = .ok (some lowered)) (program.results visit.op) types ∧
      program.operand visit.op 0 = .ok condition ∧
      (program.draft visit.op .before).Adds (.scf .ifElse) [condition] .empty types draft ∧
      (program.draft visit.op .before).Extends OpKind.IsTarget [] draft ∧
      program.MovesTo visit .nil ⟨program.operations.size⟩ visit.regions draft.finished after := by
  obtain ⟨new, middle, finished, built, unchanged, moved⟩ := of_replaceHead_eq_ok run
  cases unchanged
  obtain ⟨draft, isNew, rfl⟩ := of_build_eq_ok built
  have builds : BuildsTarget (do
      let types ← Loops.resultTypes visit.op
      let condition ← Loops.operand visit.op 0
      Build.create (.scf .ifElse) [condition] types) :=
    Loops.builds_resultTypes.bind fun types => Loops.builds_operand.bind fun condition =>
      builds_create OpKind.isTarget_scf _ _ _
  have extended := builds (program.draft visit.op .before)
  rw [isNew] at extended
  obtain ⟨types, condition, lowered, isCondition, rfl, adds⟩ := of_branch_eq_ok notRoot isNew
  have reached : program.Evolves OpKind.IsTarget draft.finished := extended.evolves formed
  have isInside : draft.finished.regionsOf visit.op = visit.regions :=
    (reached.wellFormed formed).regionsOf_eq (extended.visited formed notRoot visited rfl)
  rw [isInside] at moved
  exact ⟨types, condition, draft, lowered, isCondition, adds, extended,
    movesTo_of_supersedeAll formed visited notRoot notFunction reached (alters_build extended)
      (adds.change_eq visit.regions visit.rest) le_rfl List.not_mem_nil List.not_mem_nil
      (formed.notMem_inside visited) moved isInside⟩

/-- The lowering of a branch. -/
theorem Program.Means.branchToLoops (means : program.Means function arguments results)
    (present : op ∈ program.tree.ops) (isBranch : program.kind op = .torch .primIf)
    (run : (Change.branchToLoops op).run program = (.ok (), after)) :
    after.Means function arguments results := by
  have formed := means.formed
  have notModule : program.kind op ≠ .module := by simp [isBranch]
  have notFunction : program.kind op ≠ .func .func := by simp [isBranch]
  have notRoot : op ≠ program.root := means.ne_root notModule
  have evolved : program.Evolves OpKind.IsTarget after :=
    evolvingAt_branchToLoops.of_run formed present run
  obtain ⟨visit, visited, rfl⟩ := Program.exists_visit present
  have known := formed.knows _ (Body.op_mem_parts.mpr present)
  obtain ⟨types, condition, draft, lowered, isCondition, adds, extended, moves⟩ :=
    branchMoves_of_eq_ok formed visited notRoot notFunction run
  refine means.alter_at False visited notModule notFunction (evolved.wellFormed formed)
    evolved.toGrows moves.alters False.elim fun environment image exit carries admits ended => ?_
  rw [moves.change_eq]
  obtain ⟨inputs, outputs, behind, isInputs, isOutputs, assigned, later⟩ :=
    Body.eval_cons_of_not_exit (by rw [isBranch]; rfl) ended
  obtain ⟨taken, rfl, isTaken⟩ := (Program.outputs?_branch_iff (.inl isBranch)).mp isOutputs
  obtain ⟨side, entered, passed⟩ := Option.bind_eq_some_iff.mp isTaken
  have before : draft.finished.Defines ⟨program.operations.size⟩ (.scf .ifElse) [condition] .empty
      (program.freshValues types.length) types := adds.defines.placed
  have defines := moves.defines before (by simp) fun member => absurd
    (formed.knows _ (Program.mem_parts_of_rest visited (Body.op_mem_parts.mpr member))).1 (lt_irrefl _)
  have isCondition : image condition = some (.bool taken) := by
    obtain ⟨atom, isAtom, same⟩ := known_of_mapM isInputs (Program.getElem?_of_operand isCondition)
    cases same
    exact carries _ _ isAtom
  have kept (other : OpId) (inTree : .op other ∈ program.tree.parts) :
      draft.finished.operands other = program.operands other :=
    congrArg Operation.operands
      (extended.program.operation_eq other (formed.knows (.op other) inTree).1)
  have sameType (value : ValueId) (below : value.index < program.values.size) :
      draft.finished.typeOf? value = program.typeOf? value :=
    congrArg Value.type (extended.program.value_eq value below)
  -- The new branch takes the same side, and the operations there are those of the old one.
  refine ⟨exit, ?_, .refl ..⟩
  refine moves.eval formed visited notFunction evolved.toGrows (by rw [defines.kind_eq]; rfl)
    (by rw [defines.results_eq, before.results_eq])
    (evolved.results_new _ ⟨le_rfl, defines.below⟩ (by simp [defines.kind_eq]))
    (fun other member => kept other (Program.mem_parts_of_rest visited (Body.op_mem_parts.mpr member)))
    (fun part _ value introduces => sameType value introduces.1)
    (defines.results_eq ▸ Program.widens_of_lowered lowered defines.types_eq) rfl carries admits.lt
    (by rw [defines.operands_eq]; simp [isCondition])
    ((Program.outputs?_branch_iff (.inr defines.kind_eq)).mpr
      ⟨taken, rfl, Option.bind_eq_some_iff.mpr ⟨side, ?_, passed⟩⟩) assigned
    (admits.step known (formed.nodup_of_visits visited) isInputs isOutputs assigned) later
  refine formed.inside_follows evolved.toGrows visited (fun other member => ?_) (fun value below => ?_)
    carries admits entered
  · rw [moves.mapped, if_neg fun behind => ?_]
    · exact kept other (Program.mem_parts_of_inside visited (Regions.op_mem_parts.mpr member))
    · exact formed.disjoint_rest visited (Regions.op_mem_parts.mpr member) (Body.op_mem_parts.mpr behind)
  · rw [← sameType value below, Program.typeOf?, Program.value, moves.values_eq]
    rfl

end TensorIR
