import TensorIR.Proofs.Bounds.CommonSubtypes
import TensorIR.Proofs.FailedLowering
import TensorIR.Proofs.Refinement.Narrowing
import TensorIR.Proofs.Refinement.Settling

/-!
# What a rejected lowering leaves behind

A lowering without canonical form that fails before functions get the types of the target has at most made
types more precise. What it leaves is valid but for tensor operations and casts, whose types may change;
where nothing more follows about types, it is valid but for casts. A tensor of unknown size can be cast to
one of any size, which is not possible any more once another size has become known.

## Main definitions

* `Change.examine` — what is done before functions get the types of the target

## Main results

* `Program.exists_sound_of_verify` — valid programs are sound
* `keeps_sound_refineTypes` — refinement keeps programs sound, also if it fails
* `verify_iff_of_rejected` — when a rejected lowering leaves a valid program
-/

namespace TensorIR

variable {program start now after : Program} {op : OpId} {symbols : SymbolTable} {refinement : Refinement}

/-! ### Tensor operations -/

theorem isSome_of_map_some {α : Type} {step : Except Error α} {found : Option α}
    (run : some <$> step = .ok found) : found.isSome := by
  cases step with
  | error error => cases run
  | ok value =>
    cases run
    rfl

/-- Something follows about the result of a tensor operation. -/
theorem Program.isSome_of_inferKind {kind : TorchKind} (isTensor : kind.isTensorOp = true)
    {found : Option TensorInfo} (inferred : program.inferKind op kind = .ok found) : found.isSome := by
  cases kind with
  | mulTensor | maximum | minimum =>
    obtain ⟨_, -, inferred⟩ := of_bind_eq_ok inferred
    exact isSome_of_map_some inferred
  | addTensor | subTensor | divTensor | relu | neg | abs | exp | tanh | sigmoid | clamp | mm
  | sumDimIntList | transposeInt | view | reshape | sliceTensor | broadcastTo | quantizePerTensor
  | dequantizeSelf | intRepr | perTensorAffineCreate => exact isSome_of_map_some inferred
  | _ => cases isTensor

/-- What the rule for tensor operations says. -/
theorem Program.verifyInferred_eq_ok_iff {inferred : TensorInfo} :
    program.verifyInferred op inferred = .ok () ↔ ∃ result info, program.results op = [result] ∧
      program.typed result = .ok (.torch (.vtensor info)) ∧ (info.meet? inferred).isSome := by
  have torch_iff {result : ValueId} {info : TensorInfo} :
      (program.torchTypeOf? result).getD .any = .vtensor info ↔
        program.typed result = .ok (.torch (.vtensor info)) := by
    rw [torchTypeOf?, typeOf?_eq]
    cases program.typed result with
    | error error => simp [Except.toOption]
    | ok type => cases type <;> simp [Except.toOption, Ty.torch?]
  unfold verifyInferred
  constructor
  · intro kept
    obtain ⟨one, kept⟩ := of_check_eq_ok kept
    obtain ⟨result, isResult⟩ := List.length_eq_one_iff.mp (not_not.mp one)
    obtain ⟨first, isFirst, kept⟩ := of_bind_eq_ok kept
    obtain rfl : result = first := by
      rw [result_eq_ok, isResult] at isFirst
      exact Option.some.inj isFirst
    dsimp only at kept
    generalize isDeclared : (program.torchTypeOf? result).getD .any = declared at kept
    split at kept
    case h_2 => cases kept
    rename_i info
    refine ⟨result, info, isResult, torch_iff.mp isDeclared, ?_⟩
    by_contra none
    rw [Bool.not_eq_true, Option.isSome_eq_false_iff] at none
    rw [if_pos none] at kept
    cases kept
  · rintro ⟨result, info, isResult, typed, some⟩
    have isFirst : program.result op 0 = .ok result := by
      rw [result_eq_ok, isResult]
      rfl
    have notNone : (info.meet? inferred).isNone = false := by simpa using some
    simp only [isResult, isFirst, List.length_singleton, ne_eq, not_true_eq_false, if_false, ok_bind,
      torch_iff.mpr typed, notNone, Bool.false_eq_true]
    rfl

/-- The rule for tensor operations compares the declared type with the one that follows. -/
theorem Program.verifyOp_tensor_iff {kind : TorchKind} (isKind : program.kind op = .torch kind)
    (isTensor : kind.isTensorOp = true) :
    program.verifyOp symbols op = .ok () ↔ ∃ inferred, program.inferKind op kind = .ok (some inferred) ∧
      program.verifyInferred op inferred = .ok () := by
  have plain : kind.isObjectOp = false ∧ kind.isControlOp = false := by
    cases kind <;> first | exact ⟨rfl, rfl⟩ | cases isTensor
  rw [verifyOp, isKind]
  simp only [verifyTorch, plain.1, plain.2, Bool.false_eq_true, if_false]
  constructor
  · intro kept
    obtain ⟨found, inferred, kept⟩ := of_bind_eq_ok kept
    obtain ⟨info, rfl⟩ := Option.isSome_iff_exists.mp (isSome_of_inferKind isTensor inferred)
    exact ⟨info, inferred, kept⟩
  · rintro ⟨info, inferred, kept⟩
    rw [inferred]
    exact kept

/-- The rule for casts, which are no tensor operations. -/
theorem Program.verifyOp_cast (isCast : program.kind op = .torch .tensorStaticInfoCast) :
    program.verifyOp symbols op = program.verifyStaticCast op := by
  rw [verifyOp, isCast]
  rfl

/-- Types of casts and of tensor operations may be made more precise. -/
theorem Program.Loose.cases (loose : program.Loose op) : program.kind op = .torch .tensorStaticInfoCast ∨
    ∃ kind, program.kind op = .torch kind ∧ kind.isTensorOp = true := by
  rw [Program.Loose] at loose
  cases isKind : program.kind op with
  | torch kind =>
    rw [isKind, OpKind.allowsRefinement, Bool.or_eq_true, beq_iff_eq] at loose
    rcases loose with isTensor | rfl
    · exact .inr ⟨kind, rfl, isTensor⟩
    · exact .inl rfl
  | module | arith | func | math | memref | scf | tosa =>
    rw [isKind] at loose
    cases loose

/-- Valid programs are sound. -/
theorem Program.exists_sound_of_verify (formed : program.Formed) (single : program.HasSingleBlocks)
    (valid : program.verify = .ok ()) : ∃ symbols, program.Sound symbols := by
  obtain ⟨symbols, table, visible, keeps⟩ := verify_iff.mp valid
  obtain ⟨_, -, rules⟩ := keepsRule_of_verify valid
  refine ⟨symbols, ⟨formed, single, table, visible, fun visit visited _ => keeps visit visited, ?_⟩⟩
  intro op member kind isKind isTensor
  obtain ⟨inferred, -, kept⟩ := (verifyOp_tensor_iff isKind isTensor).mp (rules op member)
  obtain ⟨result, info, isResult, typed, -⟩ := verifyInferred_eq_ok_iff.mp kept
  exact ⟨result, info, isResult, typed⟩

/-- Where the declared types are at least as precise as what follows, tensor operations keep their rule. -/
theorem Program.Sound.verifyOp_of_agrees (sound : program.Sound symbols) (member : op ∈ program.tree.ops)
    {kind : TorchKind} (isKind : program.kind op = .torch kind) (isTensor : kind.isTensorOp = true)
    (agrees : program.Agrees op) : program.verifyOp symbols op = .ok () := by
  obtain ⟨types, inferred, narrower⟩ := agrees
  obtain ⟨result, info, isResult, typed⟩ := sound.tensors op member kind isKind isTensor
  obtain ⟨found, isFound, isTypes⟩ := of_bind_eq_ok inferred
  rw [inferInfo, isKind] at isFound
  obtain ⟨inferredInfo, rfl⟩ := Option.isSome_iff_exists.mp (isSome_of_inferKind isTensor isFound)
  cases isTypes
  have first : program.result op 0 = .ok result := by
    rw [result_eq_ok, isResult]
    rfl
  have below := narrower _ rfl 0 (.vtensor info) (.vtensor inferredInfo) rfl
    (resultType?_of_typed first typed)
  obtain ⟨known, same, within⟩ := TorchType.isSubtype_vtensor_iff.mp below
  obtain rfl : info = known := TorchType.vtensor.inj same
  -- What is declared is more precise than what follows, so the two have a common part.
  obtain ⟨both, met, -⟩ := TensorInfo.exists_meet? (TensorInfo.isSubtype_refl info) within
  refine (verifyOp_tensor_iff isKind isTensor).mpr ⟨inferredInfo, isFound, ?_⟩
  exact verifyInferred_eq_ok_iff.mpr ⟨result, info, isResult, typed, by rw [met]; rfl⟩

/-! ### Refinement -/

/-- Making a type more precise does not fail. -/
theorem exists_run_refineResult (notRoot : op ≠ start.root) (refinement : Refinement) :
    ∃ after, (Rewrite.refineResult op refinement).run start = (.ok (), after) := by
  unfold Rewrite.refineResult
  rw [run_bind, Change.run_program]
  dsimp only
  split
  · exact ⟨_, run_modify ..⟩
  · obtain ⟨built, ran, -⟩ := exists_recast notRoot refinement
    rw [run_bind, ran]
    dsimp only
    rw [run_bind, run_forIn_modify]
    exact ⟨_, run_modify ..⟩

/-- At most one result of an operation is refined. -/
theorem Program.refinements_cases {refinements : List Refinement}
    (found : program.refinements op = .ok refinements) :
    refinements = [] ∨ program.Loose op ∧ ∃ refinement, refinements = [refinement] := by
  by_cases allows : (program.kind op).allowsRefinement = true
  · rcases cases_refinements found allows with ⟨-, rfl⟩ | ⟨-, one, -, -, rfl⟩
    · exact .inl rfl
    · cases one with
      | none => exact .inl rfl
      | some refinement => exact .inr ⟨allows, refinement, rfl⟩
  · rw [Program.refinements, if_neg allows] at found
    cases found
    exact .inl rfl

/-- A refinement makes a type more precise, or nothing happens. -/
theorem Rewrite.refine_cases (isModule : start.kind start.root = .module) (op : OpId) :
    ((Rewrite.refine op).run start).2 = start ∨ start.Loose op ∧ op ≠ start.root ∧
      ∃ refinement, start.refinements op = .ok [refinement] ∧
        (Rewrite.refineResult op refinement).run start = (.ok (), ((Rewrite.refine op).run start).2) := by
  unfold Rewrite.refine
  rw [run_bind, Change.run_askFor]
  cases found : start.refinements op with
  | error error => exact .inl rfl
  | ok refinements =>
    rcases Program.refinements_cases found with rfl | ⟨loose, refinement, rfl⟩
    · exact .inl rfl
    · have notRoot : op ≠ start.root := fun isRoot =>
        (OpKind.of_allowsRefinement loose).2.1 (isRoot ▸ isModule)
      obtain ⟨refined, ran⟩ := exists_run_refineResult notRoot refinement
      refine .inr ⟨loose, notRoot, refinement, rfl, ?_⟩
      simp only [List.forIn_cons, List.forIn_nil, run_bind, ran, run_pure]

/-- The refined type of a result is that of a tensor, and its declared type is the one stated. -/
theorem Program.of_refinements_singleton (loose : program.Loose op)
    (found : program.refinements op = .ok [refinement]) :
    refinement.result ∈ program.results op ∧
      program.typed refinement.result = .ok (.torch refinement.declared) ∧
      ∃ info, refinement.refined = .vtensor info := by
  rcases cases_refinements found loose with ⟨-, none⟩ | ⟨info, one, -, isOne, same⟩
  · cases none
  obtain ⟨result, declared, isResult, typed, ⟨-, rfl⟩ | ⟨wide, narrow, rfl, met, rfl⟩⟩ :=
    of_refinement?_eq_ok isOne
  · cases same
  split at same <;> cases same
  obtain ⟨known, isKnown, -⟩ :=
    TorchType.isSubtype_vtensor_iff.mp (TorchType.isSubtype_of_meet? met).2
  exact ⟨List.mem_of_getElem? (result_eq_ok.mp isResult), typed, known, isKnown⟩

/-- A refinement keeps a program sound. -/
theorem Program.Sound.refine (sound : start.Sound symbols) (member : op ∈ start.tree.ops) :
    ((Rewrite.refine op).run start).2.Sound symbols := by
  rcases Rewrite.refine_cases sound.isModule op with same | ⟨loose, notRoot, refinement, found, run⟩
  · rwa [same]
  obtain ⟨isResult, declared, tensor⟩ := of_refinements_singleton loose found
  have evolving : Evolving (fun _ => True) (Rewrite.refineResult op refinement) :=
    evolving_refineResult trivial op refinement
  have notFunction := (OpKind.of_allowsRefinement loose).2.2
  have below := (sound.toFormed.owns_results member notFunction).lt _ isResult
  exact sound.refining
    { refined_of_run notRoot below run with
      formed := sound.toFormed
      visible := sound.visible
      single := sound.single
      member := member
      loose := loose
      isResult := isResult
      declared := declared
      evolved := evolving.of_run sound.toWellFormed run } tensor

/-- Refinement keeps a program sound, also if it finds a contradiction and fails. -/
theorem keeps_sound_refineTypes : Keeps (Program.Sound symbols) Change.refineTypes :=
  keeps_refineTypes fun _ _ sound member => sound.refine member

/-! ### Lowerings that are rejected -/

/-- What is done before functions get the types of the target: the program is verified, brought into a form
that can be lowered and checked against the target. -/
def Change.examine (options : LowerOptions) : Change Unit := do
  verify
  let _ ← (if options.canonicalize then canonicalize else pure false)
  let _ ← (if options.refineTypes then refineTypes else pure false)
  askFor fun program => program.ensureLegal options.target

theorem Change.prepare_eq_examine (options : LowerOptions) : Change.prepare options =
    Change.examine options >>= fun _ => Change.convertSignatures options.target := by
  simp only [Change.prepare_eq, examine, bind_assoc]

/-- A lowering of a program that is rejected fails and leaves what has become of it until then. -/
theorem run_lower_of_examine {options : LowerOptions} {error : Error}
    (rejected : (Change.examine options).run start = (.error error, after)) :
    (Change.lower options).run start = (.error error, after) := by
  unfold Change.lower
  rw [run_bind, Change.run_ask]
  dsimp only
  rw [run_bind, Change.prepare_eq_examine, run_bind, rejected]

/-- Without canonical form, the program is changed by refinement alone. -/
theorem keeps_examine {kept : Program → Prop} {options : LowerOptions}
    (plain : options.canonicalize = false)
    (refines : Keeps kept (if options.refineTypes then Change.refineTypes else pure false)) :
    Keeps kept (Change.examine options) := by
  unfold Change.examine
  rw [plain]
  exact (keeps_askFor _).bind fun _ => (keeps_pure false).bind fun _ =>
    refines.bind fun _ => keeps_askFor _

theorem OpKind.isTerminator_of_allowsRefinement {kind : OpKind} (allows : kind.allowsRefinement = true) :
    kind.isTerminator = false := by
  cases kind with
  | torch kind => cases kind <;> first | rfl | cases allows
  | module | arith | func | math | memref | scf | tosa => cases allows

/-- A sound program is valid if the operations whose types may change keep their rules. -/
theorem Program.Sound.verify_iff (sound : program.Sound symbols) : program.verify = .ok () ↔
    ∀ op ∈ program.tree.ops, program.Loose op → program.verifyOp symbols op = .ok () := by
  constructor
  · intro valid op member _
    obtain ⟨other, table, rules⟩ := keepsRule_of_verify valid
    obtain rfl : symbols = other := Except.ok.inj (sound.table.symm.trans table)
    exact rules op member
  · intro rules
    refine Program.verify_iff.mpr ⟨symbols, sound.table, sound.visible, fun visit visited => ?_⟩
    by_cases loose : program.Loose visit.op
    · have goesOn := OpKind.isTerminator_of_allowsRefinement loose
      exact ⟨fun ends => absurd (goesOn.symm.trans ends) Bool.false_ne_true,
        rules visit.op (mem_ops_of_visits visited) loose⟩
    · exact sound.keeps visit visited loose

/-- A lowering without canonical form that is rejected before functions get the types of the target leaves a
valid program if and only if the operations whose types may be made more precise keep their rules. Where
nothing more follows about types, only casts may break theirs. -/
theorem verify_iff_of_rejected {options : LowerOptions} {error : Error} (formed : start.Formed)
    (single : start.HasSingleBlocks) (valid : start.verify = .ok ())
    (plain : options.canonicalize = false)
    (rejected : (Change.examine options).run start = (.error error, after)) :
    (Change.lower options).run start = (.error error, after) ∧
      (options.refineTypes = false → after = start) ∧ ∃ symbols, after.symbolTable = .ok symbols ∧
      (after.verify = .ok () ↔
        ∀ op ∈ after.tree.ops, after.Loose op → after.verifyOp symbols op = .ok ()) ∧
      ((∀ op ∈ after.tree.ops, after.Loose op → after.Agrees op) → (after.verify = .ok () ↔
        ∀ op ∈ after.tree.ops, after.kind op = .torch .tensorStaticInfoCast →
          after.verifyStaticCast op = .ok ())) := by
  obtain ⟨symbols, sound⟩ := Program.exists_sound_of_verify formed single valid
  -- What every step keeps holds where the examination stopped.
  have ends {kept : Program → Prop} (keeps : Keeps kept (Change.examine options)) (holds : kept start) :
      kept after := by
    have kept := keeps start holds
    rwa [rejected] at kept
  have sound_after : after.Sound symbols :=
    ends (keeps_examine plain (keeps_sound_refineTypes.ite (keeps_pure false))) sound
  refine ⟨run_lower_of_examine rejected, fun noTypes => ?_, symbols, sound_after.table,
    sound_after.verify_iff, fun agrees => sound_after.verify_iff.trans ?_⟩
  · have unchanged : Keeps (· = start) (Change.examine options) := by
      refine keeps_examine plain ?_
      rw [noTypes]
      exact keeps_pure false
    exact ends unchanged rfl
  · constructor
    · intro rules op member isCast
      rw [← Program.verifyOp_cast isCast]
      exact rules op member (by rw [Program.Loose, isCast]; rfl)
    · intro casts op member loose
      rcases Program.Loose.cases loose with isCast | ⟨kind, isKind, isTensor⟩
      · rw [Program.verifyOp_cast isCast]
        exact casts op member isCast
      · exact sound_after.verifyOp_of_agrees member isKind isTensor (agrees op member loose)

/-- A tensor of three numbers becomes known behind a cast that takes it for one of four, and a sum that
cannot be lowered stands last. -/
def misfitting : Program where
  values := #[⟨some "%x", some (.torch (.vtensor ⟨some [some 3], some .f32⟩)), .argument (some ⟨1⟩)⟩,
    ⟨some "%n", some (.torch .int), .argument (some ⟨1⟩)⟩,
    ⟨none, some (.torch .int), .signature⟩,
    ⟨some "%0", some (.torch (.vtensor ⟨some [none], some .f32⟩)), .result ⟨1⟩⟩,
    ⟨some "%1", some (.torch (.vtensor ⟨some [some 4], some .f32⟩)), .result ⟨2⟩⟩,
    ⟨some "%2", some (.torch .int), .result ⟨3⟩⟩]
  operations := #[
    { kind := .module },
    { kind := .torch .relu, operands := [⟨0⟩], results := [⟨3⟩] },
    { kind := .torch .tensorStaticInfoCast, operands := [⟨3⟩], results := [⟨4⟩] },
    { kind := .torch .addInt, operands := [⟨1⟩, ⟨1⟩], results := [⟨5⟩] },
    { kind := .func .ret, operands := [⟨5⟩] },
    { kind := .func .func, results := [⟨2⟩], attributes := Attributes.empty.insert "sym_name" (.symbol "f") }]
  headers := #[{}, { arguments := [⟨0⟩, ⟨1⟩] }]
  root := ⟨0⟩
  regions := .single ⟨0⟩ (.single ⟨5⟩ (.single ⟨1⟩ (.cons ⟨1⟩ .nil (.cons ⟨2⟩ .nil
    (.cons ⟨3⟩ .nil (.single ⟨4⟩ .nil))))))

/-- Operations on whole tensors are wanted, without canonical form. -/
def straightToTosa : LowerOptions := { target := .tosa, canonicalize := false }

/-- The cast is not possible any more when the sum is found. -/
theorem not_valid_misfitting : misfitting.verify = .ok () ∧ ∃ error after,
    (Change.lower straightToTosa).run misfitting = (.error error, after) ∧
      after.verify ≠ .ok () := by
  have formed : misfitting.Formed :=
    { (show misfitting.WellFormed by decide +kernel), (show misfitting.Tabled by decide +kernel) with
      isModule := rfl }
  have single : misfitting.HasSingleBlocks := by
    unfold Program.HasSingleBlocks
    decide +kernel
  have fails : ((Change.examine straightToTosa).run misfitting).1.isOk = false := by
    decide +kernel
  have cast : (⟨2⟩ : OpId) ∈ ((Change.examine straightToTosa).run misfitting).2.tree.ops ∧
      ((Change.examine straightToTosa).run misfitting).2.kind ⟨2⟩ = .torch .tensorStaticInfoCast ∧
      (((Change.examine straightToTosa).run misfitting).2.verifyStaticCast ⟨2⟩).isOk = false := by
    decide +kernel
  rcases rejected : (Change.examine straightToTosa).run misfitting with ⟨error | done, after⟩
  case ok =>
    rw [rejected] at fails
    cases fails
  rw [rejected] at cast
  obtain ⟨lowered, -, symbols, -, valid_iff, -⟩ := verify_iff_of_rejected formed single rfl rfl rejected
  refine ⟨rfl, error, after, lowered, fun valid => ?_⟩
  have kept := valid_iff.mp valid ⟨2⟩ cast.1 (by rw [Program.Loose, cast.2.1]; rfl)
  rw [Program.verifyOp_cast cast.2.1] at kept
  have broken := cast.2.2
  rw [kept] at broken
  cases broken

end TensorIR
