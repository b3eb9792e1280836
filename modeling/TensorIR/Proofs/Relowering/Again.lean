import TensorIR.Proofs.Success
import TensorIR.Proofs.Relowering.Restating

/-!
# Lowering a program that is lowered

In a lowered program that cannot be simplified any further, every pass of a lowering finds nothing to do,
except that functions are given the types that they have. So lowering it succeeds, and all that it changes
is which values state what functions return.

## Main definitions

* `LowerOptions.cleanups` — the rewrites after which a lowering ends

## Main results

* `Program.IsLowered.run_convertSignatures` — functions and calls are given the types that they have
* `Program.IsLowered.run_lower_again` — the text of the program stays the same
-/

namespace TensorIR

/-- The rewrites that are applied as often as possible when everything has been lowered. -/
def LowerOptions.cleanups (options : LowerOptions) : List Rewrite :=
  if options.canonicalize then Rewrite.canonical else [Rewrite.dropDead]

theorem LowerOptions.mem_canonical {options : LowerOptions} {rewrite : Rewrite}
    (among : rewrite ∈ options.cleanups) : rewrite ∈ Rewrite.canonical := by
  unfold cleanups at among
  split at among
  case isTrue => exact among
  case isFalse =>
    cases List.mem_singleton.mp among
    simp [Rewrite.canonical]

theorem LowerOptions.exhaust_cleanups (options : LowerOptions) : Rewrite.exhaust options.cleanups =
    if options.canonicalize then Change.canonicalize else Change.dropDead := by
  unfold cleanups
  split
  · rfl
  · rfl

/-! ### Types of lowered programs -/

theorem map_eq_of_mapM_eq_ok {α β : Type} {find : α → Except Error β} {items : List α} {found : List β}
    (run : items.mapM find = .ok found) : items.map find = found.map .ok := by
  have each := forall₂_of_mapM_eq_ok run
  clear run
  induction each with
  | nil => rfl
  | cons isFound _ ih => rw [List.map_cons, List.map_cons, isFound, ih]

/-- A loop whose steps leave the state alone leaves it alone. -/
theorem run_forIn_of_idle {σ α : Type} {step : α → PUnit → ExceptT Error (StateM σ) (ForInStep PUnit)}
    {items : List α} {state : σ}
    (idle : ∀ item ∈ items, (step item ⟨⟩).run state = (.ok (.yield ⟨⟩), state)) :
    (forIn items PUnit.unit step).run state = (.ok ⟨⟩, state) := by
  induction items with
  | nil => rfl
  | cons item items ih =>
    obtain ⟨here, later⟩ := List.forall_mem_cons.mp idle
    rw [List.forIn_cons, run_bind, here]
    exact ih later

theorem Target.counterpart_of_plain {type : Ty} (target : Target) (plain : type.torch? = none) :
    target.counterpart type = .ok type := by
  cases type with
  | torch type => cases plain
  | scalar type => rfl
  | shaped type => rfl

namespace Program

variable {program start now : Program} {op : OpId} {value : ValueId}

/-- Giving a value the type that it has changes nothing. -/
theorem setType_eq_self {type : Ty} (typed : program.typeOf? value = some type) :
    program.setType value type = program := by
  have below := Program.lt_of_typeOf? typed
  have same : program.values.modify value.index (fun entry => { entry with type := some type }) =
      program.values := by
    apply Array.ext
    · simp
    · intro index _ inside
      rw [Array.getElem_modify]
      split
      case isTrue here =>
        subst here
        have entry : program.value value = program.values[value.index] := by
          simp [Program.value, Array.getD_eq_getD_getElem?, below]
        rw [Program.typeOf?, entry] at typed
        simp [← typed]
      case isFalse => rfl
  unfold Program.setType Program.modifyValue
  rw [same]

theorem setTypes_eq_self {types : List (ValueId × Ty)}
    (typed : ∀ pair ∈ types, program.typeOf? pair.1 = some pair.2) : program.setTypes types = program := by
  induction types with
  | nil => rfl
  | cons first types ih =>
    obtain ⟨here, later⟩ := List.forall_mem_cons.mp typed
    rw [setTypes_cons, setType_eq_self here, ih later]

/-- The types of values none of which is of torch are their own counterparts. -/
theorem exists_types (target : Target) {values : List ValueId} (plain : ∀ value ∈ values, program.Plain value) :
    ∃ types, values.mapM program.typed = .ok types ∧ types.mapM target.counterpart = .ok types ∧
      types.length = values.length ∧ ∀ pair ∈ values.zip types, program.typeOf? pair.1 = some pair.2 := by
  induction values with
  | nil => exact ⟨[], rfl, rfl, rfl, by simp⟩
  | cons value values ih =>
    obtain ⟨⟨type, typed, noTorch⟩, others⟩ := List.forall_mem_cons.mp plain
    obtain ⟨types, areTypes, same, length, each⟩ := ih others
    refine ⟨type :: types, ?_, ?_, by simp [length], ?_⟩
    · rw [List.mapM_cons, typed_of_typeOf? typed, areTypes]
      rfl
    · rw [List.mapM_cons, target.counterpart_of_plain noTorch, same]
      rfl
    · rw [List.zip_cons_cons]
      exact List.forall_mem_cons.mpr ⟨typed, each⟩

/-! ### What a function returns -/

section Outputs

variable {outputs : List Ty}

theorem size_withOutputs (program : Program) (op : OpId) (outputs : List Ty) :
    (program.withOutputs op outputs).values.size = program.values.size + outputs.length := by
  rw [withOutputs_eq]
  simp [Program.modifyOperation]

theorem operation_withOutputs (other : OpId) : (program.withOutputs op outputs).operation other =
    if op = other ∧ other.index < program.operations.size then
      { program.operation other with results := program.freshValues outputs.length }
    else program.operation other := by
  rw [withOutputs_eq]
  exact Program.operation_modifyOperation ..

/-- New values state what the function returns. -/
theorem value_output_withOutputs {index : Nat} (below : index < outputs.length) :
    (program.withOutputs op outputs).value ⟨program.values.size + index⟩ =
      ⟨none, some outputs[index], .signature⟩ := by
  rw [withOutputs_eq]
  simp [Program.value, Program.modifyOperation, Array.getD_eq_getD_getElem?, below]

/-- These values have the given types. -/
theorem typed_freshValues_withOutputs : (program.freshValues outputs.length).map
    (program.withOutputs op outputs).typed = outputs.map .ok := by
  apply List.ext_getElem
  · simp [Program.freshValues]
  · intro index _ inside
    have below : index < outputs.length := by simpa using inside
    have given : (program.withOutputs op outputs).typeOf? ⟨program.values.size + index⟩ = some outputs[index] := by
      rw [Program.typeOf?, value_output_withOutputs below]
    simpa [Program.freshValues] using typed_of_typeOf? given

end Outputs

end Program

/-! ### Functions and calls -/

section Signatures

variable {start now : Program} {op : OpId} {target : Target}

/-- What a function returns has types of lowered programs. -/
theorem Program.Restates.plain_output (restates : start.Restates now) (lowered : start.IsLowered)
    (member : op ∈ start.tree.ops) (isFunction : start.kind op = .func .func) {value : ValueId}
    (among : value ∈ now.results op) : now.Plain value := by
  have typed : now.typed value ∈ (now.results op).map now.typed := List.mem_map_of_mem among
  rw [restates.outputs op member isFunction, List.mem_map] at typed
  obtain ⟨before, isOutput, same⟩ := typed
  obtain ⟨type, isType, noTorch⟩ := lowered.outputs before ⟨op, member, isFunction, isOutput⟩
  rw [Program.typed_of_typeOf? isType] at same
  exact ⟨type, Program.typeOf?_of_typed same.symm, noTorch⟩

/-- Other values of the same types may state what a function returns. -/
theorem Program.Restates.withOutputs (restates : start.Restates now) (isFunction : start.kind op = .func .func)
    (lowered : start.IsLowered) {outputs : List Ty} (typed : now.typedResults op = .ok outputs) :
    start.Restates (now.withOutputs op outputs) where
  same := by
    rw [withOutputs_eq, restates.same]
    rfl
  operations := by
    rw [withOutputs_eq, ← restates.operations]
    exact Array.size_modify ..
  operation_eq other := by
    rw [Program.results, operation_withOutputs, restates.operation_eq other]
    split <;> rfl
  results_eq other notFunction := by
    have other_ne : op ≠ other := by
      rintro rfl
      exact notFunction isFunction
    rw [Program.results, operation_withOutputs, if_neg fun both => other_ne both.1]
    exact restates.results_eq other notFunction
  outputs other member otherFunction := by
    rw [← restates.outputs other member otherFunction, Program.results, operation_withOutputs]
    split
    case isTrue same =>
      -- The new values have the types that the old ones have had.
      obtain ⟨rfl, -⟩ := same
      have before : (now.results op).map now.typed = outputs.map .ok :=
        map_eq_of_mapM_eq_ok typed
      rw [before]
      exact typed_freshValues_withOutputs
    case isFalse =>
      refine List.map_congr_left fun value among => Program.typed_congr (value_withOutputs ?_)
      exact (restates.plain_output lowered member otherFunction among).lt
  values_le := by
    rw [size_withOutputs]
    exact restates.values_le.trans (Nat.le_add_right _ _)
  value_eq value inside := by
    rw [value_withOutputs (inside.trans_le restates.values_le), restates.value_eq value inside]

/-- A function is given the types that it has. -/
theorem Program.Restates.run_convertFunction (restates : start.Restates now) (lowered : start.IsLowered)
    (member : op ∈ start.tree.ops) (isFunction : start.kind op = .func .func) :
    ∃ next, (Change.convertFunction target op).run now = (.ok (), next) ∧ start.Restates next := by
  obtain ⟨block, body, entry, arguments⟩ := lowered.inputs op member isFunction
  have isBody : now.functionBody op = .ok (block, body) := by
    rw [Program.functionBody, restates.entryOf?_eq, entry]
  have plain (argument : ValueId) (among : argument ∈ (now.header block).arguments) : now.Plain argument := by
    rw [restates.header_eq] at among
    exact restates.plain (arguments argument among)
  obtain ⟨inputs, areInputs, sameInputs, -, given⟩ := Program.exists_types target plain
  obtain ⟨outputs, areOutputs, sameOutputs, -, -⟩ := Program.exists_types target fun value among =>
    restates.plain_output lowered member isFunction among
  have signature : now.loweredSignature target op = .ok (.ok inputs, .ok outputs) :=
    loweredSignature_eq_ok_iff.mpr
      ⟨block, body, inputs, outputs, isBody, areInputs, sameInputs, areOutputs, sameOutputs⟩
  refine ⟨_, TensorIR.run_convertFunction signature isBody, ?_⟩
  rw [Program.setTypes_eq_self given]
  exact restates.withOutputs isFunction lowered areOutputs

/-- The results of a call are given the types that they have. -/
theorem Program.Restates.run_convertCall (restates : start.Restates now) (lowered : start.IsLowered)
    (member : op ∈ start.tree.ops) (isCall : start.kind op = .func .call) :
    (Change.convertCall target op).run now = (.ok (), now) := by
  have plain (result : ValueId) (among : result ∈ now.results op) : now.Plain result := by
    rw [restates.results_eq op (by simp [isCall])] at among
    exact restates.plain (lowered.calls op member isCall result among)
  unfold Change.convertCall
  rw [run_bind, Change.run_ask]
  refine run_bind_of_ok (run_forIn_of_idle fun result among => ?_)
  obtain ⟨type, typed, noTorch⟩ := plain result among
  have same : (now.typed result >>= target.counterpart) = .ok type := by
    rw [Program.typed_of_typeOf? typed]
    exact target.counterpart_of_plain noTorch
  rw [run_bind, Change.run_program]
  simp only [same]
  rw [run_bind, run_modify, Program.setType_eq_self typed]
  rfl

theorem Program.Restates.run_convertOp (restates : start.Restates now) (lowered : start.IsLowered)
    (member : op ∈ start.tree.ops) :
    ∃ next, (Change.convertOp target op).run now = (.ok (), next) ∧ start.Restates next := by
  unfold Change.convertOp
  rw [run_bind, Change.run_ask, restates.kind_eq]
  simp only []
  split
  case h_1 isFunction => exact restates.run_convertFunction lowered member isFunction
  case h_2 isCall => exact ⟨now, restates.run_convertCall lowered member isCall, restates⟩
  case h_3 => exact ⟨now, rfl, restates⟩

theorem Program.Restates.run_convertEach {ops : List OpId} (restates : start.Restates now)
    (lowered : start.IsLowered) (members : ∀ op ∈ ops, op ∈ start.tree.ops) :
    ∃ next, (Change.convertEach target ops).run now = (.ok (), next) ∧ start.Restates next := by
  induction ops generalizing now with
  | nil => exact ⟨now, rfl, restates⟩
  | cons op ops ih =>
    obtain ⟨here, later⟩ := List.forall_mem_cons.mp members
    obtain ⟨middle, converted, restated⟩ := restates.run_convertOp lowered here
    obtain ⟨next, run, restates⟩ := ih restated later
    exact ⟨next, (run_bind_of_ok converted).trans run, restates⟩

/-- Functions and calls are given the types that they have. -/
theorem Program.IsLowered.run_convertSignatures (lowered : start.IsLowered) (target : Target) :
    ∃ next, (Change.convertSignatures target).run start = (.ok (), next) ∧ start.Restates next := by
  unfold Change.convertSignatures
  rw [run_bind, Change.run_ask]
  exact (Program.Restates.refl start).run_convertEach lowered fun _ member => member

end Signatures

/-! ### The other passes -/

section Passes

variable {program : Program} {options : LowerOptions}

theorem Program.ensureLegal_eq_ok (noTorch : ∀ op ∈ program.tree.ops, (program.kind op).isTorch = false)
    (target : Target) : program.ensureLegal target = .ok () := by
  have legal (op : OpId) (member : op ∈ program.tree.ops) : program.checkLegal target op = .ok () := by
    have isOther := noTorch op member
    unfold Program.checkLegal
    split
    case h_1 kind isTorch => simp [isTorch, OpKind.isTorch] at isOther
    case h_2 => rfl
  unfold Program.ensureLegal
  generalize program.tree.ops = ops at legal
  induction ops with
  | nil => rfl
  | cons op ops ih =>
    obtain ⟨here, later⟩ := List.forall_mem_cons.mp legal
    change (do program.checkLegal target op; ops.forM (program.checkLegal target)) = .ok ()
    rw [here]
    exact ih later

theorem Program.ensureLowered_eq_ok (noTorch : ∀ op ∈ program.tree.ops, (program.kind op).isTorch = false)
    (target : Target) : program.ensureLowered target = .ok () := by
  have none : program.tree.ops.find? (fun op => (program.kind op).isTorch) = none :=
    List.find?_eq_none.mpr fun op member => by simp [noTorch op member]
  rw [Program.ensureLowered, none]

/-- No type follows for an operation that is not of torch. -/
theorem run_refine (noTorch : (program.kind op).isTorch = false) :
    (Rewrite.refine op).run program = (.ok false, program) := by
  have nothing : program.refinements op = .ok [] := by
    unfold Program.refinements
    rw [if_neg]
    cases kind : program.kind op with
    | torch => simp [kind, OpKind.isTorch] at noTorch
    | _ => simp [OpKind.allowsRefinement]
  unfold Rewrite.refine
  rw [run_bind, Change.run_askFor, nothing]
  rfl

theorem run_refineTypes (noTorch : ∀ op ∈ program.tree.ops, (program.kind op).isTorch = false) :
    Change.refineTypes.run program = (.ok false, program) := by
  refine Rewrite.exhaust_eq_ok_false fun rewrite among op member => ?_
  cases List.mem_singleton.mp among
  exact run_refine (noTorch op member)

/-- Where nothing is of torch, nothing is lowered. -/
theorem run_convert (noTorch : ∀ op ∈ program.tree.ops, (program.kind op).isTorch = false) (target : Target) :
    (Change.convert target).run program = (.ok (false, {}), program) := by
  have idle (isDue : Program → OpId → TorchKind → Bool) (lower : OpId → TorchKind → Lowering Unit) :
      Lowering.exec (Lowering.exhaust isDue lower) (program, {}) = (.ok (false, {}), program) := by
    have outcome : Lowering.Outcome isDue lower (program, {}) _ := Lowering.outcome_lowerFirst (program, {})
    have never {op : OpId} {kind : TorchKind} (next : Lowering.IsNext isDue program op kind) : False := by
      have isOther := noTorch op next.mem
      simp [next.isKind, OpKind.isTorch] at isOther
    unfold Lowering.exhaust Rewrite.untilStable
    cases Rewrite.limit with
    | zero => rfl
    | succ fuel =>
      rw [Rewrite.repeatWithin, Lowering.exec_bind]
      generalize Lowering.exec (Lowering.lowerFirst isDue lower) (program, {}) = result at outcome
      cases outcome with
      | idle => rfl
      | lowered next => exact (never next).elim
      | failed next => exact (never next).elim
  cases target with
  | loops => exact idle Lowering.isDueForLoops Lowering.opToLoops
  | tosa => exact idle Lowering.isDueForTosa Lowering.opToTosa

end Passes

/-! ### All passes together -/

section Lower

variable {program : Program} {options : LowerOptions}

theorem run_askFor_of_ok {question : Program → Except Error Unit} (answer : question program = .ok ()) :
    (Change.askFor question).run program = (.ok (), program) := by
  rw [Change.run_askFor, answer]

theorem run_ite {α : Type} {condition : Prop} [Decidable condition] {first second : Change α}
    {result : Except Error α × Program} (onTrue : condition → first.run program = result)
    (onFalse : second.run program = result) : (if condition then first else second).run program = result := by
  split
  case isTrue holds => exact onTrue holds
  case isFalse => exact onFalse

/-- A lowered program is ready to be lowered. -/
theorem Program.IsLowered.run_prepare (lowered : program.IsLowered)
    (settled : ∀ rewrite ∈ options.cleanups, ∀ op ∈ program.tree.ops,
      (rewrite op).run program = (.ok false, program)) :
    ∃ next, (Change.prepare options).run program = (.ok (), next) ∧ program.Restates next := by
  obtain ⟨next, signatures, restates⟩ := lowered.run_convertSignatures options.target
  refine ⟨next, ?_, restates⟩
  have canonical (wanted : options.canonicalize = true) : Change.canonicalize.run program = (.ok false, program) := by
    refine Rewrite.exhaust_eq_ok_false fun rewrite among => settled rewrite ?_
    rw [LowerOptions.cleanups, if_pos wanted]
    exact among
  have refined (_ : options.refineTypes = true) := run_refineTypes lowered.noTorch
  have legal := Program.ensureLegal_eq_ok lowered.noTorch options.target
  rw [Change.prepare_eq]
  refine (run_bind_of_ok (run_askFor_of_ok lowered.valid)).trans ?_
  refine (run_bind_of_ok (run_ite canonical rfl)).trans ?_
  refine (run_bind_of_ok (run_ite refined rfl)).trans ?_
  exact (run_bind_of_ok (run_askFor_of_ok legal)).trans signatures

/-- Lowering a lowered program in which nothing is left to be cleaned up leaves its text alone. -/
theorem Program.IsLowered.run_lower_again (lowered : program.IsLowered)
    (settled : ∀ rewrite ∈ options.cleanups, ∀ op ∈ program.tree.ops,
      (rewrite op).run program = (.ok false, program)) :
    ∃ next, (Change.lower options).run program = (.ok ⟨false, {}⟩, next) ∧ next.text = program.text := by
  obtain ⟨next, prepared, restates⟩ := lowered.run_prepare settled
  have noTorch (op : OpId) (member : op ∈ next.tree.ops) : (next.kind op).isTorch = false := by
    rw [restates.tree_eq] at member
    rw [restates.kind_eq]
    exact lowered.noTorch op member
  have cleaned : (Rewrite.exhaust options.cleanups).run next = (.ok false, next) := by
    refine Rewrite.exhaust_eq_ok_false fun rewrite among op member => ?_
    rw [restates.tree_eq] at member
    exact restates.settled lowered (LowerOptions.mem_canonical among) member (settled rewrite among op member)
  have finished : (Change.finish options).run next = (.ok (), next) := by
    rw [Change.finish_eq, ← options.exhaust_cleanups]
    refine (run_bind_of_ok cleaned).trans ?_
    refine (run_bind_of_ok (run_askFor_of_ok (Program.ensureLowered_eq_ok noTorch options.target))).trans ?_
    exact run_askFor_of_ok (restates.verify_eq_ok lowered)
  have text := restates.text_eq lowered
  refine ⟨next, ?_, text⟩
  unfold Change.lower
  rw [run_bind, Change.run_ask]
  refine (run_bind_of_ok prepared).trans ((run_bind_of_ok (run_convert noTorch options.target)).trans ?_)
  refine (run_bind_of_ok finished).trans ?_
  rw [run_bind, Change.run_ask]
  simp [text]

end Lower

end TensorIR
