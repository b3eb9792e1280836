import TensorIR.Proofs.Refinement.Settling
import TensorIR.Proofs.Relowering.Again
import TensorIR.Proofs.Relowering.Converting
import TensorIR.Proofs.Scalar.Correctness

/-!
# Lowering is idempotent

Before functions get types of lowered programs, operations use values that have entries in the table. What
functions return then is stated by values with new entries, so no operation uses these. Functions and calls
have types of lowered programs from there on.

What a lowering ends with is a lowered program: nothing in it is of torch, and no operation has come to use a
value that only states what a function returns. If the rewriting at the end has stopped by itself, nothing is
left to be cleaned up either, so lowering the program once more leaves its text alone.

## Main definitions

* `Program.Grounded` — a module around everything else, and operations that use values with entries
* `Program.Signs` — a program in which some functions and calls have got other types
* `Program.IsSigned` — an operation has types of lowered programs if it is a function or a call
* `LowerOptions.CleansUp` — the rewriting at the end of a lowering stops by itself

## Main results

* `carries_grounded_canonicalize`, `carries_grounded_refineTypes` — what is done before
* `Program.Grounded.convertSignatures` — all functions and calls get types of lowered programs
* `Program.Grounded.upholds` — no operation uses what states the results of functions
* `isLowered_of_lower` — a lowering ends with a lowered program
* `lower_settles` — lowering the program again changes nothing that can be read
-/

namespace TensorIR

section Signatures

/-- A well-formed program with a module around everything else, whose operations use values that have entries. -/
structure Program.Grounded (program : Program) : Prop where
  formed : program.WellFormed
  isModule : program.kind program.root = .module
  operands : ∀ op, ∀ operand ∈ program.operands op, operand.index < program.values.size

variable {program start middle now after : Program} {op : OpId} {value : ValueId}

theorem Program.Formed.grounded (formed : program.Formed) : program.Grounded where
  formed := formed.toWellFormed
  isModule := formed.isModule
  operands := formed.operands

theorem Program.Grounded.follow {allowed : OpKind → Prop} (grounded : program.Grounded)
    (evolves : program.Evolves allowed after)
    (operands : ∀ op, ∀ operand ∈ after.operands op, operand.index < after.values.size) : after.Grounded where
  formed := evolves.wellFormed grounded.formed
  isModule := evolves.isModule grounded.formed grounded.isModule
  operands := operands

/-! ### Before functions get their types -/

theorem carries_grounded_canonicalize : Carries Program.Grounded Change.canonicalize := by
  refine carries_exhaust Rewrite.idle_canonical fun rewrite among op program after grounded present run => ?_
  have evolving : EvolvingAt (fun _ => True) op (rewrite op) :=
    evolvingAt_canonical trivial (fun _ _ => trivial) among op
  have evolved := evolving.of_run grounded.formed present run
  have spares : program.Spares (·.index < after.values.size) program :=
    .refl fun op operand isOperand => (grounded.operands op operand isOperand).trans_le evolved.values_le
  exact grounded.follow evolved (spares.canonical grounded.formed among present run fun _ _ below => below).operands

/-- The users of a result that gets a more precise type may use a cast in its place. -/
theorem Program.Grounded.refineResult {refinement : Refinement} (grounded : program.Grounded)
    (present : op ∈ program.tree.ops) (allows : (program.kind op).allowsRefinement = true)
    (isResult : refinement.result ∈ program.results op)
    (run : (Rewrite.refineResult op refinement).run program = (.ok (), after)) : after.Grounded := by
  have evolving : Evolving (fun _ => True) (Rewrite.refineResult op refinement) :=
    evolving_refineResult trivial op refinement
  obtain ⟨-, notModule, notFunction⟩ := OpKind.of_allowsRefinement allows
  have notRoot : op ≠ program.root := fun isRoot => notModule (isRoot ▸ grounded.isModule)
  have below := (grounded.formed.owns_results present notFunction).lt _ isResult
  have refined := refined_of_run notRoot below run
  exact grounded.follow (evolving.of_run grounded.formed run) fun _ _ =>
    refined.lt_of_operand below grounded.operands

theorem carries_grounded_refineTypes : Carries Program.Grounded Change.refineTypes := by
  refine carries_exhaust (fun rewrite member => ?_) fun rewrite member => ?_
  all_goals cases List.mem_singleton.mp member
  · exact Rewrite.idle_refine
  · intro op program after grounded present run
    obtain ⟨refinement, found, allows, refined⟩ := of_refine_eq_ok run
    exact grounded.refineResult present allows (of_refinements found List.mem_cons_self).2 refined

/-! ### Types of functions and calls -/

/-- A new value of a type of lowered programs that only states what a function returns. -/
def Program.States (count : Nat) (program : Program) (value : ValueId) : Prop :=
  count ≤ value.index ∧ (program.value value).origin = .signature ∧ program.Plain value

/-- A function or a call has types of lowered programs. What a function returns is stated by values that have
come after the given number of them. -/
structure Program.IsSigned (count : Nat) (program : Program) (op : OpId) : Prop where
  inputs : program.kind op = .func .func → ∃ block, (op, some block) ∈ program.tree.entrances ∧
    ∀ argument ∈ (program.header block).arguments, program.Plain argument
  outputs : program.kind op = .func .func → ∀ value ∈ program.results op, program.States count value
  call : program.kind op = .func .call → ∀ result ∈ program.results op, program.Plain result

theorem Program.IsSigned.mono {count more : Nat} (signed : program.IsSigned more op) (le : count ≤ more) :
    program.IsSigned count op :=
  ⟨signed.inputs, fun isFunction value among => ⟨le.trans (signed.outputs isFunction value among).1,
    (signed.outputs isFunction value among).2⟩, signed.call⟩

theorem Program.states_withOutputs {outputs : List Ty} (noTorch : ∀ type ∈ outputs, type.torch? = none)
    (among : value ∈ program.freshValues outputs.length) :
    (program.withOutputs op outputs).States program.values.size value := by
  obtain ⟨index, inRange, rfl⟩ := List.mem_map.mp among
  rw [List.mem_range'_1] at inRange
  obtain ⟨offset, rfl⟩ := Nat.exists_eq_add_of_le inRange.1
  have below : offset < outputs.length := by omega
  have isValue : (program.withOutputs op outputs).value ⟨program.values.size + offset⟩ =
      ⟨none, some outputs[offset], .signature⟩ := Program.value_output_withOutputs below
  refine ⟨inRange.1, by rw [isValue], outputs[offset], ?_, noTorch _ (List.getElem_mem below)⟩
  rw [Program.typeOf?, isValue]

/-- A program in which some values have got types of lowered programs, and new values state what some functions
return. -/
structure Program.Signs (start now : Program) : Prop where
  tree_eq : now.tree = start.tree
  headers_eq : now.headers = start.headers
  kind_eq : ∀ op, now.kind op = start.kind op
  operands_eq : ∀ op, now.operands op = start.operands op
  values_le : start.values.size ≤ now.values.size
  origin_eq : ∀ value : ValueId, value.index < start.values.size →
    (now.value value).origin = (start.value value).origin
  plain : ∀ value, start.Plain value → now.Plain value
  results : ∀ op, now.results op = start.results op ∨
    start.kind op = .func .func ∧ ∀ value ∈ now.results op, now.States start.values.size value

namespace Program.Signs

theorem refl (program : Program) : program.Signs program where
  tree_eq := rfl
  headers_eq := rfl
  kind_eq _ := rfl
  operands_eq _ := rfl
  values_le := le_rfl
  origin_eq _ _ := rfl
  plain _ := id
  results _ := .inl rfl

theorem states (signs : start.Signs now) {count : Nat} (states : start.States count value) :
    now.States count value := by
  obtain ⟨above, origin, plain⟩ := states
  exact ⟨above, (signs.origin_eq value plain.lt).trans origin, signs.plain value plain⟩

theorem trans (first : start.Signs middle) (second : middle.Signs now) : start.Signs now where
  tree_eq := second.tree_eq.trans first.tree_eq
  headers_eq := second.headers_eq.trans first.headers_eq
  kind_eq op := (second.kind_eq op).trans (first.kind_eq op)
  operands_eq op := (second.operands_eq op).trans (first.operands_eq op)
  values_le := first.values_le.trans second.values_le
  origin_eq value below :=
    (second.origin_eq value (below.trans_le first.values_le)).trans (first.origin_eq value below)
  plain value plain := second.plain value (first.plain value plain)
  results op := by
    rcases second.results op with same | ⟨isFunction, states⟩
    · rw [same]
      exact (first.results op).imp_right fun both =>
        ⟨both.1, fun value among => second.states (both.2 value among)⟩
    · refine .inr ⟨first.kind_eq op ▸ isFunction, fun value among => ?_⟩
      exact ⟨first.values_le.trans (states value among).1, (states value among).2⟩

/-- What has types of lowered programs keeps them. -/
theorem isSigned (signs : start.Signs now) {count : Nat} (above : count ≤ start.values.size)
    (signed : start.IsSigned count op) : now.IsSigned count op where
  inputs isFunction := by
    obtain ⟨block, entrance, plain⟩ := signed.inputs (signs.kind_eq op ▸ isFunction)
    refine ⟨block, signs.tree_eq ▸ entrance, fun argument among => signs.plain argument (plain argument ?_)⟩
    rwa [Program.header, ← signs.headers_eq]
  outputs isFunction value among := by
    rcases signs.results op with same | ⟨-, states⟩
    · exact signs.states (signed.outputs (signs.kind_eq op ▸ isFunction) value (same ▸ among))
    · exact ⟨above.trans (states value among).1, (states value among).2⟩
  call isCall result among := by
    rw [signs.kind_eq] at isCall
    rcases signs.results op with same | ⟨isFunction, -⟩
    · exact signs.plain result (signed.call isCall result (same ▸ among))
    · rw [isCall] at isFunction
      cases isFunction

theorem setType (program : Program) (value : ValueId) {type : Ty} (noTorch : type.torch? = none) :
    program.Signs (program.setType value type) where
  tree_eq := rfl
  headers_eq := rfl
  kind_eq _ := rfl
  operands_eq _ := rfl
  values_le := (Array.size_modify ..).ge
  origin_eq other _ := by
    rw [Program.setType, Program.value_modifyValue]
    split <;> rfl
  plain _ plain := plain.setType noTorch
  results _ := .inl rfl

theorem setTypes (program : Program) {types : List (ValueId × Ty)}
    (noTorch : ∀ pair ∈ types, pair.2.torch? = none) : program.Signs (program.setTypes types) := by
  induction types generalizing program with
  | nil => exact refl program
  | cons pair types ih =>
    obtain ⟨here, later⟩ := List.forall_mem_cons.mp noTorch
    exact (setType program pair.1 here).trans (ih _ later)

/-- The values that state what a function returns are new. -/
theorem withOutputs (isFunction : program.kind op = .func .func) {outputs : List Ty}
    (noTorch : ∀ type ∈ outputs, type.torch? = none) : program.Signs (program.withOutputs op outputs) where
  tree_eq := tree_withOutputs program op outputs
  headers_eq := by rw [withOutputs_eq]; rfl
  kind_eq other := by
    rw [Program.kind, Program.operation_withOutputs]
    split <;> rfl
  operands_eq other := operands_withOutputs program op other outputs
  values_le := by
    rw [Program.size_withOutputs]
    exact Nat.le_add_right _ _
  origin_eq value below := by rw [value_withOutputs below]
  plain value plain := plain.congr (value_withOutputs plain.lt)
  results other := by
    rw [Program.results, Program.operation_withOutputs]
    split
    case isFalse => exact .inl rfl
    case isTrue same => exact .inr ⟨same.1 ▸ isFunction, fun value => Program.states_withOutputs noTorch⟩

end Program.Signs

/-! ### Functions and calls get types of lowered programs -/

theorem Target.torch?_of_counterpart {target : Target} {type lowered : Ty}
    (isLowered : target.counterpart type = .ok lowered) : lowered.torch? = none := by
  unfold Target.counterpart at isLowered
  obtain ⟨found, isFound, isLowered⟩ := of_bind_eq_ok isLowered
  cases found with
  | none => cases isLowered
  | some found =>
    cases isLowered
    exact Target.torch?_of_lowered? isFound

theorem signs_convertFunction {target : Target} (formed : program.WellFormed) (present : op ∈ program.tree.ops)
    (isFunction : program.kind op = .func .func)
    (run : (Change.convertFunction target op).run program = (.ok (), after)) :
    program.Signs after ∧ after.IsSigned program.values.size op := by
  rcases convertFunction_cases target program op with
    ⟨-, failed⟩ | ⟨inputs, outputs, block, body, lowered, isBody, same⟩
  · rw [run] at failed
    exact absurd rfl failed
  obtain ⟨-, rfl⟩ := Prod.mk.inj (run.symm.trans same)
  obtain ⟨_, _, taken, given, isEntry, areTaken, areInputs, -, areOutputs⟩ :=
    loweredSignature_eq_ok_iff.mp lowered
  rw [isBody] at isEntry
  cases isEntry
  have entry := entryOf?_of_functionBody isBody
  obtain ⟨below, owns⟩ := formed.knows _ (formed.entry_mem present entry).1
  have length_eq : inputs.length = (program.header block).arguments.length :=
    ((forall₂_of_mapM_eq_ok areTaken).length_eq.trans (forall₂_of_mapM_eq_ok areInputs).length_eq).symm
  have names : ((program.header block).arguments.zip inputs).map Prod.fst = (program.header block).arguments :=
    List.map_fst_zip length_eq.ge
  -- No type of the new signature is a torch type, as each is the counterpart of one.
  have lowers (pair : ValueId × Ty) (among : pair ∈ (program.header block).arguments.zip inputs) :
      pair.2.torch? = none :=
    have ⟨_, _, isLowered⟩ := of_loweredSignature lowered isBody among
    Target.torch?_of_counterpart isLowered
  have noTorch (type : Ty) (among : type ∈ outputs) : type.torch? = none :=
    have ⟨_, _, isLowered⟩ := mem_of_mapM_eq_ok areOutputs among
    Target.torch?_of_counterpart isLowered
  have typed := Program.Signs.setTypes program lowers
  have kind := (typed.kind_eq op).trans isFunction
  have stated := Program.Signs.withOutputs kind noTorch
  have signs := typed.trans stated
  refine ⟨signs, fun _ => ⟨block, ?_, fun argument among => ?_⟩, fun _ value among => ?_, fun isCall => ?_⟩
  · rw [signs.tree_eq, formed.mem_entrances_iff present, entry]
    rfl
  · rw [Program.header, signs.headers_eq] at among
    have isPaired := names.symm ▸ among
    obtain ⟨⟨_, type⟩, paired, rfl⟩ := List.mem_map.mp isPaired
    refine stated.plain _ ⟨type, ?_, lowers _ paired⟩
    exact typeOf?_setTypes_of_mem (names.symm ▸ owns.nodup) paired program (owns.lt _ among)
  · have inTable : op.index < (program.setTypes ((program.header block).arguments.zip inputs)).operations.size :=
      operations_setTypes program _ ▸ (formed.knows _ (Body.op_mem_parts.mpr present)).1
    rw [Program.results, Program.operation_withOutputs, if_pos ⟨rfl, inTable⟩] at among
    rw [← values_setTypes program ((program.header block).arguments.zip inputs)]
    exact Program.states_withOutputs noTorch among
  · rw [signs.kind_eq, isFunction] at isCall
    cases isCall

/-- Each result of a call gets the counterpart of its type. -/
theorem signs_convertResults {target : Target} {results : List ValueId}
    (run : (forIn results PUnit.unit fun result _ => do
      let now ← Change.program
      match now.typed result >>= target.counterpart with
      | .ok type =>
        modify fun program => program.setType result type
        pure (ForInStep.yield PUnit.unit)
      | .error error =>
        throw (now.unsupported op error.message)
        pure (ForInStep.yield PUnit.unit) : Change PUnit).run program = (.ok ⟨⟩, after)) :
    program.Signs after ∧ ∀ result ∈ results, after.Plain result := by
  induction results generalizing program with
  | nil =>
    cases run
    exact ⟨.refl _, fun _ => (absurd · List.not_mem_nil)⟩
  | cons result results ih =>
    rw [List.forIn_cons] at run
    obtain ⟨next, middle, here, later⟩ := of_run_bind_eq_ok run
    rw [run_bind, Change.run_program] at here
    simp only [] at here
    split at here
    case h_2 => cases here
    case h_1 type isLowered =>
      rw [run_bind, run_modify] at here
      cases here
      obtain ⟨old, typed, isCounterpart⟩ := of_bind_eq_ok isLowered
      have noTorch := Target.torch?_of_counterpart isCounterpart
      have first := Program.Signs.setType program result noTorch
      obtain ⟨signs, plain⟩ := ih later
      refine ⟨first.trans signs, List.forall_mem_cons.mpr ⟨signs.plain result ⟨type, ?_, noTorch⟩, plain⟩⟩
      rw [typeOf?_setType, if_pos ⟨rfl, Program.lt_of_typeOf? (Program.typeOf?_of_typed typed)⟩]

theorem signs_convertCall {target : Target} (isCall : program.kind op = .func .call)
    (run : (Change.convertCall target op).run program = (.ok (), after)) :
    program.Signs after ∧ after.IsSigned program.values.size op := by
  unfold Change.convertCall at run
  rw [run_bind, Change.run_ask] at run
  simp only [] at run
  obtain ⟨⟨⟩, middle, ran, run⟩ := of_run_bind_eq_ok run
  cases run
  obtain ⟨signs, plain⟩ := signs_convertResults ran
  have notFunction : after.kind op ≠ .func .func := by simp [signs.kind_eq, isCall]
  refine ⟨signs, fun isFunction => absurd isFunction notFunction,
    fun isFunction => absurd isFunction notFunction, fun _ result among => plain result ?_⟩
  rcases signs.results op with same | ⟨isFunction, -⟩
  · exact same ▸ among
  · exact absurd ((signs.kind_eq op).trans isFunction) notFunction

theorem signs_convertOp {target : Target} (formed : program.WellFormed) (present : op ∈ program.tree.ops)
    (run : (Change.convertOp target op).run program = (.ok (), after)) :
    program.Signs after ∧ after.IsSigned program.values.size op := by
  unfold Change.convertOp at run
  rw [run_bind, Change.run_ask] at run
  simp only [] at run
  split at run
  case h_1 isFunction => exact signs_convertFunction formed present isFunction run
  case h_2 isCall => exact signs_convertCall isCall run
  case h_3 notFunction notCall =>
    cases run
    exact ⟨.refl program, fun isFunction => absurd isFunction notFunction,
      fun isFunction => absurd isFunction notFunction, fun isCall => absurd isCall notCall⟩

theorem signs_convertEach {target : Target} {ops : List OpId} (formed : program.WellFormed)
    (members : ∀ op ∈ ops, op ∈ program.tree.ops)
    (run : (Change.convertEach target ops).run program = (.ok (), after)) :
    program.Signs after ∧ ∀ op ∈ ops, after.IsSigned program.values.size op := by
  induction ops generalizing program with
  | nil =>
    cases run
    exact ⟨.refl _, fun _ => (absurd · List.not_mem_nil)⟩
  | cons op ops ih =>
    obtain ⟨here, later⟩ := List.forall_mem_cons.mp members
    obtain ⟨⟨⟩, middle, converted, run⟩ := of_run_bind_eq_ok run
    have retyped : Retypes (fun _ => True) program ((Change.convertOp target op).run program).2 :=
      retypes_convertOp target formed here
    rw [converted] at retyped
    obtain ⟨first, signed⟩ := signs_convertOp formed here converted
    obtain ⟨second, others⟩ := ih (retyped.evolves.wellFormed formed)
      (fun other member => first.tree_eq ▸ later other member) run
    refine ⟨first.trans second, List.forall_mem_cons.mpr ⟨?_, fun other member => ?_⟩⟩
    · exact second.isSigned first.values_le signed
    · exact (others other member).mono first.values_le

theorem signs_convertSignatures {target : Target} (formed : program.WellFormed)
    (run : (Change.convertSignatures target).run program = (.ok (), after)) :
    program.Signs after ∧ ∀ op ∈ after.tree.ops, after.IsSigned program.values.size op := by
  unfold Change.convertSignatures at run
  rw [run_bind, Change.run_ask] at run
  obtain ⟨signs, signed⟩ := signs_convertEach formed (fun _ member => member) run
  exact ⟨signs, signs.tree_eq ▸ signed⟩

/-- Operations use values with entries, and what functions return is stated by values with later ones. -/
theorem Program.Grounded.upholds {target : Target} (grounded : program.Grounded)
    (run : (Change.convertSignatures target).run program = (.ok (), after)) :
    after.Upholds (fun value => ¬after.IsOutput value) after := by
  obtain ⟨signs, signed⟩ := signs_convertSignatures grounded.formed run
  have evolves : program.Evolves (fun _ => True) after :=
    (evolving_convertSignatures target).of_run grounded.formed run
  refine ⟨evolves.wellFormed grounded.formed, .refl after, .refl fun op operand isOperand => ?_,
    evolves.isModule grounded.formed grounded.isModule⟩
  rintro ⟨function, member, isFunction, isOutput⟩
  have above := ((signed function member).outputs isFunction operand isOutput).1
  rw [signs.operands_eq] at isOperand
  exact Nat.not_lt.mpr above (grounded.operands op operand isOperand)

end Signatures

/-- The rewriting at the end of the lowering of a program stops by itself, before its limit. -/
def LowerOptions.CleansUp (options : LowerOptions) (start : Program) : Prop :=
  ∀ result converted, (Change.prepare options >>= fun _ => Change.convert options.target).run start =
    (.ok result, converted) →
    Rewrite.changesWithin (Rewrite.tryAll options.cleanups) Rewrite.limit converted < Rewrite.limit

variable {options : LowerOptions} {start program now after : Program} {op : OpId} {value : ValueId}

/-! ### The end of a lowering -/

section Upholding

variable {count : Nat} (upholds : start.Upholds (fun value => ¬start.IsOutput value) now)
  (formed : start.WellFormed) (signed : ∀ op ∈ start.tree.ops, start.IsSigned count op)
include upholds formed

/-- Functions and calls have been there since the start. -/
theorem Program.Upholds.of_func {kind : FuncKind} (member : op ∈ now.tree.ops) (isFunc : now.kind op = .func kind) :
    op ∈ start.tree.ops ∧ start.kind op = .func kind := by
  rcases upholds.evolves.mem_or_isNew (Body.op_mem_parts.mpr member) with before | new
  · have present := Body.op_mem_parts.mp before
    exact ⟨present, (upholds.evolves.kind_eq op (formed.knows _ before).1).symm.trans isFunc⟩
  · exact absurd isFunc (upholds.evolves.kind_new op new kind)

theorem Program.Upholds.isOutput (output : now.IsOutput value) : start.IsOutput value := by
  obtain ⟨function, member, isFunction, among⟩ := output
  obtain ⟨present, before⟩ := upholds.of_func formed member isFunction
  exact ⟨function, present, before, upholds.spares.returns function before ▸ among⟩

include signed

/-- Functions and calls have types of lowered programs still. -/
theorem Program.Upholds.isLowered (valid : now.verify = .ok ())
    (noTorch : ∀ op ∈ now.tree.ops, (now.kind op).isTorch = false) : now.IsLowered where
  formed := upholds.formed
  valid := valid
  noTorch := noTorch
  inputs op member isFunction := by
    obtain ⟨present, before⟩ := upholds.of_func formed member isFunction
    obtain ⟨block, entrance, plain⟩ := (signed op present).inputs before
    -- The function is entered at one block, now as before.
    have entered := (formed.mem_entrances_iff present).mp (upholds.spares.entrances _
      ((upholds.formed.mem_entrances_iff member).mpr rfl) before)
    rw [(formed.mem_entrances_iff present).mp entrance] at entered
    obtain ⟨⟨_, body⟩, entry, rfl⟩ := Option.map_eq_some_iff.mp entered.symm
    obtain ⟨⟨_, inside⟩, first, rfl⟩ := Option.map_eq_some_iff.mp
      ((formed.mem_entrances_iff present).mp entrance)
    refine ⟨_, body, entry, fun argument among => upholds.spares.plain argument (plain argument ?_)⟩
    rwa [← upholds.evolves.arguments_eq _ (formed.knows _ (formed.entry_mem present first).1).1]
  outputs value output := by
    obtain ⟨function, present, before, among⟩ := upholds.isOutput formed output
    exact upholds.spares.plain value ((signed function present).outputs before value among).2.2
  calls op member isCall result among := by
    obtain ⟨present, before⟩ := upholds.of_func formed member isCall
    have below := (formed.knows _ (Body.op_mem_parts.mpr present)).1
    rw [upholds.evolves.results_eq op below (by simp [before])] at among
    exact upholds.spares.plain result ((signed op present).call before result among)
  unused op _ operand isOperand output :=
    upholds.spares.operands op operand isOperand (upholds.isOutput formed output)

end Upholding

section Finishing

variable {target : Target} {changed : Bool} {result : Bool × QuantTable} {rewrites : List Rewrite}

/-- A program whose functions and calls have just got their types ends up lowered, whatever is lowered in it
and however it is cleaned up, as long as it is valid without torch operations then. -/
theorem Program.Grounded.isLowered (grounded : program.Grounded)
    (signing : (Change.convertSignatures target).run program = (.ok (), start))
    (converting : (Change.convert target).run start = (.ok result, now))
    (canonical : ∀ rewrite ∈ rewrites, rewrite ∈ Rewrite.canonical)
    (cleaning : (Rewrite.exhaust rewrites).run now = (.ok changed, after))
    (noTorch : ∀ op ∈ after.tree.ops, (after.kind op).isTorch = false) (valid : after.verify = .ok ()) :
    after.IsLowered := by
  obtain ⟨-, signed⟩ := signs_convertSignatures grounded.formed signing
  have upholds := grounded.upholds signing
  have states (value : ValueId) (output : start.IsOutput value) : start.States program.values.size value := by
    obtain ⟨function, member, isFunction, among⟩ := output
    exact (signed function member).outputs isFunction value among
  have fresh (value : ValueId) (above : start.values.size ≤ value.index) : ¬start.IsOutput value :=
    fun output => Nat.not_lt.mpr above (states value output).2.2.lt
  have isArgument (value : ValueId) (block : Option BlockId)
      (argument : (start.value value).origin = .argument block) : ¬start.IsOutput value := by
    intro output
    rw [(states value output).2.1] at argument
    cases argument
  have converted := upholds.convert fresh isArgument converting
  have cleaned := carries_upholds_exhaust fresh canonical _ _ _ converted cleaning
  exact cleaned.isLowered upholds.formed signed valid noTorch

end Finishing

/-! ### All of it -/

section Lowering

variable {lowered : Lowered}

/-- A lowering ends with a lowered program. -/
theorem isLowered_of_lower (formed : start.Formed)
    (run : (Change.lower options).run start = (.ok lowered, after)) : after.IsLowered := by
  obtain ⟨ready, result, converted, prepared, converting, finishing⟩ := exists_stages_of_lower_eq_ok run
  obtain ⟨unsigned, grounded, signing⟩ := of_prepare_eq_ok (fun _ => carries_grounded_canonicalize)
    (fun _ => carries_grounded_refineTypes) formed.grounded prepared
  obtain ⟨changed, cleaning, allLowered, valid⟩ := of_finish_eq_ok finishing
  rw [← options.exhaust_cleanups] at cleaning
  exact grounded.isLowered signing converting (fun _ => LowerOptions.mem_canonical) cleaning
    (Program.noTorch_of_ensureLowered allLowered) valid

/-- Lowering is idempotent: if the rewriting at the end has stopped by itself, lowering the program that has
been lowered succeeds again, reports that nothing has changed, and leaves its text as it is. -/
theorem lower_settles (formed : start.Formed) (cleansUp : options.CleansUp start)
    (run : (Change.lower options).run start = (.ok lowered, after)) :
    ∃ next, (Change.lower options).run after = (.ok ⟨false, {}⟩, next) ∧ next.text = after.text := by
  obtain ⟨ready, result, converted, prepared, converting, finishing⟩ := exists_stages_of_lower_eq_ok run
  obtain ⟨changed, cleaning, -⟩ := of_finish_eq_ok finishing
  rw [← options.exhaust_cleanups] at cleaning
  have stops := cleansUp result converted (by rw [run_bind, prepared]; exact converting)
  refine (isLowered_of_lower formed run).run_lower_again
    (Rewrite.settled_of_exhaust (fun rewrite among op => ?_) stops cleaning)
  exact Rewrite.idle_canonical rewrite (LowerOptions.mem_canonical among) op

/-- The function that adds up numbers changes when it is lowered, but not when it is lowered again. -/
theorem lower_settles_summing : ∃ info after next, (Change.lower {}).run summing = (.ok info, after) ∧
    info.changed = true ∧ (Change.lower {}).run after = (.ok ⟨false, {}⟩, next) ∧ next.text = after.text := by
  have formed : summing.Formed :=
    { (show summing.WellFormed by decide +kernel), (show summing.Tabled by decide +kernel) with isModule := rfl }
  have cleansUp : LowerOptions.CleansUp {} summing := by
    intro result converted run
    have stops : Rewrite.changesWithin (Rewrite.tryAll (LowerOptions.cleanups {})) Rewrite.limit
        ((Change.prepare {} >>= fun _ => Change.convert .loops).run summing).2 < Rewrite.limit := by
      decide +kernel
    rwa [run] at stops
  have changes : ((Change.lower {}).run summing).1.toOption.map Lowered.changed = some true := by
    decide +kernel
  rcases run : (Change.lower {}).run summing with ⟨_ | info, after⟩
  case error => rw [run] at changes; cases changes
  rw [run] at changes
  obtain ⟨next, again, same⟩ := lower_settles formed cleansUp run
  exact ⟨info, after, next, rfl, Option.some.inj changes, again, same⟩

end Lowering

end TensorIR
