import TensorIR.Proofs.Interfaces.Converting
import TensorIR.Proofs.Relowering.Idempotence

/-!
# Lowering preserves signatures

Functions get the counterparts of their types one after the other. While one of them does, all others keep what
is known about them from outside, because every function states its types with values of its own. Everything
else that a lowering does leaves interfaces alone, so a function ends up with the name, the visibility and the
parameters it had, and with the counterparts of its types.

A function that is inside another operation goes when canonicalization takes that operation away.

## Main definitions

* `Interface.Lowers` — an interface with the counterparts of its types
* `Program.Resigns` — some functions have got the counterparts of their types

## Main results

* `Program.Declared.convertFunction`, `Program.Declared.convertCall` — single operations
* `Program.Declared.convertSignatures` — all of them
* `lower_preserves_signatures` — lowering a program
-/

namespace TensorIR

/-- A value has the counterpart of a type that another one has. What is not a type of torch stays as it is. -/
def Target.Lowers (target : Target) (before after : Option Ty) : Prop :=
  ∃ type lowered, before = some type ∧ after = some lowered ∧ target.lowered? type = .ok (some lowered) ∧
    (type.torch? = none → lowered = type)

/-- An interface with the counterparts of its types. Parameters keep their names. -/
structure Interface.Lowers (target : Target) (before after : Interface) : Prop where
  attributes_eq : after.attributes = before.attributes
  parameters : List.Forall₂ (fun old new => new.name = old.name ∧ target.Lowers old.type new.type)
    before.parameters after.parameters
  outputs : List.Forall₂ (fun old new => target.Lowers old.type new.type) before.outputs after.outputs

theorem Target.lowers_of_counterpart {target : Target} {type lowered : Ty}
    (isLowered : target.counterpart type = .ok lowered) : target.Lowers (some type) (some lowered) := by
  refine ⟨type, lowered, rfl, rfl, ?_, fun plain => ?_⟩
  · obtain ⟨found, isFound, isLowered⟩ := of_bind_eq_ok isLowered
    cases found with
    | none => cases isLowered
    | some found =>
      cases isLowered
      exact isFound
  · rw [target.counterpart_of_plain plain] at isLowered
    exact (Except.ok.inj isLowered).symm

variable {program middle after : Program} {op function : OpId} {value : ValueId} {target : Target}
  {options : LowerOptions} {lowered : Lowered}

/-! ### Values with other types -/

namespace Program

theorem value_setTypes_of_mem {types : List (ValueId × Ty)} {type : Ty} (nodup : (types.map Prod.fst).Nodup)
    (member : (value, type) ∈ types) (program : Program) (below : value.index < program.values.size) :
    (program.setTypes types).value value = { program.value value with type := some type } := by
  induction types generalizing program with
  | nil => cases member
  | cons first types ih =>
    obtain ⟨absent, nodup⟩ := List.nodup_cons.mp nodup
    rw [setTypes_cons]
    rcases List.mem_cons.mp member with rfl | later
    · rw [value_setTypes absent, setType, value_modifyValue, if_pos ⟨rfl, below⟩]
    · have different : value ≠ first.1 := by
        rintro rfl
        exact absent (List.mem_map.mpr ⟨_, later, rfl⟩)
      rw [ih nodup later _ (below.trans_le (Array.size_modify ..).ge), value_setType different]

/-- The program in which a function that is entered at a block has got other types. -/
def withSignature (program : Program) (op : OpId) (block : BlockId) (inputs outputs : List Ty) : Program :=
  (program.setTypes ((program.header block).arguments.zip inputs)).withOutputs op outputs

section WithSignature

variable {block : BlockId} {inputs outputs : List Ty}

theorem value_withSignature (below : value.index < program.values.size)
    (outside : value ∉ (program.header block).arguments) :
    (program.withSignature op block inputs outputs).value value = program.value value := by
  have stillBelow : value.index < (program.setTypes ((program.header block).arguments.zip inputs)).values.size :=
    below.trans_le (values_setTypes ..).ge
  rw [withSignature, value_withOutputs stillBelow, value_setTypes fun among => outside ?_]
  obtain ⟨pair, paired, rfl⟩ := List.mem_map.mp among
  exact (List.of_mem_zip paired).1

theorem value_argument_withSignature {type : Ty} (nodup : (program.header block).arguments.Nodup)
    (length : (program.header block).arguments.length ≤ inputs.length)
    (paired : (value, type) ∈ (program.header block).arguments.zip inputs)
    (below : value.index < program.values.size) :
    (program.withSignature op block inputs outputs).value value =
      { program.value value with type := some type } := by
  have stillBelow : value.index < (program.setTypes ((program.header block).arguments.zip inputs)).values.size :=
    below.trans_le (values_setTypes ..).ge
  rw [withSignature, value_withOutputs stillBelow,
    value_setTypes_of_mem (by rwa [List.map_fst_zip length]) paired program below]

theorem results_withSignature {other : OpId} (different : other ≠ op) :
    (program.withSignature op block inputs outputs).results other = program.results other := by
  rw [withSignature, results, operation_withOutputs, if_neg fun same => different same.1.symm, operation,
    operations_setTypes, ← operation, ← results]

/-- The values that state what the function returns are new. -/
theorem outputs_withSignature (known : op.index < program.operations.size) :
    ((program.withSignature op block inputs outputs).results op).map
        (program.withSignature op block inputs outputs).value =
      outputs.map (⟨none, some ·, .signature⟩) := by
  have stillKnown : op.index <
      (program.setTypes ((program.header block).arguments.zip inputs)).operations.size := by
    rwa [operations_setTypes]
  rw [withSignature, results, operation_withOutputs, if_pos ⟨rfl, stillKnown⟩]
  apply List.ext_getElem
  · simp [freshValues]
  · intro index _ inside
    have below : index < outputs.length := by simpa using inside
    simp [freshValues, value_output_withOutputs below]

end WithSignature

/-! ### Functions one after the other -/

/-- Some functions of a program have got the counterparts of their types, and all others are known as before. -/
structure Resigns (target : Target) (ops : List OpId) (program after : Program) : Prop where
  retypes : Retypes (fun _ => True) program after
  declared : after.Declared
  lowers : ∀ function ∈ program.functions, function ∈ ops →
    (program.interface function).Lowers target (after.interface function)
  keeps : ∀ function ∈ program.functions, function ∉ ops →
    after.interface function = program.interface function

/-- Retyping changes neither which functions a program has nor where they are. -/
theorem functionsWithin_of_retypes {allowed : OpKind → Prop} (retypes : Retypes allowed program after)
    (formed : program.WellFormed) (enters : OpKind → Bool) :
    after.functionsWithin enters = program.functionsWithin enters := by
  rw [retypes.1.functionsWithin_eq formed, functionsWithin, retypes.2]

theorem functions_of_retypes {allowed : OpKind → Prop} (retypes : Retypes allowed program after)
    (formed : program.WellFormed) : after.functions = program.functions := by
  rw [functions_eq, functionsWithin_of_retypes retypes formed, ← functions_eq]

/-- A function is entered at the block where it was. -/
theorem parameters_of_retypes {allowed : OpKind → Prop} (retypes : Retypes allowed program after)
    (formed : program.WellFormed) (present : function ∈ program.tree.ops) :
    after.parameters function = program.parameters function := by
  have entered := ((retypes.evolves.wellFormed formed).mem_entrances_iff (retypes.2 ▸ present)).mpr rfl
  rw [retypes.2, formed.mem_entrances_iff present] at entered
  rw [parameters, parameters, ← entered]
  cases entry : program.entryOf? function with
  | none => rfl
  | some found => exact retypes.1.arguments_eq _ (formed.knows _ (formed.entry_mem present entry).1).1

section Function

variable {block : BlockId} {body : Body} {inputs outputs : List Ty} (declared : program.Declared)
  (retypes : Retypes (fun _ => True) program (program.withSignature op block inputs outputs))
  (present : op ∈ program.tree.ops) (isBody : program.functionBody op = .ok (block, body))
include declared retypes present isBody

/-- The function has got the counterparts of its types. -/
theorem Declared.lowers_withSignature
    (lowered : program.loweredSignature target op = .ok (.ok inputs, .ok outputs)) :
    (program.interface op).Lowers target
      ((program.withSignature op block inputs outputs).interface op) := by
  have formed := declared.formed
  have known := formed.lt_of_mem present
  obtain ⟨_, _, taken, given, isEntry, areTaken, areInputs, areGiven, areOutputs⟩ :=
    loweredSignature_eq_ok_iff.mp lowered
  rw [isBody] at isEntry
  cases isEntry
  have entry := entryOf?_of_functionBody isBody
  obtain ⟨-, owns⟩ := formed.knows _ (formed.entry_mem present entry).1
  have length : (program.header block).arguments.length = inputs.length :=
    (forall₂_of_mapM_eq_ok areTaken).length_eq.trans (forall₂_of_mapM_eq_ok areInputs).length_eq
  have areParameters : program.parameters op = (program.header block).arguments := by
    rw [parameters, entry]
    rfl
  constructor
  case attributes_eq => exact retypes.1.attributes_eq op known
  case parameters =>
    rw [interface, interface, parameters_of_retypes retypes formed present, areParameters,
      List.forall₂_map_left_iff, List.forall₂_map_right_iff, List.forall₂_same]
    intro argument among
    have isPaired := (List.map_fst_zip length.le).symm ▸ among
    obtain ⟨⟨argument, type⟩, paired, rfl⟩ := List.mem_map.mp isPaired
    obtain ⟨old, isOld, isLowered⟩ := of_loweredSignature lowered isBody paired
    rw [value_argument_withSignature owns.nodup length.le paired (owns.lt _ among)]
    refine ⟨rfl, ?_⟩
    have typed := target.lowers_of_counterpart isLowered
    rwa [← isOld] at typed
  case outputs =>
    rw [interface, interface, outputs_withSignature known, List.forall₂_map_left_iff,
      List.forall₂_map_right_iff]
    have both := forall₂_comp (forall₂_of_mapM_eq_ok areGiven) (forall₂_of_mapM_eq_ok areOutputs)
    refine both.imp ?_
    rintro result type ⟨old, isOld, isLowered⟩
    have typed := target.lowers_of_counterpart isLowered
    rwa [← typeOf?_of_typed isOld] at typed

/-- What another function takes is an argument of another block. -/
theorem Declared.interface_withSignature {other : OpId} (isOther : other ∈ program.functions)
    (different : other ≠ op) : (program.withSignature op block inputs outputs).interface other =
      program.interface other := by
  have formed := declared.formed
  have entry := entryOf?_of_functionBody isBody
  obtain ⟨-, owns⟩ := formed.knows _ (formed.entry_mem present entry).1
  obtain ⟨presentOther, -⟩ := mem_functions.mp isOther
  refine interface_congr (retypes.1.attributes_eq other (formed.lt_of_mem presentOther))
    (parameters_of_retypes retypes formed presentOther) (results_withSignature different) ?_
  rintro value (isParameter | isOutput)
  -- A value is an argument of one block only, and a block is entered by one operation only.
  · obtain ⟨below, inside, entrance, origin⟩ := declared.of_parameter isOther isParameter
    refine value_withSignature below fun among => different ?_
    rw [owns.origin_eq value among] at origin
    cases origin
    refine formed.eq_of_entrances entrance ?_
    rw [formed.mem_entrances_iff present, entry]
    rfl
  -- What a function states that it returns is an argument of no block.
  · have origin := declared.outputs other isOther value isOutput
    refine value_withSignature (lt_of_signature origin) fun among => ?_
    rw [owns.origin_eq value among] at origin
    cases origin

end Function

/-- A function gets the counterparts of its types, and all others are known as before. -/
theorem Declared.convertFunction (declared : program.Declared) (present : op ∈ program.tree.ops)
    (isFunction : program.kind op = .func .func)
    (run : (Change.convertFunction target op).run program = (.ok (), after)) :
    (program.interface op).Lowers target (after.interface op) ∧
      ∀ other ∈ program.functions, other ≠ op → after.interface other = program.interface other := by
  have retypes : Retypes (fun _ => True) program ((Change.convertFunction target op).run program).2 :=
    retypes_convertFunction target declared.formed present isFunction
  rcases convertFunction_cases target program op with
    ⟨-, failed⟩ | ⟨inputs, outputs, block, body, lowered, isBody, same⟩
  · rw [run] at failed
    exact absurd rfl failed
  obtain ⟨-, isAfter⟩ := Prod.mk.inj (run.symm.trans same)
  rw [run, isAfter] at retypes
  rw [isAfter]
  exact ⟨declared.lowers_withSignature retypes present isBody lowered,
    fun other isOther => declared.interface_withSignature retypes present isBody isOther⟩

end Program

/-- A call gives other types to its own results. -/
theorem keepsValues_convertCall (target : Target) (program : Program) (op : OpId) :
    program.KeepsValues (· ∉ program.results op) ((Change.convertCall target op).run program).2 ∧
      ((Change.convertCall target op).run program).2.operations = program.operations := by
  unfold Change.convertCall
  rw [run_bind, Change.run_ask]
  refine @Keeps.bind _ _ _
    (fun now => program.KeepsValues (· ∉ program.results op) now ∧ now.operations = program.operations) _ _
    (Keeps.forIn (fun result member _ => ?_) _) (fun _ => keeps_pure _) program ⟨.of_eq rfl, rfl⟩
  refine keeps_program.bind fun now => ?_
  cases now.typed result >>= target.counterpart with
  | error error => exact (keeps_throw _).bind fun _ => keeps_pure _
  | ok type =>
    refine Keeps.bind (keeps_modify ?_) fun _ => keeps_pure _
    rintro now ⟨values, operations⟩
    have kept : now.KeepsValues (· ∉ program.results op) (now.setType result type) :=
      ⟨(Array.size_modify ..).ge, fun value _ outside =>
        Program.value_setType (fun same => outside (by rwa [same])) type⟩
    exact ⟨values.trans kept, operations⟩

namespace Program

/-- A call changes no type of a function. -/
theorem Declared.convertCall (declared : program.Declared) (present : op ∈ program.tree.ops)
    (isCall : program.kind op = .func .call)
    (run : (Change.convertCall target op).run program = (.ok (), after)) (member : function ∈ program.functions) :
    after.interface function = program.interface function := by
  have formed := declared.formed
  have retypes : Retypes (fun _ => True) program ((Change.convertCall target op).run program).2 :=
    retypes_convertCall target formed present isCall
  obtain ⟨values, operations⟩ := keepsValues_convertCall target program op
  rw [run] at retypes values operations
  obtain ⟨presentFunction, -⟩ := mem_functions.mp member
  refine interface_congr (retypes.1.attributes_eq _ (formed.lt_of_mem presentFunction))
    (parameters_of_retypes retypes formed presentFunction) ?_ fun value among => ?_
  · rw [results, results, operation, operation, operations]
  · have isInterface : program.IsInterface value := ⟨function, member, among⟩
    refine values.value_eq value (declared.cases_interface isInterface).1 fun isResult => ?_
    exact declared.ne_result isInterface present (by simp [isCall]) isResult rfl

/-- Functions still state what they return with values of their own. -/
theorem Declared.signs (declared : program.Declared) (evolves : program.Evolves (fun _ => True) after)
    (signs : program.Signs after) : after.Declared where
  formed := evolves.wellFormed declared.formed
  isModule := evolves.isModule declared.formed declared.isModule
  outputs function member value among := by
    -- A function has the values that it had, or it has got new ones in their place.
    rcases signs.results function with same | ⟨-, states⟩
    · have before : function ∈ program.functions := by
        rwa [mem_functions, ← signs.tree_eq, ← signs.kind_eq, ← mem_functions]
      have origin := declared.outputs function before value (same ▸ among)
      rw [signs.origin_eq value (lt_of_signature origin), origin]
    · exact (states value among).2.1

/-- A function that is converted gets the counterparts of its types, and all others are known as before. -/
theorem Declared.convertOp (declared : program.Declared) (present : op ∈ program.tree.ops)
    (run : (Change.convertOp target op).run program = (.ok (), after)) : program.Resigns target [op] after := by
  have formed := declared.formed
  have retypes : Retypes (fun _ => True) program ((Change.convertOp target op).run program).2 :=
    retypes_convertOp target formed present
  rw [run] at retypes
  have signs := (signs_convertOp formed present run).1
  have interfaces : (∀ other ∈ program.functions, other = op →
        (program.interface other).Lowers target (after.interface other)) ∧
      ∀ other ∈ program.functions, other ≠ op → after.interface other = program.interface other := by
    unfold Change.convertOp at run
    rw [run_bind, Change.run_ask] at run
    simp only [] at run
    split at run
    case h_1 isFunction =>
      obtain ⟨lowers, keeps⟩ := declared.convertFunction present isFunction run
      exact ⟨fun other _ same => same ▸ lowers, keeps⟩
    case h_2 isCall =>
      refine ⟨fun other member same => ?_, fun other member _ => declared.convertCall present isCall run member⟩
      rw [same, mem_functions, isCall] at member
      cases member.2
    case h_3 notFunction _ =>
      cases run
      exact ⟨fun other member same => absurd (same ▸ (mem_functions.mp member).2) notFunction, fun _ _ _ => rfl⟩
  exact ⟨retypes, declared.signs retypes.evolves signs,
    fun other member among => interfaces.1 other member (List.mem_singleton.mp among),
    fun other member absent => interfaces.2 other member (List.mem_singleton.not.mp absent)⟩

/-- What the remaining functions get is added to what one has got. -/
theorem Resigns.cons {ops : List OpId} (formed : program.WellFormed) (first : program.Resigns target [op] middle)
    (others : middle.Resigns target ops after) (absent : op ∉ ops) :
    program.Resigns target (op :: ops) after where
  retypes := first.retypes.trans others.retypes
  declared := others.declared
  lowers function member among := by
    have still : function ∈ middle.functions := functions_of_retypes first.retypes formed ▸ member
    rcases List.mem_cons.mp among with rfl | later
    · rw [others.keeps function still absent]
      exact first.lowers function member (List.mem_singleton_self _)
    · have different : function ∉ [op] := fun same => absent (List.mem_singleton.mp same ▸ later)
      rw [← first.keeps function member different]
      exact others.lowers function still later
  keeps function member outside := by
    have still : function ∈ middle.functions := functions_of_retypes first.retypes formed ▸ member
    rw [List.mem_cons, not_or] at outside
    obtain ⟨different, later⟩ := outside
    rw [others.keeps function still later, first.keeps function member (List.mem_singleton.not.mpr different)]

theorem Declared.convertEach {ops : List OpId} (declared : program.Declared) (nodup : ops.Nodup)
    (present : ∀ op ∈ ops, op ∈ program.tree.ops)
    (run : (Change.convertEach target ops).run program = (.ok (), after)) :
    program.Resigns target ops after := by
  induction ops generalizing program with
  | nil =>
    cases run
    exact ⟨.refl _, declared, fun _ _ among => absurd among List.not_mem_nil, fun _ _ _ => rfl⟩
  | cons op ops ih =>
    obtain ⟨absent, nodup⟩ := List.nodup_cons.mp nodup
    obtain ⟨here, later⟩ := List.forall_mem_cons.mp present
    obtain ⟨⟨⟩, middle, converted, run⟩ := of_run_bind_eq_ok run
    have first := declared.convertOp here converted
    have others := ih first.declared nodup (fun other member => first.retypes.2 ▸ later other member) run
    exact first.cons declared.formed others absent

/-- All functions get the counterparts of their types. -/
theorem Declared.convertSignatures (declared : program.Declared)
    (run : (Change.convertSignatures target).run program = (.ok (), after)) :
    program.Resigns target program.tree.ops after := by
  unfold Change.convertSignatures at run
  rw [run_bind, Change.run_ask] at run
  exact declared.convertEach (Body.nodup_ops declared.formed.nodup) (fun _ member => member) run

end Program

/-! ### Lowering a program -/

/-- A lowering leaves functions in their order and takes none away that is not inside an operation that may go.
Every function has the name, the visibility and the parameters it had, and the counterparts of its types. -/
theorem lower_preserves_signatures (formed : program.Formed)
    (run : (Change.lower options).run program = (.ok lowered, after)) :
    after.functions.Sublist program.functions ∧
      (program.functionsWithin (·.isLasting options.canonicalize)).Sublist after.functions ∧
      ∀ function ∈ after.functions,
        (program.interface function).Lowers options.target (after.interface function) := by
  obtain ⟨ready, result, converted, prepared, converting, finishing⟩ := exists_stages_of_lower_eq_ok run
  obtain ⟨changed, cleaning, -⟩ := of_finish_eq_ok finishing
  rw [← options.exhaust_cleanups] at cleaning
  -- Canonicalization in front applies the rewrites that clean up at the end.
  have canonicalizes (wanted : options.canonicalize = true) :
      Carries (program.Advances (·.isLasting options.canonicalize)) Change.canonicalize := by
    have carries : Carries (program.Advances (·.isLasting options.canonicalize))
        (Rewrite.exhaust options.cleanups) := Program.carries_advances_cleanups
    rwa [options.exhaust_cleanups, if_pos wanted] at carries
  obtain ⟨unsigned, advances, signing⟩ := of_prepare_eq_ok canonicalizes
    (fun _ => Program.carries_advances_refineTypes) formed.declared.advances prepared
  have resigns := advances.declared.convertSignatures signing
  have later := Program.carries_advances_cleanups _ _ _ (resigns.declared.advances.convert converting) cleaning
  have functions := Program.functions_of_retypes resigns.retypes advances.declared.formed
  have within := Program.functionsWithin_of_retypes resigns.retypes advances.declared.formed
  refine ⟨(functions ▸ later.retains.fewer).trans advances.retains.fewer, ?_, fun function member => ?_⟩
  · have lasting := advances.retains.lasting.trans (within _ ▸ later.retains.lasting)
    exact lasting.trans (after.functionsWithin_sublist _)
  · have before : function ∈ unsigned.functions := functions ▸ later.retains.fewer.subset member
    rw [later.retains.interface_eq function member,
      ← advances.retains.interface_eq function before]
    exact resigns.lowers function before (Program.mem_functions.mp before).1

/-- A function with another one inside the side of a branch that is not taken. -/
def nesting : Program where
  values := #[⟨some "%x", some (.torch .int), .argument (some ⟨0⟩)⟩,
    ⟨none, some (.torch .int), .signature⟩,
    ⟨some "%c", some (.torch .bool), .result ⟨1⟩⟩,
    ⟨some "%y", some (.torch .int), .argument (some ⟨3⟩)⟩,
    ⟨none, some (.torch .int), .signature⟩]
  operations := #[
    { kind := .func .func, results := [⟨1⟩],
      attributes := Attributes.empty.insert "sym_name" (.ofSymbol "f") },
    { kind := .torch .constantBool, results := [⟨2⟩],
      attributes := Attributes.empty.insert "value" (.bool true) },
    { kind := .torch .primIf, operands := [⟨2⟩] },
    { kind := .torch .primIfYield },
    { kind := .func .func, results := [⟨4⟩],
      attributes := Attributes.empty.insert "sym_name" (.ofSymbol "g") },
    { kind := .func .ret, operands := [⟨3⟩] },
    { kind := .torch .primIfYield },
    { kind := .func .ret, operands := [⟨0⟩] },
    { kind := .module }]
  headers := #[{ arguments := [⟨0⟩] }, {}, {}, { arguments := [⟨3⟩] }, {}]
  root := ⟨8⟩
  regions := .single ⟨4⟩ (.single ⟨0⟩ (.single ⟨0⟩
    (.cons ⟨1⟩ .nil (.cons ⟨2⟩ (.cons (.cons ⟨1⟩ (.single ⟨3⟩ .nil) .nil)
      (.single ⟨2⟩ (.cons ⟨4⟩ (.single ⟨3⟩ (.single ⟨5⟩ .nil)) (.single ⟨6⟩ .nil))))
      (.single ⟨7⟩ .nil)))))

theorem formed_nesting : nesting.Formed :=
  { (show nesting.WellFormed by decide +kernel), (show nesting.Tabled by decide +kernel) with isModule := rfl }

/-- Both functions stay where programs are not brought into canonical form. -/
theorem lower_preserves_signatures_nesting : ∃ info after,
    (Change.lower { canonicalize := false }).run nesting = (.ok info, after) ∧
      after.functions = nesting.functions ∧ ∀ function ∈ nesting.functions,
        (nesting.interface function).Lowers .loops (after.interface function) := by
  have succeeds : ((Change.lower { canonicalize := false }).run nesting).1.toOption.isSome = true := by
    decide +kernel
  rcases run : (Change.lower { canonicalize := false }).run nesting with ⟨_ | info, after⟩
  case error =>
    rw [run] at succeeds
    cases succeeds
  obtain ⟨fewer, lasting, lowers⟩ := lower_preserves_signatures formed_nesting run
  have everywhere : nesting.functionsWithin (·.isLasting false) = nesting.functions := by decide +kernel
  have same : after.functions = nesting.functions := fewer.antisymm (everywhere ▸ lasting)
  exact ⟨info, after, rfl, same, fun function member => lowers function (same ▸ member)⟩

/-- The inner function goes with the branch where they are. -/
theorem lower_removes_nested : nesting.Formed ∧ ∃ info after,
    (Change.lower {}).run nesting = (.ok info, after) ∧ nesting.functions = [⟨0⟩, ⟨4⟩] ∧
      after.functions = [⟨0⟩] := by
  have succeeds : ((Change.lower {}).run nesting).1.toOption.isSome = true := by decide +kernel
  have left : ((Change.lower {}).run nesting).2.functions = [⟨0⟩] := by decide +kernel
  rcases run : (Change.lower {}).run nesting with ⟨_ | info, after⟩
  case error =>
    rw [run] at succeeds
    cases succeeds
  rw [run] at left
  exact ⟨formed_nesting, info, after, rfl, by decide +kernel, left⟩

end TensorIR
