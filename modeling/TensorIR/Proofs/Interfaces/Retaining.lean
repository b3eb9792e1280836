import TensorIR.Proofs.Interfaces.Functions
import TensorIR.Proofs.Relowering.Idempotence

/-!
# The interfaces of functions

What is known about a function from outside are its attributes, its parameters and what it returns. Until
functions get other types, and from then on, every change of a lowering leaves that alone: types are made more
precise and values are converted elsewhere, and a function that moves takes its body along.

## Main definitions

* `Interface`, `Program.interface` — what is known about a function from outside
* `Program.Declared` — functions state what they return with values of their own
* `Program.Retains` — functions keep their interfaces, no function comes, and none changes places

## Main results

* `Program.Conserves.retains` — interfaces stay if the values seen from outside keep their entries
* `Program.Declared.retains_cleanup`, `Program.Declared.retains_refine` — single rewrites
-/

namespace TensorIR

/-- What is known about a function from outside. -/
structure Interface where
  /-- The name of the function and its visibility are among them. -/
  attributes : Attributes
  parameters : List Value
  outputs : List Value

/-- The arguments of the body of a function. -/
def Program.parameters (program : Program) (function : OpId) : List ValueId :=
  ((program.entryOf? function).map Prod.fst).elim [] fun block => (program.header block).arguments

/-- The interface of a function. -/
def Program.interface (program : Program) (function : OpId) : Interface where
  attributes := program.attributes function
  parameters := (program.parameters function).map program.value
  outputs := (program.results function).map program.value

/-- A function of the program takes the value, or it returns what the value states. -/
def Program.IsInterface (program : Program) (value : ValueId) : Prop :=
  ∃ function ∈ program.functions, value ∈ program.parameters function ∨ value ∈ program.results function

/-- A well-formed program with a module around everything else, in which functions state what they return with
values of their own. -/
structure Program.Declared (program : Program) : Prop where
  formed : program.WellFormed
  isModule : program.kind program.root = .module
  outputs : ∀ function ∈ program.functions, ∀ value ∈ program.results function,
    (program.value value).origin = .signature

/-- Functions keep their interfaces. No function comes and none changes places, and those that are only inside
operations of kinds that are entered stay. -/
structure Program.Retains (enters : OpKind → Bool) (program after : Program) : Prop where
  fewer : after.functions.Sublist program.functions
  lasting : (program.functionsWithin enters).Sublist (after.functionsWithin enters)
  interface_eq : ∀ function ∈ after.functions, after.interface function = program.interface function

variable {enters : OpKind → Bool} {allowed : OpKind → Prop} {program middle after : Program} {op : OpId}
  {value : ValueId} {options : LowerOptions}

theorem Program.Formed.declared (formed : program.Formed) : program.Declared where
  formed := formed.toWellFormed
  isModule := formed.isModule
  outputs function member := formed.outputs function (Program.mem_functions.mp member).2

theorem Program.Retains.refl (program : Program) : program.Retains enters program :=
  ⟨.refl _, .refl _, fun _ _ => rfl⟩

theorem Program.Retains.trans (first : program.Retains enters middle) (second : middle.Retains enters after) :
    program.Retains enters after where
  fewer := second.fewer.trans first.fewer
  lasting := first.lasting.trans second.lasting
  interface_eq function member :=
    (second.interface_eq function member).trans (first.interface_eq function (second.fewer.subset member))

/-- Functions that keep their interfaces keep their own values for what they return. -/
theorem Program.Retains.declared (retains : program.Retains enters after) (declared : program.Declared)
    (evolves : program.Evolves allowed after) : after.Declared where
  formed := evolves.wellFormed declared.formed
  isModule := evolves.isModule declared.formed declared.isModule
  outputs function member value among := by
    have same : (after.results function).map after.value = (program.results function).map program.value :=
      congrArg Interface.outputs (retains.interface_eq function member)
    have among : after.value value ∈ (after.results function).map after.value := List.mem_map_of_mem among
    rw [same, List.mem_map] at among
    obtain ⟨old, isOld, same⟩ := among
    rw [← same]
    exact declared.outputs function (retains.fewer.subset member) old isOld

/-! ### The blocks that are entered -/

mutual

/-- Every block is entered at most once. -/
theorem Body.entrances_sublist : (body : Body) →
    (body.entrances.filterMap Prod.snd).Sublist (body.blockBodies.map Prod.fst)
  | .nil => .refl _
  | .cons op regions rest => by
    have inside := Regions.entrances_sublist regions
    have behind := Body.entrances_sublist rest
    rw [Body.entrances, Body.blockBodies, List.map_append, ← List.singleton_append, List.filterMap_append,
      List.filterMap_append, ← List.append_assoc]
    refine .append ?_ behind
    cases entrance : regions.entrance? with
    | none => simpa [entrance] using inside
    | some block => simpa [entrance] using inside

theorem Blocks.entrances_sublist : (blocks : Blocks) →
    ((blocks.entryBlock?.map Prod.fst).toList ++ blocks.entrances.filterMap Prod.snd).Sublist
      (blocks.blockBodies.map Prod.fst)
  | .nil => .refl _
  | .cons block body rest => by
    have behind := (List.sublist_append_right ..).trans (Blocks.entrances_sublist rest)
    rw [Blocks.entrances, Blocks.blockBodies, List.filterMap_append, List.map_cons, List.map_append]
    exact ((Body.entrances_sublist body).append behind).cons_cons block

theorem Regions.entrances_sublist : (regions : Regions) →
    (regions.entrance?.toList ++ regions.entrances.filterMap Prod.snd).Sublist
      (regions.blockBodies.map Prod.fst)
  | .nil => .refl _
  | .cons blocks rest => by
    have behind := (List.sublist_append_right ..).trans (Regions.entrances_sublist rest)
    rw [Regions.entrances, Regions.blockBodies, List.filterMap_append, List.map_append, ← List.append_assoc]
    exact (Blocks.entrances_sublist blocks).append behind

end

/-- A block is the entry block of one operation. -/
theorem Program.WellFormed.eq_of_entrances (formed : program.WellFormed) {other : OpId} {block : BlockId}
    (first : (op, some block) ∈ program.tree.entrances) (second : (other, some block) ∈ program.tree.entrances) :
    op = other := by
  have blocks : (program.tree.parts.filterMap Part.block?).Nodup := by
    refine formed.nodup.filterMap fun part part' found isFound isFound' => ?_
    cases part <;> cases part' <;> cases isFound <;> cases isFound'
    rfl
  rw [Body.filterMap_block] at blocks
  have entered := List.pairwise_filterMap.mp ((Body.entrances_sublist program.tree).nodup blocks)
  have symmetric : Std.Symm fun pair pair' : OpId × Option BlockId =>
      ∀ entry, pair.2 = some entry → ∀ entry', pair'.2 = some entry' → entry ≠ entry' :=
    ⟨fun _ _ apart _ isFirst _ isSecond => (apart _ isSecond _ isFirst).symm⟩
  -- Two operations would be two entries of the list, which must not share a block.
  by_contra different
  exact entered.forall first second (fun same => different (congrArg Prod.fst same)) block rfl block rfl rfl

/-! ### Values seen from outside -/

namespace Program

/-- A parameter is an argument of the block at which the function is entered. -/
theorem Declared.of_parameter {function : OpId} (declared : program.Declared)
    (member : function ∈ program.functions) (isParameter : value ∈ program.parameters function) :
    value.index < program.values.size ∧
      ∃ block, (function, some block) ∈ program.tree.entrances ∧
        (program.value value).origin = .argument block := by
  obtain ⟨present, -⟩ := mem_functions.mp member
  unfold parameters at isParameter
  cases entry : program.entryOf? function with
  | none =>
    rw [entry] at isParameter
    cases isParameter
  | some found =>
    rw [entry] at isParameter
    obtain ⟨-, owns⟩ := declared.formed.knows _ (declared.formed.entry_mem present entry).1
    refine ⟨owns.lt value isParameter, found.1, ?_, owns.origin_eq value isParameter⟩
    rw [declared.formed.mem_entrances_iff present, entry]
    rfl

/-- What is seen from outside is stated by a function or is an argument of the block at which one is entered. -/
theorem Declared.cases_interface (declared : program.Declared) (isInterface : program.IsInterface value) :
    value.index < program.values.size ∧ ((program.value value).origin = .signature ∨
      ∃ function block, program.kind function = .func .func ∧
        (function, some block) ∈ program.tree.entrances ∧ (program.value value).origin = .argument block) := by
  obtain ⟨function, member, isParameter | isOutput⟩ := isInterface
  · obtain ⟨below, block, entrance, origin⟩ := declared.of_parameter member isParameter
    exact ⟨below, .inr ⟨function, block, (mem_functions.mp member).2, entrance, origin⟩⟩
  · have origin := declared.outputs function member value isOutput
    exact ⟨lt_of_signature origin, .inl origin⟩

/-- What is seen from outside is no argument of a block at which something else than a function is entered. -/
theorem Declared.notMem_arguments (declared : program.Declared) (isInterface : program.IsInterface value)
    (present : op ∈ program.tree.ops) (notFunction : program.kind op ≠ .func .func) {block : BlockId} {body : Body}
    (entry : program.entryOf? op = some (block, body)) : value ∉ (program.header block).arguments := by
  intro isArgument
  obtain ⟨-, owns⟩ := declared.formed.knows _ (declared.formed.entry_mem present entry).1
  have origin := owns.origin_eq value isArgument
  have entered : (op, some block) ∈ program.tree.entrances := by
    rw [declared.formed.mem_entrances_iff present, entry]
    rfl
  obtain ⟨-, isStated | ⟨function, other, isFunction, isEntered, isOther⟩⟩ := declared.cases_interface isInterface
  · rw [origin] at isStated
    cases isStated
  · rw [origin] at isOther
    cases isOther
    rw [declared.formed.eq_of_entrances entered isEntered] at notFunction
    exact notFunction isFunction

/-- A function keeps its interface if it keeps its values and these keep their entries. -/
theorem interface_congr {function : OpId} (attributes : after.attributes function = program.attributes function)
    (parameters : after.parameters function = program.parameters function)
    (outputs : after.results function = program.results function)
    (same : ∀ value, value ∈ program.parameters function ∨ value ∈ program.results function →
      after.value value = program.value value) : after.interface function = program.interface function := by
  rw [interface, interface, attributes, parameters, outputs,
    List.map_congr_left fun value among => same value (.inl among),
    List.map_congr_left fun value among => same value (.inr among)]

/-- Functions keep their interfaces if these values keep their entries and functions are entered where they
were. -/
theorem Conserves.retains (conserves : program.Conserves enters program.IsInterface after)
    (declared : program.Declared) (evolves : program.Evolves allowed after)
    (returns : ∀ function ∈ program.functions, after.results function = program.results function)
    (entrances : ∀ pair ∈ after.tree.entrances, program.kind pair.1 = .func .func →
      pair ∈ program.tree.entrances) : program.Retains enters after where
  fewer := conserves.fewer
  lasting := conserves.lasting
  interface_eq function member := by
    have formed := declared.formed
    have before := conserves.fewer.subset member
    obtain ⟨present, -⟩ := mem_functions.mp member
    obtain ⟨was, isFunction⟩ := mem_functions.mp before
    have parameters : after.parameters function = program.parameters function := by
      -- The block at which the function is entered now is the one at which it was entered before.
      have entrance := entrances (function, _)
        (((evolves.wellFormed formed).mem_entrances_iff present).mpr rfl) isFunction
      rw [formed.mem_entrances_iff was] at entrance
      rw [Program.parameters, Program.parameters, ← entrance]
      cases entry : program.entryOf? function with
      | none => rfl
      | some found => exact evolves.arguments_eq _ (formed.knows _ (formed.entry_mem was entry).1).1
    refine interface_congr (evolves.attributes_eq function (formed.lt_of_mem was))
      parameters (returns function before) fun value among => ?_
    have isInterface : program.IsInterface value := ⟨function, before, among⟩
    exact conserves.value_eq value (declared.cases_interface isInterface).1 isInterface

/-- Functions keep their interfaces if they have what they had. -/
theorem Conserves.retains_of_spares {good : ValueId → Prop}
    (conserves : program.Conserves enters program.IsInterface after) (declared : program.Declared)
    (evolves : program.Evolves allowed after) (spares : program.Spares good after) :
    program.Retains enters after :=
  conserves.retains declared evolves (fun function member => spares.returns function (mem_functions.mp member).2)
    spares.entrances

end Program

/-! ### Bringing programs into canonical form -/

namespace OpKind

theorem isLasting_of_isPure {kind : OpKind} (isPure : kind.isPure = true) (canonicalize : Bool) :
    kind.isLasting canonicalize = false := by
  cases kind with
  | torch kind => cases kind <;> first | rfl | cases isPure
  | _ => simp [isLasting, isPure]

theorem isLasting_torch (kind : TorchKind) : (torch kind).isLasting true = false := by
  cases kind <;> rfl

end OpKind

namespace Program

variable {kept : ValueId → Prop} {canonicalize : Bool}

theorem Declared.ne_root (declared : program.Declared) {kind : TorchKind} (isKind : program.kind op = .torch kind) :
    op ≠ program.root := by
  rintro rfl
  rw [declared.isModule] at isKind
  cases isKind

theorem Declared.conserves_simplify (declared : program.Declared)
    (run : (Rewrite.simplify op).run program = (.ok true, after)) :
    program.Conserves (·.isLasting true) kept after := by
  have formed := declared.formed
  unfold Rewrite.simplify at run
  rw [run_bind, Change.run_ask] at run
  simp only [] at run
  split at run
  case h_1 isKind =>
    obtain ⟨value, -, -, superseded⟩ := of_simplifyCast_eq_ok run
    exact .supersede formed (by simp [isKind]) (isKind ▸ OpKind.isLasting_torch _) superseded
  case h_2 isKind =>
    obtain ⟨source, producer, middle, isProducer, -, superseded, erased⟩ := of_simplifyCopy_eq_ok run
    -- The copy is superseded first, and then what it copies is erased.
    have first : program.Conserves (·.isLasting true) kept middle :=
      .supersede formed (by simp [isKind]) (isKind ▸ OpKind.isLasting_torch _) superseded
    have evolved : program.Evolves (fun _ => True) middle :=
      (evolving_supersede op source).of_run formed superseded
    obtain ⟨result, -, gone⟩ := of_supersede_eq_ok superseded
    have gone : (Change.erase op).run (program.replaceAll [(result, source)]) = (.ok (), middle) := gone
    have kind : middle.kind producer = .torch .copyToTensor :=
      ((of_erase_replaceAll gone).2.2.2 producer).trans isProducer
    exact first.trans (.erase (evolved.wellFormed formed) (by simp [kind]) (kind ▸ OpKind.isLasting_torch _) erased)
  case h_3 isKind =>
    rcases simplifyBranch_cases program op with ⟨-, unchanged⟩ | ⟨_, taken, inlined, -, -, same⟩
    · rw [run] at unchanged
      exact absurd rfl unchanged
    · rw [same] at run
      exact .inline formed (declared.ne_root isKind) (by simp [isKind]) (isKind ▸ OpKind.isLasting_torch _) inlined
        (of_then_true_eq_ok run)
  case h_4 isKind =>
    exact .supersedeAll formed (by simp [isKind]) (isKind ▸ OpKind.isLasting_torch _)
      (of_simplifyLoop_eq_ok run).2
  case h_5 => cases run

theorem Declared.conserves_foldConstant (declared : program.Declared) (present : op ∈ program.tree.ops)
    (run : (Rewrite.foldConstant op).run program = (.ok true, after)) :
    program.Conserves (·.isLasting canonicalize) kept after := by
  have formed := declared.formed
  obtain ⟨-, literal, type, constant, middle, built, superseded⟩ := of_foldConstant_eq_ok run
  obtain ⟨draft, isConstant, rfl⟩ := of_build_eq_ok built
  have builds : Builds OpKind.IsInner (Build.literal literal type) :=
    builds_anyLiteral (fun _ same => by cases same) (fun _ _ _ same => by cases same) literal type
  have extended := builds (program.draft op .before)
  rw [isConstant] at extended
  have evolved := extended.evolves formed
  have isPure : (program.kind op).isPure = true := by
    rcases foldConstant_cases program op with ⟨-, unchanged⟩ | ⟨_, _, _, known, -⟩
    · rw [run] at unchanged
      exact absurd rfl unchanged
    · unfold Rewrite.knownResult? at known
      simp only [Bool.and_eq_true, Option.ite_none_right_eq_some] at known
      exact known.1.1.1
  have kind : draft.finished.kind op = program.kind op :=
    evolved.kind_eq op (formed.lt_of_mem present)
  have first : program.Conserves (·.isLasting canonicalize) kept draft.finished :=
    .finished formed (fun _ inner => inner _) extended
  exact first.trans (.supersede (evolved.wellFormed formed) (kind ▸ (OpKind.of_isPure isPure).2.2)
    (kind ▸ OpKind.isLasting_of_isPure isPure _) superseded)

theorem Declared.conserves_dropDead (declared : program.Declared)
    (run : (Rewrite.dropDead op).run program = (.ok true, after)) :
    program.Conserves (·.isLasting canonicalize) kept after := by
  unfold Rewrite.dropDead at run
  rw [run_bind, Change.run_ask] at run
  simp only [] at run
  split at run
  case isTrue dead =>
    have isPure : (program.kind op).isPure = true := (Bool.and_eq_true _ _ ▸ dead).1
    exact .erase declared.formed (OpKind.of_isPure isPure).2.2 (OpKind.isLasting_of_isPure isPure _)
      (of_then_true_eq_ok run)
  case isFalse => cases run

/-- Cleaning up leaves functions their interfaces. -/
theorem Declared.retains_cleanup (declared : program.Declared) {rewrite : Rewrite}
    (among : rewrite ∈ options.cleanups) (present : op ∈ program.tree.ops)
    (run : (rewrite op).run program = (.ok true, after)) :
    program.Retains (·.isLasting options.canonicalize) after := by
  have formed := declared.formed
  have canonical := LowerOptions.mem_canonical among
  have evolving : EvolvingAt (fun _ => True) op (rewrite op) :=
    evolvingAt_canonical trivial (fun _ _ => trivial) canonical op
  have spares : program.Spares (fun _ => True) after :=
    (Spares.refl fun _ _ _ => trivial).canonical formed canonical present run fun _ _ _ => trivial
  refine Conserves.retains_of_spares ?_ declared (evolving.of_run formed present run) spares
  unfold LowerOptions.cleanups at among
  split at among
  case isTrue wanted =>
    simp only [Rewrite.canonical, List.mem_cons, List.not_mem_nil, or_false] at among
    rcases among with rfl | rfl | rfl
    · exact wanted ▸ declared.conserves_simplify run
    · exact declared.conserves_foldConstant present run
    · exact declared.conserves_dropDead run
  case isFalse =>
    cases List.mem_singleton.mp among
    exact declared.conserves_dropDead run

/-! ### Making types more precise -/

/-- A result that gets a more precise type is not seen from outside. -/
theorem Declared.ne_result (declared : program.Declared) (isInterface : program.IsInterface value)
    (present : op ∈ program.tree.ops) (notFunction : program.kind op ≠ .func .func) {result : ValueId}
    (isResult : result ∈ program.results op) : value ≠ result := by
  rintro rfl
  have origin := (declared.formed.owns_results present notFunction).origin_eq value isResult
  obtain ⟨-, isStated | ⟨_, _, -, -, isArgument⟩⟩ := declared.cases_interface isInterface
  · rw [origin] at isStated
    cases isStated
  · rw [origin] at isArgument
    cases isArgument

/-- A cast that has been built is no function, and it has no regions. -/
theorem Refined.conserves {refinement : Refinement} (refined : program.Refined op refinement after)
    (formed : program.WellFormed) (grown : program.Grows allowed after) :
    program.Conserves enters (· ≠ refinement.result) after := by
  have values : program.KeepsValues (· ≠ refinement.result) after := ⟨refined.values_le, refined.value_eq⟩
  rcases refined.tree with ⟨-, tree, -⟩ | recast
  · exact .of_tree formed grown values tree
  · have isCast := recast.defines.kind_eq
    refine .of_changes formed grown values (Body.alterAt_self program.tree).symm recast.tree
      (fun visit _ _ => ?_) fun visit _ _ => ?_
    all_goals simp [Body.search, Regions.search, isCast]

theorem Refined.entrances {refinement : Refinement} (refined : program.Refined op refinement after)
    {pair : OpId × Option BlockId} (member : pair ∈ after.tree.entrances)
    (isFunction : program.kind pair.1 = .func .func) : pair ∈ program.tree.entrances := by
  rcases refined.tree with ⟨-, tree, -⟩ | recast
  · exact tree ▸ member
  · rw [recast.tree] at member
    -- The only new entry is that of the cast, which is no function of the program before.
    have changes (regions : Regions) (rest : Body) (pair : OpId × Option BlockId)
        (among : pair ∈ (Body.cons op regions (.cons ⟨program.operations.size⟩ .nil rest)).entrances) :
        pair ∈ (Body.cons op regions rest).entrances ∨ pair.1 = ⟨program.operations.size⟩ := by
      simp only [Body.entrances, Regions.entrances, List.nil_append, List.mem_cons, List.mem_append] at among ⊢
      rcases among with here | inside | rfl | behind
      · exact .inl (.inl here)
      · exact .inl (.inr (.inl inside))
      · exact .inr rfl
      · exact .inl (.inr (.inr behind))
    refine (Body.mem_entrances_alterAt changes _ member).resolve_right fun isCast => ?_
    have below := lt_of_isFunction isFunction
    rw [isCast] at below
    exact absurd below (Nat.lt_irrefl _)

/-- Making types more precise leaves functions their interfaces. -/
theorem Declared.retains_refine (declared : program.Declared) (present : op ∈ program.tree.ops)
    (run : (Rewrite.refine op).run program = (.ok true, after)) : program.Retains enters after := by
  have formed := declared.formed
  obtain ⟨refinement, found, allows, ran⟩ := of_refine_eq_ok run
  obtain ⟨-, notModule, notFunction⟩ := OpKind.of_allowsRefinement allows
  have isResult := (of_refinements found List.mem_cons_self).2
  have notRoot : op ≠ program.root := fun isRoot => notModule (isRoot ▸ declared.isModule)
  have below := (formed.owns_results present notFunction).lt _ isResult
  have evolving : Evolving (fun _ => True) (Rewrite.refineResult op refinement) :=
    evolving_refineResult trivial op refinement
  have evolved := evolving.of_run formed ran
  have refined := refined_of_run notRoot below ran
  have conserves : program.Conserves enters program.IsInterface after :=
    (refined.conserves formed evolved.toGrows).mono fun value isInterface =>
      declared.ne_result isInterface present notFunction isResult
  refine conserves.retains declared evolved (fun function member => ?_) fun pair => refined.entrances
  obtain ⟨was, -⟩ := mem_functions.mp member
  rw [results, refined.operation_eq function (formed.lt_of_mem was), results]

end Program

end TensorIR
