import TensorIR.Proofs.Scalar.Inlining
import TensorIR.Proofs.Verified

/-!
# Preparation keeps what functions return

Before a program is lowered it is canonicalized, types are made more precise, and functions get types
that the target has. Only tensors have types that can be made more precise, and the counterpart of a
type has the values of the type, so functions on scalars return what they returned.

## Main results

* `carries_canonicalize`, `carries_refineTypes`, `carries_convertSignatures` — the passes
* `carries_prepare` — all of them
-/

namespace TensorIR

variable {program after : Program} {op function : OpId} {arguments results : List Atom}

/-! ### Canonicalization -/

theorem carries_simplify :
    RewriteCarries (fun program => program.Means function arguments results) Rewrite.simplify := by
  intro op program after means present run
  unfold Rewrite.simplify at run
  rw [run_bind, Change.run_ask] at run
  simp only [] at run
  split at run
  case h_1 isCast => exact means.simplifyCast present isCast run
  case h_2 isCopy => exact means.simplifyCopy present isCopy run
  case h_3 isBranch => exact means.simplifyBranch present isBranch run
  case h_4 isLoop => exact means.simplifyLoop present isLoop run
  case h_5 => cases run

theorem carries_canonicalize :
    Carries (fun program => program.Means function arguments results) Change.canonicalize := by
  refine carries_exhaust (fun rewrite member => ?_) fun rewrite member => ?_
  all_goals
    simp only [List.mem_cons, List.not_mem_nil, or_false] at member
    rcases member with rfl | rfl | rfl
  · exact Rewrite.idle_simplify
  · exact Rewrite.idle_foldConstant
  · exact Rewrite.idle_dropDead
  · exact carries_simplify
  · exact fun op program after means present run => means.foldConstant present run
  · exact fun op program after means present run => means.dropDead present run

theorem carries_dropDead :
    Carries (fun program => program.Means function arguments results) Change.dropDead := by
  refine carries_exhaust (fun rewrite member => ?_) fun rewrite member => ?_
  all_goals cases List.mem_singleton.mp member
  · exact Rewrite.idle_dropDead
  · exact fun op program after means present run => means.dropDead present run

/-! ### Types that are made more precise -/

theorem OpKind.of_allowsRefinement {kind : OpKind} (allows : kind.allowsRefinement = true) :
    kind.hasMeaning = false ∧ kind ≠ .module ∧ kind ≠ .func .func := by
  cases kind with
  | torch kind => cases kind <;> first | exact ⟨rfl, nofun, nofun⟩ | cases allows
  | module | arith | func | math | memref | scf | tosa => cases allows

theorem Program.operands_of_getElem? {other : OpId} {index : Nat} {value : ValueId}
    (found : (program.operands other)[index]? = some value) :
    other.index < program.operations.size := by
  by_contra above
  rw [Program.operands, Program.operation, Array.getD_eq_getD_getElem?,
    Array.getElem?_eq_none (Nat.le_of_not_lt above)] at found
  cases found

/-- A refinement ends by giving the result its more precise type. Where some user cannot take it, a cast
is built first and these users read the cast. -/
theorem of_refineResult_eq_ok {refinement : Refinement} {done : Unit}
    (run : (Rewrite.refineResult op refinement).run program = (.ok done, after)) :
    (((program.usesOf refinement.result).filter fun use => !(program.kind use.op).allowsRefinement) = [] ∧
        after = program.setType refinement.result (.torch refinement.refined)) ∨
      ∃ cast draft, (Build.value (.torch .tensorStaticInfoCast) [refinement.result]
          (.torch refinement.declared)).run (program.draft op .after) = (.ok cast, draft) ∧
        after = (((program.usesOf refinement.result).filter fun use =>
          !(program.kind use.op).allowsRefinement).foldl (fun changed use => changed.setUse use cast)
            draft.finished).setType refinement.result (.torch refinement.refined) := by
  unfold Rewrite.refineResult at run
  rw [run_bind, Change.run_program] at run
  simp only [] at run
  split at run
  case isTrue none =>
    rw [run_modify] at run
    cases run
    exact .inl ⟨List.isEmpty_iff.mp none, rfl⟩
  case isFalse =>
    obtain ⟨cast, middle, built, run⟩ := of_run_bind_eq_ok run
    obtain ⟨⟨⟩, between, replaced, run⟩ := of_run_bind_eq_ok run
    obtain ⟨draft, isCast, rfl⟩ := of_build_eq_ok built
    rw [run_forIn_modify] at replaced
    cases replaced
    rw [run_modify] at run
    cases run
    exact .inr ⟨cast, draft, isCast, rfl⟩

/-- Giving a result a more precise type is a change at the operation that computes it. -/
theorem alters_refineResult {refinement : Refinement}
    (formed : program.WellFormed) (placed : op ∈ program.tree.ops)
    (isResult : refinement.result ∈ program.results op)
    (notFunction : program.kind op ≠ .func .func)
    (run : (Rewrite.refineResult op refinement).run program = (.ok (), after)) :
    (∃ change, program.Alters (program.Owned op) op change after) ∧ op ∈ after.tree.ops := by
  have owned : program.Owned op refinement.result :=
    Program.owned_results ((formed.owns_results placed notFunction).origin_eq _ isResult)
  rcases of_refineResult_eq_ok run with ⟨-, rfl⟩ | ⟨cast, draft, isCast, rfl⟩
  case inl => exact ⟨⟨_, alters_setType owned _⟩, placed⟩
  case inr =>
    have builds : Builds (fun _ => True)
        (Build.value (.torch .tensorStaticInfoCast) [refinement.result] (.torch refinement.declared)) :=
      builds_value trivial _ _ _
    have extended := builds (program.draft op .after)
    rw [isCast] at extended
    refine ⟨⟨_, ((alters_build extended).trans (alters_setUses _ cast ?_)).trans
      (alters_setType owned _)⟩, ?_⟩
    · intro use member value found
      have isUse := (Program.mem_usesOf.mp (List.mem_of_mem_filter member)).2
      have same : (Draft.finished _).operands use.op = program.operands use.op :=
        congrArg Operation.operands
          (extended.program.operation_eq use.op (Program.operands_of_getElem? isUse))
      rw [same, isUse, Option.some.injEq] at found
      exact found ▸ owned
    · have kept := extended.mem_finished formed (Body.op_mem_parts.mpr placed)
      rw [← tree_setUses] at kept
      exact Body.op_mem_parts.mp kept

theorem mem_results_of_refinement? {type : Ty} {index : Nat} {refinement : Refinement}
    (found : program.refinement? op type index = .ok (some refinement)) :
    refinement.result ∈ program.results op := by
  unfold Program.refinement? at found
  obtain ⟨result, isResult, found⟩ := of_bind_eq_ok found
  have member : result ∈ program.results op :=
    List.mem_of_getElem? (Program.result_eq_ok_iff.mp isResult)
  obtain ⟨declared, -, found⟩ := of_bind_eq_ok found
  split at found
  case h_1 =>
    split at found
    case h_1 =>
      split at found
      case isTrue => cases found
      case isFalse =>
        cases found
        exact member
    case h_2 => cases found
  case h_2 => cases found

/-- What is found when a list is checked item by item has been found for one of them. -/
theorem mem_of_mapM_eq_ok {α β : Type} {find : α → Except Error β} {items : List α} {found : List β}
    (run : items.mapM find = .ok found) {value : β} (member : value ∈ found) :
    ∃ item ∈ items, find item = .ok value := by
  induction items generalizing found with
  | nil =>
    cases run
    cases member
  | cons item items ih =>
    rw [List.mapM_cons] at run
    obtain ⟨first, isFirst, run⟩ := of_bind_eq_ok run
    obtain ⟨later, isLater, run⟩ := of_bind_eq_ok run
    cases run
    rcases List.mem_cons.mp member with rfl | among
    · exact ⟨item, List.mem_cons_self, isFirst⟩
    · obtain ⟨other, isOther, same⟩ := ih isLater among
      exact ⟨other, List.mem_cons_of_mem _ isOther, same⟩

/-- Only results of operations that allow it can be given more precise types. -/
theorem of_refinements {refinements : List Refinement} (found : program.refinements op = .ok refinements)
    {refinement : Refinement} (member : refinement ∈ refinements) :
    (program.kind op).allowsRefinement = true ∧ refinement.result ∈ program.results op := by
  unfold Program.refinements at found
  split at found
  case isFalse =>
    cases found
    cases member
  case isTrue allows =>
    refine ⟨allows, ?_⟩
    split at found
    case h_1 => cases found
    case h_2 =>
      cases found
      cases member
    case h_3 types _ =>
      obtain ⟨each, mapped, kept⟩ := of_bind_eq_ok found
      cases kept
      rw [List.mem_filterMap] at member
      obtain ⟨one, isOne, rfl⟩ := member
      obtain ⟨pair, -, known⟩ := mem_of_mapM_eq_ok mapped isOne
      exact mem_results_of_refinement? known

theorem Program.Means.refineResults {refinements : List Refinement}
    (means : program.Means function arguments results) (present : op ∈ program.tree.ops)
    (allows : (program.kind op).allowsRefinement = true)
    (areResults : ∀ refinement ∈ refinements, refinement.result ∈ program.results op)
    (run : (forIn refinements PUnit.unit fun refinement _ => do
      Rewrite.refineResult op refinement
      pure (ForInStep.yield PUnit.unit) : Change PUnit).run program = (.ok ⟨⟩, after)) :
    after.Means function arguments results := by
  induction refinements generalizing program with
  | nil =>
    cases run
    exact means
  | cons refinement refinements ih =>
    rw [List.forIn_cons] at run
    obtain ⟨step, middle, ran, run⟩ := of_run_bind_eq_ok run
    obtain ⟨⟨⟩, between, refined, ran⟩ := of_run_bind_eq_ok ran
    cases ran
    obtain ⟨silent, notModule, notFunction⟩ := OpKind.of_allowsRefinement allows
    obtain ⟨⟨change, alters⟩, kept⟩ := alters_refineResult means.formed present
      (areResults _ List.mem_cons_self) notFunction refined
    have evolved : program.Evolves (fun _ => True) middle :=
    (evolving_refineResult trivial op refinement).of_run means.formed refined
    have below := (means.formed.knows _ (Body.op_mem_parts.mpr present)).1
    refine ih (means.alter_silent (evolved.wellFormed means.formed) evolved.toGrows alters present
      silent notModule notFunction) kept (by rwa [evolved.kind_eq op below])
      (fun other member => ?_) run
    rw [evolved.results_eq op below notFunction]
    exact areResults other (List.mem_cons_of_mem _ member)

theorem carries_refineTypes :
    Carries (fun program => program.Means function arguments results) Change.refineTypes := by
  refine carries_exhaust (fun rewrite member => ?_) fun rewrite member => ?_
  all_goals cases List.mem_singleton.mp member
  · exact Rewrite.idle_refine
  · intro op program after means present run
    unfold Rewrite.refine at run
    obtain ⟨refinements, found, run⟩ := of_askFor_bind_eq_ok run
    cases refinements with
    | nil => cases run
    | cons first rest =>
      have each (refinement : Refinement) (member : refinement ∈ first :: rest) :=
        of_refinements found member
      exact means.refineResults present (each first List.mem_cons_self).1
        (fun refinement member => (each refinement member).2) (of_then_true_eq_ok run)

/-! ### Signatures -/

/-- The counterpart of a type has the values of the type. -/
theorem fits_counterpart {type lowered : Ty} {atom : Atom}
    (found : Target.loops.counterpart type = .ok lowered) (fits : atom.fits type = true) :
    atom.fits lowered = true := by
  unfold Atom.fits at fits
  split at fits
  all_goals first
    | cases found
      rfl
    | cases fits

theorem typeOf?_setType (program : Program) (value other : ValueId) (type : Ty) :
    (program.setType value type).typeOf? other =
      if value = other ∧ other.index < program.values.size then some type
      else program.typeOf? other := by
  rw [Program.typeOf?, Program.setType, Program.value_modifyValue]
  split <;> rfl

theorem values_setTypes (program : Program) (types : List (ValueId × Ty)) :
    (program.setTypes types).values.size = program.values.size := by
  induction types generalizing program with
  | nil => rfl
  | cons first types ih =>
    rw [setTypes_cons, ih, Program.setType, Program.modifyValue]
    exact Array.size_modify ..

/-- Each value has its old type or a type that it has been given. -/
theorem typeOf?_setTypes (types : List (ValueId × Ty)) (value : ValueId) (program : Program) :
    (program.setTypes types).typeOf? value = program.typeOf? value ∨
      ∃ type, (value, type) ∈ types ∧ (program.setTypes types).typeOf? value = some type := by
  induction types generalizing program with
  | nil => exact .inl rfl
  | cons first types ih =>
    rw [setTypes_cons]
    rcases ih (program.setType first.1 first.2) with same | ⟨type, member, given⟩
    · rw [same, typeOf?_setType]
      split
      case isTrue here =>
        refine .inr ⟨first.2, ?_, rfl⟩
        rw [← here.1]
        exact List.mem_cons_self
      case isFalse => exact .inl rfl
    · exact .inr ⟨type, List.mem_cons_of_mem _ member, given⟩

theorem value_withOutputs {program : Program} {op : OpId} {outputs : List Ty} {value : ValueId}
    (below : value.index < program.values.size) :
    (program.withOutputs op outputs).value value = program.value value := by
  rw [withOutputs_eq]
  simp [Program.value, Program.modifyOperation, Array.getD_eq_getD_getElem?, Array.getElem?_append_left below]

theorem operands_withOutputs (program : Program) (op other : OpId) (outputs : List Ty) :
    (program.withOutputs op outputs).operands other = program.operands other := by
  rw [withOutputs_eq, Program.operands, Program.operation_modifyOperation]
  split <;> rfl

/-- Values whose types have counterparts are paired with these. -/
theorem of_counterparts {target : Target} {values : List ValueId} {types inputs : List Ty} {value : ValueId}
    {type : Ty} (typed : List.Forall₂ (fun value type => program.typed value = .ok type) values types)
    (lowered : List.Forall₂ (fun old type => target.counterpart old = .ok type) types inputs)
    (member : (value, type) ∈ values.zip inputs) :
    ∃ old, program.typeOf? value = some old ∧ target.counterpart old = .ok type := by
  induction typed generalizing inputs with
  | nil => cases member
  | cons isType _ ih =>
    cases lowered with
    | cons isLowered others =>
      rcases List.mem_cons.mp member with here | later
      · cases here
        exact ⟨_, Program.typeOf?_of_typed isType, isLowered⟩
      · exact ih others later

/-- The types of a function have counterparts if those of all arguments and results have. -/
theorem loweredSignature_eq_ok_iff {target : Target} {inputs outputs : List Ty} :
    program.loweredSignature target op = .ok (.ok inputs, .ok outputs) ↔ ∃ block body taken given,
      program.functionBody op = .ok (block, body) ∧ (program.header block).arguments.mapM program.typed = .ok taken ∧
        taken.mapM target.counterpart = .ok inputs ∧ program.typedResults op = .ok given ∧
          given.mapM target.counterpart = .ok outputs := by
  unfold Program.loweredSignature
  constructor
  · intro lowered
    obtain ⟨⟨block, body⟩, isBody, lowered⟩ := of_bind_eq_ok lowered
    obtain ⟨taken, areTaken, lowered⟩ := of_bind_eq_ok lowered
    obtain ⟨given, areGiven, lowered⟩ := of_bind_eq_ok lowered
    obtain ⟨isInputs, isOutputs⟩ := Prod.mk.inj (Except.ok.inj lowered)
    exact ⟨block, body, taken, given, isBody, areTaken, isInputs, areGiven, isOutputs⟩
  · rintro ⟨block, body, taken, given, isBody, areTaken, isInputs, areGiven, isOutputs⟩
    simp only [isBody, areTaken, areGiven, bind, Except.bind, pure, Except.pure, isInputs, isOutputs]

/-- Each argument of a function is given the counterpart of its type. -/
theorem of_loweredSignature {target : Target} {inputs outputs : List Ty} {block : BlockId} {body : Body}
    (lowered : program.loweredSignature target op = .ok (.ok inputs, .ok outputs))
    (entry : program.functionBody op = .ok (block, body)) {value : ValueId} {type : Ty}
    (member : (value, type) ∈ (program.header block).arguments.zip inputs) :
    ∃ old, program.typeOf? value = some old ∧ target.counterpart old = .ok type := by
  obtain ⟨_, _, taken, -, isEntry, typed, isInputs, -⟩ := loweredSignature_eq_ok_iff.mp lowered
  rw [entry] at isEntry
  cases isEntry
  exact of_counterparts (forall₂_of_mapM_eq_ok typed) (forall₂_of_mapM_eq_ok isInputs) member

theorem Program.Means.convertFunction (means : program.Means function arguments results)
    (present : op ∈ program.tree.ops) (isFunction : program.kind op = .func .func)
    (run : (Change.convertFunction .loops op).run program = (.ok (), after)) :
    after.Means function arguments results := by
  have formed := means.formed
  have retyped : Retypes (fun _ => True) program ((Change.convertFunction .loops op).run program).2 :=
    retypes_convertFunction .loops formed present isFunction
  rw [run] at retyped
  have regions : after.regions = program.regions := by
    have same := retyped.2
    unfold Program.tree at same
    injection same
  rcases convertFunction_cases .loops program op with
    ⟨-, failed⟩ | ⟨inputs, outputs, block, body, lowered, entry, same⟩
  · rw [run] at failed
    exact absurd rfl failed
  obtain ⟨-, rfl⟩ := Prod.mk.inj (run.symm.trans same)
  have placed := (formed.entry_mem present (entryOf?_of_functionBody entry)).1
  have arguments := (formed.knows _ placed).2
  have typeOf? (value : ValueId) (below : value.index < program.values.size) :
      ((program.setTypes ((program.header block).arguments.zip inputs)).withOutputs op outputs).typeOf? value =
        (program.setTypes ((program.header block).arguments.zip inputs)).typeOf? value := by
    rw [Program.typeOf?, value_withOutputs (by rwa [values_setTypes]), Program.typeOf?]
  -- Only the types of arguments change, into counterparts with the same values.
  refine means.follow retyped.evolves regions fun part among => ?_
  have known := formed.knows part (List.mem_cons_of_mem _ (List.mem_append_left _ among))
  cases part with
  | op id =>
    refine retyped.1.follows_same known (fun other _ => ?_) fun value introduces => ?_
    · rw [operands_withOutputs, Program.operands, Program.operation, operations_setTypes]
      rfl
    · rw [typeOf? value introduces.1]
      rcases typeOf?_setTypes ((program.header block).arguments.zip inputs) value program with
        same | ⟨type, member, -⟩
      · exact same
      · have origin := arguments.origin_eq value (List.of_mem_zip member).1
        rw [introduces.2] at origin
        cases origin
  | block id =>
    refine ⟨retyped.1.arguments_eq id known.1, fun value isArgument =>
      ⟨Correspondence.fixes_same value, fun atom fits => ?_⟩⟩
    rw [typeOf? value (known.2.lt value isArgument)]
    rcases typeOf?_setTypes ((program.header block).arguments.zip inputs) value program with
      same | ⟨type, member, given⟩
    · rwa [same]
    · obtain ⟨old, isOld, isCounterpart⟩ := of_loweredSignature lowered entry member
      rw [isOld] at fits
      rw [given]
      exact fits_counterpart isCounterpart fits

theorem alters_convertCall {owned : ValueId → Prop}
    (among : ∀ result ∈ program.results op, owned result) :
    program.Alters owned op (.cons op) ((Change.convertCall .loops op).run program).2 := by
  unfold Change.convertCall
  rw [run_bind, Change.run_ask]
  refine @Keeps.bind _ _ _ (program.Alters owned op (.cons op)) _ _
    (Keeps.forIn (fun result member _ => ?_) _) (fun _ => keeps_pure _) program (.refl program owned op)
  refine keeps_program.bind fun now => ?_
  cases now.typed result >>= Target.loops.counterpart with
  | error error => exact (keeps_throw _).bind fun _ => keeps_pure _
  | ok type =>
    refine Keeps.bind (keeps_modify fun now alters => ?_) fun _ => keeps_pure _
    have both := alters.trans (alters_setType (among result member) type)
    simpa only [Body.alterAt_self] using both

theorem Program.Means.convertOp (means : program.Means function arguments results)
    (present : op ∈ program.tree.ops) (run : (Change.convertOp .loops op).run program = (.ok (), after)) :
    after.Means function arguments results := by
  have formed := means.formed
  have retyped : Retypes (fun _ => True) program ((Change.convertOp .loops op).run program).2 :=
    retypes_convertOp .loops formed present
  rw [run] at retyped
  unfold Change.convertOp at run
  rw [run_bind, Change.run_ask] at run
  simp only [] at run
  split at run
  case h_1 isFunction => exact means.convertFunction present isFunction run
  case h_2 isCall =>
    have notFunction : program.kind op ≠ .func .func := by rw [isCall]; nofun
    have alters : program.Alters (program.Owned op) op (.cons op)
        ((Change.convertCall .loops op).run program).2 :=
      alters_convertCall fun result isResult =>
        Program.owned_results ((formed.owns_results present notFunction).origin_eq result isResult)
    rw [run] at alters
    exact means.alter_silent (retyped.evolves.wellFormed formed) retyped.1 alters present
      (by rw [isCall]; rfl) (by rw [isCall]; nofun) notFunction
  case h_3 =>
    cases run
    exact means

theorem Program.Means.convertEach {ops : List OpId} (means : program.Means function arguments results)
    (present : ∀ op ∈ ops, op ∈ program.tree.ops)
    (run : (Change.convertEach .loops ops).run program = (.ok (), after)) :
    after.Means function arguments results := by
  induction ops generalizing program with
  | nil =>
    cases run
    exact means
  | cons op ops ih =>
    obtain ⟨⟨⟩, middle, converted, run⟩ := of_run_bind_eq_ok run
    have here := present op List.mem_cons_self
    have retyped : Retypes (fun _ => True) program ((Change.convertOp .loops op).run program).2 :=
      retypes_convertOp .loops means.formed here
    rw [converted] at retyped
    refine ih (means.convertOp here converted) (fun other member => ?_) run
    rw [retyped.2]
    exact present other (List.mem_cons_of_mem _ member)

theorem carries_convertSignatures :
    Carries (fun program => program.Means function arguments results)
      (Change.convertSignatures .loops) := by
  intro program done after means run
  unfold Change.convertSignatures at run
  rw [run_bind, Change.run_ask] at run
  exact means.convertEach (fun _ member => member) run

/-- What is carried through the rewriting that the options ask for holds when functions get their types. -/
theorem of_prepare_eq_ok {kept : Program → Prop} {options : LowerOptions} {program after : Program} {done : Unit}
    (canonicalize : options.canonicalize = true → Carries kept Change.canonicalize)
    (refineTypes : options.refineTypes = true → Carries kept Change.refineTypes)
    (holds : kept program) (run : (Change.prepare options).run program = (.ok done, after)) :
    ∃ ready, kept ready ∧ (Change.convertSignatures options.target).run ready = (.ok done, after) := by
  rw [Change.prepare_eq] at run
  obtain ⟨⟨⟩, -, run⟩ := of_askFor_bind_eq_ok run
  obtain ⟨_, canonical, canonicalized, run⟩ := of_run_bind_eq_ok run
  obtain ⟨_, refined, isRefined, run⟩ := of_run_bind_eq_ok run
  obtain ⟨⟨⟩, -, run⟩ := of_askFor_bind_eq_ok run
  have first : kept canonical := by
    split at canonicalized
    case isTrue wanted => exact canonicalize wanted _ _ _ holds canonicalized
    case isFalse => exact carries_pure false _ _ _ holds canonicalized
  refine ⟨refined, ?_, run⟩
  split at isRefined
  case isTrue wanted => exact refineTypes wanted _ _ _ first isRefined
  case isFalse => exact carries_pure false _ _ _ first isRefined

/-- Preparation keeps what functions return. -/
theorem carries_prepare {options : LowerOptions} (loops : options.target = .loops) :
    Carries (fun program => program.Means function arguments results) (Change.prepare options) := by
  intro program done after means run
  obtain ⟨ready, holds, signing⟩ :=
    of_prepare_eq_ok (fun _ => carries_canonicalize) (fun _ => carries_refineTypes) means run
  rw [loops] at signing
  exact carries_convertSignatures ready done after holds signing

end TensorIR
