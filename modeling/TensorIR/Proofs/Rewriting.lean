import TensorIR.Proofs.Passes

/-!
# Rewriting as often as possible

The rewrites of canonicalization and of refinement leave a program alone when they report no change,
so each of them is only ever tried on operations of the tree as it is. What the single rewrites keep
is therefore kept by the whole.

## Main results

* `Rewrite.idle_simplify`, `Rewrite.idle_foldConstant`, `Rewrite.idle_dropDead`,
  `Rewrite.idle_refine` — rewrites without a change
* `keeps_canonicalize`, `keeps_refineTypes` — what rewriting keeps
* `keeps_prepare`, `keeps_finish` — what is kept before and after a lowering
-/

namespace TensorIR

variable {kept : Program → Prop}

/-! ### Rewrites without a change -/

theorem Program.alterAt_self (program : Program) (op : OpId) :
    program.alterAt op (.cons op) = program := by
  have removed : program.removed.map (fun pair => (pair.1, pair.2.alterAt op (.cons op))) =
      program.removed := by
    simp [Regions.alterAt_self]
  unfold Program.alterAt
  rw [Regions.alterAt_self]
  exact congrArg (fun removed => { program with removed }) removed

/-- A step that gives something whenever it succeeds. -/
private theorem some_ne_none {α : Type} (step : Build α) (draft : Draft) :
    ((some <$> step).run draft).1 ≠ .ok none := by
  rw [map_eq_pure_bind, run_bind]
  rcases step.run draft with ⟨_ | _, _⟩ <;> exact nofun

/-- If a literal cannot have a type, nothing is built. -/
theorem Build.literal_eq_pure {literal : Literal} {type : Ty} {draft : Draft}
    (none : ((Build.literal literal type).run draft).1 = .ok none) : Build.literal literal type = pure .none := by
  have named {step : String → Build ValueId} (word : String) :
      ((Build.freshNamed word >>= fun name => some <$> step name).run draft).1 ≠ .ok Option.none := by
    rw [Build.freshNamed, run_bind, Build.run_named]
    exact some_ne_none _ _
  unfold Build.literal at none ⊢
  split at none
  · unfold Build.scalarLiteral at none ⊢
    split at none
    case h_5 => rfl
    all_goals exact absurd none (some_ne_none _ _)
  · unfold Build.torchLiteral at none ⊢
    simp only [] at none ⊢
    split at none
    case h_6 => rfl
    all_goals exact absurd none (named _)
  · rfl

namespace Rewrite

theorem idle_simplifyCast (op : OpId) : Idle (simplifyCast op) := by
  refine Idle.askFor _ fun operand => Idle.askFor _ fun result => ?_
  refine Idle.askFor _ fun type => Idle.askFor _ fun operandType => ?_
  refine Idle.ite (idle_bind_true _) (Idle.program fun now => ?_)
  cases now.definingOp? operand with
  | none => exact idle_pure _
  | some producer =>
    refine Idle.ite (idle_pure _) ?_
    refine Idle.askFor _ fun source => Idle.askFor _ fun sourceType => ?_
    exact Idle.ite (idle_bind_true _) (idle_pure _)

theorem idle_simplifyCopy (op : OpId) : Idle (simplifyCopy op) := by
  refine Idle.askFor _ fun operand => Idle.program fun now => ?_
  cases now.definingOp? operand with
  | none => exact idle_pure _
  | some producer =>
    refine Idle.ite (idle_pure _) (Idle.askFor _ fun source => ?_)
    exact (Changing.bind _ fun _ => Changing.bind _ fun _ => changing_true).idle

theorem idle_simplifyBranch (op : OpId) : Idle (simplifyBranch op) := by
  intro program unchanged
  rcases simplifyBranch_cases program op with ⟨same, -⟩ | ⟨condition, taken, inlined, -, -, run⟩
  · exact same
  · rw [run] at unchanged
    exact absurd unchanged (Changing.bind _ (fun _ => changing_true) _)

theorem idle_simplifyLoop (op : OpId) : Idle (simplifyLoop op) :=
  Idle.program fun _ => Idle.ite (idle_bind_true _) (idle_pure _)

theorem idle_simplify (op : OpId) : Idle (simplify op) := by
  refine Idle.ask _ fun kind => ?_
  split
  · exact idle_simplifyCast op
  · exact idle_simplifyCopy op
  · exact idle_simplifyBranch op
  · exact idle_simplifyLoop op
  · exact idle_pure _

theorem idle_foldConstant (op : OpId) : Idle (foldConstant op) := by
  intro program unchanged
  rcases foldConstant_cases program op with ⟨same, -⟩ | ⟨literal, result, type, -, -, -, run⟩
  · exact same
  rw [run] at unchanged ⊢
  rw [run_bind, Change.run_build] at unchanged ⊢
  have nothing := @Build.literal_eq_pure literal type (program.draft op .before)
  rcases built : (Build.literal literal type).run (program.draft op .before) with ⟨outcome, draft⟩
  rw [built] at unchanged nothing
  rcases outcome with error | _ | constant
  · cases unchanged
  · rw [nothing rfl] at built
    cases built
    exact program.alterAt_self op
  · exact absurd unchanged (Changing.bind _ (fun _ => changing_true) _)

/-- Folding finds nothing to do where no result is known, or none that a constant can be made of. -/
theorem foldConstant_eq_ok_false_iff {program : Program} {op : OpId} :
    (foldConstant op).run program = (.ok false, program) ↔ ∀ literal, knownResult? program op = some literal →
      ∃ result type, program.result op 0 = .ok result ∧ program.typed result = .ok type ∧
        Build.literal literal type = pure none := by
  unfold foldConstant
  rw [run_bind, Change.run_ask]
  cases knownResult? program op with
  | none => simp
  | some literal =>
    simp only [run_bind, Change.run_askFor, Change.run_build, Option.some.injEq, forall_eq']
    cases program.result op 0 with
    | error error => exact ⟨nofun, nofun⟩
    | ok result =>
      cases typed : program.typed result with
      | error error =>
        simp only [typed, Except.ok.injEq]
        refine ⟨nofun, ?_⟩
        rintro ⟨_, _, rfl, isTyped, -⟩
        rw [typed] at isTyped
        cases isTyped
      | ok type =>
        simp only [typed, Except.ok.injEq]
        -- A constant that is built takes the place of the operation, so where nothing changed there is none.
        constructor
        · intro unchanged
          refine ⟨result, type, rfl, typed, ?_⟩
          rcases built : (Build.literal literal type).run (program.draft op .before) with
            ⟨error | _ | constant, draft⟩
          · rw [built] at unchanged
            cases unchanged
          · exact Build.literal_eq_pure (congrArg Prod.fst built)
          · rw [built] at unchanged
            exact absurd (congrArg Prod.fst unchanged) (Changing.bind _ (fun _ => changing_true) _)
        · rintro ⟨_, _, rfl, isTyped, nothing⟩
          rw [typed] at isTyped
          cases isTyped
          rw [nothing]
          exact congrArg (Prod.mk _) (program.alterAt_self op)

theorem idle_dropDead (op : OpId) : Idle (dropDead op) :=
  Idle.ask _ fun _ => Idle.ite (idle_bind_true _) (idle_pure _)

/-- Dropping finds nothing to do where an operation is not dead. -/
theorem dropDead_eq_ok_false_iff {program : Program} {op : OpId} :
    (dropDead op).run program = (.ok false, program) ↔ isDead program op = false := by
  unfold dropDead
  rw [run_bind, Change.run_ask]
  cases isDead program op with
  | false => simp
  | true =>
    simp only [if_true, Bool.true_eq_false, iff_false]
    exact fun unchanged => Changing.bind _ (fun _ => changing_true) program (congrArg Prod.fst unchanged)

theorem idle_refine (op : OpId) : Idle (refine op) := by
  refine Idle.askFor _ fun found => ?_
  cases found with
  | nil => exact idle_pure _
  | cons first rest => exact idle_bind_true _

end Rewrite

/-! ### What rewriting keeps -/

/-- What the three rewrites keep at operations of the tree is kept by canonicalization. -/
theorem keeps_canonicalize
    (simplify : ∀ op program, kept program → op ∈ program.tree.ops →
      kept ((Rewrite.simplify op).run program).2)
    (foldConstant : ∀ op program, kept program → op ∈ program.tree.ops →
      kept ((Rewrite.foldConstant op).run program).2)
    (dropDead : ∀ op program, kept program → op ∈ program.tree.ops →
      kept ((Rewrite.dropDead op).run program).2) : Keeps kept Change.canonicalize := by
  refine keeps_exhaust (fun rewrite member => ?_) fun rewrite member => ?_
  all_goals
    simp only [List.mem_cons, List.not_mem_nil, or_false] at member
    rcases member with rfl | rfl | rfl
  · exact Rewrite.idle_simplify
  · exact Rewrite.idle_foldConstant
  · exact Rewrite.idle_dropDead
  · exact simplify
  · exact foldConstant
  · exact dropDead

theorem keeps_dropDead
    (dropDead : ∀ op program, kept program → op ∈ program.tree.ops →
      kept ((Rewrite.dropDead op).run program).2) : Keeps kept Change.dropDead := by
  refine keeps_exhaust (fun rewrite member => ?_) fun rewrite member => ?_
  all_goals cases List.mem_singleton.mp member
  · exact Rewrite.idle_dropDead
  · exact dropDead

theorem keeps_refineTypes
    (refine : ∀ op program, kept program → op ∈ program.tree.ops →
      kept ((Rewrite.refine op).run program).2) : Keeps kept Change.refineTypes := by
  refine keeps_exhaust (fun rewrite member => ?_) fun rewrite member => ?_
  all_goals cases List.mem_singleton.mp member
  · exact Rewrite.idle_refine
  · exact refine

/-! ### Before and after a lowering -/

/-- What makes a program ready, step by step. -/
theorem Change.prepare_eq (options : LowerOptions) : Change.prepare options = (do
    Change.verify
    let _ ← (if options.canonicalize then Change.canonicalize else pure false)
    let _ ← (if options.refineTypes then Change.refineTypes else pure false)
    Change.askFor fun program => program.ensureLegal options.target
    Change.convertSignatures options.target) := by
  obtain ⟨target, canonicalize, refineTypes⟩ := options
  cases canonicalize <;> cases refineTypes <;> rfl

/-- What is done with a lowered program, step by step. -/
theorem Change.finish_eq (options : LowerOptions) : Change.finish options = (do
    let _ ← (if options.canonicalize then Change.canonicalize else Change.dropDead)
    Change.askFor fun program => program.ensureLowered options.target
    Change.verify) := by
  obtain ⟨target, canonicalize, refineTypes⟩ := options
  cases canonicalize <;> rfl

theorem keeps_prepare {options : LowerOptions} (canonicalize : Keeps kept Change.canonicalize)
    (refineTypes : Keeps kept Change.refineTypes)
    (signatures : Keeps kept (Change.convertSignatures options.target)) :
    Keeps kept (Change.prepare options) := by
  rw [Change.prepare_eq]
  refine (keeps_askFor _).bind fun _ => (canonicalize.ite (keeps_pure false)).bind fun _ => ?_
  exact (refineTypes.ite (keeps_pure false)).bind fun _ => (keeps_askFor _).bind fun _ => signatures

theorem keeps_finish (options : LowerOptions) (canonicalize : Keeps kept Change.canonicalize)
    (dropDead : Keeps kept Change.dropDead) : Keeps kept (Change.finish options) := by
  rw [Change.finish_eq]
  exact (canonicalize.ite dropDead).bind fun _ => (keeps_askFor _).bind fun _ => keeps_askFor _

/-! ### Evolution -/

section Evolution

variable {allowed : OpKind → Prop}

theorem builds_anyLiteral (scalar : allowed (.arith .constant))
    (torch : ∀ kind : TorchKind, kind.isConst → allowed (.torch kind)) (literal : Literal) (type : Ty) :
    Builds allowed (Build.literal literal type) := by
  cases type with
  | scalar type => exact builds_scalarLiteral scalar literal type
  | torch type => exact builds_torchLiteral torch literal type
  | shaped type => exact Builds.pure _

theorem evolving_canonicalize (scalar : allowed (.arith .constant))
    (torch : ∀ kind : TorchKind, kind.isConst → allowed (.torch kind)) :
    Evolving allowed Change.canonicalize := by
  refine .of_keeps fun start => keeps_canonicalize ?_ ?_ ?_
  all_goals rintro op now ⟨formed, evolved⟩ member
  · have next : now.Evolves allowed ((Rewrite.simplify op).run now).2 :=
      evolvingAt_simplify op now formed member
    exact ⟨next.wellFormed formed, evolved.trans next⟩
  · have next := evolves_foldConstant formed op fun literal _ type _ _ _ =>
      builds_anyLiteral scalar torch literal type
    exact ⟨next.wellFormed formed, evolved.trans next⟩
  · exact (evolving_dropDead op).keeps start now ⟨formed, evolved⟩

theorem evolving_dropDeadAll : Evolving allowed Change.dropDead :=
  .of_keeps fun start => keeps_dropDead fun op now holds _ => (evolving_dropDead op).keeps start now holds

theorem evolving_finish (scalar : allowed (.arith .constant))
    (torch : ∀ kind : TorchKind, kind.isConst → allowed (.torch kind)) (options : LowerOptions) :
    Evolving allowed (Change.finish options) := by
  refine .of_keeps fun start => keeps_finish options ?canonicalize ?dropDead
  case canonicalize => exact (evolving_canonicalize scalar torch).keeps start
  case dropDead => exact evolving_dropDeadAll.keeps start

end Evolution

end TensorIR
