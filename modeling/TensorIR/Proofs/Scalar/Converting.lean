import TensorIR.Proofs.LoweringRun
import TensorIR.Proofs.Scalar.Looping

/-!
# Lowering programs keeps what functions return

Whatever is lowered next, functions on scalars return what they did before. An operation that ends a
block is lowered after what it stands in, as that comes first in program order.

## Main results

* `Program.Means.opToLoops` — the lowering of one operation, whichever is due
* `carries_toLoops` — the lowering of all operations
* `carries_lower` — the lowering of a program, with what is done before and after
-/

namespace TensorIR

variable {program after : Program} {op function : OpId} {arguments results : List Atom}

/-! ### The order of lowering -/

section Order

variable {visit : Visit}

mutual

/-- What is inside an operation comes right behind it in program order. -/
theorem Body.infix_of_visits (block : Option BlockId) (parent : Option OpId) (depth : Nat) :
    (body : Body) → visit ∈ body.visits block parent depth →
      visit.op :: visit.regions.ops <:+: body.ops
  | .nil, member => absurd member List.not_mem_nil
  | .cons op regions rest, member => by
    rw [Body.visits, List.mem_cons, List.mem_append] at member
    rw [Body.ops]
    rcases member with rfl | inside | behind
    · exact ⟨[], rest.ops, rfl⟩
    · exact ((Regions.infix_of_visits _ _ regions inside).trans
        (List.prefix_append _ _).isInfix).trans (List.suffix_cons _ _).isInfix
    · exact ((Body.infix_of_visits _ _ _ rest behind).trans
        (List.suffix_append _ _).isInfix).trans (List.suffix_cons _ _).isInfix

theorem Blocks.infix_of_visits (parent : OpId) (depth : Nat) :
    (blocks : Blocks) → visit ∈ blocks.visits parent depth →
      visit.op :: visit.regions.ops <:+: blocks.ops
  | .nil, member => absurd member List.not_mem_nil
  | .cons block body rest, member => by
    rw [Blocks.visits, List.mem_append] at member
    rw [Blocks.ops]
    rcases member with inside | behind
    · exact (Body.infix_of_visits _ _ _ body inside).trans (List.prefix_append _ _).isInfix
    · exact (Blocks.infix_of_visits _ _ rest behind).trans (List.suffix_append _ _).isInfix

theorem Regions.infix_of_visits (parent : OpId) (depth : Nat) :
    (regions : Regions) → visit ∈ regions.visits parent depth →
      visit.op :: visit.regions.ops <:+: regions.ops
  | .nil, member => absurd member List.not_mem_nil
  | .cons blocks rest, member => by
    rw [Regions.visits, List.mem_append] at member
    rw [Regions.ops]
    rcases member with inside | behind
    · exact (Blocks.infix_of_visits _ _ blocks inside).trans (List.prefix_append _ _).isInfix
    · exact (Regions.infix_of_visits _ _ rest behind).trans (List.suffix_append _ _).isInfix

end

end Order

/-- Nothing that has an operation inside is due when that operation is the next one. -/
theorem Lowering.IsNext.notDue_of_inside {isDue : Program → OpId → TorchKind → Bool}
    {kind : TorchKind} (next : IsNext isDue program op kind) (formed : program.WellFormed)
    {visit : Visit} (visited : visit ∈ program.visits) (inside : op ∈ visit.regions.ops)
    {otherKind : TorchKind} (isOther : program.kind visit.op = .torch otherKind) :
    isDue program visit.op otherKind = false := by
  obtain ⟨earlier, later, same, notDue⟩ := next.first
  obtain ⟨before, behind, isOps⟩ := Body.infix_of_visits none none 0 program.tree visited
  obtain ⟨first, last, isInside⟩ := List.append_of_mem inside
  refine notDue visit.op ?_ otherKind isOther
  have nodup := Body.nodup_ops formed.nodup
  have split : program.tree.ops = (before ++ visit.op :: first) ++ op :: (last ++ behind) := by
    rw [← isOps, isInside]
    simp
  rw [split] at nodup
  obtain ⟨-, behindNodup, apart⟩ := List.nodup_append.mp nodup
  have notBefore : op ∉ before ++ visit.op :: first := fun member =>
    apart op member op List.mem_cons_self rfl
  obtain ⟨rfl, -⟩ := (List.append_cons_inj_of_notMem notBefore (List.nodup_cons.mp behindNodup).1).mp
    (split.symm.trans same)
  simp

/-! ### Single operations -/

/-- The steps of putting what is built in the place of an operation. -/
theorem of_exec_supersede_eq_ok {start : Lowering.State} {build : Build (ValueId × Option QuantParams)}
    {table : QuantTable}
    (run : Lowering.exec (Lowering.supersede op build) start = (.ok ((), table), after)) :
    ∃ value params draft, build.run (start.1.draft op .before) = (.ok (value, params), draft) ∧
      (Change.supersede op value).run draft.finished = (.ok (), after) := by
  rw [Lowering.exec_supersede] at run
  split at run
  case h_1 => cases run
  case h_2 value params middle built =>
    obtain ⟨draft, isBuilt, rfl⟩ := of_build_eq_ok built
    split at run
    case h_1 => cases run
    case h_2 superseded =>
      cases run
      exact ⟨value, params, draft, isBuilt, superseded⟩

/-- Whatever is built for an operation that is not about scalars may come in its place. -/
theorem Program.Means.exec_supersede {start : Lowering.State}
    {build : Build (ValueId × Option QuantParams)} {table : QuantTable}
    (means : start.1.Means function arguments results) (builds : BuildsTarget build)
    (present : op ∈ start.1.tree.ops) (silent : (start.1.kind op).hasMeaning = false)
    (notModule : start.1.kind op ≠ .module) (notFunction : start.1.kind op ≠ .func .func)
    (run : Lowering.exec (Lowering.supersede op build) start = (.ok ((), table), after)) :
    after.Means function arguments results := by
  obtain ⟨value, params, draft, built, superseded⟩ := of_exec_supersede_eq_ok run
  have extended := builds (start.1.draft op .before)
  rw [built] at extended
  exact means.supersedeBuilt present silent notModule notFunction extended superseded

/-- The steps of a change alone. -/
theorem of_exec_lift_eq_ok {α : Type} {change : Change α} {start : Lowering.State} {value : α}
    {table : QuantTable}
    (run : Lowering.exec (liftM change : Lowering α) start = (.ok (value, table), after)) :
    change.run start.1 = (.ok value, after) := by
  rw [Lowering.exec_lift] at run
  split at run
  case h_1 same =>
    cases run
    exact same
  case h_2 => cases run

theorem TorchKind.hasMeaning_of_isParameter {kind : TorchKind} (isParameter : kind.isParameter = true) :
    (OpKind.torch kind).hasMeaning = false := by
  cases kind <;> first | rfl | cases isParameter

theorem TorchKind.hasMeaning_of_isLowerableTensor {kind : TorchKind}
    (isTensor : kind.isLowerableTensor = true) : (OpKind.torch kind).hasMeaning = false := by
  cases kind <;> first | rfl | cases isTensor

/-- The lowering of the operation that is the next one. -/
theorem Program.Means.opToLoops {kind : TorchKind} {start : Lowering.State} {table : QuantTable}
    (means : start.1.Means function arguments results)
    (next : Lowering.IsNext Lowering.isDueForLoops start.1 op kind)
    (run : Lowering.exec (Lowering.opToLoops op kind) start = (.ok ((), table), after)) :
    after.Means function arguments results := by
  have present := next.mem
  have isKind := next.isKind
  have notModule : start.1.kind op ≠ .module := by rw [isKind]; nofun
  have notFunction : start.1.kind op ≠ .func .func := by rw [isKind]; nofun
  -- Outer operations are due first, so no loop around this one is left.
  have outside (visit : Visit) (visited : visit ∈ start.1.visits) (inside : op ∈ visit.regions.ops) :
      start.1.kind visit.op ≠ .torch .primLoop := by
    intro isLoop
    have waits := next.notDue_of_inside means.formed visited inside isLoop
    cases waits
  unfold Lowering.opToLoops at run
  split at run
  case isTrue isParameter =>
    have silent := TorchKind.hasMeaning_of_isParameter isParameter
    exact means.erase_silent (by rwa [isKind]) notModule notFunction (of_exec_lift_eq_ok run)
  case isFalse =>
    split at run
    case h_1 => exact means.branchToLoops present isKind (of_exec_lift_eq_ok run)
    case h_2 => exact means.loopToLoops present isKind (of_exec_lift_eq_ok run)
    case h_3 =>
      exact means.terminatorToLoops present isKind .ofBranch outside (of_exec_lift_eq_ok run)
    case h_4 =>
      exact means.terminatorToLoops present isKind .ofLoop outside (of_exec_lift_eq_ok run)
    case h_5 =>
      split at run
      case isTrue isScalar =>
        cases meaningful : (start.1.kind op).hasMeaning with
        | false =>
          exact means.exec_supersede (Loops.builds_scalarOp.bind fun _ => Builds.pure _) present
            meaningful notModule notFunction run
        | true =>
          obtain ⟨value, params, draft, built, superseded⟩ := of_exec_supersede_eq_ok run
          obtain ⟨result, middle, computed, done⟩ := of_run_bind_eq_ok built
          cases done
          exact means.lowerScalar present isKind meaningful isScalar computed superseded
      case isFalse =>
        split at run
        case isTrue isTensor =>
          have silent := TorchKind.hasMeaning_of_isLowerableTensor isTensor
          rw [Lowering.exec_bind, Lowering.exec_get] at run
          exact means.exec_supersede Loops.builds_tensorOp present (by rwa [isKind]) notModule
            notFunction run
        case isFalse => cases run

/-! ### Programs -/

/-- The lowering of all operations. -/
theorem carries_toLoops :
    Carries (fun program => program.Means function arguments results) (Change.convert .loops) := by
  intro program value after means run
  have along {final : Lowering.State}
      (steps : Lowering.Steps Lowering.isDueForLoops Lowering.opToLoops (program, {}) final) :
      final.1.Means function arguments results := by
    induction steps with
    | refl => exact means
    | tail _ next run ih => exact ih.opToLoops next run
  have chain (result : Except Error (Bool × QuantTable) × Program)
      (same : Lowering.exec (Lowering.exhaust Lowering.isDueForLoops Lowering.opToLoops)
        (program, {}) = result) :
      Lowering.Run Lowering.isDueForLoops Lowering.opToLoops (program, {}) result :=
    same ▸ Lowering.run_exhaust (program, {})
  cases chain _ run with
  | done changed steps => exact along steps

theorem carries_finish (options : LowerOptions) :
    Carries (fun program => program.Means function arguments results) (Change.finish options) := by
  have verified : Carries (fun program : Program => program.Means function arguments results) (do
      Change.askFor fun program => program.ensureLowered options.target
      Change.verify) :=
    (keeps_askFor _).carries.bind fun _ => (keeps_askFor _).carries
  exact Carries.ite (carries_canonicalize.bind fun _ => verified)
    (carries_dropDead.bind fun _ => verified)

/-- The lowering of a program. -/
theorem carries_lower {options : LowerOptions} (loops : options.target = .loops) :
    Carries (fun program => program.Means function arguments results) (Change.lower options) := by
  unfold Change.lower
  rw [loops]
  refine (keeps_ask _).carries.bind fun _ => (carries_prepare loops).bind fun _ => ?_
  refine carries_toLoops.bind fun _ => (carries_finish options).bind fun _ => ?_
  exact (keeps_ask _).carries.bind fun _ => carries_pure _

end TensorIR
