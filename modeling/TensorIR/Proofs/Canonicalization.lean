import Mathlib.Algebra.BigOperators.Group.List.Basic
import Mathlib.Algebra.Order.BigOperators.Group.List
import Mathlib.Algebra.Order.Ring.Nat
import TensorIR.Proofs.Repetition
import TensorIR.Proofs.Scalar.Canonical

/-!
# Canonicalization ends

Every change of canonicalization takes an operation out of the tree. What is moved out of a branch has
been in the tree before, and all that is new is a constant, in place of an operation that is none. With
two units for an operation and one for a constant, every change makes a program lighter, so there are
at most two changes for each operation.

## Main definitions

* `Program.weight` — two units for each operation, one for each constant
* `Program.Sheds` — an operation leaves the tree and only constants are new

## Main results

* `Program.Sheds.weight_lt` — a program that sheds an operation gets lighter
* `sheds_simplify`, `sheds_foldConstant`, `sheds_dropDead` — the rewrites
* `canonicalize_settles` — canonicalization ends, and doing it again changes nothing
-/

namespace TensorIR

/-- What an operation of the kind weighs. -/
def OpKind.weight (kind : OpKind) : Nat :=
  if kind.isConst then 1 else 2

/-- What the operations inside the outermost one weigh. -/
def Program.weight (program : Program) : Nat :=
  (program.regions.ops.map fun op => (program.kind op).weight).sum

variable {allowed : OpKind → Prop} {program start middle after now : Program} {op : OpId}

theorem OpKind.weight_pos (kind : OpKind) : 0 < kind.weight := by
  unfold OpKind.weight
  split <;> decide

theorem OpKind.weight_le (kind : OpKind) : kind.weight ≤ 2 := by
  unfold OpKind.weight
  split <;> decide

theorem Program.weight_le (program : Program) : program.weight ≤ 2 * program.regions.ops.length := by
  have bound := List.sum_le_card_nsmul (program.regions.ops.map fun op => (program.kind op).weight) 2
    (by simp [OpKind.weight_le])
  rwa [List.length_map, nsmul_eq_mul, Nat.cast_id, Nat.mul_comm] at bound

/-! ### Weights -/

theorem Program.mem_regions_ops (inside : op ≠ program.root) :
    op ∈ program.tree.ops ↔ op ∈ program.regions.ops := by
  simp [Program.tree, Body.ops, inside]

/-- If nothing new is allowed, there are no further operations. -/
theorem Program.Evolves.size_eq (evolved : start.Evolves (fun _ => False) now) :
    now.operations.size = start.operations.size := by
  refine Nat.le_antisymm ?_ evolved.operations_le
  by_contra larger
  exact evolved.kind_new ⟨start.operations.size⟩ ⟨le_rfl, Nat.lt_of_not_le larger⟩

/-- The names of the operations that a program has beyond those of an earlier one. -/
def Program.newOps (start now : Program) : List OpId :=
  (List.range' start.operations.size (now.operations.size - start.operations.size)).map OpId.mk

theorem Program.mem_newOps : op ∈ start.newOps now ↔ (Part.op op).IsNew start now := by
  obtain ⟨index⟩ := op
  simp only [Program.newOps, List.mem_map, List.mem_range'_1, OpId.mk.injEq, exists_eq_right, Part.IsNew]
  omega

/-- An operation leaves the tree, and what is new is constants. -/
structure Program.Sheds (program : Program) (op : OpId) (after : Program) : Prop where
  evolves : program.Evolves (fun kind => kind.isConst = true) after
  notRoot : op ≠ program.root
  gone : op ∉ after.tree.ops

/-- What remains in the tree has been there before or is new. -/
theorem Program.Sheds.subset (sheds : program.Sheds op after) (formed : program.WellFormed) :
    after.regions.ops ⊆ program.regions.ops.erase op ++ program.newOps after := by
  intro other member
  have present : other ∈ after.tree.ops := List.mem_cons_of_mem _ (List.mem_append_left _ member)
  have notRoot : other ≠ program.root := by
    rintro rfl
    rw [← sheds.evolves.root] at member
    exact (sheds.evolves.wellFormed formed).root_notMem member
  rw [List.mem_append, Program.mem_newOps]
  refine (sheds.evolves.mem_or_isNew (Body.op_mem_parts.mpr present)).imp_left fun old => ?_
  rw [Body.op_mem_parts, Program.mem_regions_ops notRoot] at old
  refine (List.mem_erase_of_ne ?_).mpr old
  rintro rfl
  exact sheds.gone present

/-- A program gets lighter by an operation that leaves its tree, unless there is enough that is new. -/
theorem Program.Sheds.weight_lt (sheds : program.Sheds op after) (formed : program.WellFormed)
    (present : op ∈ program.tree.ops)
    (few : after.operations.size < program.operations.size + (program.kind op).weight) :
    after.weight < program.weight := by
  have inside := (Program.mem_regions_ops sheds.notRoot).mp present
  have nodup : after.regions.ops.Nodup := by
    have nodup := Body.nodup_ops (sheds.evolves.wellFormed formed).nodup
    simp only [Program.tree, Body.ops, List.append_nil, List.nodup_cons] at nodup
    exact nodup.2
  have known (other : OpId) (member : other ∈ program.regions.ops) :
      after.kind other = program.kind other :=
    sheds.evolves.kind_eq other (formed.knows _ (Body.op_mem_parts.mpr
      (List.mem_cons_of_mem _ (List.mem_append_left _ member)))).1
  obtain ⟨others, same, among⟩ := List.subperm_of_subset nodup (sheds.subset formed)
  -- What remains weighs what it has weighed before, and every new constant weighs one unit.
  have remaining : ((program.regions.ops.erase op).map fun other => (after.kind other).weight) =
      (program.regions.ops.erase op).map fun other => (program.kind other).weight :=
    List.map_congr_left fun other member => by rw [known other (List.mem_of_mem_erase member)]
  have new : ((program.newOps after).map fun other => (after.kind other).weight) =
      (program.newOps after).map fun _ => 1 :=
    List.map_congr_left fun other member => if_pos (sheds.evolves.kind_new other (Program.mem_newOps.mp member))
  have bound : after.weight ≤ ((program.regions.ops.erase op ++ program.newOps after).map
      fun other => (after.kind other).weight).sum := by
    rw [Program.weight, ← (same.map _).sum_eq]
    exact (among.map _).sum_le_sum fun _ _ => Nat.zero_le _
  have whole : (program.kind op).weight +
      ((program.regions.ops.erase op).map fun other => (program.kind other).weight).sum =
        program.weight :=
    List.sum_map_erase (fun other => (program.kind other).weight) inside
  rw [List.map_append, remaining, new, List.sum_append, List.map_const', List.sum_replicate,
    Program.newOps, List.length_map, List.length_range', nsmul_eq_mul, mul_one, Nat.cast_id] at bound
  have grown := sheds.evolves.operations_le
  omega

/-! ### What the rewrites take away -/

/-- What has been taken away is not in the tree. -/
theorem notMem_of_erase (formed : program.WellFormed) {done : Unit}
    (run : (Change.erase op).run program = (.ok done, after)) :
    op ≠ program.root ∧ op ∉ after.tree.ops := by
  obtain ⟨notRoot, rfl⟩ := of_erase_eq_ok run
  refine ⟨notRoot, ?_⟩
  have tree : ((program.alterAt op fun _ rest => rest).keep op (program.regionsOf op)).tree =
      program.tree.alterAt op fun _ rest => rest := by
    rw [← Program.tree_alterAt notRoot]
    unfold Program.keep
    split <;> rfl
  rw [tree]
  by_cases present : op ∈ program.tree.ops
  case pos =>
    obtain ⟨visit, -, -, -, outside, same⟩ := formed.exists_focus present
    have nodup := formed.nodup
    have original : program.tree.alterAt op (.cons op) = program.tree := Body.alterAt_self _
    rw [← original, (same _).nodup_iff, Body.parts] at nodup
    rw [← Body.op_mem_parts, (same _).mem_iff]
    have apart := (List.nodup_cons.mp (List.nodup_middle.mp nodup)).1
    simp only [List.mem_append, not_or] at apart
    rw [List.mem_append]
    exact not_or.mpr ⟨apart.1, apart.2.2⟩
  case neg => rwa [Body.alterAt_of_notMem _ present]

/-- Taking an operation away after a change under which the program evolves. -/
theorem sheds_of_erase (formed : program.WellFormed)
    (evolved : program.Evolves (fun kind => kind.isConst = true) middle) {done : Unit}
    (run : (Change.erase op).run middle = (.ok done, after)) : program.Sheds op after := by
  have between := evolved.wellFormed formed
  obtain ⟨notRoot, gone⟩ := notMem_of_erase between run
  exact ⟨evolved.trans ((evolving_erase op).of_run between run), evolved.root ▸ notRoot, gone⟩

theorem sheds_of_supersede (formed : program.WellFormed)
    (evolved : program.Evolves (fun kind => kind.isConst = true) middle) {value : ValueId} {done : Unit}
    (run : (Change.supersede op value).run middle = (.ok done, after)) : program.Sheds op after := by
  obtain ⟨result, -, erased⟩ := of_supersede_eq_ok run
  have replaced : middle.Evolves (fun kind => kind.isConst = true) (middle.replaceUses result value) :=
    evolving_replaceUses result value middle (evolved.wellFormed formed)
  exact sheds_of_erase formed (evolved.trans replaced) erased

theorem tree_replaceAll (pairs : List (ValueId × ValueId)) (program : Program) :
    (program.replaceAll pairs).tree = program.tree := by
  induction pairs generalizing program with
  | nil => rfl
  | cons pair pairs ih => exact (ih _).trans (tree_replaceUses program pair.1 pair.2)

theorem sheds_of_supersedeAll (formed : program.WellFormed)
    (evolved : program.Evolves (fun kind => kind.isConst = true) middle) {values : List ValueId}
    {done : Unit} (run : (Change.supersedeAll op values).run middle = (.ok done, after)) :
    program.Sheds op after := by
  have replaced : middle.Evolves (fun kind => kind.isConst = true)
      (middle.replaceAll ((middle.results op).zip values)) :=
    .of_count_le (grows_replaceAll middle _) fun part => by rw [tree_replaceAll]
  exact sheds_of_erase formed (evolved.trans replaced) (of_supersedeAll_eq_ok run)

/-! ### The rewrites -/

theorem sheds_simplify (formed : program.WellFormed)
    (run : (Rewrite.simplify op).run program = (.ok true, after)) : program.Sheds op after := by
  unfold Rewrite.simplify at run
  rw [run_bind, Change.run_ask] at run
  dsimp only at run
  split at run
  case h_1 =>
    obtain ⟨value, -, -, superseded⟩ := of_simplifyCast_eq_ok run
    exact sheds_of_supersede formed (.refl program) superseded
  case h_2 =>
    obtain ⟨source, producer, middle, -, -, superseded, erased⟩ := of_simplifyCopy_eq_ok run
    have sheds := sheds_of_supersede formed (.refl program) superseded
    have between := sheds.evolves.wellFormed formed
    have later : middle.Evolves (fun _ => False) after := (evolving_erase producer).of_run between erased
    refine ⟨sheds.evolves.trans (later.mono (by simp)), sheds.notRoot, fun member => ?_⟩
    rcases later.mem_or_isNew (Body.op_mem_parts.mpr member) with old | new
    · exact sheds.gone (Body.op_mem_parts.mp old)
    · exact later.kind_new op new
  case h_3 =>
    rcases simplifyBranch_cases program op with ⟨-, unchanged⟩ | ⟨condition, taken, inlined, -, -, same⟩
    · rw [run] at unchanged
      exact absurd rfl unchanged
    · rw [same] at run
      exact sheds_of_supersedeAll formed (inlined.evolves formed) (of_then_true_eq_ok run)
  case h_4 => exact sheds_of_supersedeAll formed (.refl program) (of_simplifyLoop_eq_ok run).2
  case h_5 => cases run

theorem size_simplify (formed : program.WellFormed) (present : op ∈ program.tree.ops)
    (run : (Rewrite.simplify op).run program = (.ok true, after)) :
    after.operations.size = program.operations.size :=
  ((evolvingAt_simplify op).of_run formed present run).size_eq

theorem sheds_dropDead (formed : program.WellFormed)
    (run : (Rewrite.dropDead op).run program = (.ok true, after)) :
    program.Sheds op after ∧ after.operations.size = program.operations.size := by
  refine ⟨?_, ((evolving_dropDead op).of_run formed run).size_eq⟩
  unfold Rewrite.dropDead at run
  rw [run_bind, Change.run_ask] at run
  dsimp only at run
  split at run
  case isTrue => exact sheds_of_erase formed (.refl program) (of_then_true_eq_ok run)
  case isFalse => cases run

/-- A constant is built first, then it is put in the place of an operation that is none. -/
theorem of_foldConstant_eq_ok (run : (Rewrite.foldConstant op).run program = (.ok true, after)) :
    (program.kind op).isConst = false ∧ ∃ literal type constant middle,
      (Change.build op (Build.literal literal type)).run program = (.ok (some constant), middle) ∧
      (Change.supersede op constant).run middle = (.ok (), after) := by
  rcases foldConstant_cases program op with ⟨-, unchanged⟩ | ⟨literal, result, type, known, -, -, same⟩
  · rw [run] at unchanged
    exact absurd rfl unchanged
  · rw [same] at run
    obtain ⟨constant, middle, built, run⟩ := of_run_bind_eq_ok run
    cases constant with
    | none => cases run
    | some constant =>
      refine ⟨?_, literal, type, constant, middle, built, of_then_true_eq_ok run⟩
      unfold Rewrite.knownResult? at known
      by_contra isConst
      simp [isConst] at known

theorem sheds_foldConstant (formed : program.WellFormed)
    (run : (Rewrite.foldConstant op).run program = (.ok true, after)) :
    program.Sheds op after ∧ after.operations.size ≤ program.operations.size + 1 := by
  obtain ⟨-, literal, type, constant, middle, built, superseded⟩ := of_foldConstant_eq_ok run
  have builds : Builds (fun kind => kind.isConst = true) (Build.literal literal type) := by
    refine builds_anyLiteral ?_ (fun kind isConst => ?_) literal type
    · rfl
    · exact isConst
  have evolved := (evolving_build builds op .before).of_run formed built
  have sheds := sheds_of_supersede formed evolved superseded
  refine ⟨sheds, ?_⟩
  have same : after.operations.size = middle.operations.size :=
    ((evolving_supersede op constant).of_run (evolved.wellFormed formed) superseded).size_eq
  rw [same]
  rw [Change.run_build] at built
  obtain ⟨isConstant, rfl⟩ := Prod.mk.inj built
  have realizes : Build.Realizes literal type (program.draft op .before) (Build.literal literal type) :=
    realizes_literal literal type sheds.notRoot
  rcases realizes with ⟨draft, none⟩ | ⟨kind, value, draft, some, adds, -⟩
  · rw [none] at isConstant
    cases isConstant
  · obtain ⟨location, names, -, isProgram⟩ := adds.program
    rw [some]
    simp only [Draft.finished, Program.alterAt, isProgram, Program.withDefinition, Array.size_push]
    exact le_rfl

/-! ### The end of canonicalization -/

namespace Rewrite

/-- The rewrites of canonicalization. -/
def canonical : List Rewrite :=
  [simplify, foldConstant, dropDead]

theorem idle_canonical (rewrite : Rewrite) (member : rewrite ∈ canonical) (op : OpId) :
    Idle (rewrite op) := by
  simp only [canonical, List.mem_cons, List.not_mem_nil, or_false] at member
  rcases member with rfl | rfl | rfl
  · exact idle_simplify op
  · exact idle_foldConstant op
  · exact idle_dropDead op

/-- Every change of canonicalization makes a program lighter. -/
theorem weight_lt_of_canonical (formed : program.WellFormed)
    (run : (tryAll canonical).run program = (.ok true, after)) :
    after.WellFormed ∧ after.weight < program.weight := by
  obtain ⟨rewrite, member, op, present, run⟩ := of_tryAll_eq_ok_true idle_canonical run
  suffices sheds : program.Sheds op after ∧
      after.operations.size < program.operations.size + (program.kind op).weight from
    ⟨sheds.1.evolves.wellFormed formed, sheds.1.weight_lt formed present sheds.2⟩
  have positive := (program.kind op).weight_pos
  simp only [canonical, List.mem_cons, List.not_mem_nil, or_false] at member
  rcases member with rfl | rfl | rfl
  · have same := size_simplify formed present run
    exact ⟨sheds_simplify formed run, by omega⟩
  · obtain ⟨sheds, few⟩ := sheds_foldConstant formed run
    obtain ⟨notConst, -⟩ := of_foldConstant_eq_ok run
    have twice : (program.kind op).weight = 2 := by simp [OpKind.weight, notConst]
    exact ⟨sheds, by omega⟩
  · obtain ⟨sheds, same⟩ := sheds_dropDead formed run
    exact ⟨sheds, by omega⟩

theorem changesWithin_canonical_le (formed : start.WellFormed) (fuel : Nat) :
    changesWithin (tryAll canonical) fuel start ≤ 2 * start.regions.ops.length :=
  (changesWithin_le Program.weight (fun _ _ => weight_lt_of_canonical) fuel formed).trans
    start.weight_le

end Rewrite

/-- Canonicalization makes at most two changes for each operation inside the outermost one, so no higher
limit matters. In a program that is small enough it therefore stops by itself, at a program that it
leaves as it is. -/
theorem canonicalize_settles (formed : start.WellFormed) :
    (∀ fuel, Rewrite.changesWithin (Rewrite.tryAll Rewrite.canonical) fuel start ≤
      2 * start.regions.ops.length) ∧
    (∀ limit, 2 * start.regions.ops.length < limit →
      (Rewrite.repeatWithin (Rewrite.tryAll Rewrite.canonical) limit).run start =
        (Rewrite.repeatWithin (Rewrite.tryAll Rewrite.canonical) (2 * start.regions.ops.length + 1)).run
          start) ∧
    (2 * start.regions.ops.length < Rewrite.limit → ∀ changed after,
      Change.canonicalize.run start = (.ok changed, after) →
        Change.canonicalize.run after = (.ok false, after)) := by
  have few := Rewrite.changesWithin_canonical_le formed
  refine ⟨few, fun limit larger => ?_, fun small changed after run => ?_⟩
  · exact Rewrite.repeatWithin_eq_of_lt (Nat.lt_succ_of_le (few _)) larger
  have below := (few Rewrite.limit).trans_lt small
  exact Rewrite.exhaust_eq_ok_false (Rewrite.settled_of_exhaust Rewrite.idle_canonical below run)

/-- A function that returns the sum of two known numbers. -/
def adding : Program where
  values := #[⟨some "%a", some (.torch .int), .result ⟨1⟩⟩,
    ⟨some "%b", some (.torch .int), .result ⟨2⟩⟩,
    ⟨some "%sum", some (.torch .int), .result ⟨3⟩⟩,
    ⟨none, some (.torch .int), .signature⟩]
  operations := #[
    { kind := .module },
    { kind := .torch .constantInt, results := [⟨0⟩], attributes := Attributes.empty.insert "value" (.int 1) },
    { kind := .torch .constantInt, results := [⟨1⟩], attributes := Attributes.empty.insert "value" (.int 2) },
    { kind := .torch .addInt, operands := [⟨0⟩, ⟨1⟩], results := [⟨2⟩] },
    { kind := .func .ret, operands := [⟨2⟩] },
    { kind := .func .func, results := [⟨3⟩],
      attributes := Attributes.empty.insert "sym_name" (.ofSymbol "f") }]
  headers := #[{}, {}]
  root := ⟨0⟩
  regions := .single ⟨0⟩ (.single ⟨5⟩ (.single ⟨1⟩
    (.cons ⟨1⟩ .nil (.cons ⟨2⟩ .nil (.cons ⟨3⟩ .nil (.single ⟨4⟩ .nil))))))

/-- The sum becomes a constant, and two constants are dropped. -/
theorem canonicalize_settles_adding :
    (∀ fuel, Rewrite.changesWithin (Rewrite.tryAll Rewrite.canonical) fuel adding ≤ 10) ∧
      ∃ after, Change.canonicalize.run adding = (.ok true, after) ∧
        Change.canonicalize.run after = (.ok false, after) := by
  obtain ⟨few, -, settles⟩ := canonicalize_settles (show adding.WellFormed by decide +kernel)
  have changed : (Change.canonicalize.run adding).1 = .ok true := by rfl
  exact ⟨few, _, Prod.ext changed rfl, settles (by decide) true _ (Prod.ext changed rfl)⟩

end TensorIR
