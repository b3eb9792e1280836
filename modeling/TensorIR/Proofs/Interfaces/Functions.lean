import TensorIR.Proofs.Refinement.Steps
import TensorIR.Proofs.Relowering.Sparing
import TensorIR.Proofs.Scalar.Looping

/-!
# The functions of a program

Which functions a program has, and in which order, can be read off its tree. A change at one operation leaves
the order of everything else alone, so only what stands at that operation matters. What is inside an operation
that may be taken away is left out where it is asked which functions stay for sure.

## Main definitions

* `Body.search` — the operations of a kind, except those inside operations which are not entered
* `Program.functions`, `Program.functionsWithin` — functions in program order, all or some of them
* `Program.Conserves` — no function comes, none changes places, and some stay

## Main results

* `Body.search_alterAt` — two changes at one operation compared
* `Program.Conserves.erase`, `Program.Conserves.finished`, `Program.Conserves.inline`,
  `Program.Conserves.moveRegions` — single changes
-/

namespace TensorIR

mutual

/-- The wanted operations in program order, except those inside an operation that is not entered. -/
def Body.search (enters wanted : OpId → Bool) : Body → List OpId
  | .nil => []
  | .cons op regions rest =>
    (if wanted op then [op] else []) ++ (if enters op then Regions.search enters wanted regions else []) ++
      Body.search enters wanted rest

/-- The wanted operations inside blocks. -/
def Blocks.search (enters wanted : OpId → Bool) : Blocks → List OpId
  | .nil => []
  | .cons _ body rest => Body.search enters wanted body ++ Blocks.search enters wanted rest

/-- The wanted operations inside regions. -/
def Regions.search (enters wanted : OpId → Bool) : Regions → List OpId
  | .nil => []
  | .cons blocks rest => Blocks.search enters wanted blocks ++ Regions.search enters wanted rest

end

/-! ### Searching -/

section Search

variable {enters wanted : OpId → Bool}

mutual

theorem Body.search_all : (body : Body) → body.search (fun _ => true) wanted = body.ops.filter wanted
  | .nil => rfl
  | .cons op regions rest => by
    rw [Body.search, Body.ops, List.filter_cons, List.filter_append, ← Regions.search_all regions,
      ← Body.search_all rest]
    split
    · rfl
    · rfl

theorem Blocks.search_all : (blocks : Blocks) → blocks.search (fun _ => true) wanted = blocks.ops.filter wanted
  | .nil => rfl
  | .cons _ body rest => by
    rw [Blocks.search, Blocks.ops, List.filter_append, ← Body.search_all body, ← Blocks.search_all rest]

theorem Regions.search_all : (regions : Regions) →
    regions.search (fun _ => true) wanted = regions.ops.filter wanted
  | .nil => rfl
  | .cons blocks rest => by
    rw [Regions.search, Regions.ops, List.filter_append, ← Blocks.search_all blocks, ← Regions.search_all rest]

end

mutual

/-- Nothing is found that is not there. -/
theorem Body.search_sublist : (body : Body) → (body.search enters wanted).Sublist (body.ops.filter wanted)
  | .nil => .refl _
  | .cons op regions rest => by
    rw [Body.search, Body.ops, List.filter_cons, List.filter_append]
    have behind := Body.search_sublist rest
    have inside : (if enters op then regions.search enters wanted else []).Sublist
        (regions.ops.filter wanted) := by
      split
      · exact Regions.search_sublist regions
      · exact List.nil_sublist _
    split
    · exact (inside.append behind).cons_cons op
    · exact inside.append behind

theorem Blocks.search_sublist : (blocks : Blocks) → (blocks.search enters wanted).Sublist (blocks.ops.filter wanted)
  | .nil => .refl _
  | .cons _ body rest => by
    rw [Blocks.search, Blocks.ops, List.filter_append]
    exact (Body.search_sublist body).append (Blocks.search_sublist rest)

theorem Regions.search_sublist : (regions : Regions) →
    (regions.search enters wanted).Sublist (regions.ops.filter wanted)
  | .nil => .refl _
  | .cons blocks rest => by
    rw [Regions.search, Regions.ops, List.filter_append]
    exact (Blocks.search_sublist blocks).append (Regions.search_sublist rest)

end

mutual

/-- It only matters which of the operations that are there are entered and wanted. -/
theorem Body.search_congr {enters' wanted' : OpId → Bool} : (body : Body) →
    (∀ op ∈ body.ops, enters op = enters' op ∧ wanted op = wanted' op) →
      body.search enters wanted = body.search enters' wanted'
  | .nil, _ => rfl
  | .cons op regions rest, same => by
    rw [Body.ops, List.forall_mem_cons, List.forall_mem_append] at same
    obtain ⟨here, inside, behind⟩ := same
    rw [Body.search, Body.search, here.1, here.2, Regions.search_congr regions inside,
      Body.search_congr rest behind]

theorem Blocks.search_congr {enters' wanted' : OpId → Bool} : (blocks : Blocks) →
    (∀ op ∈ blocks.ops, enters op = enters' op ∧ wanted op = wanted' op) →
      blocks.search enters wanted = blocks.search enters' wanted'
  | .nil, _ => rfl
  | .cons _ body rest, same => by
    rw [Blocks.ops, List.forall_mem_append] at same
    rw [Blocks.search, Blocks.search, Body.search_congr body same.1, Blocks.search_congr rest same.2]

theorem Regions.search_congr {enters' wanted' : OpId → Bool} : (regions : Regions) →
    (∀ op ∈ regions.ops, enters op = enters' op ∧ wanted op = wanted' op) →
      regions.search enters wanted = regions.search enters' wanted'
  | .nil, _ => rfl
  | .cons blocks rest, same => by
    rw [Regions.ops, List.forall_mem_append] at same
    rw [Regions.search, Regions.search, Blocks.search_congr blocks same.1, Regions.search_congr rest same.2]

end

theorem Body.search_append : (first second : Body) →
    (first.append second).search enters wanted = first.search enters wanted ++ second.search enters wanted
  | .nil, _ => rfl
  | .cons op regions rest, second => by
    simp only [Body.append, Body.search, Body.search_append rest second, List.append_assoc]

mutual

/-- Where nothing is wanted, nothing is found. -/
theorem Body.search_eq_nil : (body : Body) → (∀ op ∈ body.ops, wanted op = false) →
    body.search enters wanted = []
  | .nil, _ => rfl
  | .cons op regions rest, nothing => by
    rw [Body.ops, List.forall_mem_cons, List.forall_mem_append] at nothing
    obtain ⟨here, inside, behind⟩ := nothing
    simp [Body.search, here, Regions.search_eq_nil regions inside, Body.search_eq_nil rest behind]

theorem Blocks.search_eq_nil : (blocks : Blocks) → (∀ op ∈ blocks.ops, wanted op = false) →
    blocks.search enters wanted = []
  | .nil, _ => rfl
  | .cons _ body rest, nothing => by
    rw [Blocks.ops, List.forall_mem_append] at nothing
    rw [Blocks.search, Body.search_eq_nil body nothing.1, Blocks.search_eq_nil rest nothing.2, List.append_nil]

theorem Regions.search_eq_nil : (regions : Regions) → (∀ op ∈ regions.ops, wanted op = false) →
    regions.search enters wanted = []
  | .nil, _ => rfl
  | .cons blocks rest, nothing => by
    rw [Regions.ops, List.forall_mem_append] at nothing
    rw [Regions.search, Blocks.search_eq_nil blocks nothing.1, Regions.search_eq_nil rest nothing.2, List.append_nil]

end

theorem Body.search_reverseOnto (first second : Body) (nothing : ∀ op ∈ first.ops, wanted op = false) :
    (first.reverseOnto second).search enters wanted = second.search enters wanted := by
  fun_induction Body.reverseOnto first second with
  | case1 => rfl
  | case2 op regions rest later ih =>
    rw [Body.ops, List.forall_mem_cons, List.forall_mem_append] at nothing
    obtain ⟨here, inside, behind⟩ := nothing
    rw [ih behind]
    simp [Body.search, here, Regions.search_eq_nil regions inside]

end Search

/-! ### Changes at one operation -/

section Change

variable {op : OpId} {first second : Regions → Body → Body} {enters wanted : OpId → Bool}
  {r : List OpId → List OpId → Prop} (same : ∀ ops, r ops ops)
  (append : ∀ {ops more ops' more'}, r ops ops' → r more more' → r (ops ++ more) (ops' ++ more'))
include same append

mutual

/-- Two changes at one operation find related operations if they do at that operation. -/
theorem Body.search_alterAt (block : Option BlockId) (parent : Option OpId) (depth : Nat) : (body : Body) →
    (∀ visit ∈ body.visits block parent depth, visit.op = op →
      r ((first visit.regions visit.rest).search enters wanted)
        ((second visit.regions visit.rest).search enters wanted)) →
    r ((body.alterAt op first).search enters wanted) ((body.alterAt op second).search enters wanted)
  | .nil, _ => same _
  | .cons other regions rest, at_op => by
    rw [Body.visits, List.forall_mem_cons, List.forall_mem_append] at at_op
    obtain ⟨here, inside, behind⟩ := at_op
    rw [Body.alterAt, Body.alterAt]
    split
    case isTrue isOp => exact here isOp
    case isFalse =>
      -- Both changes leave this operation alone, so it is found behind both or behind neither.
      rw [Body.search, Body.search]
      refine append (append (same _) ?_) (Body.search_alterAt block parent depth rest behind)
      split
      · exact Regions.search_alterAt other (depth + 1) regions inside
      · exact same _

theorem Blocks.search_alterAt (parent : OpId) (depth : Nat) : (blocks : Blocks) →
    (∀ visit ∈ blocks.visits parent depth, visit.op = op →
      r ((first visit.regions visit.rest).search enters wanted)
        ((second visit.regions visit.rest).search enters wanted)) →
    r ((blocks.alterAt op first).search enters wanted) ((blocks.alterAt op second).search enters wanted)
  | .nil, _ => same _
  | .cons block body rest, at_op => by
    rw [Blocks.visits, List.forall_mem_append] at at_op
    exact append (Body.search_alterAt (some block) (some parent) depth body at_op.1)
      (Blocks.search_alterAt parent depth rest at_op.2)

theorem Regions.search_alterAt (parent : OpId) (depth : Nat) : (regions : Regions) →
    (∀ visit ∈ regions.visits parent depth, visit.op = op →
      r ((first visit.regions visit.rest).search enters wanted)
        ((second visit.regions visit.rest).search enters wanted)) →
    r ((regions.alterAt op first).search enters wanted) ((regions.alterAt op second).search enters wanted)
  | .nil, _ => same _
  | .cons blocks rest, at_op => by
    rw [Regions.visits, List.forall_mem_append] at at_op
    exact append (Blocks.search_alterAt parent depth blocks at_op.1)
      (Regions.search_alterAt parent depth rest at_op.2)

end

end Change

/-- Next to the anchor nothing is found that has been built, if nothing of that is wanted. -/
theorem Draft.search_change {draft : Draft} {enters wanted : OpId → Bool} {regions : Regions} {rest : Body}
    (nothing : ∀ op, .op op ∈ draft.built → wanted op = false) :
    (draft.change regions rest).search enters wanted =
      (Body.cons draft.anchor regions rest).search enters wanted := by
  have built (body : Body) (inside : ∀ part ∈ body.parts, part ∈ draft.built) (op : OpId)
      (member : op ∈ body.ops) : wanted op = false :=
    nothing op (inside _ (Body.op_mem_parts.mpr member))
  have code := built draft.code fun part among => List.mem_append_right _ (List.mem_append_right _ among)
  have lead := built draft.lead fun part among => List.mem_append_right _ (List.mem_append_left _ among)
  have hoisted := built draft.hoisted fun part among => List.mem_append_left _ among
  have constants : (draft.hoisted.append draft.lead).search enters wanted = [] := by
    rw [Body.search_append, Body.search_eq_nil _ hoisted, Body.search_eq_nil _ lead, List.append_nil]
  rw [Draft.change, Body.search_append, constants, List.nil_append]
  cases draft.placement with
  | before =>
    simp only []
    rw [Body.search_append, Body.search_eq_nil _ code, List.nil_append]
  | after =>
    simp only []
    rw [Body.search, Body.search_reverseOnto _ _ code, Body.search]

/-! ### Programs -/

/-- What is inside an operation of the kind stays when the operation goes, or the operation does not go. Branches
and loops are only decided where programs are brought into canonical form. -/
def OpKind.isLasting (canonicalize : Bool) : OpKind → Bool
  | .torch .primIf | .torch .primLoop => !canonicalize
  | .torch _ => false
  | kind => !kind.isPure

/-- The functions of a program, in program order. -/
def Program.functions (program : Program) : List OpId :=
  program.tree.ops.filter (program.kind · = .func .func)

/-- The functions that are only inside operations of kinds that are entered, in program order. -/
def Program.functionsWithin (program : Program) (enters : OpKind → Bool) : List OpId :=
  program.tree.search (fun op => enters (program.kind op)) (program.kind · = .func .func)

theorem Program.functions_eq (program : Program) : program.functions = program.functionsWithin fun _ => true :=
  (Body.search_all program.tree).symm

theorem Program.functionsWithin_sublist (program : Program) (enters : OpKind → Bool) :
    (program.functionsWithin enters).Sublist program.functions :=
  Body.search_sublist program.tree

theorem Program.mem_functions {program : Program} {op : OpId} :
    op ∈ program.functions ↔ op ∈ program.tree.ops ∧ program.kind op = .func .func := by
  simp [Program.functions]

theorem Program.WellFormed.lt_of_mem {program : Program} {op : OpId} (formed : program.WellFormed)
    (present : op ∈ program.tree.ops) : op.index < program.operations.size :=
  (formed.knows _ (Body.op_mem_parts.mpr present)).1

/-- Values keep their entries. -/
structure Program.KeepsValues (kept : ValueId → Prop) (program after : Program) : Prop where
  values_le : program.values.size ≤ after.values.size
  value_eq : ∀ value : ValueId, value.index < program.values.size → kept value →
    after.value value = program.value value

/-- No function comes and none changes places. Those that are only inside operations of kinds that are entered
stay, and values keep their entries. -/
structure Program.Conserves (enters : OpKind → Bool) (kept : ValueId → Prop) (program after : Program) : Prop
    extends program.KeepsValues kept after where
  fewer : after.functions.Sublist program.functions
  lasting : (program.functionsWithin enters).Sublist (after.functionsWithin enters)

section Keeping

variable {enters : OpKind → Bool} {kept : ValueId → Prop} {allowed : OpKind → Prop}
  {program middle after base : Program} {op : OpId}

namespace Program

namespace KeepsValues

theorem of_eq (same : after.values = program.values) : program.KeepsValues kept after where
  values_le := same ▸ le_rfl
  value_eq value _ _ := by rw [Program.value, same, Program.value]

theorem trans (first : program.KeepsValues kept middle) (second : middle.KeepsValues kept after) :
    program.KeepsValues kept after where
  values_le := first.values_le.trans second.values_le
  value_eq value below isKept :=
    (second.value_eq value (below.trans_le first.values_le) isKept).trans (first.value_eq value below isKept)

end KeepsValues

namespace Conserves

theorem refl (program : Program) : program.Conserves enters kept program :=
  ⟨.of_eq rfl, .refl _, .refl _⟩

theorem trans (first : program.Conserves enters kept middle) (second : middle.Conserves enters kept after) :
    program.Conserves enters kept after :=
  ⟨first.toKeepsValues.trans second.toKeepsValues, second.fewer.trans first.fewer,
    first.lasting.trans second.lasting⟩

theorem mono {others : ValueId → Prop} (conserves : program.Conserves enters kept after)
    (fewer : ∀ value, others value → kept value) : program.Conserves enters others after where
  values_le := conserves.values_le
  value_eq value below isOther := conserves.value_eq value below (fewer value isOther)
  fewer := conserves.fewer
  lasting := conserves.lasting

end Conserves

/-- The operations of a program are of the kinds they will be of. -/
theorem Grows.functionsWithin_eq (grown : program.Grows allowed after) (formed : program.WellFormed) :
    program.functionsWithin enters =
      program.tree.search (fun op => enters (after.kind op)) (after.kind · = .func .func) :=
  Body.search_congr _ fun op member => by
    rw [grown.kind_eq op (formed.lt_of_mem member)]
    exact ⟨rfl, rfl⟩

theorem kind_replaceAll (program : Program) (pairs : List (ValueId × ValueId)) (other : OpId) :
    (program.replaceAll pairs).kind other = program.kind other := by
  induction pairs generalizing program with
  | nil => rfl
  | cons pair pairs ih =>
    have first : (program.replaceUses pair.1 pair.2).kind other = program.kind other := by
      rw [Program.replaceUses, Program.kind, operation_setUses, Program.kind]
    exact (ih _).trans first

theorem tree_of_regions {change : Regions → Body → Body} (root : after.root = program.root)
    (notRoot : op ≠ program.root) (regions : after.regions = program.regions.alterAt op change) :
    after.tree = program.tree.alterAt op change := by
  rw [tree, tree, Body.alterAt, if_neg notRoot.symm, root, regions]
  rfl

/-- What is left of a program when other values are used and an operation goes. -/
theorem of_erase_replaceAll {pairs : List (ValueId × ValueId)} {done : Unit}
    (run : (Change.erase op).run (program.replaceAll pairs) = (.ok done, after)) :
    op ≠ program.root ∧ after.tree = program.tree.alterAt op (fun _ rest => rest) ∧
      after.values = program.values ∧ ∀ other, after.kind other = program.kind other := by
  have grown : program.Grows (fun _ => False) (program.replaceAll pairs) := grows_replaceAll program pairs
  have tree := tree_replaceAll pairs program
  have kind := kind_replaceAll program pairs
  have values := values_replaceAll program pairs
  have root := grown.root
  generalize program.replaceAll pairs = replaced at *
  obtain ⟨notRoot, rfl⟩ := of_erase_eq_ok run
  refine ⟨root ▸ notRoot, ?_, ?_, fun other => ?_⟩
  · rw [← tree, ← tree_alterAt notRoot]
    cases replaced.regionsOf op <;> rfl
  · rw [← values]
    cases replaced.regionsOf op <;> rfl
  · rw [← kind other]
    cases replaced.regionsOf op <;> rfl

namespace Conserves

/-- The tree has not changed. -/
theorem of_tree (formed : program.WellFormed) (grown : program.Grows allowed after)
    (values : program.KeepsValues kept after) (tree : after.tree = program.tree) :
    program.Conserves enters kept after where
  toKeepsValues := values
  fewer := by
    rw [functions_eq, functions_eq, grown.functionsWithin_eq formed, functionsWithin, tree]
  lasting := by
    rw [grown.functionsWithin_eq formed, functionsWithin, tree]

/-- Two programs have come from one by changes at the same operation. Only what has been put there matters. -/
theorem of_changes {first second : Regions → Body → Body} (formed : program.WellFormed)
    (grown : program.Grows allowed after) (values : program.KeepsValues kept after)
    (isFirst : program.tree = base.tree.alterAt op first)
    (isSecond : after.tree = base.tree.alterAt op second)
    (fewer : ∀ visit ∈ base.visits, visit.op = op →
      ((second visit.regions visit.rest).search (fun _ => true) (after.kind · = .func .func)).Sublist
        ((first visit.regions visit.rest).search (fun _ => true) (after.kind · = .func .func)))
    (lasting : ∀ visit ∈ base.visits, visit.op = op →
      ((first visit.regions visit.rest).search (fun op => enters (after.kind op))
          (after.kind · = .func .func)).Sublist
        ((second visit.regions visit.rest).search (fun op => enters (after.kind op))
          (after.kind · = .func .func))) :
    program.Conserves enters kept after where
  toKeepsValues := values
  fewer := by
    rw [functions_eq, functions_eq, grown.functionsWithin_eq formed, functionsWithin, isFirst, isSecond]
    exact Body.search_alterAt (r := fun more fewer => fewer.Sublist more) .refl .append none none 0 _ fewer
  lasting := by
    rw [grown.functionsWithin_eq formed, functionsWithin, isFirst, isSecond]
    exact Body.search_alterAt .refl .append none none 0 _ lasting

/-- Other values are used, and the operation goes with everything inside it. -/
theorem eraseReplaced {pairs : List (ValueId × ValueId)} {done : Unit} (formed : program.WellFormed)
    (notFunction : program.kind op ≠ .func .func) (leaves : enters (program.kind op) = false)
    (run : (Change.erase op).run (program.replaceAll pairs) = (.ok done, after)) :
    program.Conserves enters kept after := by
  have replaced : program.Evolves (fun _ => False) (program.replaceAll pairs) :=
    .of_count_le (grows_replaceAll program pairs) fun part => by rw [tree_replaceAll]
  have evolved := replaced.trans ((evolving_erase op).of_run (replaced.wellFormed formed) run)
  obtain ⟨-, tree, values, kind⟩ := of_erase_replaceAll run
  refine of_changes formed evolved.toGrows (.of_eq values) (Body.alterAt_self program.tree).symm tree
    (fun visit _ isOp => ?_) fun visit _ isOp => ?_
  · rw [Body.search]
    exact List.sublist_append_right ..
  · simp [Body.search, kind, notFunction, leaves]

theorem erase {done : Unit} (formed : program.WellFormed) (notFunction : program.kind op ≠ .func .func)
    (leaves : enters (program.kind op) = false) (run : (Change.erase op).run program = (.ok done, after)) :
    program.Conserves enters kept after := by
  have run : (Change.erase op).run (program.replaceAll []) = (.ok done, after) := run
  exact eraseReplaced formed notFunction leaves run

theorem supersede {value : ValueId} {done : Unit} (formed : program.WellFormed)
    (notFunction : program.kind op ≠ .func .func) (leaves : enters (program.kind op) = false)
    (run : (Change.supersede op value).run program = (.ok done, after)) :
    program.Conserves enters kept after := by
  obtain ⟨result, -, erased⟩ := of_supersede_eq_ok run
  have run : (Change.erase op).run (program.replaceAll [(result, value)]) = (.ok done, after) := erased
  exact eraseReplaced formed notFunction leaves run

theorem supersedeAll {values : List ValueId} {done : Unit} (formed : program.WellFormed)
    (notFunction : program.kind op ≠ .func .func) (leaves : enters (program.kind op) = false)
    (run : (Change.supersedeAll op values).run program = (.ok done, after)) :
    program.Conserves enters kept after :=
  eraseReplaced formed notFunction leaves (of_supersedeAll_eq_ok run)

/-- What has been built is put next to the anchor, and no function is built. -/
theorem finished {placement : Placement} {draft : Draft} (formed : program.WellFormed)
    (inner : ∀ kind, allowed kind → kind ≠ .func .func)
    (built : (program.draft op placement).Extends allowed [] draft) :
    program.Conserves enters kept draft.finished := by
  have evolved := built.evolves formed
  have nothing (other : OpId) (member : .op other ∈ draft.built) : draft.finished.kind other ≠ .func .func := by
    have isNew : (Part.op other).IsNew program draft.program := built.isNew_of_mem member
    exact inner _ (evolved.kind_new other isNew)
  have values : program.KeepsValues kept draft.finished :=
    ⟨built.program.values_le, fun value below _ => built.program.value_eq value below⟩
  have isTree : draft.program.tree = program.tree := built.tree_eq
  -- The root is in no block, so that nothing can be put next to it.
  by_cases isRoot : draft.anchor = draft.program.root
  · refine of_tree formed evolved.toGrows values ?_
    rw [Draft.finished_eq, isRoot, (built.wellFormed formed).tree_alterAt_root, isTree]
  · have placed : draft.finished.tree = program.tree.alterAt draft.anchor draft.change := by
      rw [Draft.finished_eq, tree_alterAt isRoot, isTree]
    refine of_changes formed evolved.toGrows values (Body.alterAt_self program.tree).symm placed
      (fun visit _ _ => ?_) fun visit _ _ => ?_
    all_goals
      rw [Draft.search_change fun other member => by simpa using nothing other member]

/-- The operations of the side that is taken come in the place of a branch. -/
theorem inline {taken : Bool} {values : List ValueId} {done : Unit} (formed : program.WellFormed)
    (notRoot : op ≠ program.root) (notFunction : program.kind op ≠ .func .func) (leaves : enters (program.kind op) = false)
    (inlined : Rewrite.Inlined program op taken)
    (run : (Change.supersedeAll op values).run (program.alterAt op inlined.change) = (.ok done, after)) :
    program.Conserves enters kept after := by
  have moved : program.Evolves (fun _ => False) (program.alterAt op inlined.change) := inlined.evolves formed
  have evolved := moved.trans ((evolving_supersedeAll op values).of_run (moved.wellFormed formed) run)
  obtain ⟨-, tree, values, kind⟩ := of_erase_replaceAll (of_supersedeAll_eq_ok run)
  rw [tree_alterAt notRoot, Body.alterAt_alterAt] at tree
  -- Where the branch has been, the operations of the side stand now.
  have stands (visit : Visit) (visited : visit ∈ program.visits) (isOp : visit.op = op) :
      (inlined.change visit.regions visit.rest).alterAt op (fun _ rest => rest) =
        inlined.front.append visit.rest := by
    subst isOp
    exact Body.alterAt_append_cons _ _ (inlined.notMem_front formed visited)
  refine of_changes formed evolved.toGrows (.of_eq values) (Body.alterAt_self program.tree).symm tree
    (fun visit visited isOp => ?_) fun visit visited isOp => ?_
  · rw [stands visit visited isOp, Body.search_append, Body.search, if_pos rfl]
    subst isOp
    have inside : inlined.front.ops.Sublist visit.regions.ops := by
      rw [← formed.regionsOf_eq visited, ← Body.filterMap_parts, ← Regions.filterMap_parts]
      exact inlined.parts_front.filterMap _
    rw [Body.search_all inlined.front, Regions.search_all visit.regions]
    exact ((inside.filter _).trans (List.sublist_append_right ..)).append (.refl _)
  · rw [stands visit visited isOp, Body.search_append]
    subst isOp
    -- The branch is not entered, so nothing in it has to stay.
    have here : (Body.cons visit.op visit.regions visit.rest).search
        (fun op => enters (after.kind op)) (after.kind · = .func .func) =
          visit.rest.search (fun op => enters (after.kind op)) (after.kind · = .func .func) := by
      have isKind : after.kind visit.op = program.kind visit.op := kind visit.op
      simp [Body.search, isKind, notFunction, leaves]
    rw [here]
    exact List.sublist_append_right ..

/-- The regions of an operation have moved to a new one in its place. -/
theorem moveRegions {visit : Visit} {front : Body} {new : OpId} {inside : Regions} {finished : Program}
    (moves : base.MovesTo visit front new inside finished after) (baseFormed : base.WellFormed)
    (isVisit : visit ∈ base.visits) (formed : finished.WellFormed) (root : finished.root = base.root)
    (notRoot : visit.op ≠ base.root)
    (notFunction : after.kind visit.op ≠ .func .func) (newKind : after.kind new ≠ .func .func)
    (goesOn : enters (after.kind new) = true) : finished.Conserves enters kept after := by
  obtain ⟨change, changed, isFirst⟩ := moves.before
  have isSecond := moves.change_eq
  refine of_changes formed moves.grown (.of_eq moves.values_eq) (tree_of_regions root notRoot changed)
    (tree_of_regions (moves.grown.root.trans root) notRoot moves.alters.regions)
    (fun other visited isOp => ?_) fun other visited isOp => ?_
  all_goals
    obtain rfl := baseFormed.visit_inj isVisit visited isOp
    rw [isFirst, isSecond, Body.search_append, Body.search_append]
    refine .append (.refl _) ?_
  · simp [Body.search, notFunction, newKind]
  · -- If the old operation has not been entered, what is inside is only found now.
    simp only [Body.search, Regions.search, notFunction, newKind, goesOn, decide_false, if_true, ite_self,
      Bool.false_eq_true, if_false, List.nil_append]
    refine .append ?_ (.refl _)
    split
    · exact .refl _
    · exact List.nil_sublist _

end Conserves

end Program

end Keeping

end TensorIR
