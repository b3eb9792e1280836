import TensorIR.Proofs.Scalar.Arithmetic

/-!
# Ends of blocks, and regions that move to another operation

An operation that ends a block of a branch or of a loop is replaced by one that passes on the same
values. It no longer says whether a loop is to continue, which is of no importance as soon as the loop
around it has been lowered to one that always goes on. Control flow is lowered by building a new operation
before the old one, moving the regions over, and using the results of the new operation in place of those of
the old one.

## Main definitions

* `Program.MovesTo` — a program in which the regions of an operation have moved to another one

## Main results

* `Program.Means.terminatorToLoops` — the lowering of an operation that ends a block
* `of_replaceHead_eq_ok` — the steps of such a lowering
* `movesTo_of_supersedeAll` — what they come to
* `Program.MovesTo.eval` — the block goes on as before if the new operation computes what the old one does
-/

namespace TensorIR

/-! ### Ends of blocks -/

section Ending

variable {program after : Program} {op function : OpId} {arguments results : List Atom}

/-- What an operation that ends a block passes on: all of its operands, or all but the first one,
which tells whether a loop continues. -/
inductive TorchKind.PassesAfter : TorchKind → Nat → Prop where
  | ofBranch : PassesAfter primIfYield 0
  | ofLoop : PassesAfter primLoopCondition 1

/-- The ends before and after lowering pass on the same values. -/
theorem exit?_refines {kind : TorchKind} {skipped : Nat} (passes : kind.PassesAfter skipped)
    {inputs : List Atom} {exit : Exit} (ended : exit? (.torch kind) inputs = some exit) :
    ∃ other, exit? (.scf .yield) (inputs.drop skipped) = some other ∧ exit.Refines True other := by
  cases passes with
  | ofBranch =>
    cases ended
    exact ⟨_, rfl, .refl True _⟩
  | ofLoop =>
    unfold exit? at ended
    split at ended
    case h_1 flag atoms _ =>
      cases ended
      exact ⟨⟨none, atoms⟩, rfl, rfl, .inr ⟨trivial, rfl⟩⟩
    case h_2 => cases ended
    case h_3 notFlag _ => exact absurd rfl notFlag

theorem mapM_drop {environment : Environment} {values : List ValueId} {atoms : List Atom}
    (known : values.mapM environment = some atoms) (skipped : Nat) :
    (values.drop skipped).mapM environment = some (atoms.drop skipped) := by
  induction skipped generalizing values atoms with
  | zero => exact known
  | succ skipped ih =>
    cases values with
    | nil =>
      cases known
      rfl
    | cons value values =>
      rw [List.mapM_cons] at known
      simp only [Option.bind_eq_bind, Option.bind_eq_some_iff, Option.pure_def,
        Option.some.injEq] at known
      obtain ⟨atom, -, atoms, isAtoms, rfl⟩ := known
      exact ih isAtoms

/-- The lowering of an operation that ends a block, inside of loops that have been lowered. -/
theorem Program.Means.terminatorToLoops {kind : TorchKind} {skipped : Nat}
    (means : program.Means function arguments results) (present : op ∈ program.tree.ops)
    (isKind : program.kind op = .torch kind) (passes : kind.PassesAfter skipped)
    (lowered : ∀ other ∈ program.visits, op ∈ other.regions.ops →
      program.kind other.op ≠ .torch .primLoop)
    (run : (Change.terminatorToLoops op skipped).run program = (.ok (), after)) :
    after.Means function arguments results := by
  have formed := means.formed
  have notModule : program.kind op ≠ .module := by rw [isKind]; nofun
  have notFunction : program.kind op ≠ .func .func := by rw [isKind]; nofun
  have isExit : (program.kind op).isExit = true := by
    rw [isKind]
    cases passes <;> rfl
  obtain ⟨visit, visited, rfl⟩ := Program.exists_visit present
  have evolved : program.Evolves OpKind.IsTarget after :=
    (evolving_terminatorToLoops skipped).of_run formed run
  unfold Change.terminatorToLoops at run
  rw [run_bind, Change.run_ask] at run
  simp only [] at run
  obtain ⟨⟨⟩, middle, built, erased⟩ := of_run_bind_eq_ok run
  have builds : BuildsTarget (Build.emit (.scf .yield) ((program.operands visit.op).drop skipped)) :=
    builds_emit OpKind.isTarget_scf _
  have extended := builds (program.draft visit.op .before)
  have placed : (program.draft visit.op .before).anchor ≠ (program.draft visit.op .before).program.root :=
    means.ne_root notModule
  obtain ⟨draft, created, adds⟩ :=
    adds_create (.scf .yield) ((program.operands visit.op).drop skipped) [] .empty placed
  have emitted : (Build.emit (.scf .yield) ((program.operands visit.op).drop skipped)).run
      (program.draft visit.op .before) = (.ok (), draft) := by
    unfold Build.emit
    rw [run_bind, created]
    rfl
  rw [emitted] at extended
  rw [Change.run_build, emitted] at built
  obtain ⟨-, rfl⟩ := Prod.mk.inj built
  -- The yield is built in front of the old end of the block, and then that is erased.
  have alters : program.Alters (program.Owned visit.op) visit.op
      (fun regions rest => (draft.change regions rest).alterAt visit.op fun _ rest => rest) after :=
    (alters_build extended).trans (alters_erase erased)
  refine means.alter_at True visited notModule notFunction (evolved.wellFormed formed)
    evolved.toGrows alters (fun _ => lowered) fun environment image exit carries admits ended => ?_
  rw [adds.change_erase (formed.knows _ (Body.op_mem_parts.mpr present)).1]
  obtain ⟨inputs, isInputs, ⟨-, isLast, isEnd⟩ | ⟨goesOn, -⟩⟩ := Body.eval_cons_iff.mp ended
  case inr => rw [isExit] at goesOn; cases goesOn
  rw [isKind] at isEnd
  obtain ⟨other, isOther, refined⟩ := exit?_refines passes isEnd
  have defines := adds.defines
  have tables := tables_erase erased
  have sameKind : after.kind ⟨program.operations.size⟩ = .scf .yield := by
    rw [Program.kind, Program.operation, tables.1]
    exact defines.kind_eq
  have sameOperands : after.operands ⟨program.operations.size⟩ =
      (program.operands visit.op).drop skipped := by
    rw [Program.operands, Program.operation, tables.1]
    exact defines.operands_eq
  refine ⟨other, Body.eval_cons_iff.mpr ⟨inputs.drop skipped, ?_, .inl ⟨?_, isLast, ?_⟩⟩, refined⟩
  · rw [sameOperands]
    exact mapM_carries carries (mapM_drop isInputs skipped)
  · rw [sameKind]
    rfl
  · rw [sameKind]
    exact isOther

end Ending

/-! ### Changes at an operation that has been put in the tree -/

section Absent

variable {op new : OpId} {first second : Regions → Body → Body}

mutual

/-- A change at an operation that stands nowhere outside of what begins at another one is a change
there. -/
theorem Body.alterAt_absent : (body : Body) → .op new ∉ body.around op →
    (body.alterAt op first).alterAt new second =
      body.alterAt op fun regions rest => (first regions rest).alterAt new second
  | .nil, _ => rfl
  | .cons other regions rest, absent => by
    by_cases here : other = op
    · simp only [Body.alterAt, if_pos here]
    · rw [Body.around, Body.alterAt, if_neg here, Body.parts, List.mem_cons, List.mem_append,
        not_or, not_or] at absent
      obtain ⟨notOther, notInside, notBehind⟩ := absent
      have distinct : other ≠ new := fun same => notOther (congrArg Part.op same.symm)
      simp only [Body.alterAt, if_neg here, if_neg distinct,
        Regions.alterAt_absent regions notInside, Body.alterAt_absent rest notBehind]

theorem Blocks.alterAt_absent : (blocks : Blocks) → .op new ∉ blocks.around op →
    (blocks.alterAt op first).alterAt new second =
      blocks.alterAt op fun regions rest => (first regions rest).alterAt new second
  | .nil, _ => rfl
  | .cons block body rest, absent => by
    rw [Blocks.around, Blocks.alterAt, Blocks.parts, List.mem_cons, List.mem_append, not_or, not_or]
      at absent
    simp only [Blocks.alterAt, Body.alterAt_absent body absent.2.1,
      Blocks.alterAt_absent rest absent.2.2]

theorem Regions.alterAt_absent : (regions : Regions) → .op new ∉ regions.around op →
    (regions.alterAt op first).alterAt new second =
      regions.alterAt op fun regions rest => (first regions rest).alterAt new second
  | .nil, _ => rfl
  | .cons blocks rest, absent => by
    rw [Regions.around, Regions.alterAt, Regions.parts, List.mem_append, not_or] at absent
    simp only [Regions.alterAt, Blocks.alterAt_absent blocks absent.1,
      Regions.alterAt_absent rest absent.2]

end

mutual

/-- What is put at an operation depends only on what is found there. -/
theorem Body.alterAt_congr (block : Option BlockId) (parent : Option OpId) (depth : Nat) :
    (body : Body) → (∀ visit ∈ body.visits block parent depth, visit.op = op →
        first visit.regions visit.rest = second visit.regions visit.rest) →
      body.alterAt op first = body.alterAt op second
  | .nil, _ => rfl
  | .cons other regions rest, same => by
    simp only [Body.visits, List.mem_cons, List.mem_append] at same
    by_cases here : other = op
    · simp only [Body.alterAt, if_pos here]
      exact same _ (.inl rfl) here
    · simp only [Body.alterAt, if_neg here,
        Regions.alterAt_congr _ _ regions fun visit member => same visit (.inr (.inl member)),
        Body.alterAt_congr _ _ _ rest fun visit member => same visit (.inr (.inr member))]

theorem Blocks.alterAt_congr (parent : OpId) (depth : Nat) :
    (blocks : Blocks) → (∀ visit ∈ blocks.visits parent depth, visit.op = op →
        first visit.regions visit.rest = second visit.regions visit.rest) →
      blocks.alterAt op first = blocks.alterAt op second
  | .nil, _ => rfl
  | .cons block body rest, same => by
    simp only [Blocks.visits, List.mem_append] at same
    simp only [Blocks.alterAt,
      Body.alterAt_congr _ _ _ body fun visit member => same visit (.inl member),
      Blocks.alterAt_congr _ _ rest fun visit member => same visit (.inr member)]

theorem Regions.alterAt_congr (parent : OpId) (depth : Nat) :
    (regions : Regions) → (∀ visit ∈ regions.visits parent depth, visit.op = op →
        first visit.regions visit.rest = second visit.regions visit.rest) →
      regions.alterAt op first = regions.alterAt op second
  | .nil, _ => rfl
  | .cons blocks rest, same => by
    simp only [Regions.visits, List.mem_append] at same
    simp only [Regions.alterAt,
      Blocks.alterAt_congr _ _ blocks fun visit member => same visit (.inl member),
      Regions.alterAt_congr _ _ rest fun visit member => same visit (.inr member)]

end

end Absent

variable {program finished after : Program} {op function : OpId} {arguments results : List Atom}

/-- In a well-formed program an operation is visited once. -/
theorem Program.WellFormed.visit_inj (formed : program.WellFormed) {visit other : Visit}
    (visited : visit ∈ program.visits) (otherVisited : other ∈ program.visits)
    (same : other.op = visit.op) : other = visit := by
  have first := formed.visit?_eq visited
  have second := formed.visit?_eq otherVisited
  rw [same, first, Option.some.injEq] at second
  exact second.symm

/-- Two changes that put the same at the place of an operation are the same change. -/
theorem Program.WellFormed.alterAt_eq (formed : program.WellFormed) {visit : Visit}
    (visited : visit ∈ program.visits) {first second : Regions → Body → Body}
    (same : first visit.regions visit.rest = second visit.regions visit.rest) :
    program.regions.alterAt visit.op first = program.regions.alterAt visit.op second := by
  refine Regions.alterAt_congr program.root 1 program.regions fun other member isOp => ?_
  rw [formed.visit_inj visited (Program.mem_visits member) isOp]
  exact same

/-- The place of an operation inside the outermost one, with everything outside of it. -/
theorem Program.WellFormed.focus_regions (formed : program.WellFormed) {visit : Visit}
    (visited : visit ∈ program.visits) (notRoot : visit.op ≠ program.root) :
    ∃ outside : List Part, ∀ change, (program.regions.alterAt visit.op change).parts.Perm
      (outside ++ (change visit.regions visit.rest).parts) := by
  have within : visit.op ∈ program.regions.ops := by
    have present := Program.mem_ops_of_visits visited
    rw [Program.tree, Body.ops, Body.ops, List.append_nil, List.mem_cons] at present
    exact present.resolve_left notRoot
  obtain ⟨found, isFound, outside, same⟩ :=
    program.regions.exists_focus program.root 1 formed.regions_nodup within
  obtain rfl := formed.visit_inj visited (Program.mem_visits (List.mem_of_find?_eq_some isFound))
    (by simpa using List.find?_some isFound)
  exact ⟨outside, same⟩

/-- What begins at an operation is not outside of it. -/
theorem Program.WellFormed.notMem_around (formed : program.WellFormed) {visit : Visit}
    (visited : visit ∈ program.visits) (notRoot : visit.op ≠ program.root) {part : Part}
    (member : part ∈ (Body.cons visit.op visit.regions visit.rest).parts) :
    part ∉ program.regions.around visit.op := by
  obtain ⟨outside, same⟩ := formed.focus_regions visited notRoot
  intro around
  have isOutside : part ∈ outside := by
    have parts := (same fun _ _ => .nil).mem_iff.mp around
    simpa [Body.parts] using parts
  have original := same (.cons visit.op)
  rw [Regions.alterAt_self] at original
  exact (List.nodup_append.mp (original.nodup_iff.mp formed.regions_nodup)).2.2 part isOutside part
    member rfl

/-- What has been put in the place of an operation has distinct parts. -/
theorem Program.WellFormed.nodup_change (formed : program.WellFormed) (afterFormed : after.WellFormed)
    {visit : Visit} (visited : visit ∈ program.visits) (notRoot : visit.op ≠ program.root)
    {change : Regions → Body → Body}
    (regions : after.regions = program.regions.alterAt visit.op change) :
    (change visit.regions visit.rest).parts.Nodup := by
  obtain ⟨outside, same⟩ := formed.focus_regions visited notRoot
  have nodup := afterFormed.regions_nodup
  rw [regions] at nodup
  exact (List.nodup_append.mp ((same change).nodup_iff.mp nodup)).2.1

/-- The tables of a program that has been changed at an operation, with another tree. -/
theorem Program.Alters.withRegions {owned : ValueId → Prop} {first second : Regions → Body → Body}
    {other : OpId} (alters : program.Alters owned other first finished) (operations : after.operations = finished.operations)
    (values : after.values = finished.values)
    (regions : after.regions = program.regions.alterAt op second) (keeps : KeepsEntries op second) :
    program.Alters owned op second after where
  operations_le := by rw [operations]; exact alters.operations_le
  values_le := by rw [values]; exact alters.values_le
  operands other below := by
    have same : after.operands other = finished.operands other := by
      rw [Program.operands, Program.operation, operations]
      rfl
    rw [same]
    exact alters.operands other below
  types value below free := by
    have same : after.typeOf? value = finished.typeOf? value := by
      rw [Program.typeOf?, Program.value, values]
      rfl
    rw [same]
    exact alters.types value below free
  regions := regions
  keeps := keeps

/-! ### The steps -/

/-- The steps of replacing an operation and moving its regions. -/
theorem of_replaceHead_eq_ok {build : Build OpId} {finish : Change Unit}
    (run : (Change.replaceHead op build finish).run program = (.ok (), after)) :
    ∃ new middle finished, (Change.build op build).run program = (.ok new, middle) ∧
      finish.run middle = (.ok (), finished) ∧
      (Change.supersedeAll op
          (((finished.setRegions op .nil).setRegions new (finished.regionsOf op)).results new)).run
        ((finished.setRegions op .nil).setRegions new (finished.regionsOf op)) = (.ok (), after) := by
  unfold Change.replaceHead at run
  obtain ⟨new, middle, built, rest⟩ := of_run_bind_eq_ok run
  obtain ⟨⟨⟩, finished, done, others⟩ := of_run_bind_eq_ok rest
  refine ⟨new, middle, finished, built, done, ?_⟩
  rw [run_bind, Change.run_ask] at others
  simp only [] at others
  rw [run_bind, run_modify] at others
  simp only [] at others
  rw [run_bind, Change.run_ask] at others
  exact others

/-- A program in which new operations have been put in the place of an operation, the last of which has
got its regions and computes its results. -/
structure Program.MovesTo (program : Program) (visit : Visit) (front : Body) (new : OpId)
    (inside : Regions) (finished after : Program) : Prop where
  values_eq : after.values = finished.values
  grown : finished.Grows (fun _ => False) after
  alters : program.Alters (program.Owned visit.op) visit.op
    (fun _ rest => (front.append (.cons new inside (.cons visit.op .nil rest))).alterAt visit.op
      fun _ rest => rest) after
  change_eq : (front.append (.cons new inside (.cons visit.op .nil visit.rest))).alterAt visit.op
    (fun _ rest => rest) = front.append (.cons new inside visit.rest)
  mapped : ∀ other : OpId, after.operands other =
    if other ∈ visit.rest.ops then
      (finished.operands other).map
        (swapAll ((program.results visit.op).zip (finished.results new)))
    else finished.operands other
  before : ∃ change, finished.regions = program.regions.alterAt visit.op change ∧
    change visit.regions visit.rest = front.append (.cons new .nil (.cons visit.op inside visit.rest))

theorem keepsEntries_put (op : OpId) (front : Body) (new : OpId) (inside : Regions) :
    KeepsEntries op fun _ rest => front.append (.cons new inside (.cons op .nil rest)) := by
  intro regions rest function within other absent member
  rw [Body.entries_append, Body.entries, Body.entries]
  exact List.mem_append_right _ (List.mem_cons_of_mem _ (List.mem_cons_of_mem _ member))

theorem Program.setRegions_of_ne {inside : Regions} (other : op ≠ program.root) :
    program.setRegions op inside = program.alterAt op fun _ rest => .cons op inside rest :=
  if_neg other

/-- What is put in the place of an operation is visited. -/
theorem Program.WellFormed.visits_of_change (formed : program.WellFormed) {visit inner : Visit}
    {change : Regions → Body → Body} (visited : visit ∈ program.visits)
    (notRoot : visit.op ≠ program.root) (root : finished.root = program.root)
    (regions : finished.regions = program.regions.alterAt visit.op change)
    (within : inner ∈ (change visit.regions visit.rest).visits visit.block visit.parent visit.depth) :
    inner ∈ finished.visits := by
  have placed := Body.visits_alterAt none none 0 within program.tree (Body.nodup_ops formed.nodup)
    visited
  rw [Program.tree, Body.alterAt, if_neg (Ne.symm notRoot)] at placed
  rw [Program.visits, Program.tree, root, regions]
  exact placed

/-- A change at an operation behind others. -/
theorem Body.alterAt_behind {front rest : Body} {inside regions : Regions} {new op : OpId}
    (change : Regions → Body → Body) (notFront : op ∉ front.ops) (distinct : op ≠ new)
    (notInside : op ∉ inside.ops) :
    (front.append (.cons new inside (.cons op regions rest))).alterAt op change =
      front.append (.cons new inside (change regions rest)) := by
  have shift (later : Body) : front.append (.cons new inside later) =
      (front.append (.single new inside)).append later := by
    rw [Body.append_assoc]
    rfl
  rw [shift, Body.alterAt_append_cons, ← shift]
  rw [Body.ops_append]
  simp [notFront, distinct, Body.single, Body.ops, notInside]

/-- A program after the regions of one operation have been given to another. -/
def Program.movedRegions (program : Program) (op new : OpId) (inside : Regions) : Program :=
  (program.setRegions op .nil).setRegions new inside

section MovedRegions

variable {visit : Visit} {front : Body} {new : OpId} {inside : Regions}
  {change : Regions → Body → Body} {owned : ValueId → Prop}

theorem Program.movedRegions_eq (stays : op ≠ program.root) (newStays : new ≠ program.root) :
    program.movedRegions op new inside = (program.alterAt op fun _ rest => .cons op .nil rest).alterAt new
      fun _ rest => .cons new inside rest := by
  rw [movedRegions, setRegions_of_ne stays, setRegions_of_ne]
  exact newStays

/-- At the place of the operation, the regions are taken from it and given to the new one. -/
theorem Program.regions_movedRegions (formed : program.WellFormed) (visited : visit ∈ program.visits)
    (stays : visit.op ≠ finished.root) (newStays : new ≠ finished.root)
    (regions : finished.regions = program.regions.alterAt visit.op change)
    (change_eq : change visit.regions visit.rest =
      front.append (.cons new .nil (.cons visit.op inside visit.rest)))
    (absent : new ∉ program.regions.ops) (distinct : new ≠ visit.op) (notFront : new ∉ front.ops)
    (apart : visit.op ∉ front.ops) :
    (finished.movedRegions visit.op new inside).regions = program.regions.alterAt visit.op
      fun _ rest => front.append (.cons new inside (.cons visit.op .nil rest)) := by
  have shape : (finished.movedRegions visit.op new inside).regions =
      (finished.regions.alterAt visit.op fun _ rest => .cons visit.op .nil rest).alterAt new
        fun _ rest => .cons new inside rest := by
    rw [Program.movedRegions_eq stays newStays]
    rfl
  rw [shape, regions, Regions.alterAt_alterAt,
    Regions.alterAt_absent program.regions fun around =>
      absent (Regions.op_mem_parts.mp (Regions.mem_of_around formed.regions_nodup around))]
  refine formed.alterAt_eq visited ?_
  simp only [change_eq]
  rw [Body.alterAt_behind _ apart (Ne.symm distinct) List.not_mem_nil,
    Body.alterAt_append_cons _ _ notFront]

/-- What stands behind another operation that is put in its place is visited. -/
theorem Program.WellFormed.visits_behind (formed : program.WellFormed) (visited : visit ∈ program.visits)
    (notRoot : visit.op ≠ program.root) (root : finished.root = program.root) {given regions : Regions}
    (changed : finished.regions = program.regions.alterAt visit.op change)
    (change_eq : change visit.regions visit.rest =
      front.append (.cons new given (.cons visit.op regions visit.rest))) :
    { visit with regions := regions } ∈ finished.visits := by
  refine formed.visits_of_change visited notRoot root changed ?_
  rw [change_eq]
  refine Body.visits_append _ _ _ front ?_
  simp only [Body.visits, List.mem_cons, List.mem_append]
  exact .inr (.inr (.inl trivial))

/-- The regions have moved, and the results of the new operation are used. -/
theorem movesTo_of_supersedeAll {allowed : OpKind → Prop} {done : Unit} (formed : program.WellFormed)
    (visited : visit ∈ program.visits) (notRoot : visit.op ≠ program.root)
    (notFunction : program.kind visit.op ≠ .func .func) (evolved : program.Evolves allowed finished)
    (alters : program.Alters (program.Owned visit.op) visit.op change finished)
    (change_eq : change visit.regions visit.rest =
      front.append (.cons new .nil (.cons visit.op inside visit.rest)))
    (isNew : program.operations.size ≤ new.index) (notFront : new ∉ front.ops)
    (apart : visit.op ∉ front.ops) (notInside : visit.op ∉ inside.ops)
    (run : (Change.supersedeAll visit.op ((finished.movedRegions visit.op new inside).results new)).run
      (finished.movedRegions visit.op new inside) = (.ok done, after))
    (regions : finished.regionsOf visit.op = inside) :
    program.MovesTo visit front new inside finished after := by
  have known := (formed.knows _ (Body.op_mem_parts.mpr (Program.mem_ops_of_visits visited))).1
  have isRoot : finished.root = program.root := evolved.root
  have unknown {other : OpId} (inTree : .op other ∈ program.tree.parts) : other ≠ new := by
    rintro rfl
    exact absurd (formed.knows _ inTree).1 (not_lt.mpr isNew)
  have distinct : new ≠ visit.op :=
    (unknown (Body.op_mem_parts.mpr (Program.mem_ops_of_visits visited))).symm
  have stays : visit.op ≠ finished.root := isRoot ▸ notRoot
  have newStays : new ≠ finished.root := isRoot ▸ (unknown List.mem_cons_self).symm
  have absent : new ∉ program.regions.ops := fun member => unknown
    (List.mem_cons_of_mem _ (List.mem_append_left _ (Regions.op_mem_parts.mpr member))) rfl
  have regions_eq := Program.regions_movedRegions formed visited stays newStays alters.regions change_eq
    absent distinct notFront apart
  have revisited := formed.visits_behind visited notRoot isRoot alters.regions change_eq
  have evolvedMoved : finished.Evolves (fun _ => False) (finished.movedRegions visit.op new inside) := by
    have moves := show finished.Evolves (fun _ => False) _ from
      evolves_moveRegions (evolved.wellFormed formed) (Program.mem_ops_of_visits revisited) new
    rwa [regions] at moves
  have operations : (finished.movedRegions visit.op new inside).operations = finished.operations := by
    rw [Program.movedRegions_eq stays newStays]
    rfl
  have values : (finished.movedRegions visit.op new inside).values = finished.values := by
    rw [Program.movedRegions_eq stays newStays]
    rfl
  have movedRoot : (finished.movedRegions visit.op new inside).root = program.root := by
    rw [Program.movedRegions_eq stays newStays]
    exact isRoot
  -- Only the tables of the program matter from here on, not how its tree has come about.
  generalize finished.movedRegions visit.op new inside = moved at *
  have results (id : OpId) : moved.results id = finished.results id := by
    rw [Program.results, Program.operation, operations]
    rfl
  have toMoved : program.Alters (program.Owned visit.op) visit.op
      (fun _ rest => front.append (.cons new inside (.cons visit.op .nil rest))) moved :=
    alters.withRegions operations values regions_eq (keepsEntries_put visit.op front new inside)
  have sameResults : moved.results visit.op = program.results visit.op :=
    (results visit.op).trans (evolved.results_eq visit.op known notFunction)
  have sameKind : moved.kind visit.op = program.kind visit.op := by
    rw [Program.kind, Program.operation, operations]
    exact evolved.kind_eq visit.op known
  have discards : moved.Discards { visit with regions := .nil } (moved.results new) after :=
    discards_supersedeAll (evolvedMoved.wellFormed (evolved.wellFormed formed))
      (formed.visits_behind visited notRoot movedRoot regions_eq rfl)
      (by rw [sameKind]; exact notFunction) run
  have owns := formed.owns_results (Program.mem_ops_of_visits visited) notFunction
  have final : moved.Evolves (fun _ => False) after :=
    (evolving_supersedeAll visit.op _).of_run
      (evolvedMoved.wellFormed (evolved.wellFormed formed)) run
  refine ⟨discards.values_eq.trans values, evolvedMoved.toGrows.trans final.toGrows, ?_, ?_,
    fun other => ?_, change, alters.regions, change_eq⟩
  · exact toMoved.trans (discards.alters _ fun result isResult =>
      Program.owned_results (owns.origin_eq result (sameResults ▸ isResult)))
  · exact Body.alterAt_behind _ apart (Ne.symm distinct) notInside
  · have same : moved.operands other = finished.operands other := by
      rw [Program.operands, Program.operation, operations]
      rfl
    rw [discards.mapped other, same, sameResults, results new]

end MovedRegions

/-- Inside an operation, everything does the same if it is the same. -/
theorem Program.WellFormed.inside_follows {allowed : OpKind → Prop} {visit : Visit}
    (formed : program.WellFormed) (grown : program.Grows allowed after)
    (visited : visit ∈ program.visits)
    (operands : ∀ other ∈ visit.regions.ops, after.operands other = program.operands other)
    (types : ∀ value : ValueId, value.index < program.values.size →
      after.typeOf? value = program.typeOf? value)
    {environment image : Environment} {index : Nat} {given : List Atom} {exit : Exit}
    (carries : ∀ value atom, environment value = some atom → image value = some atom)
    (admits : program.Admits (Body.cons visit.op visit.regions visit.rest).parts environment)
    (ended : visit.regions.eval program index given environment = some exit) :
    visit.regions.eval after index given image = some exit := by
  have knows (part : Part) (member : part ∈ visit.regions.parts) : program.Knows part :=
    formed.knows part (Program.mem_parts_of_inside visited member)
  refine Regions.eval_follows (formed.nodup_inside visited) knows
    (fun part member => grown.follows_same (knows part member)
      (fun id isOp => operands id (Regions.op_mem_parts.mp (isOp ▸ member)))
      fun value introduces => types value introduces.1) (formed.notMem_inside visited)
    (Correspondence.holds_same carries)
    (admits.mono fun part member => List.mem_cons_of_mem _ (List.mem_append_left _ member)) ended

/-- What a new operation is stays when regions move. -/
theorem Program.MovesTo.defines {visit : Visit} {front : Body} {new id : OpId} {inside : Regions}
    (moves : program.MovesTo visit front new inside finished after) {kind : OpKind}
    {operands values : List ValueId} {attributes : Attributes} {types : List Ty}
    (defines : finished.Defines id kind operands attributes values types)
    (notFunction : kind ≠ .func .func) (elsewhere : id ∉ visit.rest.ops) :
    after.Defines id kind operands attributes values types := by
  refine defines.grown moves.grown notFunction ?_ fun value _ => ?_
  · rw [moves.mapped, if_neg elsewhere]
  · rw [Program.typeOf?, Program.value, moves.values_eq]
    rfl

/-- No operation is new when regions move, so all have the results that they had. -/
theorem Program.MovesTo.results_eq {visit : Visit} {front : Body} {new id : OpId} {inside : Regions}
    (moves : program.MovesTo visit front new inside finished after) {kind : OpKind}
    {operands values : List ValueId} {attributes : Attributes} {types : List Ty}
    (defines : after.Defines id kind operands attributes values types)
    (notFunction : kind ≠ .func .func) : after.results id = finished.results id := by
  have below : id.index < finished.operations.size := by
    by_contra outside
    exact moves.grown.kind_new id ⟨not_lt.mp outside, defines.below⟩
  refine moves.grown.results_eq id below ?_
  rwa [← moves.grown.kind_eq id below, defines.kind_eq]

/-- Each value of the second program may be what the value of the first in the same position may be. -/
def Program.Widens (program after : Program) (olds news : List ValueId) : Prop :=
  List.Forall₂ (fun old new => ∀ atom : Atom, (program.typeOf? old).any atom.fits = true →
    (after.typeOf? new).any atom.fits = true) olds news

theorem Program.Widens.assign? {olds news : List ValueId} (widens : program.Widens after olds news)
    {atoms : List Atom} {environment known : Environment} (image : Environment)
    (assigned : program.assign? environment olds atoms = some known) :
    ∃ behind, after.assign? image news atoms = some behind := by
  induction widens generalizing atoms environment image with
  | nil =>
    cases atoms with
    | nil => exact ⟨image, rfl⟩
    | cons => cases assigned
  | cons fits _ ih =>
    cases atoms with
    | nil => cases assigned
    | cons atom atoms =>
      rw [Program.assign?] at assigned
      split at assigned
      case isFalse => cases assigned
      case isTrue fitting =>
        rw [Program.assign?, if_pos (fits atom fitting)]
        exact ih _ assigned

/-- What can be the results of the old operation can be those of the new one. -/
theorem Program.Widens.fitResults {new : OpId}
    (widens : program.Widens after (program.results op) (after.results new)) {atoms : List Atom}
    (fits : program.fitResults op atoms = true) : after.fitResults new atoms = true := by
  obtain ⟨known, assigned⟩ := Option.isSome_iff_exists.mp fits
  obtain ⟨behind, assignedAfter⟩ := widens.assign? .empty assigned
  exact Option.isSome_iff_exists.mpr ⟨behind, assignedAfter⟩

/-- If the new operation computes what the old one did, the block goes on as it did. -/
theorem Program.MovesTo.eval {allowed : OpKind → Prop} {visit : Visit} {front : Body} {new : OpId}
    {inside : Regions} (moves : program.MovesTo visit front new inside finished after)
    (formed : program.WellFormed) (visited : visit ∈ program.visits)
    (notFunction : program.kind visit.op ≠ .func .func) (grown : program.Grows allowed after)
    (goesOn : (after.kind new).isExit = false) (sameResults : after.results new = finished.results new)
    (fresh : Program.AreFresh program after (.result new) (after.results new))
    (operands : ∀ other ∈ visit.rest.ops, finished.operands other = program.operands other)
    (types : ∀ part ∈ visit.rest.parts, ∀ value, program.Introduces part value →
      finished.typeOf? value = program.typeOf? value)
    (widens : program.Widens after (program.results visit.op) (after.results new))
    {environment image ready known : Environment} {inputs outputs : List Atom} {exit : Exit}
    (through : front.through after image = some ready)
    (carries : ∀ value atom, environment value = some atom → ready value = some atom)
    (below : ∀ value atom, environment value = some atom → value.index < program.values.size)
    (isInputs : (after.operands new).mapM ready = some inputs)
    (isOutputs : after.outputs? new inputs
      (fun index arguments => inside.eval after index arguments ready) = some outputs)
    (assigned : program.assign? environment (program.results visit.op) outputs = some known)
    (admits : program.Admits visit.rest.parts known)
    (later : visit.rest.eval program known = some exit) :
    (front.append (.cons new inside visit.rest)).eval after image = some exit := by
  obtain ⟨behind, isBehind⟩ := widens.assign? ready assigned
  refine (Body.eval_append_iff front).mpr ⟨ready, through, Body.eval_cons_iff.mpr ⟨inputs, isInputs,
    .inr ⟨goesOn, outputs, behind, isOutputs, isBehind, ?_⟩⟩⟩
  obtain ⟨targets, others⟩ := Program.assign?_getElem fresh.nodup isBehind
  have owns := formed.owns_results (Program.mem_ops_of_visits visited) notFunction
  refine formed.rest_follows grown visited notFunction
    (fun other member => ?_) (fun part member value introduces => ?_) assigned
    widens.length_eq (fun value member => ?_) (fun value atom found => ?_) targets admits later
  · rw [moves.mapped, if_pos member, operands other member, sameResults]
  · rw [← types part member value introduces, Program.typeOf?, Program.value, moves.values_eq]
    rfl
  · exact ⟨fun among => absurd (owns.lt _ among) (not_lt.mpr (fresh.new value member)),
      fun part _ introduces => absurd introduces.1 (not_lt.mpr (fresh.new value member))⟩
  · rw [others value fun member =>
      absurd (below value atom found) (not_lt.mpr (fresh.new value member))]
    exact carries value atom found

end TensorIR
