import TensorIR.Proofs.Scalar.Canonical

/-!
# Branches with a known condition

If the condition of a branch is known, the operations of the side that is taken come in its place, and
what the side passes on is used in place of the results. Whatever these operations have computed is
known behind them, in addition to what was known before.

## Main definitions

* `Body.through` — what is known behind operations that do not end their block

## Main results

* `Body.eval_append_iff` — operations one after the other
* `Body.through_follows`, `Body.through_admits` — operations that are followed up to their end
* `Program.Means.simplifyBranch` — the side that is taken in place of a branch
-/

namespace TensorIR

/-- What is known behind operations that do not end their block. -/
def Body.through (program : Program) : Body → Environment → Option Environment
  | .nil, environment => some environment
  | .cons op regions rest, environment => do
    let inputs ← (program.operands op).mapM environment
    if (program.kind op).isExit then none
    else
      let outputs ← program.outputs? op inputs fun index arguments =>
        regions.eval program index arguments environment
      Body.through program rest (← program.assign? environment (program.results op) outputs)

variable {program start now after : Program} {op function : OpId} {arguments results : List Atom}
  {environment image behind : Environment} {correspondence : Correspondence}

theorem Body.through_cons_iff {regions : Regions} {rest : Body} :
    (Body.cons op regions rest).through program environment = some behind ↔
      ∃ inputs, (program.operands op).mapM environment = some inputs ∧
        (program.kind op).isExit = false ∧ ∃ outputs after,
          program.outputs? op inputs (fun index arguments =>
            regions.eval program index arguments environment) = some outputs ∧
          program.assign? environment (program.results op) outputs = some after ∧
          rest.through program after = some behind := by
  rw [Body.through, Option.bind_eq_bind, Option.bind_eq_some_iff]
  refine exists_congr fun inputs => and_congr_right fun _ => ?_
  cases (program.kind op).isExit <;> simp [Option.bind_eq_some_iff]

/-- Operations are run before those that follow them in the block. -/
theorem Body.eval_append_iff {last : OpId} {inside : Regions} {rest : Body} {exit : Exit} :
    (front : Body) → {environment : Environment} →
      ((front.append (.cons last inside rest)).eval program environment = some exit ↔
        ∃ behind, front.through program environment = some behind ∧
          (Body.cons last inside rest).eval program behind = some exit)
  | .nil, environment => by simp [Body.append, Body.through]
  | .cons op regions front, environment => by
    have notLast : front.append (.cons last inside rest) ≠ .nil := by
      cases front <;> simp [Body.append]
    rw [Body.append, Body.eval_cons_iff]
    constructor
    · rintro ⟨inputs, isInputs, ⟨-, isLast, -⟩ | ⟨continues, outputs, after, isOutputs, assigned, later⟩⟩
      · exact absurd isLast notLast
      · obtain ⟨behind, through, ended⟩ := (Body.eval_append_iff front).mp later
        exact ⟨behind, Body.through_cons_iff.mpr
          ⟨inputs, isInputs, continues, outputs, after, isOutputs, assigned, through⟩, ended⟩
    · rintro ⟨behind, through, ended⟩
      obtain ⟨inputs, isInputs, continues, outputs, after, isOutputs, assigned, later⟩ :=
        Body.through_cons_iff.mp through
      exact ⟨inputs, isInputs, .inr ⟨continues, outputs, after, isOutputs, assigned,
        (Body.eval_append_iff front).mpr ⟨behind, later, ended⟩⟩⟩

/-- Operations whose parts all do the same are followed up to their end. -/
theorem Body.through_follows : (front : Body) → {environment image : Environment} →
    front.parts.Nodup → (∀ part ∈ front.parts, start.Knows part) →
      (∀ part ∈ front.parts, start.Follows now correspondence part) → op ∉ front.ops →
      correspondence.Holds environment image → start.Admits front.parts environment →
      front.through start environment = some behind →
      ∃ imageBehind, front.through now image = some imageBehind ∧
        correspondence.Holds behind imageBehind
  | .nil, _, image, _, _, _, _, holds, _, through => by
    cases through
    exact ⟨image, rfl, holds⟩
  | .cons other regions front, _, image, nodup, knows, follows, absent, holds, admits, through => by
    obtain ⟨inputs, isInputs, continues, outputs, after, isOutputs, assigned, later⟩ :=
      Body.through_cons_iff.mp through
    obtain ⟨-, apart⟩ := List.nodup_cons.mp nodup
    obtain ⟨inside, following, -⟩ := List.nodup_append.mp apart
    have within (part : Part) (member : part ∈ regions.parts) :
        part ∈ (Body.cons other regions front).parts :=
      List.mem_cons_of_mem _ (List.mem_append_left _ member)
    have beyond (part : Part) (member : part ∈ front.parts) :
        part ∈ (Body.cons other regions front).parts :=
      List.mem_cons_of_mem _ (List.mem_append_right _ member)
    rw [Body.ops, List.mem_cons, List.mem_append, not_or, not_or] at absent
    obtain ⟨imageInputs, computed, imageAfter, imageAssigned, holdsAfter⟩ :=
      (follows _ List.mem_cons_self).step holds False nofun
        (fun index arguments exit entered => ⟨exit, Regions.eval_follows inside
          (fun part member => knows part (within part member))
          (fun part member => follows part (within part member)) absent.2.1 holds
          (admits.mono within) entered, .refl ..⟩) isInputs isOutputs assigned
    obtain ⟨imageBehind, imageThrough, holdsBehind⟩ := Body.through_follows front following
      (fun part member => knows part (beyond part member))
      (fun part member => follows part (beyond part member)) absent.2.2 holdsAfter
      (admits.step (knows _ List.mem_cons_self) nodup isInputs isOutputs assigned) later
    refine ⟨imageBehind, Body.through_cons_iff.mpr ⟨inputs, imageInputs, ?_, outputs, imageAfter,
      computed, imageAssigned, imageThrough⟩, holdsBehind⟩
    rw [(follows _ List.mem_cons_self).1]
    exact continues

/-- Assigning the results of an operation leaves alone what was known before it. -/
theorem Program.Admits.keeps {parts : List Part} {values : List ValueId} {atoms : List Atom}
    (admits : program.Admits parts environment) (member : .op op ∈ parts)
    (owns : program.Owns (.result op) values)
    (assigned : program.assign? environment values atoms = some behind) (value : ValueId) (atom : Atom)
    (known : environment value = some atom) : behind value = some atom := by
  rw [← known]
  refine (Program.assign?_getElem owns.nodup assigned).2 value fun isResult => ?_
  exact admits.elsewhere value atom known _ member (owns.origin_eq value isResult)

/-- Behind operations, what was known before them is known still. -/
theorem Body.through_admits (later : Body) : (front : Body) → {environment : Environment} →
    (front.append later).parts.Nodup → (∀ part ∈ front.parts, program.Knows part) →
      program.Admits (front.append later).parts environment →
      front.through program environment = some behind →
      program.Admits later.parts behind ∧
        ∀ value atom, environment value = some atom → behind value = some atom
  | .nil, _, _, _, admits, through => by
    cases through
    exact ⟨admits, fun _ _ known => known⟩
  | .cons op regions front, environment, nodup, knows, admits, through => by
    obtain ⟨inputs, isInputs, -, outputs, after, isOutputs, assigned, through⟩ :=
      Body.through_cons_iff.mp through
    rw [Body.append] at nodup admits
    have known := knows _ List.mem_cons_self
    have notFunction : program.kind op ≠ .func .func := by
      intro isFunction
      rw [Program.outputs?_of_function isFunction] at isOutputs
      cases isOutputs
    obtain ⟨-, apart⟩ := List.nodup_cons.mp nodup
    obtain ⟨following, keeps⟩ := Body.through_admits later front (List.nodup_append.mp apart).2.1
      (fun part member => knows part (List.mem_cons_of_mem _ (List.mem_append_right _ member)))
      (admits.step known nodup isInputs isOutputs assigned) through
    exact ⟨following, fun value atom found => keeps value atom
      (admits.keeps List.mem_cons_self (known.2 notFunction) assigned value atom found)⟩

/-! ### The side that is taken -/

theorem Regions.eval_get? {blocks : Blocks} : (regions : Regions) → (index : Nat) →
    regions.get? index = some blocks →
      regions.eval program index arguments environment = blocks.eval program arguments environment
  | .nil, _, found => by cases found
  | .cons first rest, 0, found => by
    cases found
    rfl
  | .cons first rest, index + 1, found => Regions.eval_get? rest index found

theorem Regions.parts_of_get? {blocks : Blocks} : (regions : Regions) → (index : Nat) →
    regions.get? index = some blocks → blocks.parts.Sublist regions.parts
  | .nil, _, found => by cases found
  | .cons first rest, 0, found => by
    cases found
    exact List.sublist_append_left ..
  | .cons first rest, index + 1, found =>
    (Regions.parts_of_get? rest index found).trans (List.sublist_append_right ..)

theorem Blocks.parts_of_entryBlock? {blocks : Blocks} {block : BlockId} {body : Body}
    (entry : blocks.entryBlock? = some (block, body)) : body.parts.Sublist blocks.parts := by
  cases blocks with
  | nil => cases entry
  | cons first inside rest =>
    cases entry
    exact (List.sublist_append_left ..).cons _

theorem Body.alterAt_append_cons {regions : Regions} {rest : Body}
    (change : Regions → Body → Body) (front : Body) (absent : op ∉ front.ops) :
    (front.append (.cons op regions rest)).alterAt op change = front.append (change regions rest) := by
  induction front using Body.heads.induct with
  | case1 => rw [Body.append, Body.append, Body.alterAt, if_pos rfl]
  | case2 other inside front ih =>
    rw [Body.ops, List.mem_cons, List.mem_append, not_or, not_or] at absent
    rw [Body.append, Body.append, Body.alterAt, if_neg (Ne.symm absent.1),
      Regions.alterAt_of_notMem _ absent.2.1, ih absent.2.2]

namespace Rewrite.Inlined

variable {taken : Bool} (inlined : Rewrite.Inlined program op taken)

theorem keepsEntries : KeepsEntries op inlined.change := by
  intro regions rest function inside _ _ member
  rw [Rewrite.Inlined.change, Body.entries_append, List.mem_append]
  exact .inr (List.mem_cons_of_mem _ member)

theorem body_eq : inlined.body = inlined.front.append (.single inlined.last inlined.inside) :=
  Body.eq_append_of_splitLast? inlined.split

/-- What is moved comes from inside the branch. -/
theorem parts_front : inlined.front.parts.Sublist (program.regionsOf op).parts := by
  have inside := (Blocks.parts_of_entryBlock? inlined.entry).trans
    (Regions.parts_of_get? _ _ inlined.found)
  rw [inlined.body_eq, Body.parts_append] at inside
  exact (List.sublist_append_left ..).trans inside

/-- The branch stays for a moment, with the end of the side. -/
theorem visited {visit : Visit} (formed : program.WellFormed) (notRoot : visit.op ≠ program.root)
    (visited : visit ∈ program.visits) (inlined : Rewrite.Inlined program visit.op taken) :
    { visit with
      regions := visit.regions.modify (if taken then 0 else 1)
        (Blocks.withEntryBody (.single inlined.last inlined.inside)) } ∈
      (program.alterAt visit.op inlined.change).visits := by
  rw [Program.visits, Program.tree_alterAt notRoot]
  refine Body.visits_alterAt none none 0 ?_ program.tree (Body.nodup_ops formed.nodup) visited
  refine Body.visits_append _ _ _ _ ?_
  rw [Body.visits]
  exact List.mem_cons_self

section Moved

variable {visit : Visit} (moved : Rewrite.Inlined program visit.op taken)

theorem mem_inside (formed : program.WellFormed) (visited : visit ∈ program.visits) {part : Part}
    (member : part ∈ moved.front.parts) : part ∈ visit.regions.parts := by
  have inner := moved.parts_front.subset member
  rwa [formed.regionsOf_eq visited] at inner

theorem nodup_front (formed : program.WellFormed) (visited : visit ∈ program.visits) :
    moved.front.parts.Nodup := by
  have inner := moved.parts_front
  rw [formed.regionsOf_eq visited] at inner
  exact inner.nodup (formed.nodup_inside visited)

theorem notMem_front (formed : program.WellFormed) (visited : visit ∈ program.visits) :
    visit.op ∉ moved.front.ops := fun member =>
  formed.notMem_inside visited
    (Regions.op_mem_parts.mp (moved.mem_inside formed visited (Body.op_mem_parts.mpr member)))

/-- In front of an operation that has no regions any more, what is moved is apart from the rest. -/
theorem nodup_joined (formed : program.WellFormed) (visited : visit ∈ program.visits) :
    (moved.front.append (.cons visit.op .nil visit.rest)).parts.Nodup := by
  rw [Body.parts_append, Body.parts, Regions.parts, List.nil_append]
  refine (moved.nodup_front formed visited).append (List.nodup_cons.mpr ⟨?_, formed.nodup_rest visited⟩)
    fun part among later => ?_
  · exact fun member => formed.notMem_rest visited (Body.op_mem_parts.mp member)
  · rcases List.mem_cons.mp later with rfl | later
    · exact moved.notMem_front formed visited (Body.op_mem_parts.mp among)
    · exact formed.disjoint_rest visited (moved.mem_inside formed visited among) later

end Moved

/-- What the side passes on is known behind its operations, and it is what the branch computes. -/
theorem of_outputs? (isBranch : program.kind op = .torch .primIf) {parts : List Part}
    (admits : program.Admits parts environment) {inputs outputs : List Atom} {condition : ValueId}
    (isCondition : program.operand op 0 = .ok condition)
    (folded : program.foldBool? condition = some taken)
    (isInputs : (program.operands op).mapM environment = some inputs)
    (isOutputs : program.outputs? op inputs (fun index arguments =>
      (program.regionsOf op).eval program index arguments environment) = some outputs) :
    ∃ behind, inlined.front.through program environment = some behind ∧
      (program.operands inlined.last).mapM behind = some outputs := by
  obtain ⟨side, rfl, entered⟩ := (Program.outputs?_branch_iff (.inl isBranch)).mp isOutputs
  have isFirst := Program.getElem?_of_operand isCondition
  obtain rfl := admits.operand_bool isInputs 0 rfl (by rw [isFirst]; exact folded)
  obtain ⟨exit, isExit, passed⟩ := Option.bind_eq_some_iff.mp entered
  rw [Regions.eval_get? _ _ inlined.found] at isExit
  have entry := inlined.entry
  cases isBlocks : inlined.blocks with
  | nil =>
    rw [isBlocks] at entry
    cases entry
  | cons block body rest =>
    rw [isBlocks] at entry isExit
    cases entry
    obtain ⟨known, assigned, ended⟩ := Blocks.eval_cons_iff.mp isExit
    have none := List.eq_nil_of_length_eq_zero (Program.of_assign? assigned).1
    rw [none] at assigned
    cases assigned
    -- The body is what is inlined, and then the operation that ends it.
    rw [inlined.body_eq] at ended
    obtain ⟨behind, through, ended⟩ := (Body.eval_append_iff _).mp ended
    refine ⟨behind, through, ?_⟩
    obtain ⟨inputs, isInputs, ⟨-, -, isExit⟩ | ⟨-, _, _, -, -, impossible⟩⟩ := Body.eval_cons_iff.mp ended
    · rw [isInputs]
      obtain ⟨flag, atoms⟩ := exit
      cases flag with
      | some => cases passed
      | none =>
        cases passed
        unfold exit? at isExit
        split at isExit <;> cases isExit
        rfl
    · cases impossible

end Rewrite.Inlined

/-- The operations of the side that is taken may come in the place of a branch. -/
theorem Program.Means.simplifyBranch (means : program.Means function arguments results)
    (present : op ∈ program.tree.ops) (isBranch : program.kind op = .torch .primIf)
    (run : (Rewrite.simplifyBranch op).run program = (.ok true, after)) :
    after.Means function arguments results := by
  have formed := means.formed
  have evolved : program.Evolves (fun _ => True) after :=
    (evolvingAt_simplifyBranch op).of_run formed present run
  rcases simplifyBranch_cases program op with ⟨same, -⟩ | ⟨condition, taken, inlined, isCondition, folded, same⟩
  · rw [run] at same
    rwa [show after = program from same]
  rw [same] at run
  have notModule : program.kind op ≠ .module := by simp [isBranch]
  have notFunction : program.kind op ≠ .func .func := by simp [isBranch]
  have notRoot := means.ne_root notModule
  obtain ⟨visit, visited, rfl⟩ := Program.exists_visit present
  have owns := formed.owns_results present notFunction
  have moved : program.Evolves (fun _ => True) (program.alterAt visit.op inlined.change) :=
    inlined.evolves formed
  have discards := discards_supersedeAll (moved.wellFormed formed)
    (Rewrite.Inlined.visited formed notRoot visited inlined) notFunction (of_then_true_eq_ok run)
  have alters := (Program.Alters.alterAt program (program.Owned visit.op) inlined.keepsEntries).trans
    (discards.alters _ fun result isResult => Program.owned_results (owns.origin_eq result isResult))
  have notMoved := inlined.notMem_front formed visited
  have sameType (value : ValueId) : after.typeOf? value = program.typeOf? value := by
    rw [Program.typeOf?, Program.value, discards.values_eq]
    rfl
  have within (part : Part) (among : part ∈ inlined.front.parts) : part ∈ visit.regions.parts :=
    inlined.mem_inside formed visited among
  have knows (part : Part) (among : part ∈ inlined.front.parts) : program.Knows part :=
    formed.knows part (Program.mem_parts_of_inside visited (within part among))
  have follows (part : Part) (among : part ∈ inlined.front.parts) :
      program.Follows after .same part := by
    refine evolved.toGrows.follows_same (knows part among) (fun id isOp => ?_) fun value _ => sameType value
    subst isOp
    rw [discards.mapped, if_neg]
    · rfl
    · exact fun member => formed.disjoint_rest visited (within _ among) (Body.op_mem_parts.mpr member)
  refine means.alter_at False visited notModule notFunction (evolved.wellFormed formed)
    evolved.toGrows alters False.elim fun environment image exit carries admits ended =>
      ⟨exit, ?_, .refl ..⟩
  obtain ⟨inputs, outputs, known, isInputs, isOutputs, assigned, later⟩ :=
    Body.eval_cons_of_not_exit (by rw [isBranch]; rfl) ended
  obtain ⟨behind, through, isValues⟩ := inlined.of_outputs? isBranch admits isCondition folded isInputs
    (by rwa [formed.regionsOf_eq visited])
  have around (part : Part) (among : part ∈ inlined.front.parts) :
      part ∈ (Body.cons visit.op visit.regions visit.rest).parts :=
    List.mem_cons_of_mem _ (List.mem_append_left _ (within part among))
  -- The operations of the side run in front of the rest, and the rest goes on with what they pass on.
  obtain ⟨admitsBehind, keeps⟩ := Body.through_admits (.cons visit.op .nil visit.rest) inlined.front
    (inlined.nodup_joined formed visited) knows (admits.mono fun part member => by
      rw [Body.parts_append, List.mem_append] at member
      rcases member with among | later
      · exact around part among
      · rw [Body.parts, List.mem_cons] at later ⊢
        exact later.imp_right fun member => List.mem_append_right _ member) through
  obtain ⟨imageBehind, imageThrough, holds⟩ : ∃ imageBehind,
      inlined.front.through after image = some imageBehind ∧
        Correspondence.same.Holds behind imageBehind :=
    Body.through_follows inlined.front (inlined.nodup_front formed visited) knows follows notMoved
      (Correspondence.holds_same carries) (admits.mono around) through
  have restFollows : visit.rest.eval after imageBehind = some exit := by
    refine formed.rest_follows_known evolved.toGrows visited notFunction (fun other member => ?_)
      (fun part _ value _ => sameType value) assigned admitsBehind List.mem_cons_self
      (fun part among => List.mem_cons_of_mem _ (List.mem_append_right _ among)) isValues
      (fun value atom found => holds.carries value value atom rfl (keeps value atom found))
      (fun value atom found => holds.carries value value atom rfl found)
      (admits.step (formed.knows _ (Body.op_mem_parts.mpr present)) (formed.nodup_of_visits visited)
        isInputs isOutputs assigned) later
    rw [discards.mapped, if_pos member]
    rfl
  rw [Rewrite.Inlined.change, Body.alterAt_append_cons _ _ notMoved]
  cases isRest : visit.rest with
  | nil =>
    rw [isRest] at later
    cases later
  | cons last inside rest =>
    rw [isRest] at restFollows
    exact (Body.eval_append_iff _).mpr ⟨imageBehind, imageThrough, restFollows⟩

end TensorIR
