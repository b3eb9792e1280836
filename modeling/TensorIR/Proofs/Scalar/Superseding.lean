import TensorIR.Proofs.Scalar.Built

/-!
# Operations in place of others

A scalar operation is often superseded by a single operation that computes the same: a constant if its
result is known, or its counterpart in the other representation. It is enough to look at the two
operations.

## Main results

* `Program.Means.supersede` — an operation superseded by one that computes the same
* `Program.Means.supersedeAll` — an operation superseded by values that are what it computes
* `Program.Means.drop` — an operation that is not needed
-/

namespace TensorIR

variable {program after : Program} {op function : OpId} {arguments results : List Atom}
  {allowed : OpKind → Prop} {draft : Draft}

/-- Building before an operation leaves the operation where it is. -/
theorem Draft.Extends.visited (built : (program.draft op .before).Extends allowed [] draft)
    (formed : program.WellFormed) (notRoot : op ≠ program.root) {visit : Visit}
    (member : visit ∈ program.visits) (isOp : visit.op = op) : visit ∈ draft.finished.visits := by
  subst isOp
  have anchor : draft.anchor = visit.op := built.anchor
  have isRoot : draft.program.root = program.root := built.program.root
  rw [Program.visits, Draft.finished_eq, anchor, Program.tree_alterAt (isRoot ▸ notRoot),
    built.tree_eq]
  refine Body.visits_alterAt none none 0 ?_ program.tree (Body.nodup_ops formed.nodup) member
  have placement : draft.placement = .before := built.placement
  rw [Draft.change, placement, anchor]
  refine Body.visits_append _ _ _ _ (Body.visits_append _ _ _ _ ?_)
  rw [Body.visits]
  exact List.mem_cons_self

/-- The results of an operation and everything inside it belong to it. -/
theorem Program.owned_results {value : ValueId} (origin : (program.value value).origin = .result op) :
    program.Owned op value :=
  ⟨.op op, List.mem_cons_self, origin⟩

theorem Program.WellFormed.owns_results (formed : program.WellFormed) (present : op ∈ program.tree.ops)
    (notFunction : program.kind op ≠ .func .func) :
    program.Owns (.result op) (program.results op) :=
  (formed.knows _ (Body.op_mem_parts.mpr present)).2 notFunction

/-- What is introduced behind an operation is not introduced by it. -/
theorem Program.WellFormed.not_introduces_rest (formed : program.WellFormed) {visit : Visit}
    (visited : visit ∈ program.visits) {value : ValueId}
    (origin : (program.value value).origin = .result visit.op) {part : Part}
    (member : part ∈ visit.rest.parts) : ¬program.Introduces part value := by
  rintro ⟨-, introduced⟩
  obtain rfl : part = .op visit.op := Part.origin_inj (introduced.symm.trans origin)
  exact formed.notMem_rest visited (Body.op_mem_parts.mp member)

/-- What follows an operation does the same after values have been put in place of its results that
are what the results were. -/
theorem Program.WellFormed.rest_follows {now : Program} (formed : program.WellFormed)
    (grown : program.Grows allowed now) {visit : Visit} (visited : visit ∈ program.visits)
    {values : List ValueId} {outputs : List Atom} {environment image known : Environment} {exit : Exit}
    (notFunction : program.kind visit.op ≠ .func .func)
    (mapped : ∀ other ∈ visit.rest.ops, now.operands other =
      (program.operands other).map (swapAll ((program.results visit.op).zip values)))
    (types : ∀ part ∈ visit.rest.parts, ∀ value, program.Introduces part value →
      now.typeOf? value = program.typeOf? value)
    (assigned : program.assign? environment (program.results visit.op) outputs = some known)
    (length_eq : (program.results visit.op).length = values.length)
    (apart : ∀ value ∈ values, value ∉ program.results visit.op ∧
      ∀ part ∈ visit.rest.parts, ¬program.Introduces part value)
    (carries : ∀ value atom, environment value = some atom → image value = some atom)
    (targets : ∀ (index : Nat) value, values[index]? = some value → image value = outputs[index]?)
    (admits : program.Admits visit.rest.parts known)
    (ended : visit.rest.eval program known = some exit) : visit.rest.eval now image = some exit := by
  have owns := formed.owns_results (Program.mem_ops_of_visits visited) notFunction
  refine Body.eval_mapped _ visit.op (fun _ => True) (formed.nodup_rest visited)
    (formed.notMem_rest visited)
    (fun part member => formed.knows part (Program.mem_parts_of_rest visited member)) grown
    (fun other member => ⟨mapped other member, fun _ _ => trivial⟩) types ?_ ?_ admits ended
  · intro part member pair among
    obtain ⟨isResult, isValue⟩ := List.of_mem_zip among
    exact ⟨formed.not_introduces_rest visited (owns.origin_eq _ isResult) member,
      (apart pair.2 isValue).2 part member⟩
  · intro value atom _ found
    exact known_swapAll owns.nodup assigned length_eq (fun value member => (apart value member).1)
      carries targets value atom found

/-- What follows an operation does the same after values have been put in place of its results that are
known to be what the results were. -/
theorem Program.WellFormed.rest_follows_known {now : Program} (formed : program.WellFormed)
    (grown : program.Grows allowed now) {visit : Visit} (visited : visit ∈ program.visits)
    {values : List ValueId} {outputs : List Atom} {environment behind image known : Environment}
    {parts : List Part} {exit : Exit} (notFunction : program.kind visit.op ≠ .func .func)
    (mapped : ∀ other ∈ visit.rest.ops, now.operands other =
      (program.operands other).map (swapAll ((program.results visit.op).zip values)))
    (types : ∀ part ∈ visit.rest.parts, ∀ value, program.Introduces part value →
      now.typeOf? value = program.typeOf? value)
    (assigned : program.assign? environment (program.results visit.op) outputs = some known)
    (around : program.Admits parts behind) (isOp : .op visit.op ∈ parts)
    (isRest : ∀ part ∈ visit.rest.parts, part ∈ parts)
    (isValues : values.mapM behind = some outputs)
    (carries : ∀ value atom, environment value = some atom → image value = some atom)
    (passes : ∀ value atom, behind value = some atom → image value = some atom)
    (admits : program.Admits visit.rest.parts known)
    (ended : visit.rest.eval program known = some exit) : visit.rest.eval now image = some exit := by
  have owns := formed.owns_results (Program.mem_ops_of_visits visited) notFunction
  refine formed.rest_follows grown visited notFunction mapped types assigned
    ((Program.of_assign? assigned).1.trans (length_of_mapM isValues)) (fun value member => ?_) carries
    (fun index value found => ?_) admits ended
  · obtain ⟨index, found⟩ := List.getElem?_of_mem member
    obtain ⟨atom, isAtom, -⟩ := known_of_mapM isValues found
    refine ⟨fun isResult => ?_, fun part among => around.not_introduces isAtom (isRest part among)⟩
    exact around.elsewhere value atom isAtom (.op visit.op) isOp (owns.origin_eq value isResult)
  · obtain ⟨atom, isAtom, isOutput⟩ := known_of_mapM isValues found
    rw [isOutput]
    exact passes value atom isAtom

/-- A value of the first program that is known stays known when the values that get new entries are
assigned. -/
theorem Program.Admits.set_fresh {parts : List Part} {environment image : Environment} {fresh : ValueId}
    (admits : program.Admits parts environment) (new : program.values.size ≤ fresh.index)
    (carries : ∀ value atom, environment value = some atom → image value = some atom) (atom : Atom)
    (value : ValueId) (other : Atom) (known : environment value = some other) :
    image.set fresh atom value = some other := by
  rw [Environment.set_other]
  · exact carries value other known
  · rintro rfl
    exact absurd (admits.lt _ _ known) (not_lt.mpr new)

theorem mapM_carries {environment image : Environment} {values : List ValueId} {atoms : List Atom}
    (carries : ∀ value atom, environment value = some atom → image value = some atom)
    (known : values.mapM environment = some atoms) : values.mapM image = some atoms := by
  induction values generalizing atoms with
  | nil => exact known
  | cons value values ih =>
    simp only [List.mapM_cons, Option.bind_eq_bind, Option.bind_eq_some_iff, Option.pure_def,
      Option.some.injEq] at known ⊢
    obtain ⟨atom, isAtom, later, isLater, rfl⟩ := known
    exact ⟨atom, carries value atom isAtom, later, ih isLater, rfl⟩

/-- An operation computes what another one of the given kind, operands and attributes computes. -/
def Program.ComputedBy (program : Program) (op : OpId) (kind : OpKind) (operands : List ValueId)
    (attributes : Attributes) (type : Ty) : Prop :=
  ∀ parts environment inputs outputs enter, program.Admits parts environment →
    (program.operands op).mapM environment = some inputs →
    program.outputs? op inputs enter = some outputs →
    ∃ output others literal, outputs = [output] ∧ operands.mapM environment = some others ∧
      literal.atom? type = some output ∧ ∀ (now : Program) (id : OpId), now.kind id = kind →
        now.attributes id = attributes → now.resultType? id 0 = some type →
        now.literal? id others = some literal

/-- Taking an operation away leaves the tables as they are. -/
theorem tables_erase {done : Unit} (run : (Change.erase op).run program = (.ok done, after)) :
    after.operations = program.operations ∧ after.values = program.values := by
  obtain ⟨-, rfl⟩ := of_erase_eq_ok run
  unfold Program.keep
  split <;> exact ⟨rfl, rfl⟩

/-- An operation has been taken away, and other values are used in place of its results. -/
structure Program.Discards (program : Program) (visit : Visit) (values : List ValueId)
    (after : Program) : Prop where
  values_eq : after.values = program.values
  alters : ∀ owned : ValueId → Prop, (∀ result ∈ program.results visit.op, owned result) →
    program.Alters owned visit.op (fun _ rest => rest) after
  mapped : ∀ other : OpId, after.operands other =
    if other ∈ visit.rest.ops then
      (program.operands other).map (swapAll ((program.results visit.op).zip values))
    else program.operands other

section Discarding

variable {visit : Visit} {values : List ValueId} {done : Unit}

theorem discards_of_erase (formed : program.WellFormed) (visited : visit ∈ program.visits)
    (notFunction : program.kind visit.op ≠ .func .func)
    (run : (Change.erase visit.op).run
      (program.replaceAll ((program.results visit.op).zip values)) = (.ok done, after)) :
    program.Discards visit values after := by
  have owns := formed.owns_results (Program.mem_ops_of_visits visited) notFunction
  obtain ⟨operations, sameValues⟩ := tables_erase run
  refine ⟨sameValues.trans (values_replaceAll _ _), fun owned among => ?_, fun other => ?_⟩
  · have replaced : program.Alters owned visit.op (.cons visit.op)
        (program.replaceAll ((program.results visit.op).zip values)) :=
      alters_replaceAll fun pair member => among pair.1 (List.of_mem_zip member).1
    simpa only [Body.alterAt, if_true] using replaced.trans (alters_erase run)
  · rw [← program.operands_replaceAll (fun pair member => formed.scopeOf_result visited
      (owns.origin_eq pair.1 (List.of_mem_zip member).1)) other]
    rw [Program.operands, Program.operation, operations]
    rfl

theorem discards_supersedeAll (formed : program.WellFormed) (visited : visit ∈ program.visits)
    (notFunction : program.kind visit.op ≠ .func .func)
    (run : (Change.supersedeAll visit.op values).run program = (.ok done, after)) :
    program.Discards visit values after :=
  discards_of_erase formed visited notFunction (of_supersedeAll_eq_ok run)

theorem discards_supersede (formed : program.WellFormed) (visited : visit ∈ program.visits)
    (notFunction : program.kind visit.op ≠ .func .func) {value : ValueId}
    (run : (Change.supersede visit.op value).run program = (.ok done, after)) :
    program.Discards visit [value] after := by
  obtain ⟨result, isResult, erased⟩ := of_supersede_eq_ok run
  suffices replaced : (Change.erase visit.op).run
      (program.replaceAll ((program.results visit.op).zip [value])) = (.ok done, after) from
    discards_of_erase formed visited notFunction replaced
  cases found : program.results visit.op with
  | nil =>
    rw [found] at isResult
    cases isResult
  | cons first others =>
    rw [found] at isResult
    cases isResult
    rw [List.zip_cons_cons, List.zip_nil_right]
    exact erased

end Discarding

/-- The one operation that has been built comes before the other. -/
theorem Draft.Adds.change_eq {kind : OpKind} {operands : List ValueId} {attributes : Attributes}
    {types : List Ty} (adds : (program.draft op .before).Adds kind operands attributes types draft)
    (regions : Regions) (rest : Body) :
    draft.change regions rest = .cons ⟨program.operations.size⟩ .nil (.cons op regions rest) := by
  have placement : draft.placement = .before := adds.placement
  have anchor : draft.anchor = op := adds.anchor
  have hoisted : draft.hoisted = .nil := adds.hoisted
  have lead : draft.lead = .nil := adds.lead
  have code : draft.code = .single ⟨program.operations.size⟩ .nil := adds.code
  simp [Draft.change, placement, anchor, hoisted, lead, code, Body.append, Body.single]

/-- The one operation that has been built comes in the place of the other. -/
theorem Draft.Adds.change_erase {kind : OpKind} {operands : List ValueId} {attributes : Attributes}
    {types : List Ty} (adds : (program.draft op .before).Adds kind operands attributes types draft)
    (old : op.index < program.operations.size) (regions : Regions) (rest : Body) :
    ((draft.change regions rest).alterAt op fun _ rest => rest) =
      .cons ⟨program.operations.size⟩ .nil rest := by
  have other : (⟨program.operations.size⟩ : OpId) ≠ op := by
    rintro rfl
    exact lt_irrefl _ old
  rw [adds.change_eq, Body.alterAt, if_neg other, Body.alterAt, if_pos rfl]
  rfl

/-- What has been built for an operation is defined in the end, if it is not changed any more. -/
theorem Draft.Adds.defines_after {kind : OpKind} {operands : List ValueId} {attributes : Attributes}
    {type : Ty} (adds : (program.draft op .before).Adds kind operands attributes [type] draft)
    (notFunction : kind ≠ .func .func) (grown : draft.finished.Grows allowed after)
    (values : after.values = draft.program.values)
    (same : after.operands ⟨program.operations.size⟩ = draft.finished.operands ⟨program.operations.size⟩) :
    after.Defines ⟨program.operations.size⟩ kind operands attributes [⟨program.values.size⟩] [type] := by
  have defines : draft.finished.Defines ⟨program.operations.size⟩ kind operands attributes
      [⟨program.values.size⟩] [type] := by
    simpa [Program.freshValues, Program.draft] using adds.defines.placed
  refine defines.grown grown notFunction same fun value _ => ?_
  rw [Program.typeOf?, Program.value, values]
  rfl

/-- An operation may be superseded by one that computes the same. -/
theorem Program.Means.supersede (means : program.Means function arguments results)
    (present : op ∈ program.tree.ops) (notExit : (program.kind op).isExit = false)
    (notModule : program.kind op ≠ .module) (notFunction : program.kind op ≠ .func .func)
    {kind : OpKind} {operands : List ValueId} {attributes : Attributes} {type : Ty} {done : Unit}
    (newKind : kind ≠ .func .func) (suits : kind.suits type = true)
    (built : (program.draft op .before).Extends allowed [] draft)
    (adds : (program.draft op .before).Adds kind operands attributes [type] draft)
    (computed : program.ComputedBy op kind operands attributes type)
    (run : (Change.supersede op ⟨program.values.size⟩).run draft.finished = (.ok done, after)) :
    after.Means function arguments results := by
  have formed := means.formed
  have notRoot := means.ne_root notModule
  obtain ⟨visit, visited, rfl⟩ := Program.exists_visit present
  have known := formed.knows _ (Body.op_mem_parts.mpr present)
  have owns := formed.owns_results present notFunction
  have evolved : program.Evolves allowed draft.finished := built.evolves formed
  have final : draft.finished.Evolves allowed after :=
    (evolving_supersede visit.op _).of_run (evolved.wellFormed formed) run
  have grown : program.Grows allowed after := evolved.toGrows.trans final.toGrows
  have sameResults : draft.finished.results visit.op = program.results visit.op :=
    evolved.results_eq visit.op known.1 notFunction
  have discards := discards_supersede (evolved.wellFormed formed)
    (built.visited formed notRoot visited rfl) (evolved.kind_eq visit.op known.1 ▸ notFunction) run
  have alters : program.Alters (program.Owned visit.op) visit.op
      (fun regions rest => (draft.change regions rest).alterAt visit.op fun _ rest => rest) after :=
    (alters_build built).trans (discards.alters _ fun result isResult =>
      Program.owned_results (owns.origin_eq result (sameResults ▸ isResult)))
  have values : after.values = draft.program.values := discards.values_eq
  -- The new operation is nowhere else, and nothing that is there uses what it computes.
  have old (other : OpId) (member : other ∈ visit.rest.ops) : other.index < program.operations.size :=
    (formed.knows (.op other) (Program.mem_parts_of_rest visited (Body.op_mem_parts.mpr member))).1
  have absent : (⟨program.operations.size⟩ : OpId) ∉ visit.rest.ops := fun member =>
    absurd (old _ member) (lt_irrefl _)
  have defines := adds.defines_after newKind final.toGrows values
    (by rw [discards.mapped, if_neg absent])
  refine means.alter_at False visited notModule notFunction (final.wellFormed (evolved.wellFormed formed))
    grown alters False.elim fun environment image exit carries admits ended => ?_
  rw [adds.change_erase known.1]
  obtain ⟨inputs, outputs, behind, isInputs, isOutputs, assigned, later⟩ :=
    Body.eval_cons_of_not_exit notExit ended
  obtain ⟨output, others, literal, rfl, isOthers, isAtom, isLiteral⟩ :=
    computed _ _ _ _ _ admits isInputs isOutputs
  refine ⟨exit, defines.eval_cons suits (mapM_carries carries isOthers)
    (isLiteral after _ defines.kind_eq defines.attributes_eq defines.resultType?_eq) isAtom ?_, .refl ..⟩
  have length_eq : (program.results visit.op).length = [(⟨program.values.size⟩ : ValueId)].length :=
    (Program.of_assign? assigned).1
  refine formed.rest_follows grown visited notFunction (fun other member => ?_)
    (fun part _ value introduces => ?_) assigned length_eq (fun value member => ?_)
    (admits.set_fresh le_rfl carries output) (fun index value found => ?_)
    (admits.step known (formed.nodup_of_visits visited) isInputs isOutputs assigned) later
  · rw [discards.mapped, if_pos member, sameResults]
    congr 1
    exact congrArg Operation.operands (built.program.operation_eq other (old other member))
  · rw [Program.typeOf?, Program.value, values]
    exact congrArg Value.type (built.program.value_eq value introduces.1)
  · obtain rfl := List.mem_singleton.mp member
    exact ⟨fun among => absurd (owns.lt _ among) (lt_irrefl _),
      fun part _ introduces => absurd introduces.1 (lt_irrefl _)⟩
  · cases index with
    | zero =>
      cases found
      exact Environment.set_self ..
    | succ index => cases found

/-- An operation may be superseded by values that are what it computes. -/
theorem Program.Means.supersedeAll (means : program.Means function arguments results)
    (present : op ∈ program.tree.ops) (notExit : (program.kind op).isExit = false)
    (notModule : program.kind op ≠ .module) (notFunction : program.kind op ≠ .func .func)
    {values : List ValueId} {done : Unit}
    (same : ∀ parts environment inputs outputs enter, program.Admits parts environment →
      (program.operands op).mapM environment = some inputs →
      program.outputs? op inputs enter = some outputs → values.mapM environment = some outputs)
    (run : (Change.supersedeAll op values).run program = (.ok done, after)) :
    after.Means function arguments results := by
  have formed := means.formed
  obtain ⟨visit, visited, rfl⟩ := Program.exists_visit present
  have owns := formed.owns_results present notFunction
  have discards := discards_supersedeAll formed visited notFunction run
  have evolved : program.Evolves (fun _ => False) after :=
    (evolving_supersedeAll visit.op values).of_run formed run
  refine means.alter_at False visited notModule notFunction (evolved.wellFormed formed)
    evolved.toGrows
    (discards.alters _ fun result isResult => Program.owned_results (owns.origin_eq result isResult))
    False.elim fun environment image exit carries admits ended => ⟨exit, ?_, .refl ..⟩
  obtain ⟨inputs, outputs, known, isInputs, isOutputs, assigned, later⟩ :=
    Body.eval_cons_of_not_exit notExit ended
  refine formed.rest_follows_known evolved.toGrows visited notFunction (fun other member => ?_)
    (fun part _ value introduces => ?_) assigned admits List.mem_cons_self
    (fun part among => List.mem_cons_of_mem _ (List.mem_append_right _ among))
    (same _ _ _ _ _ admits isInputs isOutputs) carries carries
    (admits.step (formed.knows _ (Body.op_mem_parts.mpr present)) (formed.nodup_of_visits visited)
      isInputs isOutputs assigned) later
  · rw [discards.mapped, if_pos member]
  · rw [Program.typeOf?, Program.value, discards.values_eq]
    rfl

/-- An operation whose results are not used may be taken away. -/
theorem Program.Means.drop (means : program.Means function arguments results)
    (present : op ∈ program.tree.ops) (notExit : (program.kind op).isExit = false)
    (notModule : program.kind op ≠ .module) (notFunction : program.kind op ≠ .func .func)
    (unused : ∀ result ∈ program.results op, program.usesOf result = []) {done : Unit}
    (run : (Change.erase op).run program = (.ok done, after)) :
    after.Means function arguments results := by
  have formed := means.formed
  obtain ⟨visit, visited, rfl⟩ := Program.exists_visit present
  have owns := formed.owns_results present notFunction
  have evolved : program.Evolves (fun _ => False) after :=
    (evolving_erase visit.op).of_run formed run
  obtain ⟨operations, values⟩ := tables_erase run
  refine means.alter_at False visited notModule notFunction (evolved.wellFormed formed)
    evolved.toGrows (alters_erase run) False.elim fun environment image exit carries admits ended => ?_
  obtain ⟨inputs, outputs, known, isInputs, isOutputs, assigned, later⟩ :=
    Body.eval_cons_of_not_exit notExit ended
  have knows := formed.knows _ (Body.op_mem_parts.mpr present)
  refine ⟨exit, ?_, .refl ..⟩
  -- Nothing is replaced. What follows does not read the results, so it evaluates without them.
  refine Body.eval_mapped [] visit.op (· ∉ program.results visit.op) (formed.nodup_rest visited)
    (formed.notMem_rest visited)
    (fun part member => formed.knows part (Program.mem_parts_of_rest visited member)) evolved.toGrows
    (fun other member => ⟨?_, ?_⟩) (fun part _ value _ => ?_) (fun _ _ _ among => by cases among)
    (fun value atom alive found => ?_)
    (admits.step knows (formed.nodup_of_visits visited) isInputs isOutputs assigned) later
  · rw [Program.operands, Program.operation, operations]
    exact (List.map_id _).symm
  · intro operand isOperand isResult
    obtain ⟨index, found⟩ := List.getElem?_of_mem isOperand
    have use : (⟨other, index⟩ : Use) ∈ program.usesOf operand :=
      Program.mem_usesOf.mpr
        ⟨by rwa [formed.scopeOf_result visited (owns.origin_eq operand isResult)], found⟩
    rw [unused operand isResult] at use
    cases use
  · rw [Program.typeOf?, Program.value, values]
    rfl
  · exact carries value atom
      (((Program.assign?_getElem owns.nodup assigned).2 value alive).symm.trans found)

end TensorIR
