import TensorIR.Proofs.Relowering.Entrances
import TensorIR.Proofs.Relowering.Restating

/-!
# What lowering leaves to functions

Once functions have the types of lowered programs, the changes of a lowering leave to them what they take and
return: they do not enter at another block, and the values that state what they return are theirs alone. All
that an operation gets to use has been used before or is new.

## Main definitions

* `Program.Draws` — operations use good values, and new operations compute good values
* `Program.Spares` — functions have what they had

## Main results

* `Program.Spares.supersede`, `Program.Spares.supersedeAll`, `Program.Spares.finished`,
  `Program.Spares.moveRegions` — single changes
* `Program.Spares.canonical` — canonicalization
-/

namespace TensorIR

/-- Operations use good values only, and those that have come since the start compute good values only. -/
structure Program.Draws (good : ValueId → Prop) (start now : Program) : Prop where
  operations_le : start.operations.size ≤ now.operations.size
  values_le : start.values.size ≤ now.values.size
  operands : ∀ op, ∀ value ∈ now.operands op, good value
  results : ∀ op : OpId, start.operations.size ≤ op.index → ∀ value ∈ now.results op, good value

/-- Functions return what they did and are entered where they were, values have types of lowered programs if
they had, and operations use good values. -/
structure Program.Spares (good : ValueId → Prop) (start now : Program) : Prop
    extends Program.Draws good start now where
  isFunction : ∀ op, start.kind op = .func .func → now.kind op = .func .func
  returns : ∀ op, start.kind op = .func .func → now.results op = start.results op
  plain : ∀ value, start.Plain value → now.Plain value
  entrances : ∀ pair ∈ now.tree.entrances, start.kind pair.1 = .func .func → pair ∈ start.tree.entrances

variable {good : ValueId → Prop} {start program now after : Program} {op : OpId} {value : ValueId}

/-- Functions are operations of the table. -/
theorem Program.lt_of_isFunction (isFunction : program.kind op = .func .func) :
    op.index < program.operations.size := by
  by_contra above
  rw [Program.kind, Program.operation_of_size_le (Nat.le_of_not_lt above)] at isFunction
  cases isFunction

theorem Program.Plain.congr (plain : program.Plain value) (same : now.value value = program.value value) :
    now.Plain value := by
  obtain ⟨type, typed, noTorch⟩ := plain
  refine ⟨type, ?_, noTorch⟩
  rw [Program.typeOf?, same, ← Program.typeOf?, typed]

/-- A value that gets a type of lowered programs has one, and others keep theirs. -/
theorem Program.Plain.setType (plain : program.Plain value) {other : ValueId} {type : Ty}
    (noTorch : type.torch? = none) : (program.setType other type).Plain value := by
  obtain ⟨old, typed, oldPlain⟩ := plain
  rw [Program.Plain, typeOf?_setType]
  split
  case isTrue => exact ⟨type, rfl, noTorch⟩
  case isFalse => exact ⟨old, typed, oldPlain⟩

/-- An operation of a program to which one is added has been there, or it is the new one. -/
theorem Program.operation_withDefinition (program : Program) (operation : Operation)
    (results : List (String × Ty)) (op : OpId) :
    (program.withDefinition operation results).operation op = program.operation op ∨
      op = ⟨program.operations.size⟩ ∧ (program.withDefinition operation results).operation op =
        { operation with results := program.freshValues results.length } := by
  by_cases last : op = ⟨program.operations.size⟩
  · exact .inr ⟨last, last ▸ Program.operation_last program operation results⟩
  · have other : op.index ≠ program.operations.size := fun same => last (congrArg OpId.mk same)
    refine .inl ?_
    rw [Program.operation, Program.withDefinition, Array.getD_eq_getD_getElem?, Array.getElem?_push,
      if_neg other, ← Array.getD_eq_getD_getElem?, Program.operation]

/-- The value of the one operation that has been built has the type that is asked for. -/
theorem Draft.Adds.typeOf?_eq {first draft : Draft} {kind : OpKind} {operands : List ValueId}
    {attributes : Attributes} {type : Ty} (adds : first.Adds kind operands attributes [type] draft) :
    draft.program.typeOf? ⟨first.program.values.size⟩ = some type := by
  have types := adds.defines.types_eq
  rw [List.map_cons, List.map_nil] at types
  exact List.head_eq_of_cons_eq types

/-! ### What operations use -/

namespace Program.Draws

theorem refl (operands : ∀ op, ∀ value ∈ program.operands op, good value) : program.Draws good program where
  operations_le := le_rfl
  values_le := le_rfl
  operands := operands
  results op above value among := by
    rw [Program.results, Program.operation_of_size_le above] at among
    cases among

theorem congr (draws : start.Draws good program) (operations : now.operations = program.operations)
    (values_le : program.values.size ≤ now.values.size) : start.Draws good now where
  operations_le := operations ▸ draws.operations_le
  values_le := draws.values_le.trans values_le
  operands op := by
    rw [Program.operands, Program.operation, operations]
    exact draws.operands op
  results op := by
    rw [Program.results, Program.operation, operations]
    exact draws.results op

theorem setUse (draws : start.Draws good program) (use : Use) (isGood : good value) :
    start.Draws good (program.setUse use value) where
  operations_le := draws.operations_le.trans (Array.size_modify ..).ge
  values_le := draws.values_le
  operands op other among := by
    rw [Program.operands, Program.setUse, Program.setOperand, Program.operation_modifyOperation] at among
    split at among
    case isTrue =>
      rcases List.mem_or_eq_of_mem_set among with old | rfl
      · exact draws.operands op other old
      · exact isGood
    case isFalse => exact draws.operands op other among
  results op above other among := by
    rw [Program.results, Program.setUse, Program.setOperand, Program.operation_modifyOperation] at among
    refine draws.results op above other ?_
    split at among <;> exact among

/-- A new operation uses good values and computes good values. -/
theorem withDefinition (draws : start.Draws good program) {operation : Operation} {results : List (String × Ty)}
    (known : ∀ operand ∈ operation.operands, good operand)
    (fresh : ∀ value ∈ program.freshValues results.length, good value) :
    start.Draws good (program.withDefinition operation results) where
  operations_le := draws.operations_le.trans (by simp [Program.withDefinition])
  values_le := draws.values_le.trans (by simp [Program.withDefinition])
  operands op := by
    rcases Program.operation_withDefinition program operation results op with same | ⟨rfl, same⟩
    · rw [Program.operands, same]
      exact draws.operands op
    · rw [Program.operands, same]
      exact known
  results op above := by
    rcases Program.operation_withDefinition program operation results op with same | ⟨rfl, same⟩
    · rw [Program.results, same]
      exact draws.results op above
    · rw [Program.results, same]
      exact fresh

/-- One operation has been built. -/
theorem adds (draws : start.Draws good program) {placement : Placement} {kind : OpKind} {operands : List ValueId}
    {attributes : Attributes} {types : List Ty} {draft : Draft}
    (adds : (program.draft op placement).Adds kind operands attributes types draft)
    (known : ∀ operand ∈ operands, good operand)
    (fresh : ∀ value ∈ program.freshValues types.length, good value) : start.Draws good draft.program := by
  obtain ⟨location, names, length_eq, isProgram⟩ := adds.program
  rw [isProgram]
  refine draws.withDefinition known ?_
  rwa [List.length_zip, length_eq, Nat.min_self]

end Program.Draws

/-! ### Where what is built comes -/

theorem Body.mem_entrances_reverseOnto {pair : OpId × Option BlockId} (first second : Body)
    (member : pair ∈ (first.reverseOnto second).entrances) :
    pair ∈ first.entrances ∨ pair ∈ second.entrances := by
  fun_induction Body.reverseOnto first second with
  | case1 => exact .inr member
  | case2 op regions rest later ih =>
    have found := ih member
    simp only [Body.entrances, List.mem_cons, List.mem_append] at found ⊢
    tauto

/-- Next to the anchor stands what has been there and what has been built. -/
theorem Draft.mem_entrances_change {draft : Draft} {regions : Regions} {rest : Body}
    {pair : OpId × Option BlockId} (member : pair ∈ (draft.change regions rest).entrances) :
    pair ∈ (Body.cons draft.anchor regions rest).entrances ∨ .op pair.1 ∈ draft.built := by
  have built {body : Body} (inside : ∀ part ∈ body.parts, part ∈ draft.built) (among : pair ∈ body.entrances) :
      .op pair.1 ∈ draft.built :=
    inside _ (Body.op_mem_parts.mpr (Body.mem_ops_of_entrances among))
  have hoisted : pair ∈ draft.hoisted.entrances → .op pair.1 ∈ draft.built :=
    built fun part among => List.mem_append_left _ among
  have lead : pair ∈ draft.lead.entrances → .op pair.1 ∈ draft.built :=
    built fun part among => List.mem_append_right _ (List.mem_append_left _ among)
  have code : pair ∈ draft.code.entrances → .op pair.1 ∈ draft.built :=
    built fun part among => List.mem_append_right _ (List.mem_append_right _ among)
  unfold Draft.change at member
  simp only [Body.entrances_append, List.mem_append] at member
  rcases member with (isHoisted | isLead) | here
  · exact .inr (hoisted isHoisted)
  · exact .inr (lead isLead)
  cases placement : draft.placement with
  | before =>
    rw [placement] at here
    simp only [Body.entrances_append, List.mem_append] at here
    exact here.elim (fun isCode => .inr (code isCode)) .inl
  | after =>
    rw [placement] at here
    simp only [Body.entrances, List.mem_cons, List.mem_append] at here ⊢
    rcases here with isAnchor | inside | behind
    · exact .inl (.inl isAnchor)
    · exact .inl (.inr (.inl inside))
    · rcases Body.mem_entrances_reverseOnto _ _ behind with isCode | later
      · exact .inr (code isCode)
      · exact .inl (.inr (.inr later))

/-- What is in the bodies of a draft at the end is new if nothing has been there. -/
theorem Draft.Extends.isNew_of_mem {allowed : OpKind → Prop} {placement : Placement} {draft : Draft} {part : Part}
    (built : (program.draft op placement).Extends allowed [] draft) (member : part ∈ draft.built) :
    part.IsNew program draft.program := by
  have count := built.count_le part
  have none : (program.draft op placement).built = [] := rfl
  have some := List.one_le_count_iff.mpr member
  rw [none] at count
  simp only [List.count_nil, Nat.zero_add] at count
  split at count
  case isTrue new => exact new
  case isFalse => omega

/-! ### Single changes -/

namespace Program.Spares

theorem refl (operands : ∀ op, ∀ value ∈ program.operands op, good value) : program.Spares good program where
  toDraws := .refl operands
  isFunction _ := id
  returns _ _ := rfl
  plain _ := id
  entrances _ member _ := member

/-- Only the tree has changed, and no function stands where it has not stood. -/
theorem of_tables (spares : start.Spares good program) (operations : now.operations = program.operations)
    (values : now.values = program.values) (entrances : ∀ pair ∈ now.tree.entrances,
      start.kind pair.1 = .func .func → pair ∈ start.tree.entrances) : start.Spares good now where
  toDraws := spares.toDraws.congr operations (values ▸ le_rfl)
  isFunction op isFunction := by
    rw [Program.kind, Program.operation, operations]
    exact spares.isFunction op isFunction
  returns op isFunction := by
    rw [Program.results, Program.operation, operations]
    exact spares.returns op isFunction
  plain value plain := (spares.plain value plain).congr (by rw [Program.value, values, Program.value])
  entrances := entrances

theorem setUse (spares : start.Spares good program) (use : Use) (isGood : good value) :
    start.Spares good (program.setUse use value) where
  toDraws := spares.toDraws.setUse use isGood
  isFunction op isFunction := by
    rw [← spares.isFunction op isFunction, Program.kind, Program.setUse, Program.setOperand,
      Program.operation_modifyOperation]
    split <;> rfl
  returns op isFunction := by
    rw [← spares.returns op isFunction, Program.results, Program.setUse, Program.setOperand,
      Program.operation_modifyOperation]
    split <;> rfl
  plain := spares.plain
  entrances := spares.entrances

theorem setUses (spares : start.Spares good program) (uses : List Use) (isGood : good value) :
    start.Spares good (uses.foldl (fun changed use => changed.setUse use value) program) := by
  induction uses generalizing program with
  | nil => exact spares
  | cons use uses ih => exact ih (spares.setUse use isGood)

theorem replaceUses (spares : start.Spares good program) (old : ValueId) (isGood : good value) :
    start.Spares good (program.replaceUses old value) :=
  spares.setUses (program.usesOf old) isGood

theorem replaceAll (spares : start.Spares good program) {pairs : List (ValueId × ValueId)}
    (areGood : ∀ pair ∈ pairs, good pair.2) : start.Spares good (program.replaceAll pairs) := by
  induction pairs generalizing program with
  | nil => exact spares
  | cons pair pairs ih =>
    obtain ⟨here, later⟩ := List.forall_mem_cons.mp areGood
    exact ih (spares.replaceUses pair.1 here) later

theorem setTypes (spares : start.Spares good program) {types : List (ValueId × Ty)}
    (noTorch : ∀ pair ∈ types, pair.2.torch? = none) : start.Spares good (program.setTypes types) := by
  induction types generalizing program with
  | nil => exact spares
  | cons pair types ih =>
    obtain ⟨here, later⟩ := List.forall_mem_cons.mp noTorch
    exact ih {
      toDraws := spares.toDraws.congr rfl (Array.size_modify ..).ge
      isFunction := spares.isFunction
      returns := spares.returns
      plain := fun value plain => (spares.plain value plain).setType here
      entrances := spares.entrances } later

/-- A change at an operation of the tree that puts no function there which has not been there. -/
theorem alterAt (spares : start.Spares good program) {change : Regions → Body → Body}
    (changes : ∀ regions rest, ∀ pair ∈ (change regions rest).entrances,
      pair ∈ (Body.cons op regions rest).entrances ∨
        (start.kind pair.1 = .func .func → pair ∈ start.tree.entrances)) :
    start.Spares good (program.alterAt op change) :=
  spares.of_tables rfl rfl fun pair member isFunction =>
    (Program.mem_entrances_alterAt changes member).elim (spares.entrances pair · isFunction) (· isFunction)

theorem keep (spares : start.Spares good program) (op : OpId) (inside : Regions) :
    start.Spares good (program.keep op inside) := by
  cases inside with
  | nil => exact spares
  | cons blocks rest => exact spares.of_tables rfl rfl spares.entrances

theorem erase (spares : start.Spares good program) {done : Unit}
    (run : (Change.erase op).run program = (.ok done, after)) : start.Spares good after := by
  obtain ⟨-, rfl⟩ := of_erase_eq_ok run
  refine Spares.keep (spares.alterAt fun regions rest pair member => .inl ?_) _ _
  exact List.mem_cons_of_mem _ (List.mem_append_right _ member)

theorem supersede (spares : start.Spares good program) (isGood : good value) {done : Unit}
    (run : (Change.supersede op value).run program = (.ok done, after)) : start.Spares good after := by
  obtain ⟨result, -, erased⟩ := of_supersede_eq_ok run
  exact (spares.replaceUses result isGood).erase erased

theorem supersedeAll (spares : start.Spares good program) {values : List ValueId}
    (areGood : ∀ value ∈ values, good value) {done : Unit}
    (run : (Change.supersedeAll op values).run program = (.ok done, after)) : start.Spares good after := by
  have replaced : start.Spares good (program.replaceAll ((program.results op).zip values)) :=
    spares.replaceAll fun pair among => areGood pair.2 (List.of_mem_zip among).2
  exact replaced.erase (of_supersedeAll_eq_ok run)

/-- What has been built is put next to the anchor. -/
theorem finished {allowed : OpKind → Prop} {placement : Placement} {draft : Draft}
    (spares : start.Spares good program) (built : (program.draft op placement).Extends allowed [] draft)
    (draws : start.Draws good draft.program) : start.Spares good draft.finished where
  toDraws := draws.congr rfl le_rfl
  isFunction function isFunction := by
    have before := spares.isFunction function isFunction
    rw [← before]
    exact congrArg Operation.kind (built.program.operation_eq function (Program.lt_of_isFunction before))
  returns function isFunction := by
    have before := spares.isFunction function isFunction
    rw [← spares.returns function isFunction]
    exact congrArg Operation.results (built.program.operation_eq function (Program.lt_of_isFunction before))
  plain value plain := by
    have before := spares.plain value plain
    exact before.congr (built.program.value_eq value before.lt)
  entrances pair member isFunction := by
    have anchor : draft.anchor = op := built.anchor
    rw [Draft.finished_eq, anchor] at member
    have changes (regions : Regions) (rest : Body) (pair : OpId × Option BlockId)
        (among : pair ∈ (draft.change regions rest).entrances) :
        pair ∈ (Body.cons op regions rest).entrances ∨ .op pair.1 ∈ draft.built :=
      anchor ▸ Draft.mem_entrances_change among
    -- What has been built has not been there at the start.
    have origin : pair ∈ draft.program.tree.entrances ∨ .op pair.1 ∈ draft.built :=
      Program.mem_entrances_alterAt changes member
    rcases origin with old | new
    · rw [built.tree_eq] at old
      exact spares.entrances pair old isFunction
    · have above := spares.operations_le.trans (built.isNew_of_mem new).1
      exact absurd (Program.lt_of_isFunction isFunction) (Nat.not_lt.mpr above)

/-- An operation that is no function gets regions in which no function stands that has not been in the
tree. -/
theorem setRegions (spares : start.Spares good program) (notFunction : start.kind op ≠ .func .func)
    {inside : Regions} (known : ∀ pair ∈ inside.entrances,
      start.kind pair.1 = .func .func → pair ∈ start.tree.entrances) :
    start.Spares good (program.setRegions op inside) := by
  have tables : (program.setRegions op inside).operations = program.operations ∧
      (program.setRegions op inside).values = program.values := by
    unfold Program.setRegions
    split <;> exact ⟨rfl, rfl⟩
  have changes (regions : Regions) (rest : Body) (pair : OpId × Option BlockId)
      (among : pair ∈ (Body.cons op inside rest).entrances) : pair ∈ (Body.cons op regions rest).entrances ∨
        (start.kind pair.1 = .func .func → pair ∈ start.tree.entrances) := by
    simp only [Body.entrances, List.mem_cons, List.mem_append] at among ⊢
    rcases among with rfl | here | behind
    · exact .inr fun isFunction => absurd isFunction notFunction
    · exact .inr (known pair here)
    · exact .inl (.inr (.inr behind))
  refine spares.of_tables tables.1 tables.2 fun pair member isFunction => ?_
  rw [Program.tree_setRegions] at member
  exact (Body.mem_entrances_alterAt changes _ member).elim (spares.entrances pair · isFunction) (· isFunction)

/-- The regions of an operation move to a new one. -/
theorem moveRegions (spares : start.Spares good program) (formed : program.WellFormed)
    (present : op ∈ program.tree.ops) (notFunction : start.kind op ≠ .func .func) {new : OpId}
    (isNew : start.kind new ≠ .func .func) :
    start.Spares good ((program.setRegions op .nil).setRegions new (program.regionsOf op)) := by
  refine (spares.setRegions notFunction fun pair among => ?_).setRegions isNew fun pair among => ?_
  · cases among
  · exact spares.entrances pair (formed.entrances_regionsOf present among)

/-! ### Canonicalization -/

/-- The operations of a side are put before the branch. -/
theorem inline {taken : Bool} (spares : start.Spares good program) (formed : program.WellFormed)
    (present : op ∈ program.tree.ops) (notFunction : start.kind op ≠ .func .func)
    (inlined : Rewrite.Inlined program op taken) : start.Spares good (program.alterAt op inlined.change) := by
  have inside (pair : OpId × Option BlockId) (among : pair ∈ inlined.body.entrances)
      (isFunction : start.kind pair.1 = .func .func) : pair ∈ start.tree.entrances :=
    spares.entrances pair (formed.entrances_regionsOf present
      (Regions.entrances_of_get? _ _ inlined.found inlined.entry among)) isFunction
  rw [inlined.body_eq] at inside
  simp only [Body.entrances_append, List.mem_append] at inside
  refine spares.alterAt fun regions rest pair among => ?_
  simp only [Rewrite.Inlined.change, Body.entrances_append, Body.entrances, List.mem_append,
    List.mem_cons] at among ⊢
  rcases among with front | rfl | side | behind
  · exact .inr (inside pair (.inl front))
  · exact .inr fun isFunction => absurd isFunction notFunction
  · exact (Regions.mem_entrances_modify _ _ side).imp (fun here => .inr (.inl here))
      fun last => inside pair (.inr last)
  · exact .inl (.inr (.inr behind))

theorem simplify (spares : start.Spares good program) (formed : program.WellFormed)
    (present : op ∈ program.tree.ops) (run : (Rewrite.simplify op).run program = (.ok true, after)) :
    start.Spares good after := by
  unfold Rewrite.simplify at run
  rw [run_bind, Change.run_ask] at run
  simp only [] at run
  split at run
  case h_1 =>
    obtain ⟨value, other, isOperand, superseded⟩ := of_simplifyCast_eq_ok run
    exact spares.supersede (spares.operands other value isOperand) superseded
  case h_2 =>
    obtain ⟨source, producer, middle, -, isOperand, superseded, erased⟩ := of_simplifyCopy_eq_ok run
    exact (spares.supersede (spares.operands producer source isOperand) superseded).erase erased
  case h_3 isBranch =>
    have notFunction : start.kind op ≠ .func .func := fun isFunction => by
      rw [spares.isFunction op isFunction] at isBranch
      cases isBranch
    rcases simplifyBranch_cases program op with ⟨-, unchanged⟩ | ⟨_, taken, inlined, -, -, same⟩
    · rw [run] at unchanged
      exact absurd rfl unchanged
    · rw [same] at run
      exact (spares.inline formed present notFunction inlined).supersedeAll (spares.operands inlined.last)
        (of_then_true_eq_ok run)
  case h_4 =>
    refine spares.supersedeAll (fun value among => ?_) (of_simplifyLoop_eq_ok run).2
    exact spares.operands op value (List.mem_of_mem_drop among)
  case h_5 => cases run

theorem foldConstant (spares : start.Spares good program) (formed : program.WellFormed)
    (run : (Rewrite.foldConstant op).run program = (.ok true, after))
    (fresh : ∀ value : ValueId, program.values.size ≤ value.index → value.index < after.values.size →
      good value) : start.Spares good after := by
  have notRoot := (sheds_foldConstant formed run).1.notRoot
  obtain ⟨-, literal, type, constant, middle, built, superseded⟩ := of_foldConstant_eq_ok run
  obtain ⟨draft, isConstant, rfl⟩ := of_build_eq_ok built
  have builds : Builds (fun _ => True) (Build.literal literal type) :=
    builds_anyLiteral trivial (fun _ _ => trivial) literal type
  have extended := builds (program.draft op .before)
  rw [isConstant] at extended
  have realizes : Build.Realizes literal type (program.draft op .before) (Build.literal literal type) :=
    realizes_literal literal type notRoot
  rcases realizes with ⟨_, none⟩ | ⟨kind, given, _, some, adds, -⟩
  · rw [isConstant] at none
    cases none
  rw [isConstant] at some
  cases some
  -- The value of the constant is the only new one.
  have evolving : Evolving (fun _ => True) (Change.supersede op ⟨program.values.size⟩) := evolving_supersede op _
  have evolved := evolving.of_run ((extended.evolves formed).wellFormed formed) superseded
  have isGood : good ⟨program.values.size⟩ :=
    fresh _ le_rfl (Nat.lt_of_lt_of_le (Program.lt_of_typeOf? adds.typeOf?_eq) evolved.values_le)
  refine (spares.finished extended (spares.toDraws.adds adds ?_ ?_)).supersede isGood superseded
  · exact fun _ => (absurd · List.not_mem_nil)
  · simpa [Program.freshValues] using isGood

/-- Canonicalization uses what has been used before, and constants. -/
theorem canonical (spares : start.Spares good program) (formed : program.WellFormed) {rewrite : Rewrite}
    (among : rewrite ∈ Rewrite.canonical) (present : op ∈ program.tree.ops)
    (run : (rewrite op).run program = (.ok true, after))
    (fresh : ∀ value : ValueId, program.values.size ≤ value.index → value.index < after.values.size →
      good value) : start.Spares good after := by
  simp only [Rewrite.canonical, List.mem_cons, List.not_mem_nil, or_false] at among
  rcases among with rfl | rfl | rfl
  · exact spares.simplify formed present run
  · exact spares.foldConstant formed run fresh
  · unfold Rewrite.dropDead at run
    rw [run_bind, Change.run_ask] at run
    simp only [] at run
    split at run
    case isTrue => exact spares.erase (of_then_true_eq_ok run)
    case isFalse => cases run

end Program.Spares

/-- Canonicalization adds constants only. -/
theorem evolvingAt_canonical {allowed : OpKind → Prop} (scalar : allowed (.arith .constant))
    (torch : ∀ kind : TorchKind, kind.isConst → allowed (.torch kind)) {rewrite : Rewrite}
    (among : rewrite ∈ Rewrite.canonical) (op : OpId) : EvolvingAt allowed op (rewrite op) := by
  simp only [Rewrite.canonical, List.mem_cons, List.not_mem_nil, or_false] at among
  rcases among with rfl | rfl | rfl
  · exact evolvingAt_simplify op
  · exact fun program formed _ => evolves_foldConstant formed op fun literal _ type _ _ _ =>
      builds_anyLiteral scalar torch literal type
  · exact (evolving_dropDead op).at op

end TensorIR
