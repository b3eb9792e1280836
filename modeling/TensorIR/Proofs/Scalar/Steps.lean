import TensorIR.Proofs.Passes
import TensorIR.Proofs.Scalar.Alteration
import TensorIR.Proofs.Success

/-!
# Single changes

Every step of a rewrite or a lowering is made up of a few changes: something is built before an
operation, a value is used in place of a result of the operation, the operation is taken away, or a
value gets another type. Each of them is a change at that operation.

## Main definitions

* `Program.operands_replaceUses` — what operations use after a value has been replaced
* `OpKind.hasMeaning` — the kinds of operation that are about scalars

## Main results

* `alters_replaceUses`, `alters_build`, `of_supersede_eq_ok` — the single changes
* `Program.Means.alter_silent` — a change at an operation that is not about scalars
-/

namespace TensorIR

variable {program after : Program} {op : OpId} {owned : ValueId → Prop}

/-! ### Uses -/

/-- What an operation uses after some uses have been set to a value. -/
theorem getElem?_operands_setUses (uses : List Use) (new : ValueId) (program : Program) (other : OpId)
    (index : Nat) :
    ((uses.foldl (fun changed use => changed.setUse use new) program).operands other)[index]? =
      if (⟨other, index⟩ : Use) ∈ uses then ((program.operands other)[index]?).map fun _ => new
      else (program.operands other)[index]? := by
  induction uses generalizing program with
  | nil => simp
  | cons use uses ih =>
    rw [List.foldl_cons, ih]
    -- Setting one use changes one place of one operation.
    have first : ((program.setUse use new).operands other)[index]? =
        if (⟨other, index⟩ : Use) = use then ((program.operands other)[index]?).map fun _ => new
        else (program.operands other)[index]? := by
      obtain ⟨user, position⟩ := use
      rw [Program.operands, Program.setUse, Program.setOperand, Program.operation_modifyOperation]
      by_cases here : user = other
      case neg =>
        rw [if_neg fun both => here both.1, if_neg fun same => here (by cases same; rfl)]
        rfl
      case pos =>
        subst here
        by_cases below : user.index < program.operations.size
        case neg =>
          have nothing : program.operands user = [] := by
            rw [Program.operands, Program.operation, Array.getD_eq_getD_getElem?]
            rw [Array.getElem?_eq_none (Nat.le_of_not_lt below)]
            rfl
          rw [if_neg fun both => below both.2]
          change (program.operands user)[index]? = _
          simp [nothing]
        case pos =>
          rw [if_pos ⟨rfl, below⟩]
          change ((program.operands user).set position new)[index]? = _
          rw [List.getElem?_set']
          by_cases same : position = index
          · subst same
            simp
            rfl
          · rw [if_neg same, if_neg fun equal => same (by cases equal; rfl)]
    rw [first]
    by_cases here : (⟨other, index⟩ : Use) = use
    · subst here
      simp [Function.comp_def]
    · simp [here]

/-- Lists are related if what they have at each position is. -/
theorem forall₂_of_getElem? {related : ValueId → ValueId → Prop} {old new : List ValueId}
    (each : ∀ index : Nat, Option.Rel related old[index]? new[index]?) :
    List.Forall₂ related old new := by
  induction old generalizing new with
  | nil =>
    cases new with
    | nil => exact .nil
    | cons => cases each 0
  | cons value old ih =>
    cases new with
    | nil => cases each 0
    | cons other new =>
      have first := each 0
      simp only [List.getElem?_cons_zero, Option.rel_some_some] at first
      exact .cons first (ih fun index => by simpa using each (index + 1))

/-- A value in place of another one. -/
def ValueId.swap (old new value : ValueId) : ValueId :=
  if value = old then new else value

theorem Program.mem_usesIn {value : ValueId} {other : OpId} {use : Use} :
    use ∈ program.usesIn value other ↔
      use.op = other ∧ (program.operands other)[use.index]? = some value := by
  obtain ⟨user, index⟩ := use
  simp only [Program.usesIn, List.mem_filterMap, Prod.exists, List.mem_zipIdx_iff_getElem?]
  constructor
  · rintro ⟨operand, position, found, isUse⟩
    split at isUse
    case isTrue same =>
      cases isUse
      exact ⟨rfl, same ▸ found⟩
    case isFalse => cases isUse
  · rintro ⟨rfl, found⟩
    exact ⟨value, index, found, by simp⟩

theorem Program.mem_usesOf {value : ValueId} {use : Use} :
    use ∈ program.usesOf value ↔
      use.op ∈ program.scopeOf value ∧ (program.operands use.op)[use.index]? = some value := by
  simp only [Program.usesOf, List.mem_flatMap, Program.mem_usesIn]
  constructor
  · rintro ⟨other, member, rfl, found⟩
    exact ⟨member, found⟩
  · rintro ⟨member, found⟩
    exact ⟨use.op, member, rfl, found⟩

/-- What an operation uses after the uses that a value had have been set to another one. -/
theorem Program.operands_setUsesOf {changed : Program} (old new : ValueId) {other : OpId}
    (same : changed.operands other = program.operands other) :
    ((program.usesOf old).foldl (fun changed use => changed.setUse use new) changed).operands other =
      if other ∈ program.scopeOf old then (program.operands other).map (ValueId.swap old new)
      else program.operands other := by
  apply List.ext_getElem?
  intro index
  rw [getElem?_operands_setUses, same]
  simp only [Program.mem_usesOf]
  by_cases member : other ∈ program.scopeOf old
  case neg => simp [member]
  case pos =>
    rw [if_pos member, List.getElem?_map]
    cases found : (program.operands other)[index]? with
    | none => simp
    | some value =>
      by_cases same : value = old
      · subst same
        simp [member, ValueId.swap]
      · simp [member, ValueId.swap, same]

/-- What an operation uses after a value has been put in place of another one. -/
theorem Program.operands_replaceUses (program : Program) (old new : ValueId) (other : OpId) :
    (program.replaceUses old new).operands other =
      if other ∈ program.scopeOf old then (program.operands other).map (ValueId.swap old new)
      else program.operands other :=
  program.operands_setUsesOf old new rfl

/-- Where a value is not seen, it has no uses. -/
theorem Program.operands_setUsesOf_of_notMem {changed : Program} (old new : ValueId) {other : OpId}
    (outside : other ∉ program.scopeOf old) :
    ((program.usesOf old).foldl (fun changed use => changed.setUse use new) changed).operands other =
      changed.operands other := by
  refine List.ext_getElem? fun index => ?_
  rw [getElem?_operands_setUses, if_neg fun uses => outside (Program.mem_usesOf.mp uses).1]

/-- The results of an operation are seen by what follows it. -/
theorem Program.WellFormed.scopeOf_result (formed : program.WellFormed) {visit : Visit}
    (visited : visit ∈ program.visits) {value : ValueId}
    (origin : (program.value value).origin = .result visit.op) :
    program.scopeOf value = visit.rest.ops := by
  simp [Program.scopeOf, origin, formed.visit?_eq visited]

/-- Nothing but operands changes when uses are set. -/
theorem tables_setUses (uses : List Use) (new : ValueId) (program : Program) :
    (uses.foldl (fun changed use => changed.setUse use new) program).operations.size =
        program.operations.size ∧
      (uses.foldl (fun changed use => changed.setUse use new) program).values = program.values ∧
      (uses.foldl (fun changed use => changed.setUse use new) program).regions = program.regions := by
  induction uses generalizing program with
  | nil => exact ⟨rfl, rfl, rfl⟩
  | cons use uses ih =>
    rw [List.foldl_cons]
    obtain ⟨operations, values, regions⟩ := ih (program.setUse use new)
    exact ⟨operations.trans (Array.size_modify ..), values, regions⟩

theorem alters_setUses (uses : List Use) (new : ValueId)
    (among : ∀ use ∈ uses, ∀ value, (program.operands use.op)[use.index]? = some value → owned value) :
    program.Alters owned op (.cons op)
      (uses.foldl (fun changed use => changed.setUse use new) program) := by
  have tables := tables_setUses uses new program
  refine .of_regions tables.1.ge (by rw [tables.2.1]) (fun other _ => ?_) (fun value _ _ => ?_)
    tables.2.2
  · refine forall₂_of_getElem? fun index => ?_
    rw [getElem?_operands_setUses]
    cases found : (program.operands other)[index]? with
    | none => simp
    | some value =>
      by_cases member : (⟨other, index⟩ : Use) ∈ uses
      · simpa [member] using .inr (among _ member value found)
      · simp [member]
  · rw [Program.typeOf?, Program.value, tables.2.1]
    rfl

theorem alters_replaceUses {old : ValueId} (among : owned old) (new : ValueId) :
    program.Alters owned op (.cons op) (program.replaceUses old new) := by
  refine alters_setUses (program.usesOf old) new fun use member value found => ?_
  rw [(Program.mem_usesOf.mp member).2, Option.some.injEq] at found
  exact found ▸ among

theorem alters_setType {value : ValueId} (among : owned value) (type : Ty) :
    program.Alters owned op (.cons op) (program.setType value type) := by
  refine .of_regions le_rfl (Array.size_modify ..).ge (fun _ _ => forall₂_same)
    (fun other _ outside => ?_) rfl
  rw [Program.typeOf?, Program.setType, Program.value_modifyValue, if_neg]
  · rfl
  · rintro ⟨rfl, -⟩
    exact outside among

/-- What building puts at an operation. -/
def Draft.change (draft : Draft) (regions : Regions) (rest : Body) : Body :=
  (draft.hoisted.append draft.lead).append <|
    match draft.placement with
    | .before => draft.code.append (.cons draft.anchor regions rest)
    | .after => .cons draft.anchor regions (draft.code.reverseOnto rest)

theorem Draft.finished_eq (draft : Draft) :
    draft.finished = draft.program.alterAt draft.anchor draft.change := by
  unfold Draft.finished Draft.change
  cases draft.placement <;> rfl

theorem Body.entries_reverseOnto {function : OpId} {inside : Regions} : (first second : Body) →
    (function, inside) ∈ second.entries → (function, inside) ∈ (first.reverseOnto second).entries
  | .nil, _, member => member
  | .cons _ _ rest, _, member =>
    Body.entries_reverseOnto rest _ (List.mem_cons_of_mem _ member)

theorem Draft.keepsEntries (draft : Draft) : KeepsEntries draft.anchor draft.change := by
  intro regions rest function inside _ _ member
  unfold Draft.change
  rw [Body.entries_append, List.mem_append]
  refine .inr ?_
  cases draft.placement with
  | before =>
    rw [Body.entries_append, List.mem_append]
    exact .inr (List.mem_cons_of_mem _ member)
  | after => exact List.mem_cons_of_mem _ (Body.entries_reverseOnto _ _ member)

/-- Building next to an operation is a change at it. -/
theorem alters_build {allowed : OpKind → Prop} {placement : Placement} {draft : Draft}
    (built : (program.draft op placement).Extends allowed [] draft) :
    program.Alters owned op draft.change draft.finished where
  operations_le := built.program.operations_le
  values_le := built.program.values_le
  operands other below := by
    have same : draft.finished.operands other = program.operands other := by
      change (draft.program.operation other).operands = _
      rw [built.program.operation_eq other below]
      rfl
    rw [same]
    exact forall₂_same
  types value below _ := by
    change (draft.program.value value).type = _
    rw [built.program.value_eq value below]
    rfl
  regions := by
    rw [Draft.finished_eq, built.anchor]
    change draft.program.regions.alterAt op draft.change = _
    rw [built.program.regions]
    rfl
  keeps := by
    have keeps := draft.keepsEntries
    rwa [built.anchor] at keeps

/-! ### Changes that succeed -/

theorem of_expectPlace_eq_ok {action : String} {value : Unit}
    (run : (Change.expectPlace op action).run program = (.ok value, after)) :
    op ≠ program.root ∧ after = program := by
  have unchanged := run_expectPlace_snd op action program
  rw [run] at unchanged
  refine ⟨fun isRoot => ?_, unchanged⟩
  subst isRoot
  unfold Change.expectPlace at run
  rw [run_bind, Change.run_program] at run
  simp only [if_true] at run
  rw [run_bind, run_throw] at run
  cases run

theorem of_erase_eq_ok {value : Unit} (run : (Change.erase op).run program = (.ok value, after)) :
    op ≠ program.root ∧
      after = (program.alterAt op fun _ rest => rest).keep op (program.regionsOf op) := by
  unfold Change.erase at run
  obtain ⟨⟨⟩, middle, placed, erased⟩ := of_run_bind_eq_ok run
  obtain ⟨notRoot, rfl⟩ := of_expectPlace_eq_ok placed
  rw [run_modify] at erased
  cases erased
  exact ⟨notRoot, rfl⟩

theorem of_supersede_eq_ok {value : ValueId} {done : Unit}
    (run : (Change.supersede op value).run program = (.ok done, after)) :
    ∃ result, (program.results op)[0]? = some result ∧
      (Change.erase op).run (program.replaceUses result value) = (.ok done, after) := by
  unfold Change.supersede at run
  obtain ⟨result, middle, asked, later⟩ := of_run_bind_eq_ok run
  rw [Change.run_askFor] at asked
  obtain ⟨isResult, rfl⟩ := Prod.mk.inj asked
  obtain ⟨⟨⟩, replaced, ran, erased⟩ := of_run_bind_eq_ok later
  rw [run_modify] at ran
  cases ran
  exact ⟨result, Program.result_eq_ok_iff.mp isResult, erased⟩

theorem of_supersedeAll_eq_ok {values : List ValueId} {done : Unit}
    (run : (Change.supersedeAll op values).run program = (.ok done, after)) :
    (Change.erase op).run (((program.results op).zip values).foldl
      (fun changed pair => changed.replaceUses pair.1 pair.2) program) = (.ok done, after) := by
  unfold Change.supersedeAll at run
  obtain ⟨results, middle, asked, later⟩ := of_run_bind_eq_ok run
  cases asked
  obtain ⟨⟨⟩, replaced, ran, erased⟩ := of_run_bind_eq_ok later
  rw [run_forIn_modify] at ran
  cases ran
  exact erased

theorem keepsEntries_erase (op : OpId) : KeepsEntries op fun _ rest => rest :=
  fun _ _ _ _ _ _ member => member

theorem alters_erase {value : Unit} (run : (Change.erase op).run program = (.ok value, after)) :
    program.Alters owned op (fun _ rest => rest) after := by
  obtain ⟨-, rfl⟩ := of_erase_eq_ok run
  have both := (Program.Alters.alterAt program owned (keepsEntries_erase op)).trans
    (Program.Alters.keep _ owned op (program.regionsOf op))
  simpa only [Body.alterAt_self] using both

/-- Putting a value in the place of an operation is a change at the operation. -/
theorem alters_supersede {value : ValueId} {done : Unit}
    (among : ∀ result ∈ program.results op, owned result)
    (run : (Change.supersede op value).run program = (.ok done, after)) :
    program.Alters owned op (fun _ rest => rest) after := by
  obtain ⟨result, isResult, erased⟩ := of_supersede_eq_ok run
  have both := (alters_replaceUses (among result (List.mem_of_getElem? isResult)) value).trans
    (alters_erase erased)
  simpa only [Body.alterAt, if_true] using both

/-! ### Operations that are not about scalars -/

/-- The operation can have a meaning. -/
def OpKind.hasMeaning : OpKind → Bool
  | .func .ret | .scf _ | .arith _ => true
  | .torch kind =>
    kind.isIntBinary ||
      match kind with
      | .constantInt | .constantBool | .primIf | .primIfYield | .primLoop | .primLoopCondition => true
      | _ => false
  | _ => false

/-- An operation without meaning computes no literal that is a value. -/
theorem Program.atom?_of_hasMeaning {inputs : List Atom} {literal : Literal} (type : Ty)
    (silent : (program.kind op).hasMeaning = false)
    (computed : program.literal? op inputs = some literal) : literal.atom? type = none := by
  cases isKind : program.kind op with
  | arith kind => simp [isKind, OpKind.hasMeaning] at silent
  | torch kind =>
    rw [isKind] at silent
    unfold Program.literal? at computed
    split at computed <;> simp only [isKind, OpKind.torch.injEq, reduceCtorEq] at *
    case h_6 other same =>
      subst same
      cases kind <;> simp_all [Program.torchConstant?, OpKind.hasMeaning, TorchKind.isIntBinary]
      all_goals
        obtain ⟨value, -, rfl⟩ := computed
        rfl
    case h_7 other a b same =>
      subst same
      cases kind <;> simp_all [TorchKind.onInts?, OpKind.hasMeaning, TorchKind.isIntBinary]
  | module | func | math | memref | scf | tosa => simp [Program.literal?, isKind] at computed

/-- An operation without meaning computes nothing. -/
theorem Program.outputs?_of_hasMeaning {inputs : List Atom}
    {enter : Nat → List Atom → Option Exit} (silent : (program.kind op).hasMeaning = false) :
    program.outputs? op inputs enter = none := by
  rw [Option.eq_none_iff_forall_ne_some]
  intro outputs computed
  unfold Program.outputs? at computed
  split at computed
  case h_5 =>
    simp only [Option.bind_eq_bind, Option.bind_eq_some_iff] at computed
    obtain ⟨type, -, literal, isLiteral, atom, isAtom, -⟩ := computed
    rw [Program.atom?_of_hasMeaning type silent isLiteral] at isAtom
    cases isAtom
  all_goals simp_all [OpKind.hasMeaning]

theorem Body.eval_of_hasMeaning {regions : Regions} {rest : Body} {environment : Environment}
    (silent : (program.kind op).hasMeaning = false) :
    (Body.cons op regions rest).eval program environment = none := by
  rw [Option.eq_none_iff_forall_ne_some]
  intro exit ended
  obtain ⟨inputs, -, ⟨isExit, -⟩ | ⟨-, outputs, after, computed, -⟩⟩ := Body.eval_cons_iff.mp ended
  · unfold OpKind.isExit at isExit
    split at isExit <;> simp_all [OpKind.hasMeaning]
  · rw [Program.outputs?_of_hasMeaning silent] at computed
    cases computed

variable {function : OpId} {arguments results : List Atom}

/-- A change at an operation that is not about scalars. -/
theorem Program.Means.alter_silent {allowed : OpKind → Prop} {change : Regions → Body → Body}
    (means : program.Means function arguments results) (formed : after.WellFormed)
    (grown : program.Grows allowed after) (alters : program.Alters (program.Owned op) op change after)
    (present : op ∈ program.tree.ops) (silent : (program.kind op).hasMeaning = false)
    (notModule : program.kind op ≠ .module) (notFunction : program.kind op ≠ .func .func) :
    after.Means function arguments results := by
  refine means.alter False formed grown alters ?_ (means.ne_root notModule) present
    fun visit _ => ⟨?_, nofun⟩
  · rintro rfl
    exact notFunction means.isFunction
  · intro _ environment image exit _ _ ended
    rw [Body.eval_of_hasMeaning silent] at ended
    cases ended

end TensorIR
