import TensorIR.Proofs.Rewriting
import TensorIR.Proofs.Scalar.Superseding

/-!
# Canonicalization keeps what functions return

Each of the rewrites of canonicalization replaces an operation by what it is known to do: a constant in
place of a known result, the side of a branch that is taken, the initial values of a loop that does not
run. What functions on scalars return stays the same.

## Main results

* `carries_foldConstant`, `carries_dropDead`, `carries_simplify` — the rewrites
* `carries_canonicalize` — all of them, as often as possible
-/

namespace TensorIR

variable {program after : Program} {op function : OpId} {arguments results : List Atom}

/-! ### Operations that are not about scalars -/

/-- A change of the tables under which every part of the tree is followed. -/
theorem Program.Means.follow {allowed : OpKind → Prop}
    (means : program.Means function arguments results) (evolved : program.Evolves allowed after)
    (regions : after.regions = program.regions)
    (follows : ∀ part ∈ program.regions.parts, program.Follows after .same part) :
    after.Means function arguments results := by
  have formed := means.formed
  obtain ⟨inside, member, returns⟩ := means.returns
  obtain ⟨-, visit, visited, rfl, rfl⟩ := Program.visits_of_entries member
  have within := Regions.parts_of_entries _ member
  have knows (part : Part) (among : part ∈ visit.regions.parts) : program.Knows part :=
    formed.knows part (List.mem_cons_of_mem _ (List.mem_append_left _ (within part among)))
  have nodup : visit.regions.parts.Nodup := formed.nodup_inside visited
  have outside : program.root ∉ visit.regions.ops := fun among => by
    refine (List.nodup_cons.mp formed.nodup).1 (List.mem_append_left _ ?_)
    exact within _ (Regions.op_mem_parts.mpr among)
  have function := formed.knows _ (Body.op_mem_parts.mpr (Program.mem_ops_of_visits visited))
  refine ⟨evolved.wellFormed formed, ?_, ?_, visit.regions, by rwa [regions], ?_⟩
  · rw [evolved.root, evolved.kind_eq _ (formed.knows (.op program.root) List.mem_cons_self).1]
    exact means.isModule
  · rw [evolved.kind_eq _ function.1]
    exact means.isFunction
  · obtain ⟨exit, ended, rfl⟩ := Option.map_eq_some_iff.mp returns
    rw [Regions.eval_follows nodup knows (fun part among => follows part (within part among)) outside
      (Correspondence.holds_empty .same) (program.admits_empty _) ended]
    rfl

/-- A change of what stands beside the tree. -/
theorem Program.Means.of_tables {allowed : OpKind → Prop}
    (means : program.Means function arguments results) (evolved : program.Evolves allowed after)
    (regions : after.regions = program.regions) (operations : after.operations = program.operations)
    (values : after.values = program.values) : after.Means function arguments results := by
  refine means.follow evolved regions fun part among => ?_
  have known := means.formed.knows part (List.mem_cons_of_mem _ (List.mem_append_left _ among))
  refine evolved.toGrows.follows_same known (fun id _ => ?_) fun value _ => ?_
  · rw [Program.operands, Program.operation, operations]
    rfl
  · rw [Program.typeOf?, Program.value, values]
    rfl

/-- A value may be put in the place of an operation that is not about scalars. -/
theorem Program.Means.supersede_silent (means : program.Means function arguments results)
    (present : op ∈ program.tree.ops) (silent : (program.kind op).hasMeaning = false)
    (notModule : program.kind op ≠ .module) (notFunction : program.kind op ≠ .func .func)
    {value : ValueId} {done : Unit}
    (run : (Change.supersede op value).run program = (.ok done, after)) :
    after.Means function arguments results := by
  have evolved : program.Evolves (fun _ => True) after :=
    (evolving_supersede op value).of_run means.formed run
  have owns := means.formed.owns_results present notFunction
  refine means.alter_silent (evolved.wellFormed means.formed) evolved.toGrows
    (alters_supersede (fun result isResult => ?_) run) present silent notModule notFunction
  exact Program.owned_results (owns.origin_eq result isResult)

/-- An operation that is not about scalars may be taken away, also if it is not in the tree. -/
theorem Program.Means.erase_silent (means : program.Means function arguments results)
    (silent : (program.kind op).hasMeaning = false) (notModule : program.kind op ≠ .module)
    (notFunction : program.kind op ≠ .func .func) {done : Unit}
    (run : (Change.erase op).run program = (.ok done, after)) :
    after.Means function arguments results := by
  have evolved : program.Evolves (fun _ => True) after :=
    (evolving_erase op).of_run means.formed run
  by_cases present : op ∈ program.tree.ops
  case pos =>
    exact means.alter_silent (evolved.wellFormed means.formed) evolved.toGrows (alters_erase run)
      present silent notModule notFunction
  case neg =>
    have absent : op ∉ program.regions.ops := fun inside =>
      present (List.mem_cons_of_mem _ (List.mem_append_left _ inside))
    obtain ⟨operations, values⟩ := tables_erase run
    refine means.of_tables evolved ?_ operations values
    obtain ⟨-, rfl⟩ := of_erase_eq_ok run
    unfold Program.keep
    split <;> exact Regions.alterAt_of_notMem _ absent

/-! ### Casts and copies -/

theorem Program.getElem?_of_operand {index : Nat} {value : ValueId}
    (isOperand : program.operand op index = .ok value) :
    (program.operands op)[index]? = some value := by
  unfold Program.operand at isOperand
  split at isOperand <;> cases isOperand
  assumption

theorem mem_operands_of_operand {index : Nat} {value : ValueId}
    (isOperand : program.operand op index = .ok value) : value ∈ program.operands op :=
  List.mem_of_getElem? (Program.getElem?_of_operand isOperand)

/-- An operand of the operation, or of one that computes it, comes in place of the result. -/
theorem of_simplifyCast_eq_ok (run : (Rewrite.simplifyCast op).run program = (.ok true, after)) :
    ∃ value other, value ∈ program.operands other ∧
      (Change.supersede op value).run program = (.ok (), after) := by
  unfold Rewrite.simplifyCast at run
  obtain ⟨operand, isOperand, run⟩ := of_askFor_bind_eq_ok run
  obtain ⟨result, -, run⟩ := of_askFor_bind_eq_ok run
  obtain ⟨type, -, run⟩ := of_askFor_bind_eq_ok run
  obtain ⟨operandType, -, run⟩ := of_askFor_bind_eq_ok run
  split at run
  case isTrue => exact ⟨operand, op, mem_operands_of_operand isOperand, of_then_true_eq_ok run⟩
  case isFalse =>
    rw [run_bind, Change.run_program] at run
    simp only [] at run
    split at run
    case h_1 => cases run
    case h_2 producer _ =>
      split at run
      case isTrue => cases run
      case isFalse =>
        obtain ⟨source, isSource, run⟩ := of_askFor_bind_eq_ok run
        obtain ⟨sourceType, -, run⟩ := of_askFor_bind_eq_ok run
        split at run
        case isTrue =>
          exact ⟨source, producer, mem_operands_of_operand isSource, of_then_true_eq_ok run⟩
        case isFalse => cases run

theorem of_simplifyCopy_eq_ok (run : (Rewrite.simplifyCopy op).run program = (.ok true, after)) :
    ∃ source producer middle, program.kind producer = .torch .copyToTensor ∧
      source ∈ program.operands producer ∧ (Change.supersede op source).run program = (.ok (), middle) ∧
      (Change.erase producer).run middle = (.ok (), after) := by
  unfold Rewrite.simplifyCopy at run
  obtain ⟨operand, -, run⟩ := of_askFor_bind_eq_ok run
  rw [run_bind, Change.run_program] at run
  simp only [] at run
  split at run
  case h_1 => cases run
  case h_2 producer _ =>
    split at run
    case isTrue => cases run
    case isFalse isCopy =>
      obtain ⟨source, isSource, run⟩ := of_askFor_bind_eq_ok run
      obtain ⟨⟨⟩, middle, superseded, run⟩ := of_run_bind_eq_ok run
      refine ⟨source, producer, middle, ?_, mem_operands_of_operand isSource, superseded,
        of_then_true_eq_ok run⟩
      exact not_not.mp fun other => isCopy (.inl other)

theorem Program.Means.simplifyCast (means : program.Means function arguments results)
    (present : op ∈ program.tree.ops) (isCast : program.kind op = .torch .tensorStaticInfoCast)
    (run : (Rewrite.simplifyCast op).run program = (.ok true, after)) :
    after.Means function arguments results := by
  obtain ⟨value, -, -, superseded⟩ := of_simplifyCast_eq_ok run
  exact means.supersede_silent present (by rw [isCast]; rfl) (by simp [isCast])
    (by simp [isCast]) superseded

theorem Program.Means.simplifyCopy (means : program.Means function arguments results)
    (present : op ∈ program.tree.ops) (isCopy : program.kind op = .torch .copyToVtensor)
    (run : (Rewrite.simplifyCopy op).run program = (.ok true, after)) :
    after.Means function arguments results := by
  obtain ⟨source, producer, middle, isProducer, -, superseded, erased⟩ := of_simplifyCopy_eq_ok run
  have between : middle.Means function arguments results :=
    means.supersede_silent present (by rw [isCopy]; rfl) (by simp [isCopy])
      (by simp [isCopy]) superseded
  have evolved : program.Evolves (fun _ => True) middle :=
    (evolving_supersede op source).of_run means.formed superseded
  have below : producer.index < program.operations.size := by
    by_contra above
    rw [Program.kind, Program.operation, Array.getD_eq_getD_getElem?,
      Array.getElem?_eq_none (Nat.le_of_not_lt above)] at isProducer
    cases isProducer
  have sameKind : middle.kind producer = .torch .copyToTensor :=
    (evolved.kind_eq producer below).trans isProducer
  exact between.erase_silent (by rw [sameKind]; rfl) (by simp [sameKind])
    (by simp [sameKind]) erased

/-! ### Known results and unused operations -/

/-- An operation without effects neither ends a block nor stands for a function or the module. -/
theorem OpKind.of_isPure {kind : OpKind} (isPure : kind.isPure = true) :
    kind.isExit = false ∧ kind ≠ .module ∧ kind ≠ .func .func := by
  refine ⟨?_, ?_, ?_⟩
  · rw [← Bool.not_eq_true]
    intro isExit
    unfold OpKind.isExit at isExit
    split at isExit <;> simp_all [OpKind.isPure, TorchKind.isTensorOp, TorchKind.isIntBinary,
      TorchKind.isConst]
  · rintro rfl
    cases isPure
  · rintro rfl
    cases isPure

theorem Program.typeOf?_of_typed {value : ValueId} {type : Ty}
    (typed : program.typed value = .ok type) : program.typeOf? value = some type := by
  unfold Program.typed at typed
  split at typed
  case h_1 same =>
    cases typed
    rw [Program.typeOf?, same]
  case h_2 => cases typed

theorem Program.resultType?_of_typed {result : ValueId} {type : Ty}
    (isResult : program.result op 0 = .ok result) (typed : program.typed result = .ok type) :
    program.resultType? op 0 = some type := by
  rw [Program.result_eq_ok_iff] at isResult
  rw [Program.resultType?, isResult, Option.bind_some, Program.typeOf?_of_typed typed]

/-- What is known about a result is what a constant that stands for it computes, which may be of
another type with the same values. -/
theorem Program.computedBy_constant {literal : Literal} {type other : Ty} {kind : OpKind}
    {value : Option Attribute} (folded : program.fold? op = some literal)
    (isType : program.resultType? op 0 = some type)
    (same : ∀ atom, literal.atom? type = some atom → literal.atom? other = some atom)
    (isConstant : literal.IsConstant other kind value) :
    program.ComputedBy op kind [] (Build.constantAttributes value) other := by
  intro parts environment inputs outputs enter admits isInputs isOutputs
  obtain ⟨found, atom, isFound, isAtom, rfl⟩ := admits.outputs_eq isInputs isOutputs folded
  rw [isType, Option.some.injEq] at isFound
  subst isFound
  obtain ⟨constant, isValue, computes⟩ := isConstant.computes atom (same atom isAtom)
  exact ⟨atom, [], constant, rfl, rfl, isValue, computes⟩

/-- A constant may be put in the place of an operation whose result is known. -/
theorem Program.Means.foldConstant (means : program.Means function arguments results)
    (present : op ∈ program.tree.ops)
    (run : (Rewrite.foldConstant op).run program = (.ok true, after)) :
    after.Means function arguments results := by
  rcases foldConstant_cases program op with ⟨same, -⟩ | ⟨literal, result, type, known, isResult, typed, same⟩
  · rw [run] at same
    rwa [show after = program from same]
  rw [same] at run
  obtain ⟨constant, middle, built, run⟩ := of_run_bind_eq_ok run
  cases constant with
  | none => cases run
  | some constant =>
    unfold Rewrite.knownResult? at known
    obtain ⟨⟨⟨isPure, -⟩, -⟩, folded⟩ : (((program.kind op).isPure = true ∧
        (!(program.kind op).isConst) = true) ∧ ((program.results op).length == 1) = true) ∧
        program.fold? op = some literal := by
      simpa only [Bool.and_eq_true, Option.ite_none_right_eq_some] using known
    obtain ⟨notExit, notModule, notFunction⟩ := OpKind.of_isPure isPure
    have builds : Builds (fun _ => True) (Build.literal literal type) :=
      builds_anyLiteral trivial (fun _ _ => trivial) literal type
    have extended := builds (program.draft op .before)
    rw [Change.run_build] at built
    obtain ⟨isConstant, rfl⟩ := Prod.mk.inj built
    have realized : Build.Realizes literal type (program.draft op .before) _ :=
      realizes_literal literal type (means.ne_root notModule)
    rcases realized with ⟨draft, none⟩ | ⟨kind, value, draft, some, adds, stands⟩
    · rw [none] at isConstant
      cases isConstant
    · rw [some] at isConstant extended run
      cases isConstant
      exact means.supersede present notExit notModule notFunction stands.notFunction stands.suits
        extended adds
        (Program.computedBy_constant folded (Program.resultType?_of_typed isResult typed)
          (fun _ => id) stands)
        (of_then_true_eq_ok run)

/-- An operation without effects whose results are not used may be dropped. -/
theorem Program.Means.dropDead (means : program.Means function arguments results)
    (present : op ∈ program.tree.ops)
    (run : (Rewrite.dropDead op).run program = (.ok true, after)) :
    after.Means function arguments results := by
  unfold Rewrite.dropDead at run
  rw [run_bind, Change.run_ask] at run
  simp only [] at run
  split at run
  case isFalse => cases run
  case isTrue dead =>
    unfold Rewrite.isDead at dead
    rw [Bool.and_eq_true] at dead
    obtain ⟨isPure, unused⟩ := dead
    obtain ⟨notExit, notModule, notFunction⟩ := OpKind.of_isPure isPure
    refine means.drop present notExit notModule notFunction (fun result isResult => ?_)
      (of_then_true_eq_ok run)
    unfold Program.usersOf? at unused
    simp only [] at unused
    split at unused
    case isTrue => cases unused
    case isFalse =>
      rw [Option.any_some, List.isEmpty_iff, List.flatMap_eq_nil_iff] at unused
      exact unused result isResult

/-! ### Loops that do not run -/

theorem of_simplifyLoop_eq_ok (run : (Rewrite.simplifyLoop op).run program = (.ok true, after)) :
    ((((program.operands op)[0]?).bind program.foldInt?).any (· ≤ 0) = true ∨
      ((program.operands op)[1]?).bind program.foldBool? = some false) ∧
      (Change.supersedeAll op ((program.operands op).drop 2)).run program = (.ok (), after) := by
  unfold Rewrite.simplifyLoop at run
  rw [run_bind, Change.run_program] at run
  simp only [] at run
  split at run
  case isFalse => cases run
  case isTrue idle =>
    rw [Bool.or_eq_true, beq_iff_eq] at idle
    exact ⟨idle, of_then_true_eq_ok run⟩

/-- Folding an operand that is known tells what it is. -/
theorem Program.Admits.operand {parts : List Part} {environment : Environment}
    (admits : program.Admits parts environment) {inputs : List Atom}
    (isInputs : (program.operands op).mapM environment = some inputs) (index : Nat) {atom : Atom}
    {literal : Literal} (isInput : inputs[index]? = some atom)
    (folded : ((program.operands op)[index]?).bind program.foldValue? = some literal) :
    literal.int? = some atom.toInt := by
  rw [getElem?_of_mapM isInputs] at isInput
  obtain ⟨value, isOperand, known⟩ := Option.bind_eq_some_iff.mp isInput
  rw [isOperand, Option.bind_some] at folded
  exact admits.known value atom literal known folded

theorem Program.Admits.operand_int {parts : List Part} {environment : Environment}
    (admits : program.Admits parts environment) {inputs : List Atom}
    (isInputs : (program.operands op).mapM environment = some inputs) (index : Nat) {value known : Int}
    (isInput : inputs[index]? = some (.int value))
    (folded : ((program.operands op)[index]?).bind program.foldInt? = some known) :
    known = value := by
  obtain ⟨operand, isOperand, isKnown⟩ := Option.bind_eq_some_iff.mp folded
  obtain ⟨literal, isLiteral, isInt⟩ := Option.bind_eq_some_iff.mp isKnown
  have same := admits.operand isInputs index isInput (by rw [isOperand]; exact isLiteral)
  cases literal <;> cases isInt
  exact Option.some.inj same

theorem Program.Admits.operand_bool {parts : List Part} {environment : Environment}
    (admits : program.Admits parts environment) {inputs : List Atom}
    (isInputs : (program.operands op).mapM environment = some inputs) (index : Nat)
    {value known : Bool} (isInput : inputs[index]? = some (.bool value))
    (folded : ((program.operands op)[index]?).bind program.foldBool? = some known) :
    known = value := by
  obtain ⟨operand, isOperand, isKnown⟩ := Option.bind_eq_some_iff.mp folded
  obtain ⟨literal, isLiteral, isBool⟩ := Option.bind_eq_some_iff.mp isKnown
  have same := admits.operand isInputs index isInput (by rw [isOperand]; exact isLiteral)
  cases literal <;> cases isBool
  cases known <;> cases value <;> simp_all [Literal.int?, Atom.toInt]

theorem mapM_drop_two {environment : Environment} {values : List ValueId} {first second : Atom}
    {atoms : List Atom} (known : values.mapM environment = some (first :: second :: atoms)) :
    (values.drop 2).mapM environment = some atoms := by
  match values with
  | [] => cases known
  | [_] => simp [Option.bind_eq_some_iff] at known
  | _ :: _ :: values =>
    simp only [List.mapM_cons, Option.bind_eq_bind, Option.bind_eq_some_iff, Option.pure_def,
      Option.some.injEq, List.cons.injEq] at known
    obtain ⟨_, -, _, ⟨_, -, _, isLater, rfl⟩, -, -, rfl⟩ := known
    exact isLater

/-- A loop that is known not to run may be replaced by what it starts with. -/
theorem Program.Means.simplifyLoop (means : program.Means function arguments results)
    (present : op ∈ program.tree.ops) (isLoop : program.kind op = .torch .primLoop)
    (run : (Rewrite.simplifyLoop op).run program = (.ok true, after)) :
    after.Means function arguments results := by
  obtain ⟨idle, superseded⟩ := of_simplifyLoop_eq_ok run
  refine means.supersedeAll present (by rw [isLoop]; rfl) (by simp [isLoop])
    (by simp [isLoop]) ?_ superseded
  intro parts environment inputs outputs enter admits isInputs isOutputs
  obtain ⟨count, start, carried, rfl, iterated⟩ := (Program.outputs?_loop_iff isLoop).mp isOutputs
  have stays : carried = outputs := by
    rcases idle with few | never
    · rw [Option.any_eq_true] at few
      obtain ⟨rounds, folded, few⟩ := few
      obtain rfl := admits.operand_int isInputs 0 rfl folded
      rw [Int.toNat_eq_zero.mpr (of_decide_eq_true few)] at iterated
      split at iterated <;> cases iterated <;> rfl
    · obtain rfl := admits.operand_bool isInputs 1 rfl never
      cases iterated
      rfl
  exact stays ▸ mapM_drop_two isInputs

end TensorIR
