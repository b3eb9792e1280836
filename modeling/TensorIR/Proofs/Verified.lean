import TensorIR.Lower
import TensorIR.Proofs.Related
import TensorIR.Proofs.Tree

/-!
# What verification tells

A program that is found valid has no violation anywhere: every operation of its tree keeps the rule of
its kind. In particular the results of operations on integers, of size queries and of derefinements
have torch types.

## Main results

* `Program.keepsRule_of_verify` — every operation keeps its rule
* `Program.torch_result_of_verify` — results that may become known have torch types
-/

namespace TensorIR

variable {program : Program} {symbols : SymbolTable} {op : OpId}

/-! ### Checks in a row -/

section Inversion

variable {α β : Type}

/-- Two steps succeed only if the first one does. -/
theorem of_bind_eq_ok {step : Except Error α} {next : α → Except Error β} {value : β}
    (run : step >>= next = .ok value) : ∃ middle, step = .ok middle ∧ next middle = .ok value := by
  cases step with
  | error error => cases run
  | ok middle => exact ⟨middle, rfl, run⟩

/-- A check that stands in front of other steps has not failed if all succeed. -/
theorem of_check_eq_ok {condition : Prop} [Decidable condition] {message : String}
    {failed : α → Except Error β} {next : Except Error β} {value : β}
    (run : (if condition then failing message >>= failed else next) = .ok value) :
    ¬condition ∧ next = .ok value := by
  split at run
  · cases run
  case isFalse holds => exact ⟨holds, run⟩

/-- The check at the end has not failed either. -/
theorem of_lastCheck_eq_ok {condition : Prop} [Decidable condition] {message : String} {answer value : β}
    (run : (if condition then failing message else pure answer) = .ok value) : ¬condition := by
  intro holds
  rw [if_pos holds] at run
  cases run

theorem of_unless_eq_ok {condition : Prop} [Decidable condition] {message : String}
    {failed : α → Except Error β} {next : Except Error β} {value : β}
    (run : (if condition then next else failing message >>= failed) = .ok value) :
    condition ∧ next = .ok value := by
  split at run
  case isTrue holds => exact ⟨holds, run⟩
  · cases run

/-- What holds at the start and is kept by every step holds in the end, if all steps succeed. -/
theorem holds_of_foldlM_eq_ok (holds : β → Prop) {items : List α} {step : β → α → Except Error β} {start result : β}
    (run : items.foldlM step start = .ok result) (initial : holds start)
    (each : ∀ before, ∀ item ∈ items, ∀ after, step before item = .ok after → holds before → holds after) :
    holds result := by
  induction items generalizing start with
  | nil =>
    cases run
    exact initial
  | cons first items ih =>
    rw [List.foldlM_cons] at run
    obtain ⟨middle, taken, rest⟩ := of_bind_eq_ok run
    have between := each start first List.mem_cons_self middle taken initial
    exact ih rest between fun before item member => each before item (List.mem_cons_of_mem _ member)

/-- What is so in the end has been so from the start, or one of the steps has made it so. -/
theorem origin_of_foldlM_eq_ok (known : β → Prop) {made : α → Prop} {items : List α}
    {step : β → α → Except Error β} {start result : β} (run : items.foldlM step start = .ok result)
    (each : ∀ {before after item}, step before item = .ok after → known after → known before ∨ made item)
    (last : known result) : known start ∨ ∃ item ∈ items, made item := by
  refine holds_of_foldlM_eq_ok (fun now => known now → known start ∨ ∃ item ∈ items, made item) run .inl
    (fun before item member after taken origin last => ?_) last
  rcases each taken last with earlier | here
  · exact origin earlier
  · exact .inr ⟨item, member, here⟩

/-- A loop of checks succeeds only if every check does. -/
theorem each_of_forIn_eq_ok {items : List α} {check : α → PUnit.{1} → Except Error (ForInStep PUnit)}
    {value : PUnit.{1}} (run : forIn items PUnit.unit check = .ok value)
    (continues : ∀ item, check item ⟨⟩ ≠ .ok (.done ⟨⟩)) :
    ∀ item ∈ items, check item ⟨⟩ = .ok (.yield ⟨⟩) := by
  induction items with
  | nil => exact fun _ member => absurd member List.not_mem_nil
  | cons first items ih =>
    rw [List.forIn_cons] at run
    obtain ⟨step, checked, rest⟩ := of_bind_eq_ok run
    cases step with
    | done _ => exact absurd checked (continues first)
    | yield _ =>
      intro item member
      rcases List.mem_cons.mp member with rfl | later
      · exact checked
      · exact ih rest item later

end Inversion

/-- Types that are checked one after the other fit the expected ones. -/
theorem fits_of_forIn {typeAt : Nat → Except Error TorchType} {expected : List TorchType}
    {message : TorchType × Nat → TorchType → String}
    (run : (forIn expected.zipIdx PUnit.unit fun pair _ => do
      let actual ← typeAt pair.2
      if actual.isSubtype pair.1 = true then pure (ForInStep.yield PUnit.unit)
      else do
        failing (message pair actual)
        pure (ForInStep.yield PUnit.unit) : Except Error PUnit) = .ok ⟨⟩) (index : Nat)
    (type : TorchType) (found : expected[index]? = some type) :
    ∃ actual, typeAt index = .ok actual ∧ actual.isSubtype type = true := by
  have checked := each_of_forIn_eq_ok run (fun item done => ?_) (type, index)
    (List.mk_mem_zipIdx_iff_getElem?.mpr found)
  · obtain ⟨actual, typed, fits⟩ := of_bind_eq_ok checked
    exact ⟨actual, typed, (of_unless_eq_ok fits).1⟩
  · obtain ⟨actual, typed, fits⟩ := of_bind_eq_ok done
    cases (of_unless_eq_ok fits).2

/-! ### Rules -/

mutual

/-- Without violations, the operations of a block keep their rules. -/
theorem Body.brokenRule_eq_nil {visible : List ValueId} :
    (body : Body) → (body.diagnostics program symbols visible).1 = [] → op ∈ body.ops →
      program.brokenRule symbols op = []
  | .nil, _, member => absurd member List.not_mem_nil
  | .cons other regions rest, valid, member => by
    simp only [Body.diagnostics, List.append_eq_nil_iff] at valid
    rcases List.mem_cons.mp member with rfl | inner
    · exact valid.1.2
    rcases List.mem_append.mp inner with inside | behind
    · exact Regions.brokenRule_eq_nil regions valid.1.1.2 inside
    · exact Body.brokenRule_eq_nil rest valid.2 behind

theorem Blocks.brokenRule_eq_nil {visible : List ValueId} :
    (blocks : Blocks) → blocks.diagnostics program symbols visible = [] → op ∈ blocks.ops →
      program.brokenRule symbols op = []
  | .nil, _, member => absurd member List.not_mem_nil
  | .cons block body rest, valid, member => by
    simp only [Blocks.diagnostics, List.append_eq_nil_iff] at valid
    rcases List.mem_append.mp member with inside | behind
    · exact Body.brokenRule_eq_nil body valid.1 inside
    · exact Blocks.brokenRule_eq_nil rest valid.2 behind

theorem Regions.brokenRule_eq_nil {visible : List ValueId} :
    (regions : Regions) → regions.diagnostics program symbols visible = [] → op ∈ regions.ops →
      program.brokenRule symbols op = []
  | .nil, _, member => absurd member List.not_mem_nil
  | .cons blocks rest, valid, member => by
    simp only [Regions.diagnostics, List.append_eq_nil_iff] at valid
    rcases List.mem_append.mp member with inside | behind
    · exact Blocks.brokenRule_eq_nil blocks valid.1 inside
    · exact Regions.brokenRule_eq_nil rest valid.2 behind

end

namespace Program

theorem verifyOp_eq_ok (kept : program.brokenRule symbols op = []) :
    program.verifyOp symbols op = .ok () := by
  unfold brokenRule at kept
  cases rule : program.verifyOp symbols op with
  | ok => rfl
  | error error =>
    rw [rule] at kept
    cases kept

/-- A valid program has symbols and no violations. -/
theorem diagnostics_of_verify (valid : program.verify = .ok ()) :
    ∃ symbols, program.symbolTable = .ok symbols ∧
      (program.tree.diagnostics program symbols []).1 = [] := by
  unfold verify at valid
  split at valid
  case h_2 => cases valid
  case h_1 none =>
    unfold diagnostics at none
    split at none
    · cases none
    case h_2 symbols table => exact ⟨symbols, table, none⟩

/-- Every operation of a valid program keeps the rule of its kind. -/
theorem keepsRule_of_verify (valid : program.verify = .ok ()) :
    ∃ symbols, program.symbolTable = .ok symbols ∧
      ∀ op ∈ program.tree.ops, program.verifyOp symbols op = .ok () := by
  obtain ⟨symbols, table, none⟩ := diagnostics_of_verify valid
  exact ⟨symbols, table, fun op member =>
    verifyOp_eq_ok (program.tree.brokenRule_eq_nil none member)⟩

/-- An operation that ends a region stands last in its entry block. -/
theorem of_terminatorOf? {region : Option Blocks} {kind : OpKind} {last : OpId}
    (found : program.terminatorOf? region kind = some last) :
    ∃ blocks block body, region = some blocks ∧ blocks.entryBlock? = some (block, body) ∧
      body.last? = some last ∧ program.kind last = kind := by
  simp only [terminatorOf?, Option.bind_eq_bind, Option.bind_eq_some_iff] at found
  obtain ⟨blocks, isRegion, ⟨block, body⟩, isEntry, final, isLast, isKind⟩ := found
  split at isKind
  case isTrue same =>
    cases isKind
    exact ⟨blocks, block, body, isRegion, isEntry, isLast, same⟩
  case isFalse => cases isKind

/-! ### Rules for numbers -/

section Numbers

variable {source target allowed : ScalarType → Bool}

/-- Operands and result have one type. -/
theorem of_verifySameTypes {arity : Nat} {what : String}
    (kept : program.verifySameTypes op arity what allowed = .ok ()) :
    ∃ operands type, program.scalarTypes op = .ok (operands, [type]) ∧ allowed type = true ∧
      ∀ operand ∈ operands, operand = type := by
  obtain ⟨⟨operands, results⟩, types, kept⟩ := of_bind_eq_ok kept
  dsimp only at kept
  split at kept
  case h_2 => cases kept
  case h_1 type =>
    obtain ⟨-, kept⟩ := of_check_eq_ok kept
    obtain ⟨isAllowed, kept⟩ := of_check_eq_ok kept
    exact ⟨operands, type, types, by simpa using isAllowed, by simpa using of_lastCheck_eq_ok kept⟩

theorem of_verifyScalarCast (kept : program.verifyScalarCast op source target = .ok ()) :
    ∃ operand type, program.scalarTypes op = .ok ([operand], [type]) ∧ target type = true := by
  obtain ⟨⟨operands, results⟩, types, kept⟩ := of_bind_eq_ok kept
  split at kept
  case h_2 => cases kept
  case h_1 operand type found =>
    cases found
    refine ⟨operand, type, types, ?_⟩
    have fits := of_lastCheck_eq_ok kept
    simp only [Bool.or_eq_true, Bool.not_eq_true', not_or, Bool.not_eq_false] at fits
    exact fits.2

/-- Two numbers of one type are compared. -/
theorem of_verifyCompare {predicates : List String}
    (kept : program.verifyCompare op predicates allowed = .ok ()) :
    ∃ operands, program.scalarTypes op = .ok (operands, [.i1]) := by
  unfold verifyCompare at kept
  split at kept
  case h_2 => cases kept
  extract_lets rest at kept
  obtain ⟨-, kept⟩ := of_check_eq_ok kept
  obtain ⟨⟨operands, results⟩, types, kept⟩ := of_bind_eq_ok kept
  dsimp only at kept
  split at kept
  case h_2 => cases kept
  obtain ⟨-, kept⟩ := of_check_eq_ok kept
  obtain rfl := not_not.mp (of_lastCheck_eq_ok kept)
  exact ⟨_, types⟩

/-- One of two numbers of the type of the result is selected. -/
theorem of_verifySelect (kept : program.verifySelect op = .ok ()) :
    ∃ type, program.scalarTypes op = .ok ([.i1, type, type], [type]) := by
  obtain ⟨⟨operands, results⟩, types, kept⟩ := of_bind_eq_ok kept
  split at kept
  case h_2 => cases kept
  case h_1 condition a b type found =>
    cases found
    obtain ⟨isCondition, kept⟩ := of_check_eq_ok kept
    obtain ⟨first, second⟩ := not_or.mp (of_lastCheck_eq_ok kept)
    rw [not_not.mp isCondition, not_not.mp first, not_not.mp second] at types
    exact ⟨type, types⟩

/-- Functions are computed of floating-point numbers. -/
theorem of_verifyMath (kept : program.verifyMath op = .ok ()) :
    ∃ type : ScalarType, program.typedResults op = .ok [.scalar type] ∧ type.isFloat = true := by
  obtain ⟨operands, -, kept⟩ := of_bind_eq_ok kept
  obtain ⟨results, typed, kept⟩ := of_bind_eq_ok kept
  split at kept
  case h_2 => cases kept
  case h_1 =>
    split at kept
    case h_2 => cases kept
    case h_1 =>
      split at kept
      case isFalse => cases kept
      case isTrue same => exact ⟨_, typed, same.2 ▸ same.1⟩

end Numbers

/-! ### Types of results -/

theorem torchTypeOf?_of_resultType {type : TorchType} {index : Nat}
    (typed : program.resultType op index = .ok type) :
    ∃ value, program.result op index = .ok value ∧ program.torchTypeOf? value = some type := by
  unfold resultType at typed
  obtain ⟨value, found, typed⟩ := of_bind_eq_ok typed
  refine ⟨value, found, ?_⟩
  cases torch : program.torchTypeOf? value with
  | none =>
    rw [torch] at typed
    cases typed
  | some known =>
    rw [torch] at typed
    cases typed
    rfl

/-- Operands and results have the expected numbers and fit the expected types. -/
theorem of_expectSignature {operands results : List TorchType}
    (kept : program.expectSignature op operands results = .ok ()) :
    (program.operands op).length = operands.length ∧
      (program.results op).length = results.length ∧
      (∀ index expected, operands[index]? = some expected →
        ∃ type, program.operandType op index = .ok type ∧ type.isSubtype expected = true) ∧
      ∀ index expected, results[index]? = some expected →
        ∃ type, program.resultType op index = .ok type ∧ type.isSubtype expected = true := by
  unfold expectSignature at kept
  obtain ⟨operandCount, kept⟩ := of_check_eq_ok kept
  obtain ⟨resultCount, kept⟩ := of_check_eq_ok kept
  obtain ⟨_, operandTypes, kept⟩ := of_bind_eq_ok kept
  obtain ⟨_, resultTypes, -⟩ := of_bind_eq_ok kept
  exact ⟨not_not.mp operandCount, not_not.mp resultCount, fits_of_forIn operandTypes,
    fits_of_forIn resultTypes⟩

end Program

/-- The result of an operation that is no constant may become known before the program runs. -/
def OpKind.isFolded : OpKind → Bool
  | torch kind => kind.isIntBinary || kind == .derefine || kind == .sizeInt
  | _ => false

/-- The three groups of operations whose results may become known. -/
theorem isFolded_cases {kind : OpKind} (folded : kind.isFolded = true) :
    kind = .torch .derefine ∨ kind = .torch .sizeInt ∨
      ∃ torchKind : TorchKind, torchKind.isIntBinary = true ∧ kind = .torch torchKind := by
  cases kind with
  | torch torchKind =>
    simp only [OpKind.isFolded, Bool.or_eq_true, beq_iff_eq] at folded
    rcases folded with (binary | rfl) | rfl
    · exact .inr (.inr ⟨torchKind, binary, rfl⟩)
    · exact .inl rfl
    · exact .inr (.inl rfl)
  | module | func | arith | math | memref | scf | tosa => cases folded

namespace Program

/-- Operations on two integers give an integer or a truth value. -/
theorem resultType_of_isIntBinary {kind : TorchKind} (binary : kind.isIntBinary = true)
    (kept : program.verifyTorch symbols op kind = .ok ()) :
    ∃ type, program.resultType op 0 = .ok type := by
  have typed {expected : TorchType}
      (kept : program.expectSignature op [.int, .int] [expected] = .ok ()) :
      ∃ type, program.resultType op 0 = .ok type := by
    obtain ⟨-, -, -, results⟩ := of_expectSignature kept
    obtain ⟨type, typed, -⟩ := results 0 expected rfl
    exact ⟨type, typed⟩
  unfold TorchKind.isIntBinary at binary
  split at binary
  case h_8 => cases binary
  all_goals exact typed kept

/-- In a valid program, results that may become known have torch types. -/
theorem torch_result_of_verify (valid : program.verify = .ok ()) (member : op ∈ program.tree.ops)
    (folded : (program.kind op).isFolded = true) :
    ∃ value, program.result op 0 = .ok value ∧ (program.torchTypeOf? value).isSome := by
  obtain ⟨symbols, -, rules⟩ := keepsRule_of_verify valid
  have kept := rules op member
  unfold verifyOp at kept
  have typed : ∃ type, program.resultType op 0 = .ok type := by
    rcases isFolded_cases folded with isKind | isKind | ⟨kind, binary, isKind⟩
    · rw [isKind] at kept
      replace kept : program.verifyTorchValue op .derefine = .ok () := kept
      obtain ⟨operand, -, kept⟩ := of_bind_eq_ok kept
      obtain ⟨type, typed, -⟩ := of_bind_eq_ok kept
      exact ⟨type, typed⟩
    · rw [isKind] at kept
      obtain ⟨-, -, -, results⟩ := of_expectSignature kept
      obtain ⟨type, typed, -⟩ := results 0 .int rfl
      exact ⟨type, typed⟩
    · rw [isKind] at kept
      exact resultType_of_isIntBinary binary kept
  obtain ⟨type, typed⟩ := typed
  obtain ⟨value, found, torch⟩ := torchTypeOf?_of_resultType typed
  exact ⟨value, found, by rw [torch]; rfl⟩

end Program

end TensorIR
