import TensorIR.Proofs.Execution.Failing
import TensorIR.Proofs.Scalar.Preparing
import TensorIR.Proofs.Tensors.Soundness
import TensorIR.Proofs.Visibility

/-!
# Numbers of values in valid programs

In a valid program as many values are passed on as are declared: by the operations that end regions, by
the bounds of loops, and by the functions that are called. An operation without control flow has one
result, but for the few whose rules do not ask for this.

## Main definitions

* `Program.setCount` — the number of results that a run of an operation sets

## Main results

* `Program.setCount_le_plainCount` — operations without control flow
* `Program.length_operands_of_verifyFor`, `Program.yields_of_verifyChoice` — loops and branches
* `Program.length_outputs_of_verifyCall` — calls
-/

namespace TensorIR

variable {program : Program} {symbols : SymbolTable} {op : OpId}

/-- The number of results that a run of an operation sets. The rules for constants, allocations and loads
look at the first result alone, and a store computes nothing. -/
def Program.setCount (program : Program) (op : OpId) : Nat :=
  match program.kind op with
  | .func .func | .memref .store => 0
  | .arith .constant | .memref .alloc | .memref .load => 1
  | _ => (program.results op).length

/-! ### Operations without control flow -/

namespace Program

theorem length_of_typedOperands {types : List Ty} (typed : program.typedOperands op = .ok types) :
    types.length = (program.operands op).length :=
  (forall₂_of_mapM_eq_ok typed).length_eq.symm

theorem length_of_typedResults {types : List Ty} (typed : program.typedResults op = .ok types) :
    types.length = (program.results op).length :=
  (forall₂_of_mapM_eq_ok typed).length_eq.symm

theorem length_of_scalarTypes {operands results : List ScalarType}
    (types : program.scalarTypes op = .ok (operands, results)) :
    (program.results op).length = results.length :=
  (of_scalarTypes_eq_ok types).2.length_eq

/-- Arithmetic that is no constant has one result. -/
theorem length_of_verifyArith {kind : ArithKind} (notConstant : kind ≠ .constant)
    (kept : program.verifyArith op kind = .ok ()) : (program.results op).length = 1 := by
  obtain ⟨operands, type, types⟩ := scalarTypes_of_verifyArith notConstant kept
  exact length_of_scalarTypes types

theorem length_of_verifyMath (kept : program.verifyMath op = .ok ()) :
    (program.results op).length = 1 := by
  obtain ⟨type, typed, -⟩ := of_verifyMath kept
  exact (length_of_typedResults typed).symm

/-- Operations on whole tensors have one result. -/
theorem length_of_verifyTosa {kind : TosaKind} (kept : program.verifyTosa op kind = .ok ()) :
    (program.results op).length = 1 := by
  by_cases isConstant : kind = .const
  · subst isConstant
    obtain ⟨⟨operands, type⟩, types, -⟩ := of_bind_eq_ok kept
    obtain ⟨value, typed, -⟩ := of_tensorTypes types
    rw [typed.results]
    rfl
  · obtain ⟨_, _, value, type, typed, -⟩ := of_verifyTosa kept isConstant
    rw [typed.results]
    rfl

/-- A run of an operation without control flow, if there is any, computes as many values as it sets
results. -/
theorem setCount_le_plainCount (kept : program.verifyOp symbols op = .ok ())
    (goes : (program.kind op).isStuck = false) (isPlain : ∀ kind, program.kind op ≠ .scf kind)
    (noCall : ∀ kind, program.kind op ≠ .func kind) :
    program.setCount op ≤ (program.kind op).plainCount := by
  unfold verifyOp at kept
  unfold setCount
  cases isKind : program.kind op with
  | module | torch => rw [isKind] at goes; cases goes
  | scf kind => exact absurd isKind (isPlain kind)
  | func kind => exact absurd isKind (noCall kind)
  | memref kind => cases kind <;> exact le_rfl
  | math kind =>
    rw [isKind] at kept
    exact (length_of_verifyMath kept).le
  | tosa kind =>
    rw [isKind] at kept
    exact (length_of_verifyTosa kept).le
  | arith kind =>
    rw [isKind] at kept
    by_cases isConstant : kind = .constant
    · subst isConstant
      exact le_rfl
    · have one := length_of_verifyArith isConstant kept
      split <;> simp_all [OpKind.plainCount]

end Program

/-! ### Control flow -/

theorem length_of_sameEach {first second : List Ty} (same : Ty.sameEach first second = true) :
    first.length = second.length := by
  have texts : first.map Ty.text = second.map Ty.text := beq_iff_eq.mp same
  simpa using congrArg List.length texts

theorem length_of_checkSameTypes {what : String} {actual expected : List Ty} {value : Unit}
    (checked : checkSameTypes what actual expected = .ok value) : actual.length = expected.length := by
  unfold checkSameTypes at checked
  split at checked
  case isTrue same => exact length_of_sameEach same
  case isFalse => cases checked

theorem length_of_checkAssignable {what : String} {actual expected : List Ty} {value : Unit}
    (checked : checkAssignable what actual expected = .ok value) : actual.length = expected.length := by
  unfold checkAssignable at checked
  obtain ⟨same, -⟩ := of_check_eq_ok checked
  exact not_not.mp same

namespace Program

/-- The operation that ends the entry block of a region, of a given kind, passes on a given number of
values. -/
def Passes (program : Program) (region : Option Blocks) (kind : OpKind) (count : Nat) : Prop :=
  ∃ last, program.terminatorOf? region kind = some last ∧ (program.operands last).length = count

theorem of_yieldedTypes {region : Blocks} {types : List Ty} (yielded : program.yieldedTypes region = .ok types) :
    ∃ last, program.terminatorOf? (some region) (.scf .yield) = some last ∧
      program.typedOperands last = .ok types := by
  unfold yieldedTypes at yielded
  split at yielded
  case h_1 last ends => exact ⟨last, ends, yielded⟩
  case h_2 => cases yielded

theorem passes_of_yieldedTypes {region : Blocks} {types : List Ty}
    (yielded : program.yieldedTypes region = .ok types) :
    program.Passes (some region) (.scf .yield) types.length := by
  obtain ⟨last, ends, typed⟩ := of_yieldedTypes yielded
  exact ⟨last, ends, (length_of_typedOperands typed).symm⟩

/-- The bounds of a loop and the first argument of its body are of type `index`. What the loop starts with,
the other arguments, and what the body passes on have the types of the results. -/
theorem of_verifyFor (kept : program.verifyFor op = .ok ()) :
    ∃ operands results region block body arguments yielded,
      program.typedOperands op = .ok operands ∧ program.typedResults op = .ok results ∧
        (∀ type ∈ operands.take 3, type = .scalar .index) ∧
        checkSameTypes "iter_args" (operands.drop 3) results = .ok () ∧
        (program.regionsOf op).get? 0 = some region ∧ region.entryBlock? = some (block, body) ∧
        (program.header block).arguments.mapM program.typed = .ok arguments ∧
        arguments.head? = some (.scalar .index) ∧
        checkSameTypes "region argument" (arguments.drop 1) results = .ok () ∧
        program.yieldedTypes region = .ok yielded ∧ checkSameTypes "yield" yielded results = .ok () := by
  obtain ⟨operands, started, kept⟩ := of_bind_eq_ok kept
  extract_lets later rest at kept
  obtain ⟨-, kept⟩ := of_check_eq_ok kept
  obtain ⟨bounds, kept⟩ := of_check_eq_ok kept
  obtain ⟨results, typed, kept⟩ := of_bind_eq_ok kept
  obtain ⟨_, initial, kept⟩ := of_bind_eq_ok kept
  split at kept
  case h_2 => cases kept
  rename_i region isRegion
  split at kept
  case h_2 => cases kept
  rename_i block body isEntry
  obtain ⟨arguments, taken, kept⟩ := of_bind_eq_ok kept
  obtain ⟨first, kept⟩ := of_check_eq_ok kept
  obtain ⟨_, others, kept⟩ := of_bind_eq_ok kept
  obtain ⟨yielded, passed, kept⟩ := of_bind_eq_ok kept
  refine ⟨operands, results, region, block, body, arguments, yielded, started, typed, ?_, initial, isRegion,
    isEntry, taken, not_not.mp first, others, passed, kept⟩
  simpa using bounds

/-- A loop starts with as many values as it has results, and its body passes on as many. -/
theorem passes_of_verifyFor (kept : program.verifyFor op = .ok ()) :
    ((program.operands op).drop 3).length = (program.results op).length ∧
      program.Passes ((program.regionsOf op).get? 0) (.scf .yield) (program.results op).length := by
  obtain ⟨operands, results, region, block, body, arguments, yielded, started, typed, -, initial, isRegion, -,
    -, -, -, passed, same⟩ := of_verifyFor kept
  rw [isRegion, ← length_of_typedResults typed]
  constructor
  · rw [← length_of_checkSameTypes initial, List.length_drop, List.length_drop,
      length_of_typedOperands started]
  · exact length_of_checkSameTypes same ▸ passes_of_yieldedTypes passed

/-- A branch has no results, or both of its regions pass on values of the types of the results. -/
theorem of_verifyChoice (kept : program.verifyChoice op = .ok ()) :
    program.results op = [] ∨ ∃ results, program.typedResults op = .ok results ∧ ∀ index < 2,
      ∃ region yielded, (program.regionsOf op).get? index = some region ∧
        program.yieldedTypes region = .ok yielded ∧ checkSameTypes "yield" yielded results = .ok () := by
  obtain ⟨operands, -, kept⟩ := of_bind_eq_ok kept
  obtain ⟨-, kept⟩ := of_check_eq_ok kept
  extract_lets regions rest at kept
  obtain ⟨two, kept⟩ := of_check_eq_ok kept
  obtain ⟨results, typed, kept⟩ := of_bind_eq_ok kept
  obtain ⟨_, checked, -⟩ := of_bind_eq_ok kept
  cases results with
  | nil => exact .inl (List.length_eq_zero_iff.mp (length_of_typedResults typed).symm)
  | cons type types =>
    refine .inr ⟨type :: types, typed, fun index below => ?_⟩
    have inRange : index < regions.length := by rwa [not_not.mp two]
    have step := each_of_forIn_eq_ok checked ?_ regions[index] (List.getElem_mem inRange)
    · rw [List.isEmpty_cons, Bool.and_false, if_neg Bool.false_ne_true] at step
      obtain ⟨yielded, passed, step⟩ := of_bind_eq_ok step
      obtain ⟨_, same, -⟩ := of_bind_eq_ok step
      exact ⟨regions[index], yielded, List.getElem?_eq_getElem inRange, passed, same⟩
    · intro region stopped
      rw [List.isEmpty_cons, Bool.and_false, if_neg Bool.false_ne_true] at stopped
      obtain ⟨yielded, passed, stopped⟩ := of_bind_eq_ok stopped
      obtain ⟨_, same, stopped⟩ := of_bind_eq_ok stopped
      cases stopped

/-- A branch has no results, or both of its regions pass on as many values as there are. -/
theorem passes_of_verifyChoice (kept : program.verifyChoice op = .ok ()) :
    program.results op = [] ∨ ∀ index < 2,
      program.Passes ((program.regionsOf op).get? index) (.scf .yield) (program.results op).length := by
  refine (of_verifyChoice kept).imp_right ?_
  rintro ⟨results, typed, each⟩ index below
  obtain ⟨region, yielded, isRegion, passed, same⟩ := each index below
  rw [isRegion, ← length_of_typedResults typed, ← length_of_checkSameTypes same]
  exact passes_of_yieldedTypes passed

/-- What a function returns fits its results. -/
theorem of_verifyFunc (kept : program.verifyFunc symbols op .func = .ok ()) :
    ∃ last operands results, program.terminatorOf? ((program.regionsOf op).get? 0) (.func .ret) = some last ∧
      program.typedOperands last = .ok operands ∧ program.typedResults op = .ok results ∧
        checkAssignable "return" operands results = .ok () := by
  rw [verifyFunc] at kept
  obtain ⟨body, -, kept⟩ := of_bind_eq_ok kept
  split at kept
  case h_2 => cases kept
  rename_i last ends
  obtain ⟨operands, passed, kept⟩ := of_bind_eq_ok kept
  obtain ⟨results, typed, kept⟩ := of_bind_eq_ok kept
  exact ⟨last, operands, results, ends, passed, typed, kept⟩

/-- A function returns as many values as it has results. -/
theorem passes_of_verifyFunc (kept : program.verifyFunc symbols op .func = .ok ()) :
    program.Passes ((program.regionsOf op).get? 0) (.func .ret) (program.results op).length := by
  obtain ⟨last, operands, results, ends, passed, typed, fits⟩ := of_verifyFunc kept
  refine ⟨last, ends, ?_⟩
  rw [← length_of_typedOperands passed, length_of_checkAssignable fits, length_of_typedResults typed]

/-- What a call passes and what it has as results fits the signature of the function of that name. -/
theorem of_verifyCall (kept : program.verifyFunc symbols op .call = .ok ()) :
    ∃ callee signature operands results, (program.attributes op).symbol? "callee" = some callee ∧
      symbols.function? callee = some signature ∧ program.typedOperands op = .ok operands ∧
        program.typedResults op = .ok results ∧
          checkAssignable "arguments" operands signature.inputs = .ok () ∧
            checkAssignable "results" signature.outputs results = .ok () := by
  rw [verifyFunc] at kept
  split at kept
  case h_2 => cases kept
  rename_i callee isCallee
  split at kept
  case h_2 => cases kept
  rename_i signature known
  obtain ⟨operands, passed, kept⟩ := of_bind_eq_ok kept
  obtain ⟨_, arguments, kept⟩ := of_bind_eq_ok kept
  obtain ⟨results, typed, kept⟩ := of_bind_eq_ok kept
  exact ⟨callee, signature, operands, results, isCallee, known, passed, typed, arguments, kept⟩

/-- A call has as many results as the function of that name. -/
theorem length_of_verifyCall (kept : program.verifyFunc symbols op .call = .ok ()) :
    ∃ callee signature, (program.attributes op).symbol? "callee" = some callee ∧
      symbols.function? callee = some signature ∧
        signature.outputs.length = (program.results op).length := by
  obtain ⟨callee, signature, operands, results, isCallee, known, -, typed, -, fits⟩ := of_verifyCall kept
  exact ⟨callee, signature, isCallee, known,
    (length_of_checkAssignable fits).trans (length_of_typedResults typed)⟩

/-! ### Functions that are called -/

section Calls

variable {name : String} {signature : Signature}

/-- The operation declares a function with a name and a signature. -/
def Declares (program : Program) (name : String) (signature : Signature) (op : OpId) : Prop :=
  program.kind op = .func .func ∧ (program.functionName? op).getD "" = name ∧
    program.signature op = .ok signature

theorem declares_of_addSymbol {after : SymbolTable} (added : program.addSymbol symbols op = .ok after)
    (known : after.function? name = some signature) :
    symbols.function? name = some signature ∨ program.Declares name signature op := by
  cases addsSymbol added with
  | function isFunction isSignature =>
    rw [SymbolTable.function?, List.lookup_append, Option.or_eq_some_iff] at known
    rcases known with known | ⟨_, new⟩
    · exact .inl known
    · right
      rw [List.lookup_cons] at new
      split at new
      case h_1 same =>
        cases new
        exact ⟨isFunction, (beq_iff_eq.mp same).symm, isSignature⟩
      case h_2 => cases new
  | classType | globalSlot | other => exact .inl known

theorem declares_of_foldlM {ops : List OpId} {after : SymbolTable}
    (added : ops.foldlM program.addSymbol symbols = .ok after)
    (known : after.function? name = some signature) :
    symbols.function? name = some signature ∨ ∃ op ∈ ops, program.Declares name signature op :=
  origin_of_foldlM_eq_ok (fun now => now.function? name = some signature) added declares_of_addSymbol known

/-- The function that a run finds by a name has the signature that is declared under the name. -/
theorem signature_of_symbolTable {function : OpId} (table : program.symbolTable = .ok symbols)
    (known : symbols.function? name = some signature) (found : program.function? name = some function) :
    program.signature function = .ok signature := by
  have named := List.find?_some found
  simp only [Bool.and_eq_true, decide_eq_true_eq, beq_iff_eq] at named
  have onTop := List.mem_reverse.mp (List.mem_of_find?_eq_some found)
  rcases declares_of_foldlM table known with empty | ⟨other, member, declares⟩
  · cases empty
  · by_cases same : other = function
    · subst same
      exact declares.2.2
    · -- Two functions of one name are no symbols.
      have apart := (namedApart_of_foldlM table).2
      refine absurd ?_ (apart.forall member onTop same declares.1 named.1)
      rw [declares.2.1, named.2]
      rfl

/-- The inputs of a signature are the types of the arguments of the entry block, and the outputs those of the
results. -/
theorem of_signature (declared : program.signature op = .ok signature) :
    ∃ block body, program.functionBody op = .ok (block, body) ∧
      (program.header block).arguments.mapM program.typed = .ok signature.inputs ∧
        program.typedResults op = .ok signature.outputs := by
  obtain ⟨⟨block, body⟩, isBody, declared⟩ := of_bind_eq_ok declared
  obtain ⟨inputs, taken, declared⟩ := of_bind_eq_ok declared
  obtain ⟨outputs, typed, declared⟩ := of_bind_eq_ok declared
  cases declared
  exact ⟨block, body, isBody, taken, typed⟩

/-- A call of a function that a run finds has as many results as the function. -/
theorem length_results_of_call {function : OpId} {callee : String}
    (table : program.symbolTable = .ok symbols) (kept : program.verifyFunc symbols op .call = .ok ())
    (isCallee : (program.attributes op).symbol? "callee" = some callee)
    (found : program.function? callee = some function) :
    (program.results function).length = (program.results op).length := by
  obtain ⟨other, signature, isOther, known, length_eq⟩ := length_of_verifyCall kept
  obtain rfl : callee = other := Option.some.inj (isCallee.symm.trans isOther)
  obtain ⟨_, _, -, -, typed⟩ := of_signature (signature_of_symbolTable table known found)
  rw [← length_of_typedResults typed, length_eq]

end Calls

end Program

end TensorIR
