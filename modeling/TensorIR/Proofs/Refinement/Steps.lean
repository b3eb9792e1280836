import TensorIR.Proofs.Execution.Scope
import TensorIR.Proofs.Refinement.Rules
import TensorIR.Proofs.Scalar.Preparing

/-!
# What one refinement does

A result gets a more precise type. Operations that cannot take it use a cast back to the declared type,
which is built directly behind the operation that computes the result. Everything else stays.

## Main definitions

* `Program.fixedUses` — the uses of a value that keep its declared type
* `Program.Refined` — a program in which a result has got a more precise type

## Main results

* `refined_of_run` — a refinement does this
* `Program.Refined.lt_of_operand` — operations use values with entries still
-/

namespace TensorIR

variable {program start now after : Program} {op : OpId} {refinement : Refinement}

/-- The uses of a value in operations that do not allow a more precise type. -/
def Program.fixedUses (program : Program) (value : ValueId) : List Use :=
  (program.usesOf value).filter fun use => !(program.kind use.op).allowsRefinement

/-- A cast of a result back to its declared type stands directly behind the operation that computes it. -/
structure Program.Recast (start : Program) (op : OpId) (refinement : Refinement) (now : Program) : Prop where
  tree : now.tree = start.tree.alterAt op fun regions rest =>
    .cons op regions (.cons ⟨start.operations.size⟩ .nil rest)
  operations : now.operations.size = start.operations.size + 1
  values : now.values.size = start.values.size + 1
  defines : now.Defines ⟨start.operations.size⟩ (.torch .tensorStaticInfoCast) [refinement.result] .empty
    [⟨start.values.size⟩] [.torch refinement.declared]

/-- A program in which a result has got a more precise type. Where the declared type is needed, a cast is
used. -/
structure Program.Refined (start : Program) (op : OpId) (refinement : Refinement) (now : Program) : Prop where
  operation_eq : ∀ other : OpId, other.index < start.operations.size →
    now.operation other = { start.operation other with operands := now.operands other }
  operands : ∀ (other : OpId) (index : Nat), other.index < start.operations.size →
    (now.operands other)[index]? =
      if (⟨other, index⟩ : Use) ∈ start.fixedUses refinement.result then some ⟨start.values.size⟩
      else (start.operands other)[index]?
  headers : now.headers = start.headers
  value_eq : ∀ value : ValueId, value.index < start.values.size → value ≠ refinement.result →
    now.value value = start.value value
  typed_result : now.typed refinement.result = .ok (.torch refinement.refined)
  tree : start.fixedUses refinement.result = [] ∧ now.tree = start.tree ∧
      now.operations.size = start.operations.size ∧ now.values.size = start.values.size ∨
    start.Recast op refinement now

theorem operation_setUses (uses : List Use) (new : ValueId) (program : Program) (other : OpId) :
    (uses.foldl (fun changed use => changed.setUse use new) program).operation other =
      { program.operation other with
        operands := (uses.foldl (fun changed use => changed.setUse use new) program).operands other } := by
  induction uses generalizing program with
  | nil => rfl
  | cons use uses ih =>
    rw [List.foldl_cons, ih]
    have same : ∃ operands, (program.setUse use new).operation other =
        { program.operation other with operands } := by
      rw [Program.setUse, Program.setOperand, Program.operation_modifyOperation]
      split
      · exact ⟨_, rfl⟩
      · exact ⟨_, rfl⟩
    obtain ⟨operands, same⟩ := same
    rw [same]

theorem headers_setUses (uses : List Use) (new : ValueId) (program : Program) :
    (uses.foldl (fun changed use => changed.setUse use new) program).headers = program.headers := by
  induction uses generalizing program with
  | nil => rfl
  | cons use uses ih => exact ih (program.setUse use new)

theorem Program.typed_setType {value : ValueId} (below : value.index < program.values.size) (type : Ty) :
    (program.setType value type).typed value = .ok type := by
  rw [Program.typed, Program.setType, Program.value_modifyValue, if_pos ⟨rfl, below⟩]

theorem Program.value_setType {value other : ValueId} (different : other ≠ value) (type : Ty) :
    (program.setType value type).value other = program.value other := by
  rw [Program.setType, Program.value_modifyValue, if_neg]
  rintro ⟨rfl, -⟩
  exact different rfl

/-- Building a cast back to the declared type, directly behind the operation. -/
theorem exists_recast (notRoot : op ≠ start.root) (refinement : Refinement) : ∃ built,
    (Change.build op (Build.value (.torch .tensorStaticInfoCast) [refinement.result]
      (.torch refinement.declared)) .after).run start = (.ok ⟨start.values.size⟩, built) ∧
    start.Recast op refinement built ∧
    (∀ other : OpId, other.index < start.operations.size → built.operation other = start.operation other) ∧
    (∀ value : ValueId, value.index < start.values.size → built.value value = start.value value) ∧
    built.headers = start.headers := by
  have placed : (start.draft op .after).anchor ≠ (start.draft op .after).program.root := notRoot
  obtain ⟨draft, ran, adds⟩ := adds_value (.torch .tensorStaticInfoCast) [refinement.result]
    (.torch refinement.declared) .empty placed
  have reached : start.Extends (fun _ => True) draft.program := adds.reached trivial
  have defines := adds.defines
  obtain ⟨location, names, length_eq, defined⟩ := adds.program
  refine ⟨draft.finished, by rw [Change.run_build, ran]; rfl, ⟨?tree, ?operations, ?values, ?defines⟩,
    reached.operation_eq, reached.value_eq, ?headers⟩
  case tree =>
    have anchor : draft.anchor ≠ draft.program.root := by
      rw [adds.anchor, reached.root]
      exact notRoot
    rw [Draft.finished_eq, Program.tree_alterAt anchor, adds.anchor, defined]
    unfold Draft.change
    rw [adds.hoisted, adds.lead, adds.placement, adds.code, adds.anchor]
    rfl
  case operations =>
    change draft.program.operations.size = _
    rw [defined]
    exact Array.size_push ..
  case values =>
    change draft.program.values.size = _
    rw [defined]
    simp [Program.withDefinition, Program.namedResults, Program.draft, length_eq]
  case defines => exact ⟨defines.below, defines.kind_eq, defines.operands_eq, defines.attributes_eq,
    defines.results_eq, defines.types_eq⟩
  case headers =>
    change draft.program.headers = _
    rw [defined]
    rfl

/-- What is left of a refinement once the cast has been built. -/
theorem Program.Recast.refined {built : Program} (recast : start.Recast op refinement built)
    (operation_eq : ∀ other : OpId, other.index < start.operations.size →
      built.operation other = start.operation other)
    (value_eq : ∀ value : ValueId, value.index < start.values.size → built.value value = start.value value)
    (headers_eq : built.headers = start.headers) (below : refinement.result.index < start.values.size) :
    start.Refined op refinement (((start.fixedUses refinement.result).foldl
      (fun changed use => changed.setUse use ⟨start.values.size⟩) built).setType refinement.result
        (.torch refinement.refined)) := by
  have isUse (use : Use) (among : use ∈ start.fixedUses refinement.result) :
      (start.operands use.op)[use.index]? = some refinement.result :=
    (Program.mem_usesOf.mp (List.mem_of_mem_filter among)).2
  obtain ⟨operations, values, -⟩ :=
    tables_setUses (start.fixedUses refinement.result) ⟨start.values.size⟩ built
  have uses := getElem?_operands_setUses (start.fixedUses refinement.result) ⟨start.values.size⟩ built
  have tree := tree_setUses (start.fixedUses refinement.result) ⟨start.values.size⟩ built
  have headers := headers_setUses (start.fixedUses refinement.result) ⟨start.values.size⟩ built
  have entries := operation_setUses (start.fixedUses refinement.result) ⟨start.values.size⟩ built
  -- Moving the uses changes operands and nothing else.
  generalize (start.fixedUses refinement.result).foldl
    (fun changed use => changed.setUse use ⟨start.values.size⟩) built = moved at *
  have value (other : ValueId) : moved.value other = built.value other := by
    rw [Program.value, values, Program.value]
  refine ⟨fun other known => ?operation, fun other index known => ?operands, ?headers,
    fun other known different => ?value, ?typed, .inr ⟨?tree, ?operations, ?values, ?defines⟩⟩
  case operation =>
    refine (entries other).trans ?_
    rw [operation_eq other known]
    rfl
  case operands =>
    refine (uses other index).trans ?_
    rw [Program.operands, operation_eq other known, ← Program.operands]
    split
    case isTrue among => rw [isUse _ among, Option.map_some]
    case isFalse => rfl
  case headers => exact headers.trans headers_eq
  case value => rw [Program.value_setType different, value, value_eq other known]
  case typed =>
    refine Program.typed_setType ?_ _
    rw [values, recast.values]
    exact Nat.lt_succ_of_lt below
  case tree => exact tree.trans recast.tree
  case operations => exact operations.trans recast.operations
  case values =>
    refine (Array.size_modify ..).trans ?_
    rw [values, recast.values]
  case defines =>
    have last := entries ⟨start.operations.size⟩
    have same : moved.operands ⟨start.operations.size⟩ = built.operands ⟨start.operations.size⟩ := by
      refine List.ext_getElem? fun index => ?_
      rw [uses, if_neg]
      intro among
      exact absurd (Program.operands_of_getElem? (isUse _ among)) (Nat.lt_irrefl _)
    have defines := recast.defines
    have other : (⟨start.values.size⟩ : ValueId) ≠ refinement.result := by
      rintro isResult
      exact absurd (isResult ▸ below) (Nat.lt_irrefl _)
    refine ⟨operations ▸ defines.below, (congrArg Operation.kind last).trans defines.kind_eq,
      same.trans defines.operands_eq, (congrArg Operation.attributes last).trans defines.attributes_eq,
      (congrArg Operation.results last).trans defines.results_eq, ?_⟩
    have types := defines.types_eq
    rw [List.map_singleton, Program.typeOf?] at types ⊢
    rwa [Program.value_setType other, value]

/-- A refinement gives the result its more precise type, and builds a cast where the declared one is
needed. -/
theorem refined_of_run (notRoot : op ≠ start.root) (below : refinement.result.index < start.values.size)
    (run : (Rewrite.refineResult op refinement).run start = (.ok (), now)) :
    start.Refined op refinement now := by
  rcases of_refineResult_eq_ok run with ⟨none, rfl⟩ | ⟨cast, draft, isCast, rfl⟩
  case inl =>
    refine ⟨fun _ _ => rfl, fun other index _ => ?_, rfl, fun value _ different => ?_, ?_, .inl ⟨none, rfl, rfl, ?_⟩⟩
    · rw [Program.fixedUses, none, if_neg List.not_mem_nil]
      rfl
    · exact Program.value_setType different _
    · exact Program.typed_setType below _
    · exact Array.size_modify ..
  case inr =>
    obtain ⟨built, ran, recast, operation_eq, value_eq, headers_eq⟩ := exists_recast notRoot refinement
    obtain ⟨other, same, rfl⟩ := of_build_eq_ok ran
    obtain ⟨isFirst, rfl⟩ := Prod.mk.inj (isCast.symm.trans same)
    cases isFirst
    exact recast.refined operation_eq value_eq headers_eq below

namespace Program.Refined

variable (refined : start.Refined op refinement now)
include refined

theorem recast {use : Use} (among : use ∈ start.fixedUses refinement.result) :
    start.Recast op refinement now := by
  rcases refined.tree with ⟨none, -⟩ | recast
  · rw [none] at among
    cases among
  · exact recast

theorem values_le : start.values.size ≤ now.values.size := by
  rcases refined.tree with ⟨-, -, -, values⟩ | recast
  · exact values.ge
  · exact recast.values ▸ Nat.le_succ _

/-- Operations that are there afterwards have been there before, or one of them is the cast. -/
theorem cases_operation (other : OpId) : other.index < start.operations.size ∨
    other = ⟨start.operations.size⟩ ∧ start.Recast op refinement now ∨
      now.operations.size ≤ other.index := by
  rcases refined.tree with ⟨-, -, operations, -⟩ | recast
  · omega
  · have operations := recast.operations
    rcases Nat.lt_trichotomy other.index start.operations.size with below | same | above
    · exact .inl below
    · exact .inr (.inl ⟨by cases other; cases same; rfl, recast⟩)
    · exact .inr (.inr (by omega))

theorem cases_value (value : ValueId) : value.index < start.values.size ∨
    value = ⟨start.values.size⟩ ∧ start.Recast op refinement now ∨ now.values.size ≤ value.index := by
  rcases refined.tree with ⟨-, -, -, values⟩ | recast
  · omega
  · have values := recast.values
    rcases Nat.lt_trichotomy value.index start.values.size with below | same | above
    · exact .inl below
    · exact .inr (.inl ⟨by cases value; cases same; rfl, recast⟩)
    · exact .inr (.inr (by omega))

/-- Operations use values with entries still. -/
theorem lt_of_operand (below : refinement.result.index < start.values.size)
    (operands : ∀ other, ∀ operand ∈ start.operands other, operand.index < start.values.size)
    {other : OpId} {operand : ValueId} (isOperand : operand ∈ now.operands other) :
    operand.index < now.values.size := by
  rcases refined.cases_operation other with known | ⟨rfl, recast⟩ | above
  · obtain ⟨index, found⟩ := List.getElem?_of_mem isOperand
    rw [refined.operands other index known] at found
    split at found
    case isTrue among =>
      cases found
      rw [(refined.recast among).values]
      exact Nat.lt_succ_self _
    case isFalse => exact (operands other operand (List.mem_of_getElem? found)).trans_le refined.values_le
  · rw [recast.defines.operands_eq, List.mem_singleton] at isOperand
    rw [isOperand]
    exact below.trans_le refined.values_le
  · rw [Program.operands, Program.operation_of_size_le above] at isOperand
    cases isOperand

end Program.Refined

end TensorIR
