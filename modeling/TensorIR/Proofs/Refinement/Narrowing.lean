import TensorIR.Proofs.Refinement.Objects
import TensorIR.Proofs.Refinement.Sight
import TensorIR.Proofs.Refinement.Steps

/-!
# Refinement keeps programs sound

A program in which regions have one block, operands are visible and operations keep their rules stays so
when types are made more precise, except for the rules of the operations whose types change. Once nothing
is left to be made more precise, tensor operations keep their rules as well, and casts are the only
operations that may break theirs.

## Main definitions

* `Program.Sound` — a program that is valid up to the operations whose types may change

## Main results

* `Program.Sound.refining` — making the type of a result more precise
-/

namespace TensorIR

variable {program start now after : Program} {op : OpId} {symbols : SymbolTable} {refinement : Refinement}

/-- A program that is valid up to the operations whose types may be made more precise. Tensor operations
compute one tensor each. -/
structure Program.Sound (symbols : SymbolTable) (program : Program) : Prop extends program.Formed where
  single : program.HasSingleBlocks
  table : program.symbolTable = .ok symbols
  visible : program.tree.Visible program fun _ => False
  keeps : ∀ visit ∈ program.visits, ¬program.Loose visit.op → program.Keeps symbols visit.op visit.rest
  tensors : ∀ op ∈ program.tree.ops, ∀ kind, program.kind op = .torch kind → kind.isTensorOp = true →
    ∃ result info, program.results op = [result] ∧ program.typed result = .ok (.torch (.vtensor info))

theorem Program.typed_congr {value : ValueId} (same : now.value value = start.value value) :
    now.typed value = start.typed value := by
  rw [Program.typed, same, Program.typed]

/-- Only entries of the table state types. -/
theorem Program.lt_of_signature {value : ValueId} (origin : (program.value value).origin = .signature) :
    value.index < program.values.size := by
  by_contra above
  rw [Program.value, Array.getD_eq_getD_getElem?, Array.getElem?_eq_none (Nat.le_of_not_lt above)] at origin
  cases origin

theorem Program.Recast.typed_copy (recast : start.Recast op refinement now) :
    now.typed ⟨start.values.size⟩ = .ok (.torch refinement.declared) := by
  have types := recast.defines.types_eq
  rw [List.map_singleton, List.map_singleton] at types
  exact Program.typed_of_typeOf? (List.cons.inj types).1

/-! ### One refinement -/

/-- A result gets a more precise type. -/
structure Program.Refining (start : Program) (op : OpId) (refinement : Refinement) (now : Program) : Prop
    extends start.Refined op refinement now where
  formed : start.Formed
  visible : start.tree.Visible start fun _ => False
  single : start.HasSingleBlocks
  member : op ∈ start.tree.ops
  loose : start.Loose op
  isResult : refinement.result ∈ start.results op
  declared : start.typed refinement.result = .ok (.torch refinement.declared)
  evolved : start.Evolves (fun _ => True) now

namespace Program.Refining

variable (refining : start.Refining op refinement now)
include refining

theorem notFunction : start.kind op ≠ .func .func :=
  (OpKind.of_allowsRefinement refining.loose).2.2

theorem owns : start.Owns (.result op) (start.results op) :=
  (refining.formed.knows _ (Body.op_mem_parts.mpr refining.member)).2 refining.notFunction

theorem origin : (start.value refinement.result).origin = .result op :=
  refining.owns.origin_eq _ refining.isResult

theorem below : refinement.result.index < start.values.size :=
  refining.owns.lt _ refining.isResult

theorem only : start.OnlyGives (.op op) refinement.result start.tree.parts :=
  Program.onlyGives refining.formed.toWellFormed refining.formed.toTabled refining.origin

/-- No operation that keeps its types uses the result afterwards. -/
theorem mem_fixedUses {other : OpId} {index : Nat} (member : other ∈ start.tree.ops) (tight : ¬start.Loose other)
    (isUse : (start.operands other)[index]? = some refinement.result) :
    (⟨other, index⟩ : Use) ∈ start.fixedUses refinement.result := by
  refine List.mem_filter.mpr ⟨?_, by simpa [Program.Loose] using tight⟩
  rw [Program.usesOf_eq_allUses refining.formed.toWellFormed refining.formed.toTabled refining.visible
    refining.single (Body.op_mem_parts.mpr refining.member) refining.origin]
  exact Program.mem_allUses.mpr ⟨member, isUse⟩

theorem results_eq {other : OpId} (known : other.index < start.operations.size) :
    now.results other = start.results other := by
  rw [Program.results, refining.operation_eq other known, Program.results]

theorem given {part : Part} (member : part ∈ start.tree.parts) : now.given part = start.given part := by
  have knows := refining.formed.knows part member
  cases part with
  | op other => exact refining.results_eq knows.1
  | block block =>
    change (now.header block).arguments = _
    rw [Program.header, refining.headers]
    rfl

/-- A value that is not the result has the type that it had. -/
theorem typed_eq {value : ValueId} (below : value.index < start.values.size)
    (other : value ≠ refinement.result) : now.typed value = start.typed value :=
  Program.typed_congr (refining.value_eq value below other)

/-- What the other parts of the tree introduce has the types that it had. -/
theorem map_typed {part : Part} (member : part ∈ start.tree.parts) (other : part ≠ .op op) :
    (start.given part).map now.typed = (start.given part).map start.typed := by
  refine List.map_congr_left fun value among => refining.typed_eq ?_ ?_
  · have knows := refining.formed.knows part member
    cases part with
    | block block => exact knows.2.lt value among
    | op user =>
      by_cases isFunction : start.kind user = .func .func
      · exact Program.lt_of_signature (refining.formed.outputs user isFunction value among)
      · exact (knows.2 isFunction).lt value among
  · rintro rfl
    exact other (refining.only part member among)

theorem narrowsTo : start.NarrowsTo now where
  formed := refining.formed.toWellFormed
  formed_now := refining.evolved.wellFormed refining.formed.toWellFormed
  operations_le := refining.evolved.operations_le
  operation_eq other known := by rw [refining.operation_eq other known, refining.results_eq known, Program.results]
  header_eq block _ := by rw [Program.header, refining.headers, Program.header]
  tree := by
    rcases refining.tree with ⟨-, tree, -⟩ | recast
    · exact tree ▸ .refl _
    · rw [recast.tree]
      exact Body.padded_alterAt refining.loose ⟨le_rfl, recast.defines.kind_eq⟩ _
  operands other member tight := by
    have known := (refining.formed.knows _ (Body.op_mem_parts.mpr member)).1
    refine List.ext_getElem? fun index => ?_
    rw [List.getElem?_map, List.getElem?_map, refining.operands other index known]
    split
    case isTrue among =>
      have isUse : (start.operands other)[index]? = some refinement.result :=
        (Program.mem_usesOf.mp (List.mem_of_mem_filter among)).2
      rw [isUse, Option.map_some, Option.map_some, (refining.recast among).typed_copy, refining.declared]
    case isFalse notAmong =>
      cases found : (start.operands other)[index]? with
      | none => rfl
      | some value =>
        have different : value ≠ refinement.result := by
          rintro rfl
          exact notAmong (refining.mem_fixedUses member tight found)
        have below := refining.formed.operands other value (List.mem_of_getElem? found)
        rw [Option.map_some, Option.map_some, refining.typed_eq below different]
  results other member tight := by
    have inTree := Body.op_mem_parts.mpr member
    rw [refining.results_eq (refining.formed.knows _ inTree).1]
    refine refining.map_typed inTree fun same => ?_
    cases same
    exact tight refining.loose
  arguments block member := refining.map_typed member fun same => by cases same

theorem uses {other : OpId} (member : .op other ∈ start.tree.parts) {operand : ValueId}
    (isOperand : operand ∈ now.operands other) : operand ∈ start.operands other ∨
      operand = ⟨start.values.size⟩ ∧ start.Recast op refinement now ∧
        refinement.result ∈ start.operands other := by
  obtain ⟨index, found⟩ := List.getElem?_of_mem isOperand
  rw [refining.operands other index (refining.formed.knows _ member).1] at found
  split at found
  case isTrue among =>
    cases found
    exact .inr ⟨rfl, refining.recast among,
      List.mem_of_getElem? (Program.mem_usesOf.mp (List.mem_of_mem_filter among)).2⟩
  case isFalse => exact .inl (List.mem_of_getElem? found)

/-- Operands stay visible. -/
theorem visible_now : now.tree.Visible now fun _ => False := by
  rcases refining.tree with ⟨none, tree, operations, -⟩ | recast
  · rw [tree]
    refine Body.visible_mono (fun _ => .inr) _
      (.of_given (fun part => refining.given) fun other member operand isOperand => ?_) refining.visible
    refine (refining.uses member isOperand).imp_right fun isCopy => ?_
    have more := isCopy.2.1.operations
    omega
  · rw [recast.tree]
    refine Body.visible_alterAt recast.defines.operands_eq recast.defines.results_eq
      refining.isResult (fun _ => id) id _ ⟨refining.formed.nodup,
      fun part => refining.given, fun other member operand isOperand => ?_, refining.only⟩ refining.visible
    exact (refining.uses member isOperand).imp_right fun isCopy => ⟨isCopy.1, isCopy.2.2⟩

theorem tabled_now : now.Tabled where
  operands _ _ := refining.lt_of_operand refining.below refining.formed.operands
  origins value below other origin := by
    rcases refining.cases_value value with known | ⟨rfl, recast⟩ | above
    · rw [refining.evolved.origin_eq value known] at origin
      exact (refining.formed.origins value known other origin).trans_le refining.evolved.operations_le
    · have isNew : (Part.op ⟨start.operations.size⟩).IsNew start now := ⟨le_rfl, recast.defines.below⟩
      have fresh := refining.evolved.results_new ⟨start.operations.size⟩ isNew (by
        rw [recast.defines.kind_eq]
        simp)
      rw [recast.defines.results_eq] at fresh
      have same := fresh.origin_eq _ List.mem_cons_self
      rw [origin, Origin.result.injEq] at same
      exact same ▸ recast.defines.below
    · exact absurd below (Nat.not_lt.mpr above)
  outputs other isFunction value among := by
    rcases refining.cases_operation other with known | ⟨rfl, recast⟩ | above
    · rw [refining.evolved.kind_eq other known] at isFunction
      rw [refining.results_eq known] at among
      have origin := refining.formed.outputs other isFunction value among
      rw [refining.evolved.origin_eq value (Program.lt_of_signature origin), origin]
    · rw [recast.defines.kind_eq] at isFunction
      cases isFunction
    · rw [Program.results, Program.operation_of_size_le above] at among
      cases among

end Program.Refining

/-! ### A whole rewrite -/

namespace Program.NarrowsTo

theorem hasSingleBlocks (narrows : start.NarrowsTo now) (single : start.HasSingleBlocks) :
    now.HasSingleBlocks := by
  intro wide found blocks among
  rcases narrows.tree.of_visit none none 0 found with ⟨visit, visited, same⟩ | ⟨-, none⟩
  · have among : blocks.size ∈ wide.regions.toList.map Blocks.size := List.mem_map_of_mem among
    rw [same.regions.map_size, List.mem_map] at among
    obtain ⟨old, isOld, size⟩ := among
    exact size ▸ single visit visited old isOld
  · rw [none] at among
    cases among

theorem keeps (narrows : start.NarrowsTo now)
    (kept : ∀ visit ∈ start.visits, ¬start.Loose visit.op → start.Keeps symbols visit.op visit.rest) :
    ∀ visit ∈ now.visits, ¬now.Loose visit.op → now.Keeps symbols visit.op visit.rest := by
  intro wide found tight
  rcases narrows.tree.of_visit none none 0 found with ⟨visit, visited, same⟩ | ⟨isCast, -⟩
  · have member := Program.mem_ops_of_visits visited
    rw [Program.Loose, same.op_eq, narrows.kind_eq member] at tight
    obtain ⟨last, rule⟩ := kept visit visited tight
    rw [same.op_eq]
    refine ⟨?_, narrows.verifyOp_eq_ok member tight rule⟩
    rw [narrows.kind_eq member, (same.rest tight).isEmpty_eq]
    exact last
  · rw [Program.Loose, isCast.2] at tight
    exact absurd rfl tight

end Program.NarrowsTo

/-- Making the type of a result more precise keeps a program sound. -/
theorem Program.Sound.refining (sound : start.Sound symbols) (refining : start.Refining op refinement now)
    (tensor : ∃ info, refinement.refined = .vtensor info) : now.Sound symbols := by
  have narrows := refining.narrowsTo
  refine ⟨⟨narrows.formed_now, refining.tabled_now, ?isModule⟩, narrows.hasSingleBlocks sound.single,
    narrows.symbolTable_eq.trans sound.table, refining.visible_now, narrows.keeps sound.keeps, ?tensors⟩
  case isModule =>
    rw [narrows.root_eq, narrows.kind_eq List.mem_cons_self]
    exact sound.isModule
  case tensors =>
    intro other member kind isKind isTensor
    rcases narrows.mem_or_newCast member with old | isCast
    · rw [narrows.kind_eq old] at isKind
      obtain ⟨result, info, results, typed⟩ := sound.tensors other old kind isKind isTensor
      have sameResults : now.results other = [result] :=
        (refining.given (Body.op_mem_parts.mpr old)).trans results
      by_cases isResult : result = refinement.result
      · obtain ⟨refined, isRefined⟩ := tensor
        exact ⟨result, refined, sameResults, by rw [isResult, refining.typed_result, isRefined]⟩
      · have elsewhere : Part.op other ≠ .op op := by
          rintro same
          cases same
          exact isResult (List.mem_singleton.mp (results ▸ refining.isResult)).symm
        have types := refining.map_typed (Body.op_mem_parts.mpr old) elsewhere
        rw [show start.given (.op other) = [result] from results] at types
        exact ⟨result, info, sameResults, (List.cons.inj types).1.trans typed⟩
    · rw [isCast.2] at isKind
      cases isKind
      cases isTensor

end TensorIR
