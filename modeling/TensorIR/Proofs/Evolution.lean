import TensorIR.Proofs.Building

/-!
# How a program evolves

A program is well formed if no operation and no block stands in its tree twice, everything that stands
there has an entry in the tables, and values know where they come from. Changes keep a program well
formed: they put new entries behind those that exist, leave the kind, the attributes and the results
of an operation as they are, and move what is in the tree or take it away.

## Main definitions

* `Program.WellFormed` — the tree and the tables fit together
* `Program.Evolves` — what all changes have in common
* `Evolving` — a change under which every well-formed program evolves

## Main results

* `Program.Evolves.wellFormed` — changes keep a program well formed
* `Evolving.bind`, `evolving_exhaust` — changes one after the other
* `evolving_build`, `evolving_erase`, `evolving_supersede` — the single changes
-/

namespace TensorIR

variable {α β : Type}

/-- A part of a tree has an entry in the tables, and the values that it introduces know this. The
values that stand for the results of a function only state their types, so they are left out. -/
def Program.Knows (program : Program) : Part → Prop
  | .op op => op.index < program.operations.size ∧
    (program.kind op ≠ .func .func → program.Owns (.result op) (program.results op))
  | .block block => block.index < program.headers.size ∧
    program.Owns (.argument block) (program.header block).arguments

/-- The tree and the tables of a program fit together. -/
structure Program.WellFormed (program : Program) : Prop where
  nodup : program.tree.parts.Nodup
  knows : ∀ part ∈ program.tree.parts, program.Knows part

instance (program : Program) (origin : Origin) (values : List ValueId) :
    Decidable (program.Owns origin values) :=
  decidable_of_iff
    (values.Nodup ∧ ∀ value ∈ values,
      value.index < program.values.size ∧ (program.value value).origin = origin)
    ⟨fun ⟨nodup, each⟩ => ⟨nodup, fun value member => (each value member).1, fun value member =>
      (each value member).2⟩,
    fun owns => ⟨owns.nodup, fun value member => ⟨owns.lt value member, owns.origin_eq value member⟩⟩⟩

instance (program : Program) : DecidablePred program.Knows
  | .op _ => inferInstanceAs (Decidable (_ ∧ (_ → _)))
  | .block _ => inferInstanceAs (Decidable (_ ∧ _))

instance (program : Program) : Decidable program.WellFormed :=
  decidable_of_iff (program.tree.parts.Nodup ∧ ∀ part ∈ program.tree.parts, program.Knows part)
    ⟨fun ⟨nodup, knows⟩ => ⟨nodup, knows⟩, fun formed => ⟨formed.nodup, formed.knows⟩⟩

/-- The value is computed by an operation of the program that is no call. -/
def Program.IsResult (program : Program) (value : ValueId) : Prop :=
  value.index < program.values.size ∧ ∃ op : OpId, op.index < program.operations.size ∧
    (program.value value).origin = .result op ∧ program.kind op ≠ .func .call

/-- The value is passed in from elsewhere: it is no result of an operation, or of a call. -/
def Program.IsPassed (program : Program) (value : ValueId) : Prop :=
  value.index < program.values.size ∧ ∀ op, (program.value value).origin = .result op →
    op.index < program.operations.size ∧ program.kind op = .func .call

theorem Program.IsPassed.not_isResult {program : Program} {value : ValueId}
    (passed : program.IsPassed value) : ¬program.IsResult value := by
  rintro ⟨-, op, -, origin, other⟩
  exact other (passed.2 op origin).2

/-- A program with further entries in its tables, the operations among them of allowed kinds. Entries
that exist keep what tells how the program is made up, and what is computed as a torch value, except
by a call, stays one. -/
structure Program.Grows (allowed : OpKind → Prop) (start now : Program) : Prop where
  root : now.root = start.root
  operations_le : start.operations.size ≤ now.operations.size
  kind_eq : ∀ op : OpId, op.index < start.operations.size → now.kind op = start.kind op
  attributes_eq : ∀ op : OpId, op.index < start.operations.size →
    now.attributes op = start.attributes op
  results_eq : ∀ op : OpId, op.index < start.operations.size → start.kind op ≠ .func .func →
    now.results op = start.results op
  kind_new : ∀ op : OpId, (Part.op op).IsNew start now → allowed (now.kind op)
  results_new : ∀ op : OpId, (Part.op op).IsNew start now → now.kind op ≠ .func .func →
    Program.AreFresh start now (.result op) (now.results op)
  values_le : start.values.size ≤ now.values.size
  origin_eq : ∀ value : ValueId, value.index < start.values.size →
    (now.value value).origin = (start.value value).origin
  torch_result : ∀ value : ValueId, start.IsResult value →
    (start.torchTypeOf? value).isSome → (now.torchTypeOf? value).isSome
  headers_le : start.headers.size ≤ now.headers.size
  arguments_eq : ∀ block : BlockId, block.index < start.headers.size →
    (now.header block).arguments = (start.header block).arguments
  arguments_new : ∀ block : BlockId, (Part.block block).IsNew start now →
    Program.AreFresh start now (.argument block) (now.header block).arguments

/-- A program that has grown, where parts of the tree have been moved or taken away and each new part
has been put there at most once. -/
structure Program.Evolves (allowed : OpKind → Prop) (start now : Program) : Prop
    extends Program.Grows allowed start now where
  count_le : ∀ part : Part, now.tree.parts.count part ≤ start.tree.parts.count part +
    if part.IsNew start now then 1 else 0

variable {allowed : OpKind → Prop} {start middle now : Program}

namespace Program

theorem Extends.grows (reached : start.Extends allowed now) : start.Grows allowed now where
  root := reached.root
  operations_le := reached.operations_le
  kind_eq op below := by rw [Program.kind, reached.operation_eq op below, Program.kind]
  attributes_eq op below := by
    rw [Program.attributes, reached.operation_eq op below, Program.attributes]
  results_eq op below _ := by rw [Program.results, reached.operation_eq op below, Program.results]
  kind_new := reached.kind_new
  results_new op new _ := reached.results_new op new
  values_le := reached.values_le
  origin_eq := reached.origin_eq
  torch_result value result torch := by
    rwa [Program.torchTypeOf?, Program.typeOf?, reached.value_eq value result.1]
  headers_le := reached.headers_le
  arguments_eq block below := by rw [reached.header_eq block below]
  arguments_new := reached.arguments_new

namespace Grows

theorem refl (program : Program) : program.Grows allowed program :=
  (Extends.refl program).grows

theorem isResult (grown : start.Grows allowed now) {value : ValueId} (result : start.IsResult value) :
    now.IsResult value := by
  obtain ⟨below, op, defined, origin, other⟩ := result
  refine ⟨below.trans_le grown.values_le, op, defined.trans_le grown.operations_le, ?_, ?_⟩
  · rwa [grown.origin_eq value below]
  · rwa [grown.kind_eq op defined]

theorem isPassed (grown : start.Grows allowed now) {value : ValueId} (passed : start.IsPassed value) :
    now.IsPassed value := by
  obtain ⟨below, call⟩ := passed
  refine ⟨below.trans_le grown.values_le, fun op origin => ?_⟩
  rw [grown.origin_eq value below] at origin
  obtain ⟨defined, isCall⟩ := call op origin
  exact ⟨defined.trans_le grown.operations_le, by rwa [grown.kind_eq op defined]⟩

theorem trans (first : start.Grows allowed middle) (second : middle.Grows allowed now) :
    start.Grows allowed now where
  root := second.root.trans first.root
  operations_le := first.operations_le.trans second.operations_le
  kind_eq op below :=
    (second.kind_eq op (below.trans_le first.operations_le)).trans (first.kind_eq op below)
  attributes_eq op below :=
    (second.attributes_eq op (below.trans_le first.operations_le)).trans (first.attributes_eq op below)
  results_eq op below other := by
    rw [second.results_eq op (below.trans_le first.operations_le), first.results_eq op below other]
    rwa [first.kind_eq op below]
  kind_new op new := by
    -- What is new at the end is new in the first growth or in the second.
    rcases lt_or_ge op.index middle.operations.size with below | above
    · rw [second.kind_eq op below]
      exact first.kind_new op ⟨new.1, below⟩
    · exact second.kind_new op ⟨above, new.2⟩
  results_new op new other := by
    rcases lt_or_ge op.index middle.operations.size with below | above
    · rw [second.kind_eq op below] at other
      rw [second.results_eq op below other]
      have fresh := first.results_new op ⟨new.1, below⟩ other
      exact ⟨fresh.toOwns.grow second.values_le second.origin_eq, fresh.new⟩
    · have fresh := second.results_new op ⟨above, new.2⟩ other
      exact ⟨fresh.toOwns, fun value member => first.values_le.trans (fresh.new value member)⟩
  values_le := first.values_le.trans second.values_le
  origin_eq value below :=
    (second.origin_eq value (below.trans_le first.values_le)).trans (first.origin_eq value below)
  torch_result value result torch :=
    second.torch_result value (first.isResult result) (first.torch_result value result torch)
  headers_le := first.headers_le.trans second.headers_le
  arguments_eq block below :=
    (second.arguments_eq block (below.trans_le first.headers_le)).trans
      (first.arguments_eq block below)
  arguments_new block new := by
    rcases lt_or_ge block.index middle.headers.size with below | above
    · rw [second.arguments_eq block below]
      have fresh := first.arguments_new block ⟨new.1, below⟩
      exact ⟨fresh.toOwns.grow second.values_le second.origin_eq, fresh.new⟩
    · have fresh := second.arguments_new block ⟨above, new.2⟩
      exact ⟨fresh.toOwns, fun value member => first.values_le.trans (fresh.new value member)⟩

/-- What is known about a part stays known. -/
theorem knows (grown : start.Grows allowed now) {part : Part} (known : start.Knows part) :
    now.Knows part := by
  cases part with
  | op op =>
    obtain ⟨below, owns⟩ := known
    refine ⟨below.trans_le grown.operations_le, fun other => ?_⟩
    rw [grown.kind_eq op below] at other
    rw [grown.results_eq op below other]
    exact (owns other).grow grown.values_le grown.origin_eq
  | block block =>
    obtain ⟨below, owns⟩ := known
    refine ⟨below.trans_le grown.headers_le, ?_⟩
    rw [grown.arguments_eq block below]
    exact owns.grow grown.values_le grown.origin_eq

theorem knows_new (grown : start.Grows allowed now) {part : Part} (new : part.IsNew start now) :
    now.Knows part := by
  cases part with
  | op op => exact ⟨new.2, fun other => (grown.results_new op new other).toOwns⟩
  | block block => exact ⟨new.2, (grown.arguments_new block new).toOwns⟩

end Grows

/-- What has an entry is not new. -/
theorem Knows.not_isNew {part : Part} (known : start.Knows part) : ¬part.IsNew start now := by
  cases part with
  | op op => exact fun new => absurd known.1 (not_lt.mpr new.1)
  | block block => exact fun new => absurd known.1 (not_lt.mpr new.1)

namespace Evolves

theorem refl (program : Program) : program.Evolves allowed program where
  toGrows := Grows.refl program
  count_le _ := Nat.le_add_right _ _

theorem trans (first : start.Evolves allowed middle) (second : middle.Evolves allowed now) :
    start.Evolves allowed now where
  toGrows := first.toGrows.trans second.toGrows
  count_le part := by
    have early := first.count_le part
    have late := second.count_le part
    have new := part.isNew_add first.operations_le second.operations_le first.headers_le
      second.headers_le
    omega

/-- A program that has grown, with parts of the tree moved or taken away. -/
theorem of_count_le (grown : start.Grows allowed now)
    (count_le : ∀ part, now.tree.parts.count part ≤ start.tree.parts.count part) :
    start.Evolves allowed now where
  toGrows := grown
  count_le part := (count_le part).trans (Nat.le_add_right _ _)

/-- More kinds of new operations may be allowed. -/
theorem mono {others : OpKind → Prop} (weaker : ∀ kind, allowed kind → others kind)
    (evolved : start.Evolves allowed now) : start.Evolves others now :=
  { evolved with kind_new := fun op new => weaker _ (evolved.kind_new op new) }

theorem mem_or_isNew (evolved : start.Evolves allowed now) {part : Part}
    (member : part ∈ now.tree.parts) : part ∈ start.tree.parts ∨ part.IsNew start now := by
  have positive := List.count_pos_iff.mpr member
  have bound := evolved.count_le part
  by_cases new : part.IsNew start now
  · exact .inr new
  · rw [if_neg new] at bound
    exact .inl (List.count_pos_iff.mp (by omega))

/-- Changes keep a program well formed. -/
theorem wellFormed (evolved : start.Evolves allowed now) (formed : start.WellFormed) :
    now.WellFormed where
  nodup := by
    rw [List.nodup_iff_count_le_one]
    intro part
    have bound := evolved.count_le part
    by_cases new : part.IsNew start now
    · have absent : part ∉ start.tree.parts := fun member => (formed.knows part member).not_isNew new
      rw [List.count_eq_zero.mpr absent, if_pos new] at bound
      exact bound
    · rw [if_neg new] at bound
      exact bound.trans (List.nodup_iff_count_le_one.mp formed.nodup part)
  knows part member := by
    rcases evolved.mem_or_isNew member with old | new
    · exact evolved.toGrows.knows (formed.knows part old)
    · exact evolved.toGrows.knows_new new

end Evolves

/-! ### The tree of a program -/

/-- The place of an operation in the tree, with everything outside of it. -/
theorem WellFormed.exists_focus {program : Program} {op : OpId} (formed : program.WellFormed)
    (member : op ∈ program.tree.ops) :
    ∃ visit, program.visit? op = some visit ∧ visit.op = op ∧ program.regionsOf op = visit.regions ∧
      ∃ outside : List Part, ∀ change, (program.tree.alterAt op change).parts.Perm
        (outside ++ (change visit.regions visit.rest).parts) := by
  obtain ⟨visit, found, outside, same⟩ :=
    program.tree.exists_focus none none 0 formed.nodup member
  have visited : program.visit? op = some visit := by
    rw [Program.visit?, Program.visits, found, Option.some_or]
  refine ⟨visit, visited, by simpa using List.find?_some found, ?_, outside, same⟩
  unfold Program.regionsOf
  split
  case isTrue isRoot =>
    have first : visit = ⟨program.root, program.regions, .nil, none, none, 0⟩ := by
      simpa [Program.tree, Body.visits, isRoot] using found.symm
    rw [first]
  case isFalse => rw [visited]; rfl

/-- The entry block of an operation is in the tree with it, and so is what stands there. -/
theorem WellFormed.entry_mem {program : Program} {op : OpId} {block : BlockId} {body : Body}
    (formed : program.WellFormed) (member : op ∈ program.tree.ops)
    (entry : program.entryOf? op = some (block, body)) :
    Part.block block ∈ program.tree.parts ∧ ∀ part ∈ body.parts, part ∈ program.tree.parts := by
  obtain ⟨visit, -, -, regions, outside, same⟩ := formed.exists_focus member
  have original := same (.cons op)
  rw [Body.alterAt_self] at original
  rw [Program.entryOf?, regions] at entry
  have inside (part : Part) (within : part = .block block ∨ part ∈ body.parts) :
      part ∈ program.tree.parts := by
    rw [original.mem_iff, List.mem_append]
    refine .inr (List.mem_cons_of_mem _ (List.mem_append_left _ ?_))
    cases shape : visit.regions with
    | nil => rw [shape] at entry; cases entry
    | cons blocks others =>
      rw [shape] at entry
      cases blocks with
      | nil => cases entry
      | cons first content later =>
        cases entry
        simp only [Regions.parts, Blocks.parts, List.mem_append, List.mem_cons]
        tauto
  exact ⟨inside _ (.inl rfl), fun part within => inside part (.inr within)⟩

/-- The arguments of a block in the tree are passed in. -/
theorem WellFormed.isPassed_argument {program : Program} {block : BlockId} {argument : ValueId}
    (formed : program.WellFormed) (member : Part.block block ∈ program.tree.parts)
    (among : argument ∈ (program.header block).arguments) : program.IsPassed argument := by
  obtain ⟨-, owns⟩ := formed.knows _ member
  refine ⟨owns.lt argument among, fun op origin => ?_⟩
  rw [owns.origin_eq argument among] at origin
  cases origin

/-- The results of a call are passed in. -/
theorem WellFormed.isPassed_call {program : Program} {op : OpId} {result : ValueId}
    (formed : program.WellFormed) (member : op ∈ program.tree.ops)
    (isCall : program.kind op = .func .call) (among : result ∈ program.results op) :
    program.IsPassed result := by
  obtain ⟨below, owns⟩ := formed.knows _ (Body.op_mem_parts.mpr member)
  rw [isCall] at owns
  refine ⟨(owns nofun).lt result among, fun other origin => ?_⟩
  rw [(owns nofun).origin_eq result among] at origin
  cases origin
  exact ⟨below, isCall⟩

theorem WellFormed.root_notMem {program : Program} (formed : program.WellFormed) :
    program.root ∉ program.regions.ops := by
  have nodup := Body.nodup_ops formed.nodup
  simp only [Program.tree, Body.ops, List.append_nil, List.nodup_cons] at nodup
  exact nodup.1

theorem tree_alterAt {program : Program} {op : OpId} {change : Regions → Body → Body}
    (inside : op ≠ program.root) :
    (program.alterAt op change).tree = program.tree.alterAt op change := by
  rw [Program.tree, Program.tree, Body.alterAt, if_neg (Ne.symm inside)]
  rfl

theorem WellFormed.tree_alterAt_root {program : Program} {change : Regions → Body → Body}
    (formed : program.WellFormed) : (program.alterAt program.root change).tree = program.tree := by
  rw [Program.tree, Program.alterAt, Regions.alterAt_of_notMem _ formed.root_notMem, Program.tree]

theorem tree_setRegions {program : Program} {op : OpId} {inside : Regions} :
    (program.setRegions op inside).tree =
      program.tree.alterAt op fun _ rest => .cons op inside rest := by
  unfold Program.setRegions
  split
  case isTrue isRoot => simp [Program.tree, Body.alterAt, isRoot]
  case isFalse other => rw [tree_alterAt other]

/-- A change at one operation adds to the tree what it puts there beyond what has been there. -/
theorem WellFormed.count_alterAt_le {program : Program} {op : OpId} {part : Part} {extra : Nat}
    {change : Regions → Body → Body} (formed : program.WellFormed)
    (le : ∀ visit, program.visit? op = some visit → program.regionsOf op = visit.regions →
      (change visit.regions visit.rest).parts.count part ≤
        (Body.cons op visit.regions visit.rest).parts.count part + extra) :
    (program.tree.alterAt op change).parts.count part ≤ program.tree.parts.count part + extra := by
  by_cases member : op ∈ program.tree.ops
  case pos =>
    obtain ⟨visit, found, -, regions, outside, same⟩ := formed.exists_focus member
    have original := same (.cons op)
    rw [Body.alterAt_self] at original
    rw [(same change).count_eq, original.count_eq, List.count_append, List.count_append]
    have := le visit found regions
    omega
  case neg =>
    rw [Body.alterAt_of_notMem _ member]
    exact Nat.le_add_right _ _

/-- A change at one operation keeps what it puts there again. -/
theorem WellFormed.mem_alterAt {program : Program} {op : OpId} {part : Part}
    {change : Regions → Body → Body} (formed : program.WellFormed)
    (member : part ∈ program.tree.parts)
    (keeps : ∀ visit : Visit, part ∈ (Body.cons op visit.regions visit.rest).parts →
      part ∈ (change visit.regions visit.rest).parts) :
    part ∈ (program.tree.alterAt op change).parts := by
  by_cases present : op ∈ program.tree.ops
  case pos =>
    obtain ⟨visit, -, -, -, outside, same⟩ := formed.exists_focus present
    have original := same (.cons op)
    rw [Body.alterAt_self] at original
    rw [original.mem_iff, List.mem_append] at member
    rw [(same change).mem_iff, List.mem_append]
    exact member.imp_right (keeps visit)
  case neg => rwa [Body.alterAt_of_notMem _ present]

/-! ### The tables of a program -/

theorem operation_modifyOperation (program : Program) (id other : OpId)
    (change : Operation → Operation) :
    (program.modifyOperation id change).operation other =
      if id = other ∧ other.index < program.operations.size then change (program.operation other)
      else program.operation other := by
  obtain ⟨first⟩ := id
  obtain ⟨second⟩ := other
  simp only [Program.operation, Program.modifyOperation, Array.getD_eq_getD_getElem?,
    Array.getElem?_modify, OpId.mk.injEq]
  by_cases same : first = second
  · subst same
    by_cases below : first < program.operations.size <;> simp [below]
  · simp [same]

/-- A value that has a type has an entry. -/
theorem lt_of_typeOf? {program : Program} {value : ValueId} {type : Ty}
    (typed : program.typeOf? value = some type) : value.index < program.values.size := by
  by_contra above
  rw [typeOf?, Program.value, Array.getD_eq_getD_getElem?,
    Array.getElem?_eq_none (Nat.le_of_not_lt above)] at typed
  cases typed

theorem operand_eq_ok_iff {program : Program} {op : OpId} {index : Nat} {value : ValueId} :
    program.operand op index = .ok value ↔ (program.operands op)[index]? = some value := by
  unfold operand
  cases (program.operands op)[index]? <;> simp

theorem result_eq_ok_iff {program : Program} {op : OpId} {index : Nat} {result : ValueId} :
    program.result op index = .ok result ↔ (program.results op)[index]? = some result := by
  unfold Program.result
  cases (program.results op)[index]? <;> simp

theorem value_modifyValue (program : Program) (id other : ValueId) (change : Value → Value) :
    (program.modifyValue id change).value other =
      if id = other ∧ other.index < program.values.size then change (program.value other)
      else program.value other := by
  obtain ⟨first⟩ := id
  obtain ⟨second⟩ := other
  simp only [Program.value, Program.modifyValue, Array.getD_eq_getD_getElem?,
    Array.getElem?_modify, ValueId.mk.injEq]
  by_cases same : first = second
  · subst same
    by_cases below : first < program.values.size <;> simp [below]
  · simp [same]

namespace Grows

/-- A program whose tables have no further entries. -/
theorem of_sizes (root : now.root = start.root)
    (operations : now.operations.size = start.operations.size)
    (values : now.values.size = start.values.size) (headers : now.headers.size = start.headers.size)
    (kind_eq : ∀ op, now.kind op = start.kind op)
    (attributes_eq : ∀ op, now.attributes op = start.attributes op)
    (results_eq : ∀ op, start.kind op ≠ .func .func → now.results op = start.results op)
    (origin_eq : ∀ value, (now.value value).origin = (start.value value).origin)
    (torch_result : ∀ value, start.IsResult value → (start.torchTypeOf? value).isSome →
      (now.torchTypeOf? value).isSome)
    (arguments_eq : ∀ block, (now.header block).arguments = (start.header block).arguments) :
    start.Grows allowed now where
  root := root
  operations_le := operations.ge
  kind_eq op _ := kind_eq op
  attributes_eq op _ := attributes_eq op
  results_eq op _ := results_eq op
  kind_new _ new := absurd new.2 (not_lt.mpr (operations ▸ new.1))
  results_new _ new := absurd new.2 (not_lt.mpr (operations ▸ new.1))
  values_le := values.ge
  origin_eq value _ := origin_eq value
  torch_result := torch_result
  headers_le := headers.ge
  arguments_eq block _ := arguments_eq block
  arguments_new _ new := absurd new.2 (not_lt.mpr (headers ▸ new.1))

/-- Changing the tree alone. -/
theorem of_tables (root : now.root = start.root) (operations : now.operations = start.operations)
    (values : now.values = start.values) (headers : now.headers = start.headers) :
    start.Grows allowed now := by
  refine of_sizes root (by rw [operations]) (by rw [values]) (by rw [headers]) ?_ ?_ ?_ ?_ ?_ ?_
  · intro op
    rw [Program.kind, Program.operation, operations, ← Program.operation, ← Program.kind]
  · intro op
    rw [Program.attributes, Program.operation, operations, ← Program.operation, ← Program.attributes]
  · intro op _
    rw [Program.results, Program.operation, operations, ← Program.operation, ← Program.results]
  · intro value
    rw [Program.value, values, ← Program.value]
  · intro value _ torch
    rwa [Program.torchTypeOf?, Program.typeOf?, Program.value, values, ← Program.value,
      ← Program.typeOf?, ← Program.torchTypeOf?]
  · intro block
    rw [Program.header, headers, ← Program.header]

theorem setRegions (program : Program) (op : OpId) (inside : Regions) :
    program.Grows allowed (program.setRegions op inside) := by
  unfold Program.setRegions
  split <;> exact of_tables rfl rfl rfl rfl

/-- Changing what an operation works on, but not what it is. The results of a function only state
types. -/
theorem modifyOperation (program : Program) (id : OpId) {change : Operation → Operation}
    (kind : ∀ operation, (change operation).kind = operation.kind)
    (attributes : ∀ operation, (change operation).attributes = operation.attributes)
    (results : program.kind id ≠ .func .func →
      ∀ operation, (change operation).results = operation.results) :
    program.Grows allowed (program.modifyOperation id change) := by
  refine of_sizes rfl (Array.size_modify ..) rfl rfl ?_ ?_ ?_ (fun _ => rfl) (fun _ _ torch => torch)
    fun _ => rfl
  · intro op
    rw [Program.kind, operation_modifyOperation, Program.kind]
    split
    · exact kind _
    · rfl
  · intro op
    rw [Program.attributes, operation_modifyOperation, Program.attributes]
    split
    · exact attributes _
    · rfl
  · intro op other
    rw [Program.results, operation_modifyOperation, Program.results]
    split
    case isTrue here => exact results (here.1 ▸ other) _
    case isFalse => rfl

/-- Values that nothing introduces. -/
theorem appendValues (program : Program) (added : Array Value) :
    program.Grows allowed { program with values := program.values ++ added } where
  root := rfl
  operations_le := le_rfl
  kind_eq _ _ := rfl
  attributes_eq _ _ := rfl
  results_eq _ _ _ := rfl
  kind_new _ new := absurd new.2 (not_lt.mpr new.1)
  results_new _ new := absurd new.2 (not_lt.mpr new.1)
  values_le := by simp
  origin_eq value below := by
    simp [Program.value, Array.getD, below, Nat.lt_add_right _ below,
      Array.getElem_append_left below]
  torch_result value result torch := by
    simpa [Program.torchTypeOf?, Program.typeOf?, Program.value, Array.getD, result.1,
      Nat.lt_add_right _ result.1, Array.getElem_append_left result.1] using torch
  headers_le := le_rfl
  arguments_eq _ _ := rfl
  arguments_new _ new := absurd new.2 (not_lt.mpr new.1)

/-- Giving a value another type. If an operation that is no call computes the value, that must be a
torch type. -/
theorem setType (program : Program) (id : ValueId) (type : Ty)
    (torch : program.IsResult id → type.torch?.isSome) :
    program.Grows allowed (program.setType id type) := by
  refine of_sizes rfl rfl (Array.size_modify ..) rfl (fun _ => rfl) (fun _ => rfl)
    (fun _ _ => rfl) ?_ ?_ (fun _ => rfl)
  · intro value
    rw [Program.setType, value_modifyValue]
    split <;> rfl
  · intro value result before
    rw [Program.torchTypeOf?, Program.typeOf?, Program.setType, value_modifyValue]
    split
    case isTrue here => exact torch (here.1 ▸ result)
    case isFalse => exact before

end Grows

end Program

/-! ### Building next to an anchor -/

/-- What building next to an anchor starts with. -/
def Program.draft (program : Program) (anchor : OpId) (placement : Placement) : Draft :=
  { program, anchor, placement, namer := program.namerAround anchor }

theorem Change.run_build (anchor : OpId) (step : Build α) (placement : Placement)
    (program : Program) :
    (Change.build anchor step placement).run program =
      ((step.run (program.draft anchor placement)).1,
        (step.run (program.draft anchor placement)).2.finished) := by
  unfold Change.build
  rw [run_bind, Change.run_program]
  dsimp only [Program.draft]
  rcases step.run { program, anchor, placement, namer := program.namerAround anchor } with ⟨_ | _, draft⟩ <;> rfl

/-- Building succeeds if the step does. -/
theorem of_build_eq_ok {op : OpId} {step : Build α} {placement : Placement} {value : α} {program after : Program}
    (run : (Change.build op step placement).run program = (.ok value, after)) :
    ∃ draft, step.run (program.draft op placement) = (.ok value, draft) ∧ draft.finished = after := by
  rw [Change.run_build] at run
  obtain ⟨isValue, rfl⟩ := Prod.mk.inj run
  exact ⟨_, Prod.ext isValue rfl, rfl⟩

namespace Draft.Extends

variable {program : Program} {anchor : OpId} {placement : Placement} {draft : Draft}

theorem tree_eq (built : (program.draft anchor placement).Extends allowed [] draft) :
    draft.program.tree = program.tree := by
  rw [Program.tree, Program.tree, built.program.root, built.program.regions]
  rfl

theorem wellFormed (built : (program.draft anchor placement).Extends allowed [] draft)
    (formed : program.WellFormed) : draft.program.WellFormed := by
  have grown : program.Grows allowed draft.program := built.program.grows
  exact Program.Evolves.wellFormed (.of_count_le grown fun part => by rw [built.tree_eq]) formed

/-- What has been built comes into the tree at the anchor. -/
theorem evolves (built : (program.draft anchor placement).Extends allowed [] draft)
    (formed : program.WellFormed) : program.Evolves allowed draft.finished := by
  have grown : program.Grows allowed draft.program := built.program.grows
  refine ⟨grown.trans (Program.Grows.of_tables rfl rfl rfl rfl), fun part => ?_⟩
  have added := built.count_le part
  have empty : (program.draft anchor placement).built = [] := rfl
  simp only [empty, List.count_nil, Nat.zero_add] at added
  rw [← built.tree_eq]
  refine le_trans ?_ (Nat.add_le_add_left added _)
  unfold Draft.finished
  by_cases isRoot : draft.anchor = draft.program.root
  case pos =>
    simp only [isRoot, (built.wellFormed formed).tree_alterAt_root]
    exact Nat.le_add_right _ _
  case neg =>
    rw [Program.tree_alterAt isRoot]
    refine (built.wellFormed formed).count_alterAt_le fun visit _ _ => ?_
    split
    · simp only [Draft.built, Body.parts_append, Body.parts, List.count_append, List.count_cons]
      omega
    · simp only [Draft.built, Body.parts_append, Body.parts, List.count_append, List.count_cons,
        (Body.parts_reverseOnto _ _).count_eq]
      omega

/-- Building takes nothing out of the tree. -/
theorem mem_finished (built : (program.draft anchor placement).Extends allowed [] draft)
    (formed : program.WellFormed) {part : Part} (member : part ∈ program.tree.parts) :
    part ∈ draft.finished.tree.parts := by
  rw [← built.tree_eq] at member
  unfold Draft.finished
  by_cases isRoot : draft.anchor = draft.program.root
  case pos =>
    simp only [isRoot, (built.wellFormed formed).tree_alterAt_root]
    exact member
  case neg =>
    rw [Program.tree_alterAt isRoot]
    refine (built.wellFormed formed).mem_alterAt member fun visit inside => ?_
    split
    · simp only [Body.parts_append, List.mem_append]
      exact .inr (.inr inside)
    · simp only [Body.parts_append, List.mem_append]
      refine .inr ?_
      simp only [Body.parts, List.mem_cons, List.mem_append,
        (Body.parts_reverseOnto _ _).mem_iff] at inside ⊢
      tauto

end Draft.Extends

/-! ### Changes -/

/-- A change under which every well-formed program evolves, whether it succeeds or fails. -/
def Evolving (allowed : OpKind → Prop) (step : Change α) : Prop :=
  ∀ program : Program, program.WellFormed → program.Evolves allowed (step.run program).2

/-- The same for a change at an operation that is in the tree. -/
def EvolvingAt (allowed : OpKind → Prop) (op : OpId) (step : Change α) : Prop :=
  ∀ program : Program, program.WellFormed → op ∈ program.tree.ops →
    program.Evolves allowed (step.run program).2

section Changes

open Program

theorem Evolving.at {step : Change α} (evolving : Evolving allowed step) (op : OpId) :
    EvolvingAt allowed op step :=
  fun program formed _ => evolving program formed

/-- Where a run of the change leads to. -/
theorem Evolving.of_run {step : Change α} (evolving : Evolving allowed step) {program after : Program}
    (formed : program.WellFormed) {outcome : Except Error α}
    (run : step.run program = (outcome, after)) : program.Evolves allowed after := by
  have evolved := evolving program formed
  rwa [run] at evolved

theorem EvolvingAt.of_run {op : OpId} {step : Change α} (evolving : EvolvingAt allowed op step)
    {program after : Program} (formed : program.WellFormed) (present : op ∈ program.tree.ops)
    {outcome : Except Error α} (run : step.run program = (outcome, after)) :
    program.Evolves allowed after := by
  have evolved := evolving program formed present
  rwa [run] at evolved

theorem Evolving.keeps {step : Change α} (evolving : Evolving allowed step) (start : Program) :
    Keeps (fun now => now.WellFormed ∧ start.Evolves allowed now) step := by
  rintro now ⟨formed, evolved⟩
  have next := evolving now formed
  exact ⟨next.wellFormed formed, evolved.trans next⟩

theorem Evolving.of_keeps {step : Change α}
    (keeps : ∀ start : Program, Keeps (fun now => now.WellFormed ∧ start.Evolves allowed now) step) :
    Evolving allowed step :=
  fun program formed => (keeps program program ⟨formed, Evolves.refl program⟩).2

theorem evolving_pure (value : α) : Evolving allowed (pure value) :=
  fun program _ => Evolves.refl program

theorem evolving_ask (question : Program → α) : Evolving allowed (Change.ask question) :=
  fun program _ => Evolves.refl program

theorem evolving_program : Evolving allowed Change.program :=
  fun program _ => Evolves.refl program

theorem evolving_askFor (question : Program → Except Error α) :
    Evolving allowed (Change.askFor question) := by
  intro program _
  rw [Change.run_askFor]
  exact Evolves.refl program

theorem Evolving.bind {step : Change α} {next : α → Change β} (first : Evolving allowed step)
    (second : ∀ value, Evolving allowed (next value)) : Evolving allowed (step >>= next) :=
  .of_keeps fun start => (first.keeps start).bind fun value => (second value).keeps start

theorem Evolving.ite {condition : Prop} [Decidable condition] {first second : Change α}
    (onTrue : Evolving allowed first) (onFalse : Evolving allowed second) :
    Evolving allowed (if condition then first else second) := by
  split
  · exact onTrue
  · exact onFalse

theorem Evolving.forIn {step : α → β → Change (ForInStep β)}
    (each : ∀ item value, Evolving allowed (step item value)) (items : List α) (start : β) :
    Evolving allowed (forIn items start step) :=
  .of_keeps fun program => Keeps.forIn (fun item _ value => (each item value).keeps program) start

theorem evolving_modify {change : Program → Program}
    (evolves : ∀ program : Program, program.WellFormed → program.Evolves allowed (change program)) :
    Evolving allowed (modify change : Change PUnit) :=
  evolves

/-- A change of the tables alone, in which the program only grows. -/
theorem evolving_modify_tables {change : Program → Program}
    (grows : ∀ program : Program, program.Grows allowed (change program))
    (tree : ∀ program : Program, (change program).tree = program.tree) :
    Evolving allowed (modify change : Change PUnit) :=
  fun program _ => .of_count_le (grows program) fun part => by rw [run_modify, tree]

theorem evolving_setType (value : ValueId) (type : TorchType) :
    Evolving allowed (modify (·.setType value (.torch type)) : Change PUnit) :=
  evolving_modify_tables (fun program => Grows.setType program value _ fun _ => rfl) fun _ => rfl

theorem grows_setUse (program : Program) (use : Use) (value : ValueId) :
    program.Grows allowed (program.setUse use value) :=
  Grows.modifyOperation program use.op (fun _ => rfl) (fun _ => rfl) fun _ _ => rfl

theorem evolving_setUse (use : Use) (value : ValueId) :
    Evolving allowed (modify (·.setUse use value) : Change PUnit) :=
  evolving_modify_tables (fun program => grows_setUse program use value) fun _ => rfl

theorem grows_setUses (uses : List Use) (value : ValueId) (program : Program) :
    program.Grows allowed (uses.foldl (fun changed use => changed.setUse use value) program) := by
  induction uses generalizing program with
  | nil => exact Grows.refl program
  | cons use uses ih => exact (grows_setUse program use value).trans (ih _)

theorem tree_setUses (uses : List Use) (value : ValueId) (program : Program) :
    (uses.foldl (fun changed use => changed.setUse use value) program).tree = program.tree := by
  induction uses generalizing program with
  | nil => rfl
  | cons use uses ih => exact ih (program.setUse use value)

theorem grows_replaceUses (program : Program) (old new : ValueId) :
    program.Grows allowed (program.replaceUses old new) :=
  grows_setUses (program.usesOf old) new program

theorem tree_replaceUses (program : Program) (old new : ValueId) :
    (program.replaceUses old new).tree = program.tree :=
  tree_setUses (program.usesOf old) new program

theorem evolving_replaceUses (old new : ValueId) :
    Evolving allowed (modify (·.replaceUses old new) : Change PUnit) :=
  evolving_modify_tables (grows_replaceUses · old new) (tree_replaceUses · old new)

theorem run_expectPlace_snd (op : OpId) (action : String) (program : Program) :
    ((Change.expectPlace op action).run program).2 = program := by
  unfold Change.expectPlace
  rw [run_bind, Change.run_program]
  simp only []
  split
  · rfl
  · split <;> rfl

theorem evolving_expectPlace (op : OpId) (action : String) :
    Evolving allowed (Change.expectPlace op action) := by
  intro program _
  rw [run_expectPlace_snd]
  exact Evolves.refl program

/-- What stands at an operation may be replaced by nothing more than what has been there. -/
theorem evolves_alterAt {program : Program} (formed : program.WellFormed) {op : OpId}
    {change : Regions → Body → Body}
    (le : ∀ visit, program.visit? op = some visit → program.regionsOf op = visit.regions → ∀ part,
      (change visit.regions visit.rest).parts.count part ≤
        (Body.cons op visit.regions visit.rest).parts.count part) :
    program.Evolves allowed (program.alterAt op change) := by
  refine .of_count_le (Grows.of_tables rfl rfl rfl rfl) fun part => ?_
  by_cases isRoot : op = program.root
  case pos => rw [isRoot, formed.tree_alterAt_root]
  case neg =>
    rw [tree_alterAt isRoot]
    have bound := formed.count_alterAt_le (fun visit found regions =>
      (le visit found regions part).trans (Nat.le_add_right _ 0))
    exact bound

theorem evolves_keep (program : Program) (op : OpId) (inside : Regions) :
    program.Evolves allowed (program.keep op inside) := by
  cases inside with
  | nil => exact Evolves.refl program
  | cons blocks rest => exact .of_count_le (Grows.of_tables rfl rfl rfl rfl) fun _ => le_rfl

/-- Taking an operation out of the tree, with what is inside it. -/
theorem evolving_erase (op : OpId) : Evolving allowed (Change.erase op) := by
  refine (evolving_expectPlace op _).bind fun _ => evolving_modify fun program formed => ?_
  refine (evolves_alterAt formed fun visit _ _ part => ?_).trans (evolves_keep _ op _)
  rw [Body.parts, List.count_cons, List.count_append]
  omega

theorem evolving_supersede (op : OpId) (value : ValueId) :
    Evolving allowed (Change.supersede op value) :=
  (evolving_askFor _).bind fun result => (evolving_replaceUses result value).bind fun _ =>
    evolving_erase op

theorem evolving_supersedeAll (op : OpId) (values : List ValueId) :
    Evolving allowed (Change.supersedeAll op values) := by
  refine (evolving_ask _).bind fun results => ?_
  refine (Evolving.forIn (fun pair _ => ?_) _ _).bind fun _ => evolving_erase op
  exact (evolving_replaceUses pair.1 pair.2).bind fun _ => evolving_pure _

/-- Building next to an anchor. -/
theorem evolving_build {step : Build α} (builds : Builds allowed step) (anchor : OpId)
    (placement : Placement) : Evolving allowed (Change.build anchor step placement) := by
  intro program formed
  rw [Change.run_build]
  have built := builds (program.draft anchor placement)
  exact built.evolves formed

end Changes

end TensorIR
