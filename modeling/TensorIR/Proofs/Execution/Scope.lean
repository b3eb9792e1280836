import TensorIR.Proofs.Execution.Bodies

/-!
# Values that a run of a function can see

A run knows the values that the function introduces and no others, so only these are followed. In a
valid program an operation that uses the result of another operation of the function stands behind it,
which is where the search for uses looks.

## Main definitions

* `Body.Closed` — the operands of what a run can come to are visible there
* `Program.Scoped` — the bodies of all functions are closed
* `Program.Formed` — nothing about the tree and the tables is out of order
* `Program.Tabled` — what the tables mention has an entry

## Main results

* `Body.uses_after` — uses of a result stand behind the operation that computes it
* `Program.scoped_of_verify` — valid programs are closed
-/

namespace TensorIR

variable {program : Program} {symbols : SymbolTable} {op : OpId}

/-- The values that a part of the tree gives. -/
def Program.given (program : Program) : Part → List ValueId
  | .op op => program.results op
  | .block block => (program.header block).arguments

mutual

/-- The operands of the operations in a block are visible, as far as a run can come to them. -/
def Body.Closed (program : Program) (visible : ValueId → Prop) : Body → Prop
  | .nil => True
  | .cons op regions rest =>
    (∀ operand ∈ program.operands op, visible operand) ∧ Regions.Closed program visible regions ∧
      Body.Closed program (fun value => value ∈ program.results op ∨ visible value) rest

/-- The operands in the entry block of a region are visible. -/
def Blocks.Closed (program : Program) (visible : ValueId → Prop) : Blocks → Prop
  | .nil => True
  | .cons block body _ =>
    Body.Closed program (fun value => value ∈ (program.header block).arguments ∨ visible value) body

/-- The operands in the entry blocks of regions are visible. -/
def Regions.Closed (program : Program) (visible : ValueId → Prop) : Regions → Prop
  | .nil => True
  | .cons blocks rest => Blocks.Closed program visible blocks ∧ Regions.Closed program visible rest

end

/-! ### Uses -/

section Uses

variable {visible : ValueId → Prop} {user : OpId} {value : ValueId}

mutual

/-- What uses a result that is not visible at first stands behind the operation that computes it. -/
theorem Body.uses_after (isUse : value ∈ program.operands user) (block : Option BlockId)
    (parent : Option OpId) (depth : Nat) {visible : ValueId → Prop} (hidden : ¬visible value) :
    (body : Body) → body.Closed program visible →
      (∀ part ∈ body.entered, value ∈ program.given part → part = .op op) →
      .op user ∈ body.entered →
        ∃ visit ∈ body.visits block parent depth, visit.op = op ∧ user ∈ visit.rest.ops
  | .nil, _, _, member => absurd member List.not_mem_nil
  | .cons head regions rest, closed, only, member => by
    obtain ⟨operands, inside, later⟩ := closed
    rw [Body.entered] at member only
    rcases List.mem_cons.mp member with same | inner
    · cases same
      exact absurd (operands value isUse) hidden
    rcases List.mem_append.mp inner with within | behind
    · obtain ⟨visit, visited, isOp, follows⟩ :=
        Regions.uses_after isUse head (depth + 1) hidden regions inside
          (fun part member => only part (List.mem_cons_of_mem _ (List.mem_append_left _ member))) within
      exact ⟨visit, List.mem_cons_of_mem _ (List.mem_append_left _ visited), isOp, follows⟩
    by_cases isHead : value ∈ program.results head
    · cases only (.op head) List.mem_cons_self isHead
      have user_mem : user ∈ rest.ops := Body.op_mem_parts.mp (rest.entered_sublist.subset behind)
      exact ⟨_, List.mem_cons_self, rfl, user_mem⟩
    · obtain ⟨visit, visited, isOp, follows⟩ :=
        Body.uses_after isUse block parent depth (not_or.mpr ⟨isHead, hidden⟩) rest later
          (fun part member => only part (List.mem_cons_of_mem _ (List.mem_append_right _ member)))
          behind
      exact ⟨visit, List.mem_cons_of_mem _ (List.mem_append_right _ visited), isOp, follows⟩

theorem Blocks.uses_after (isUse : value ∈ program.operands user) (parent : OpId) (depth : Nat)
    {visible : ValueId → Prop} (hidden : ¬visible value) :
    (blocks : Blocks) → blocks.Closed program visible →
      (∀ part ∈ blocks.entered, value ∈ program.given part → part = .op op) →
      .op user ∈ blocks.entered →
        ∃ visit ∈ blocks.visits parent depth, visit.op = op ∧ user ∈ visit.rest.ops
  | .nil, _, _, member => absurd member List.not_mem_nil
  | .cons block body rest, closed, only, member => by
    rw [Blocks.entered] at member only
    have notArgument : value ∉ (program.header block).arguments := fun isArgument => by
      cases only (.block block) List.mem_cons_self isArgument
    rcases List.mem_cons.mp member with same | within
    · cases same
    obtain ⟨visit, visited, isOp, follows⟩ :=
      Body.uses_after isUse (some block) (some parent) depth (not_or.mpr ⟨notArgument, hidden⟩) body
        closed (fun part member => only part (List.mem_cons_of_mem _ member)) within
    exact ⟨visit, List.mem_append_left _ visited, isOp, follows⟩

theorem Regions.uses_after (isUse : value ∈ program.operands user) (parent : OpId) (depth : Nat)
    {visible : ValueId → Prop} (hidden : ¬visible value) :
    (regions : Regions) → regions.Closed program visible →
      (∀ part ∈ regions.entered, value ∈ program.given part → part = .op op) →
      .op user ∈ regions.entered →
        ∃ visit ∈ regions.visits parent depth, visit.op = op ∧ user ∈ visit.rest.ops
  | .nil, _, _, member => absurd member List.not_mem_nil
  | .cons blocks rest, closed, only, member => by
    rw [Regions.entered] at member only
    rcases List.mem_append.mp member with within | behind
    · obtain ⟨visit, visited, isOp, follows⟩ :=
        Blocks.uses_after isUse parent depth hidden blocks closed.1
          (fun part member => only part (List.mem_append_left _ member)) within
      exact ⟨visit, List.mem_append_left _ visited, isOp, follows⟩
    · obtain ⟨visit, visited, isOp, follows⟩ :=
        Regions.uses_after isUse parent depth hidden rest closed.2
          (fun part member => only part (List.mem_append_right _ member)) behind
      exact ⟨visit, List.mem_append_right _ visited, isOp, follows⟩

end

end Uses

/-! ### Valid programs -/

theorem Program.mem_of_invisibleOperands {visible : List ValueId}
    (none : program.invisibleOperands visible op = []) :
    ∀ operand ∈ program.operands op, operand ∈ visible := by
  intro operand isOperand
  obtain ⟨index, found⟩ := List.getElem?_of_mem isOperand
  have member : (operand, index) ∈ (program.operands op).zipIdx :=
    List.mem_zipIdx_iff_getElem?.mpr found
  have shown := List.filterMap_eq_nil_iff.mp none _ member
  dsimp only at shown
  split at shown
  case isTrue among => exact List.contains_iff_mem.mp among
  case isFalse => cases shown

mutual

/-- Without violations, operands are visible. -/
theorem Body.closed_of_diagnostics {visible : List ValueId} {shown : ValueId → Prop}
    (shows : ∀ value ∈ visible, shown value) : (body : Body) →
      (body.diagnostics program symbols visible).1 = [] → body.Closed program shown
  | .nil, _ => trivial
  | .cons op regions rest, valid => by
    simp only [Body.diagnostics, List.append_eq_nil_iff] at valid
    obtain ⟨⟨⟨⟨operands, -⟩, inside⟩, -⟩, later⟩ := valid
    refine ⟨fun operand isOperand => shows operand
      (Program.mem_of_invisibleOperands operands operand isOperand),
      Regions.closed_of_diagnostics shows regions inside, ?_⟩
    refine Body.closed_of_diagnostics (fun value member => ?_) rest later
    exact (List.mem_append.mp member).imp_right (shows value)

theorem Blocks.closed_of_diagnostics {visible : List ValueId} {shown : ValueId → Prop}
    (shows : ∀ value ∈ visible, shown value) : (blocks : Blocks) →
      blocks.diagnostics program symbols visible = [] → blocks.Closed program shown
  | .nil, _ => trivial
  | .cons block body rest, valid => by
    simp only [Blocks.diagnostics, List.append_eq_nil_iff] at valid
    refine Body.closed_of_diagnostics (fun value member => ?_) body valid.1
    exact (List.mem_append.mp member).imp_right (shows value)

theorem Regions.closed_of_diagnostics {visible : List ValueId} {shown : ValueId → Prop}
    (shows : ∀ value ∈ visible, shown value) : (regions : Regions) →
      regions.diagnostics program symbols visible = [] → regions.Closed program shown
  | .nil, _ => trivial
  | .cons blocks rest, valid => by
    simp only [Regions.diagnostics, List.append_eq_nil_iff] at valid
    exact ⟨Blocks.closed_of_diagnostics shows blocks valid.1,
      Regions.closed_of_diagnostics shows rest valid.2⟩

end

/-- What the entries of the tables mention has an entry as well, and the results of a function only
state types. -/
structure Program.Tabled (program : Program) : Prop where
  operands : ∀ op, ∀ operand ∈ program.operands op, operand.index < program.values.size
  origins : ∀ value : ValueId, value.index < program.values.size →
    ∀ op, (program.value value).origin = .result op → op.index < program.operations.size
  outputs : ∀ op, program.kind op = .func .func →
    ∀ value ∈ program.results op, (program.value value).origin = .signature

/-- The tree and the tables fit together, and a module is around everything else. -/
structure Program.Formed (program : Program) : Prop extends program.WellFormed, program.Tabled where
  isModule : program.kind program.root = .module

theorem Program.operation_of_size_le (above : program.operations.size ≤ op.index) :
    program.operation op = default := by
  rw [Program.operation, Array.getD_eq_getD_getElem?, Array.getElem?_eq_none above, Option.getD_none]

/-- Only the entries of the tables mention anything. -/
theorem Program.tabled_iff : program.Tabled ↔
    (∀ index < program.operations.size, (∀ operand ∈ program.operands ⟨index⟩,
      operand.index < program.values.size) ∧ (program.kind ⟨index⟩ = .func .func →
        ∀ value ∈ program.results ⟨index⟩, (program.value value).origin = .signature)) ∧
    ∀ index < program.values.size, ∀ op ∈ program.definingOp? ⟨index⟩,
      op.index < program.operations.size := by
  constructor
  · intro tabled
    refine ⟨fun index _ => ⟨tabled.operands ⟨index⟩, tabled.outputs ⟨index⟩⟩, fun index below op found => ?_⟩
    unfold Program.definingOp? at found
    split at found
    case h_1 origin =>
      cases found
      exact tabled.origins ⟨index⟩ below _ origin
    case h_2 => cases found
  · rintro ⟨operations, values⟩
    refine ⟨fun op operand isOperand => ?_, fun value below op origin => ?_, fun op isFunction value among => ?_⟩
    · by_cases below : op.index < program.operations.size
      · exact (operations op.index below).1 operand isOperand
      · rw [Program.operands, Program.operation_of_size_le (Nat.le_of_not_lt below)] at isOperand
        cases isOperand
    · refine values value.index below op ?_
      rw [Program.definingOp?, origin]
      rfl
    · by_cases below : op.index < program.operations.size
      · exact (operations op.index below).2 isFunction value among
      · rw [Program.results, Program.operation_of_size_le (Nat.le_of_not_lt below)] at among
        cases among

instance (program : Program) : Decidable program.Tabled :=
  decidable_of_iff _ Program.tabled_iff.symm

/-- None of the values is introduced by one of the parts. -/
def Program.Apart (program : Program) (visible : List ValueId) (parts : List Part) : Prop :=
  ∀ value ∈ visible, ∀ part ∈ parts, (program.value value).origin ≠ part.origin

/-- What an operation gives is not introduced elsewhere. -/
theorem Program.Tabled.apart_results (tabled : program.Tabled) (knows : program.Knows (.op op))
    {parts : List Part} (absent : .op op ∉ parts) : program.Apart (program.results op) parts := by
  intro value isResult part member same
  by_cases isFunction : program.kind op = .func .func
  · rw [tabled.outputs op isFunction value isResult] at same
    cases part <;> cases same
  · rw [(knows.2 isFunction).origin_eq value isResult] at same
    cases part with
    | op other =>
      cases same
      exact absent member
    | block => cases same

theorem Program.Apart.append {first second : List ValueId} {parts : List Part}
    (one : program.Apart first parts) (two : program.Apart second parts) :
    program.Apart (first ++ second) parts := by
  intro value member
  rcases List.mem_append.mp member with left | right
  · exact one value left
  · exact two value right

theorem Program.Apart.mono {visible : List ValueId} {parts fewer : List Part}
    (apart : program.Apart visible parts) (subset : fewer ⊆ parts) : program.Apart visible fewer :=
  fun value member part among => apart value member part (subset among)

section Entries

variable {function : OpId} {inside : Regions}

/-- What is visible after a block is not introduced by parts that are not in it. -/
theorem Body.apart_after (tabled : program.Tabled) {parts : List Part} {visible : List ValueId}
    (apart : program.Apart visible parts) (body : Body)
    (knows : ∀ part ∈ body.parts, program.Knows part) (absent : ∀ part ∈ body.parts, part ∉ parts) :
    program.Apart (body.diagnostics program symbols visible).2 parts := by
  fun_induction Body.entries body generalizing visible with
  | case1 => exact apart
  | case2 op regions rest ih =>
    have first : Part.op op ∈ (Body.cons op regions rest).parts := List.mem_cons_self
    have behind {part : Part} (member : part ∈ rest.parts) :
        part ∈ (Body.cons op regions rest).parts :=
      List.mem_cons_of_mem _ (List.mem_append_right _ member)
    exact ih ((tabled.apart_results (knows _ first) (absent _ first)).append apart)
      (fun part member => knows part (behind member)) fun part member => absent part (behind member)

/-- Without violations in a block there are none inside its operations, which see only what is
introduced elsewhere. -/
theorem Body.entry_of_diagnostics (body : Body) (tabled : program.Tabled) {visible : List ValueId}
    (nodup : body.parts.Nodup) (knows : ∀ part ∈ body.parts, program.Knows part)
    (apart : program.Apart visible body.parts)
    (valid : (body.diagnostics program symbols visible).1 = [])
    (member : (function, inside) ∈ body.entries) : ∃ seen, program.Apart seen inside.parts ∧
      inside.diagnostics program symbols seen = [] := by
  fun_induction Body.entries body generalizing visible with
  | case1 => cases member
  | case2 op regions rest ih =>
    rw [Body.parts] at nodup apart knows
    obtain ⟨absent, distinct⟩ := List.nodup_cons.mp nodup
    have behind := List.subset_cons_of_subset (.op op) (List.subset_append_right regions.parts rest.parts)
    simp only [Body.diagnostics, List.append_eq_nil_iff] at valid
    rcases List.mem_cons.mp member with same | later
    · cases same
      exact ⟨visible, apart.mono (List.subset_cons_of_subset _ (List.subset_append_left _ _)),
        valid.1.1.2⟩
    · refine ih (List.nodup_append.mp distinct).2.1 (fun part among => knows part (behind among)) ?_
        valid.2 later
      exact (tabled.apart_results (knows _ List.mem_cons_self)
        fun among => absent (List.mem_append_right _ among)).append (apart.mono behind)

theorem Blocks.entry_of_diagnostics (blocks : Blocks) (tabled : program.Tabled) {visible : List ValueId}
    (nodup : blocks.parts.Nodup) (knows : ∀ part ∈ blocks.parts, program.Knows part)
    (apart : program.Apart visible blocks.parts)
    (valid : blocks.diagnostics program symbols visible = [])
    (member : (function, inside) ∈ blocks.entries) : ∃ seen, program.Apart seen inside.parts ∧
      inside.diagnostics program symbols seen = [] := by
  fun_induction Blocks.entries blocks generalizing visible with
  | case1 => cases member
  | case2 block body rest ih =>
    rw [Blocks.parts] at nodup apart knows
    obtain ⟨absent, distinct⟩ := List.nodup_cons.mp nodup
    obtain ⟨bodyNodup, restNodup, disjoint⟩ := List.nodup_append.mp distinct
    have within := List.subset_cons_of_subset (.block block) (List.subset_append_left body.parts rest.parts)
    have behind := List.subset_cons_of_subset (.block block) (List.subset_append_right body.parts rest.parts)
    simp only [Blocks.diagnostics, List.append_eq_nil_iff] at valid
    -- The arguments of the block are introduced by the block alone.
    have arguments {parts : List Part} (elsewhere : .block block ∉ parts) :
        program.Apart (program.header block).arguments parts := by
      intro value isArgument part among same
      rw [(knows _ List.mem_cons_self).2.origin_eq value isArgument] at same
      cases part with
      | op => cases same
      | block other =>
        cases same
        exact elsewhere among
    have inBody := (arguments fun among => absent (List.mem_append_left _ among)).append
      (apart.mono within)
    rcases List.mem_append.mp member with here | later
    · exact body.entry_of_diagnostics tabled bodyNodup (fun part among => knows part (within among))
        inBody valid.1 here
    · refine ih restNodup (fun part among => knows part (behind among)) ?_ valid.2 later
      refine body.apart_after tabled ?_ (fun part among => knows part (within among))
        fun part among other => disjoint part among part other rfl
      exact (arguments fun among => absent (List.mem_append_right _ among)).append (apart.mono behind)

theorem Regions.entry_of_diagnostics (regions : Regions) (tabled : program.Tabled)
    {visible : List ValueId} (nodup : regions.parts.Nodup)
    (knows : ∀ part ∈ regions.parts, program.Knows part) (apart : program.Apart visible regions.parts)
    (valid : regions.diagnostics program symbols visible = [])
    (member : (function, inside) ∈ regions.entries) : ∃ seen, program.Apart seen inside.parts ∧
      inside.diagnostics program symbols seen = [] := by
  fun_induction Regions.entries regions with
  | case1 => cases member
  | case2 blocks rest ih =>
    rw [Regions.parts] at nodup apart knows
    obtain ⟨blocksNodup, restNodup, -⟩ := List.nodup_append.mp nodup
    simp only [Regions.diagnostics, List.append_eq_nil_iff] at valid
    rcases List.mem_append.mp member with here | later
    · exact blocks.entry_of_diagnostics tabled blocksNodup
        (fun part among => knows part (List.mem_append_left _ among))
        (apart.mono (List.subset_append_left _ _)) valid.1 here
    · exact ih restNodup (fun part among => knows part (List.mem_append_right _ among))
        (apart.mono (List.subset_append_right _ _)) valid.2 later

end Entries

/-! ### Functions -/

/-- One of the parts introduces the value. -/
def Program.Inside (program : Program) (parts : List Part) (value : ValueId) : Prop :=
  ∃ part ∈ parts, program.Introduces part value

/-- An operation stands at the top of the program, with regions of which the first starts with a block. -/
def Program.StartsWith (program : Program) (function : OpId) (block : BlockId) (body : Body) : Prop :=
  ∃ inside, (function, inside) ∈ program.regions.entries ∧ inside.entryBlock? = some (block, body)

/-- What a run of a function can come to sees nothing that the function introduces but what has been
introduced before. -/
def Program.Scoped (program : Program) : Prop :=
  ∀ function block body, program.StartsWith function block body →
    body.Closed program fun value => value ∈ (program.header block).arguments ∨
      ¬program.Inside (.block block :: body.entered) value

/-- The entry block of the first region, with what is around it. -/
theorem Regions.of_entryBlock? {regions : Regions} {block : BlockId} {body : Body}
    (entry : regions.entryBlock? = some (block, body)) :
    ∃ others rest, regions = .cons (.cons block body others) rest := by
  cases regions with
  | nil => cases entry
  | cons blocks rest =>
    cases blocks with
    | nil => cases entry
    | cons first inside others =>
      cases entry
      exact ⟨others, rest, rfl⟩

/-- Without violations in a program there are none in what stands at the top, which sees nothing from
inside. -/
theorem Program.diagnostics_of_entries (formed : program.WellFormed) (tabled : program.Tabled)
    (none : (program.tree.diagnostics program symbols []).1 = []) {function : OpId} {inside : Regions}
    (member : (function, inside) ∈ program.regions.entries) :
    ∃ seen, program.Apart seen inside.parts ∧ inside.diagnostics program symbols seen = [] := by
  have regions : program.regions.diagnostics program symbols [] = [] := by
    simp only [Program.tree, Body.diagnostics, List.append_eq_nil_iff] at none
    exact none.1.1.2
  have knows (part : Part) (among : part ∈ program.regions.parts) : program.Knows part :=
    formed.knows part (List.mem_cons_of_mem _ (List.mem_append_left _ among))
  exact Regions.entry_of_diagnostics program.regions tabled formed.regions_nodup knows
    (fun _ among => absurd among List.not_mem_nil) regions member

/-- The functions of a valid program are closed. -/
theorem Program.scoped_of_verify (formed : program.WellFormed) (tabled : program.Tabled)
    (valid : program.verify = .ok ()) : program.Scoped := by
  rintro function block body ⟨inside, member, entry⟩
  obtain ⟨symbols, -, none⟩ := Program.diagnostics_of_verify valid
  obtain ⟨seen, apart, nothing⟩ := Program.diagnostics_of_entries formed tabled none member
  obtain ⟨others, rest, rfl⟩ := Regions.of_entryBlock? entry
  refine (Regions.closed_of_diagnostics (fun value isSeen => ?_) _ nothing).1
  rintro ⟨part, among, -, origin⟩
  refine apart value isSeen part (List.mem_append_left _ ?_) origin
  exact (Blocks.entered_sublist (.cons block body others)).subset among

end TensorIR
