import TensorIR.Proofs.Execution.Scope

/-!
# Visible operands

The search for violations walks through the tree with the values that are visible on the way. It finds
nothing exactly if all operands are visible where they are used, operations that end a block stand last,
and every operation keeps the rule of its kind.

## Main definitions

* `Body.Visible`, `Blocks.Visible`, `Regions.Visible` — operands are visible where they are used
* `Program.Keeps` — an operation stands where it may and keeps its rule

## Main results

* `Program.verify_iff` — what it means that a program is valid
-/

namespace TensorIR

variable {program : Program} {symbols : SymbolTable} {value : ValueId}

/-- The results of the operations in a block. -/
def Body.results (program : Program) : Body → List ValueId
  | .nil => []
  | .cons op _ rest => program.results op ++ Body.results program rest

mutual

/-- The operands in a block and inside it are visible where they are used. -/
def Body.Visible (program : Program) (seen : ValueId → Prop) : Body → Prop
  | .nil => True
  | .cons op regions rest =>
    (∀ operand ∈ program.operands op, seen operand) ∧ Regions.Visible program seen regions ∧
      Body.Visible program (fun value => value ∈ program.results op ∨ seen value) rest

/-- The operands in blocks are visible. A block sees what the blocks before it introduce. -/
def Blocks.Visible (program : Program) (seen : ValueId → Prop) : Blocks → Prop
  | .nil => True
  | .cons block body rest =>
    Body.Visible program (fun value => value ∈ (program.header block).arguments ∨ seen value) body ∧
      Blocks.Visible program (fun value => value ∈ body.results program ∨
        value ∈ (program.header block).arguments ∨ seen value) rest

/-- The operands inside regions are visible. -/
def Regions.Visible (program : Program) (seen : ValueId → Prop) : Regions → Prop
  | .nil => True
  | .cons blocks rest => Blocks.Visible program seen blocks ∧ Regions.Visible program seen rest

end

/-- The operation stands where it may, with the given operations behind it, and keeps its rule. -/
def Program.Keeps (program : Program) (symbols : SymbolTable) (op : OpId) (rest : Body) : Prop :=
  ((program.kind op).isTerminator = true → rest.isEmpty = true) ∧ program.verifyOp symbols op = .ok ()

/-! ### The search for violations -/

theorem Program.invisibleOperands_eq_nil {visible : List ValueId} {op : OpId} :
    program.invisibleOperands visible op = [] ↔ ∀ operand ∈ program.operands op, operand ∈ visible := by
  refine ⟨Program.mem_of_invisibleOperands, fun shown => List.filterMap_eq_nil_iff.mpr ?_⟩
  rintro ⟨operand, index⟩ member
  dsimp only
  rw [if_pos]
  exact List.contains_iff_mem.mpr (shown operand (List.mem_of_getElem? (List.mem_zipIdx_iff_getElem?.mp member)))

theorem Program.keeps_iff {op : OpId} {rest : Body} : program.Keeps symbols op rest ↔
    program.misplacedTerminator op rest = [] ∧ program.brokenRule symbols op = [] := by
  have stands : program.misplacedTerminator op rest = [] ↔
      ((program.kind op).isTerminator = true → rest.isEmpty = true) := by
    unfold Program.misplacedTerminator
    split <;> simp_all
  have lawful : program.brokenRule symbols op = [] ↔ program.verifyOp symbols op = .ok () := by
    unfold Program.brokenRule
    split <;> simp_all
  rw [stands, lawful, Program.Keeps]

theorem Body.mem_diagnostics_snd {visible : List ValueId} (body : Body) :
    value ∈ (body.diagnostics program symbols visible).2 ↔ value ∈ body.results program ∨ value ∈ visible := by
  fun_induction Body.results program body generalizing visible with
  | case1 => simp [Body.diagnostics]
  | case2 op regions rest ih =>
    rw [Body.diagnostics, ih, List.mem_append, List.mem_append, or_assoc, or_left_comm]

mutual

/-- A block has no violations. -/
theorem Body.diagnostics_eq_nil {visible : List ValueId} (block : Option BlockId) (parent : Option OpId)
    (depth : Nat) : (body : Body) → ((body.diagnostics program symbols visible).1 = [] ↔
      body.Visible program (· ∈ visible) ∧
        ∀ visit ∈ body.visits block parent depth, program.Keeps symbols visit.op visit.rest)
  | .nil => by simp [Body.diagnostics, Body.Visible, Body.visits]
  | .cons op regions rest => by
    simp only [Body.diagnostics, List.append_eq_nil_iff, Program.invisibleOperands_eq_nil,
      Regions.diagnostics_eq_nil op (depth + 1) regions, Body.diagnostics_eq_nil block parent depth rest,
      Body.Visible, Body.visits, List.mem_cons, List.mem_append, or_imp, forall_and, forall_eq,
      Program.keeps_iff]
    tauto

theorem Blocks.diagnostics_eq_nil {visible : List ValueId} (parent : OpId) (depth : Nat) :
    (blocks : Blocks) → (blocks.diagnostics program symbols visible = [] ↔
      blocks.Visible program (· ∈ visible) ∧
        ∀ visit ∈ blocks.visits parent depth, program.Keeps symbols visit.op visit.rest)
  | .nil => by simp [Blocks.diagnostics, Blocks.Visible, Blocks.visits]
  | .cons block body rest => by
    simp only [Blocks.diagnostics, List.append_eq_nil_iff, Blocks.diagnostics_eq_nil parent depth rest,
      Body.diagnostics_eq_nil (some block) (some parent) depth body, Blocks.Visible, Blocks.visits,
      Body.mem_diagnostics_snd, List.mem_append, or_imp, forall_and]
    tauto

theorem Regions.diagnostics_eq_nil {visible : List ValueId} (parent : OpId) (depth : Nat) :
    (regions : Regions) → (regions.diagnostics program symbols visible = [] ↔
      regions.Visible program (· ∈ visible) ∧
        ∀ visit ∈ regions.visits parent depth, program.Keeps symbols visit.op visit.rest)
  | .nil => by simp [Regions.diagnostics, Regions.Visible, Regions.visits]
  | .cons blocks rest => by
    simp only [Regions.diagnostics, List.append_eq_nil_iff, Blocks.diagnostics_eq_nil parent depth blocks,
      Regions.diagnostics_eq_nil parent depth rest, Regions.Visible, Regions.visits, List.mem_append, or_imp,
      forall_and]
    tauto

end

mutual

/-- Where all operands are visible, nothing is reported but misplaced terminators and broken rules. -/
theorem Body.of_mem_diagnostics {visible : List ValueId} {report : Diagnostic} (block : Option BlockId)
    (parent : Option OpId) (depth : Nat) : (body : Body) → body.Visible program (· ∈ visible) →
      report ∈ (body.diagnostics program symbols visible).1 → ∃ visit ∈ body.visits block parent depth,
        report ∈ program.misplacedTerminator visit.op visit.rest ∨ report ∈ program.brokenRule symbols visit.op
  | .nil, _, reported => by cases reported
  | .cons op regions rest, ⟨shown, inside, behind⟩, reported => by
    simp only [Body.diagnostics, Program.invisibleOperands_eq_nil.mpr shown, List.nil_append, List.mem_append,
      or_assoc] at reported
    rcases reported with misplaced | inner | broken | later
    · exact ⟨_, List.mem_cons_self, .inl misplaced⟩
    · obtain ⟨visit, member, causes⟩ := Regions.of_mem_diagnostics op (depth + 1) regions inside inner
      exact ⟨visit, List.mem_cons_of_mem _ (List.mem_append_left _ member), causes⟩
    · exact ⟨_, List.mem_cons_self, .inr broken⟩
    · simp only [← List.mem_append] at behind
      obtain ⟨visit, member, causes⟩ := Body.of_mem_diagnostics block parent depth rest behind later
      exact ⟨visit, List.mem_cons_of_mem _ (List.mem_append_right _ member), causes⟩

theorem Blocks.of_mem_diagnostics {visible : List ValueId} {report : Diagnostic} (parent : OpId) (depth : Nat) :
    (blocks : Blocks) → blocks.Visible program (· ∈ visible) → report ∈ blocks.diagnostics program symbols visible →
      ∃ visit ∈ blocks.visits parent depth,
        report ∈ program.misplacedTerminator visit.op visit.rest ∨ report ∈ program.brokenRule symbols visit.op
  | .nil, _, reported => by cases reported
  | .cons block body rest, ⟨inside, behind⟩, reported => by
    simp only [← List.mem_append] at inside
    have seen : (fun value => value ∈ body.results program ∨ value ∈ (program.header block).arguments ∨ value ∈ visible) =
        (· ∈ (body.diagnostics program symbols ((program.header block).arguments ++ visible)).2) :=
      funext fun value => propext (by rw [Body.mem_diagnostics_snd, List.mem_append])
    rcases List.mem_append.mp reported with inner | later
    · obtain ⟨visit, member, causes⟩ := Body.of_mem_diagnostics (some block) (some parent) depth body inside inner
      exact ⟨visit, List.mem_append_left _ member, causes⟩
    · obtain ⟨visit, member, causes⟩ := Blocks.of_mem_diagnostics parent depth rest (seen ▸ behind) later
      exact ⟨visit, List.mem_append_right _ member, causes⟩

theorem Regions.of_mem_diagnostics {visible : List ValueId} {report : Diagnostic} (parent : OpId) (depth : Nat) :
    (regions : Regions) → regions.Visible program (· ∈ visible) → report ∈ regions.diagnostics program symbols visible →
      ∃ visit ∈ regions.visits parent depth,
        report ∈ program.misplacedTerminator visit.op visit.rest ∨ report ∈ program.brokenRule symbols visit.op
  | .nil, _, reported => by cases reported
  | .cons blocks rest, ⟨inside, behind⟩, reported => by
    rcases List.mem_append.mp reported with inner | later
    · obtain ⟨visit, member, causes⟩ := Blocks.of_mem_diagnostics parent depth blocks inside inner
      exact ⟨visit, List.mem_append_left _ member, causes⟩
    · obtain ⟨visit, member, causes⟩ := Regions.of_mem_diagnostics parent depth rest behind later
      exact ⟨visit, List.mem_append_right _ member, causes⟩

end

/-- A program is valid if its symbols do not contradict, all operands are visible, and all operations stand
where they may and keep their rules. -/
theorem Program.verify_iff : program.verify = .ok () ↔ ∃ symbols, program.symbolTable = .ok symbols ∧
    program.tree.Visible program (fun _ => False) ∧
      ∀ visit ∈ program.visits, program.Keeps symbols visit.op visit.rest := by
  have each (symbols : SymbolTable) : (program.tree.diagnostics program symbols []).1 = [] ↔
      program.tree.Visible program (fun _ => False) ∧
        ∀ visit ∈ program.visits, program.Keeps symbols visit.op visit.rest := by
    rw [program.tree.diagnostics_eq_nil none none 0]
    simp only [List.not_mem_nil, Program.visits]
  constructor
  · intro valid
    obtain ⟨symbols, table, none⟩ := Program.diagnostics_of_verify valid
    exact ⟨symbols, table, (each symbols).mp none⟩
  · rintro ⟨symbols, table, holds⟩
    rw [Program.verify, Program.diagnostics, table]
    dsimp only
    rw [(each symbols).mpr holds]

end TensorIR
