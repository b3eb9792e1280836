import TensorIR.Proofs.Refinement.Sight
import TensorIR.Proofs.Scalar.Built
import TensorIR.Proofs.Visibility

/-!
# What is visible around an operation

Operations put next to an operation may use what is visible there. The results that they add only make
more visible behind them, so that everything else in the program sees what it saw before.

## Main definitions

* `Body.Sees` — a value is visible wherever an operation stands
* `Program.IsVisibleAt` — a value is visible at an operation of the program
* `Program.Reads` — a part of the tree uses and gives the same values in another program

## Main results

* `Body.visible_append` — operations one after the other
* `Body.visible_congr`, `Body.sees_congr` — only what the parts of the tree use and give matters
* `Body.visible_altered` — a change at one operation that is in order in its surroundings
-/

namespace TensorIR

variable {program other : Program} {seen wider : ValueId → Prop} {value : ValueId} {anchor : OpId}

mutual

/-- Wherever the operation stands in the block or inside it, the value is visible. -/
def Body.Sees (program : Program) (anchor : OpId) (value : ValueId) (seen : Prop) : Body → Prop
  | .nil => True
  | .cons op regions rest =>
    (op = anchor → seen) ∧ Regions.Sees program anchor value seen regions ∧
      Body.Sees program anchor value (value ∈ program.results op ∨ seen) rest

/-- Wherever the operation stands inside blocks, the value is visible. -/
def Blocks.Sees (program : Program) (anchor : OpId) (value : ValueId) (seen : Prop) : Blocks → Prop
  | .nil => True
  | .cons block body rest =>
    Body.Sees program anchor value (value ∈ (program.header block).arguments ∨ seen) body ∧
      Blocks.Sees program anchor value
        (value ∈ body.results program ∨ value ∈ (program.header block).arguments ∨ seen) rest

/-- Wherever the operation stands inside regions, the value is visible. -/
def Regions.Sees (program : Program) (anchor : OpId) (value : ValueId) (seen : Prop) : Regions → Prop
  | .nil => True
  | .cons blocks rest =>
    Blocks.Sees program anchor value seen blocks ∧ Regions.Sees program anchor value seen rest

end

/-- The value is visible at the operation. -/
def Program.IsVisibleAt (program : Program) (anchor : OpId) (value : ValueId) : Prop :=
  program.tree.Sees program anchor value False

/-- A part of the tree gives the same values in another program, and an operation uses the same. -/
def Program.Reads (program other : Program) (part : Part) : Prop :=
  other.given part = program.given part ∧
    ∀ op, part = .op op → other.operands op = program.operands op

/-! ### More values that are visible -/

/-- Operands stay visible where more is visible. -/
theorem Body.visible_widen (more : ∀ value, seen value → wider value) (body : Body)
    (visible : body.Visible program seen) : body.Visible program wider :=
  body.visible_mono (fun value shown => .inr (more value shown)) (.of_given (fun _ _ => rfl) fun _ _ _ => .inl)
    visible

theorem Blocks.visible_widen (more : ∀ value, seen value → wider value) (blocks : Blocks)
    (visible : blocks.Visible program seen) : blocks.Visible program wider :=
  blocks.visible_mono (fun value shown => .inr (more value shown)) (.of_given (fun _ _ => rfl) fun _ _ _ => .inl)
    visible

/-! ### Operations one after the other -/

@[simp]
theorem Body.results_append (first second : Body) :
    (first.append second).results program = first.results program ++ second.results program := by
  fun_induction Body.append first second with
  | case1 => rfl
  | case2 op regions rest _ ih => rw [Body.results, ih, Body.results, List.append_assoc]

/-- The operations behind others see what those compute. -/
theorem Body.visible_append (first second : Body) : (first.append second).Visible program seen ↔
    first.Visible program seen ∧
      second.Visible program fun value => value ∈ first.results program ∨ seen value := by
  fun_induction Body.append first second generalizing seen with
  | case1 => simp [Body.Visible, Body.results]
  | case2 op regions rest _ ih =>
    simp only [Body.Visible, ih, Body.results, List.mem_append, and_assoc, or_assoc]
    simp only [or_left_comm]

/-! ### Other programs -/

/-- Extending a program leaves alone what the parts that it knows use and give. -/
theorem Program.Extends.reads {allowed : OpKind → Prop} (reached : program.Extends allowed other) {part : Part}
    (known : program.Knows part) : program.Reads other part := by
  cases part with
  | op op =>
    have same := reached.operation_eq op known.1
    constructor
    · simp only [Program.given, Program.results, same]
    · rintro _ ⟨rfl⟩
      simp only [Program.operands, same]
  | block block =>
    refine ⟨?_, by simp⟩
    simp only [Program.given, reached.header_eq block known.1]

theorem Program.Reads.symm {part : Part} (reads : program.Reads other part) : other.Reads program part :=
  ⟨reads.1.symm, fun op same => (reads.2 op same).symm⟩

theorem Body.visible_of_reads (body : Body) (reads : ∀ part ∈ body.parts, program.Reads other part)
    (visible : body.Visible program seen) : body.Visible other seen := by
  refine body.visible_mono (fun _ => .inr) (.of_given (fun part among => (reads part among).1) ?_) visible
  intro op among operand isOperand
  rw [(reads _ among).2 op rfl] at isOperand
  exact .inl isOperand

/-- Whether operands are visible depends on what the parts of the tree use and give. -/
theorem Body.visible_congr (body : Body) (reads : ∀ part ∈ body.parts, program.Reads other part) :
    body.Visible other seen ↔ body.Visible program seen :=
  ⟨body.visible_of_reads fun part among => (reads part among).symm, body.visible_of_reads reads⟩

mutual

/-- So does what is visible at an operation. -/
theorem Body.sees_congr {seen : Prop} : (body : Body) → (∀ part ∈ body.parts, program.Reads other part) →
    (body.Sees other anchor value seen ↔ body.Sees program anchor value seen)
  | .nil, _ => Iff.rfl
  | .cons op regions rest, reads => by
    rw [Body.parts, List.forall_mem_cons, List.forall_mem_append] at reads
    have results : other.results op = program.results op := reads.1.1
    rw [Body.Sees, Body.Sees, results, Regions.sees_congr regions reads.2.1, Body.sees_congr rest reads.2.2]

theorem Blocks.sees_congr {seen : Prop} : (blocks : Blocks) → (∀ part ∈ blocks.parts, program.Reads other part) →
    (blocks.Sees other anchor value seen ↔ blocks.Sees program anchor value seen)
  | .nil, _ => Iff.rfl
  | .cons block body rest, reads => by
    rw [Blocks.parts, List.forall_mem_cons, List.forall_mem_append] at reads
    have arguments : (other.header block).arguments = (program.header block).arguments := reads.1.1
    have given := body.results_congr fun part among => (reads.2.1 part among).1
    rw [Blocks.Sees, Blocks.Sees, arguments, given, Body.sees_congr body reads.2.1,
      Blocks.sees_congr rest reads.2.2]

theorem Regions.sees_congr {seen : Prop} : (regions : Regions) →
    (∀ part ∈ regions.parts, program.Reads other part) →
      (regions.Sees other anchor value seen ↔ regions.Sees program anchor value seen)
  | .nil, _ => Iff.rfl
  | .cons blocks rest, reads => by
    rw [Regions.parts, List.forall_mem_append] at reads
    rw [Regions.Sees, Regions.Sees, Blocks.sees_congr blocks reads.1, Regions.sees_congr rest reads.2]

end

/-- Moving operations about leaves alone what each of them uses and gives. -/
theorem Program.reads_alterAt (program : Program) (op : OpId) (change : Regions → Body → Body) (part : Part) :
    program.Reads (program.alterAt op change) part := by
  cases part <;> exact ⟨rfl, fun _ _ => rfl⟩

/-! ### A change at one operation -/

/-- A change of an operation and of those behind it is in order wherever the values that are visible at the
operation are visible, and computes no fewer values than before. -/
structure Program.Suits (program : Program) (shown : ValueId → Prop) (anchor : OpId)
    (change : Regions → Body → Body) : Prop where
  visible : ∀ {seen : ValueId → Prop} {regions : Regions} {rest : Body},
    (∀ value, shown value → seen value) → (Body.cons anchor regions rest).Visible program seen →
      (change regions rest).Visible program seen
  results : ∀ (regions : Regions) (rest : Body),
    ∀ value ∈ (Body.cons anchor regions rest).results program, value ∈ (change regions rest).results program

section Alteration

variable {shown : ValueId → Prop} {change : Regions → Body → Body}

/-- A block computes no fewer values than before the change. -/
theorem Body.mem_results_altered (suits : program.Suits shown anchor change) : (body : Body) →
    ∀ value ∈ body.results program, value ∈ (body.alterAt anchor change).results program
  | .nil, _, member => member
  | .cons op regions rest, value, member => by
    rw [Body.alterAt]
    split
    case isTrue here =>
      subst here
      exact suits.results regions rest value member
    case isFalse elsewhere =>
      rw [Body.results, List.mem_append] at member ⊢
      exact member.imp_right (Body.mem_results_altered suits rest value)

mutual

/-- Operands stay visible after a change that fits where the operation stands. -/
theorem Body.visible_altered (suits : program.Suits shown anchor change) {seen : ValueId → Prop} :
    (body : Body) → body.Visible program seen →
      (∀ value, shown value → body.Sees program anchor value (seen value)) →
        (body.alterAt anchor change).Visible program seen
  | .nil, _, _ => trivial
  | .cons op regions rest, visible, sees => by
    rw [Body.alterAt]
    split
    case isTrue here =>
      subst here
      exact suits.visible (fun value among => (sees value among).1 rfl) visible
    case isFalse elsewhere =>
      exact ⟨visible.1, Regions.visible_altered suits regions visible.2.1 fun value among => (sees value among).2.1,
        Body.visible_altered suits rest visible.2.2 fun value among => (sees value among).2.2⟩

theorem Blocks.visible_altered (suits : program.Suits shown anchor change) {seen : ValueId → Prop} :
    (blocks : Blocks) → blocks.Visible program seen →
      (∀ value, shown value → blocks.Sees program anchor value (seen value)) →
        (blocks.alterAt anchor change).Visible program seen
  | .nil, _, _ => trivial
  | .cons block body rest, ⟨inside, behind⟩, sees => by
    -- The blocks behind see what this one computes, which is no less after the change.
    have later := Blocks.visible_altered suits rest behind fun value among => (sees value among).2
    exact ⟨Body.visible_altered suits body inside fun value among => (sees value among).1,
      Blocks.visible_widen (fun value => Or.imp_left (body.mem_results_altered suits value)) _ later⟩

theorem Regions.visible_altered (suits : program.Suits shown anchor change) {seen : ValueId → Prop} :
    (regions : Regions) → regions.Visible program seen →
      (∀ value, shown value → regions.Sees program anchor value (seen value)) →
        (regions.alterAt anchor change).Visible program seen
  | .nil, _, _ => trivial
  | .cons blocks rest, ⟨first, others⟩, sees =>
    ⟨Blocks.visible_altered suits blocks first fun value among => (sees value among).1,
      Regions.visible_altered suits rest others fun value among => (sees value among).2⟩

end

end Alteration

end TensorIR
