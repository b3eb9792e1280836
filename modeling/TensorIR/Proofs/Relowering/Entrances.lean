import TensorIR.Proofs.Scalar.Place

/-!
# Where operations are entered

A run enters an operation at the entry block of its first region. A change at one operation leaves the
entry blocks of all others as they are, whatever becomes of what stands in them.

## Main definitions

* `Body.entrances` — operations with the entry blocks of their regions

## Main results

* `Program.mem_entrances_alterAt` — entrances after a change at one operation
* `Program.WellFormed.mem_entrances_iff` — the entry block of an operation of a well-formed program
-/

namespace TensorIR

/-- The entry block of the first region, without what stands in it. -/
def Regions.entrance? (regions : Regions) : Option BlockId :=
  regions.entryBlock?.map Prod.fst

mutual

/-- The operations with the entry blocks of their regions, each before those inside it. -/
def Body.entrances : Body → List (OpId × Option BlockId)
  | .nil => []
  | .cons op regions rest => (op, regions.entrance?) :: (Regions.entrances regions ++ Body.entrances rest)

/-- The operations inside blocks with the entry blocks of their regions. -/
def Blocks.entrances : Blocks → List (OpId × Option BlockId)
  | .nil => []
  | .cons _ body rest => Body.entrances body ++ Blocks.entrances rest

/-- The operations inside regions with the entry blocks of their regions. -/
def Regions.entrances : Regions → List (OpId × Option BlockId)
  | .nil => []
  | .cons blocks rest => Blocks.entrances blocks ++ Regions.entrances rest

end

mutual

theorem Body.map_fst_entrances : (body : Body) → body.entrances.map Prod.fst = body.ops
  | .nil => rfl
  | .cons op regions rest => by
    simp [Body.entrances, Body.ops, Regions.map_fst_entrances regions, Body.map_fst_entrances rest]

theorem Blocks.map_fst_entrances : (blocks : Blocks) → blocks.entrances.map Prod.fst = blocks.ops
  | .nil => rfl
  | .cons _ body rest => by
    simp [Blocks.entrances, Blocks.ops, Body.map_fst_entrances body, Blocks.map_fst_entrances rest]

theorem Regions.map_fst_entrances : (regions : Regions) → regions.entrances.map Prod.fst = regions.ops
  | .nil => rfl
  | .cons blocks rest => by
    simp [Regions.entrances, Regions.ops, Blocks.map_fst_entrances blocks, Regions.map_fst_entrances rest]

end

theorem Body.mem_ops_of_entrances {body : Body} {pair : OpId × Option BlockId} (member : pair ∈ body.entrances) :
    pair.1 ∈ body.ops := by
  rw [← Body.map_fst_entrances]
  exact List.mem_map_of_mem member

theorem Body.entrances_append : (first second : Body) →
    (first.append second).entrances = first.entrances ++ second.entrances
  | .nil, _ => rfl
  | .cons op regions rest, second => by simp [Body.append, Body.entrances, Body.entrances_append rest second]

section Change

variable {op : OpId} {change : Regions → Body → Body} {pair : OpId × Option BlockId}
  {others : OpId × Option BlockId → Prop}

theorem Regions.entrance?_alterAt (op : OpId) (change : Regions → Body → Body) (regions : Regions) :
    (regions.alterAt op change).entrance? = regions.entrance? := by
  cases regions with
  | nil => rfl
  | cons blocks rest => cases blocks <;> rfl

mutual

/-- An operation keeps its entry block unless it is put into the tree where the change is. -/
theorem Body.mem_entrances_alterAt (changes : ∀ regions rest, ∀ pair ∈ (change regions rest).entrances,
      pair ∈ (Body.cons op regions rest).entrances ∨ others pair) :
    (body : Body) → pair ∈ (body.alterAt op change).entrances → pair ∈ body.entrances ∨ others pair
  | .nil, member => absurd member List.not_mem_nil
  | .cons head regions rest, member => by
    rw [Body.alterAt] at member
    split at member
    case isTrue same =>
      subst same
      exact changes regions rest pair member
    case isFalse =>
      rw [Body.entrances, List.mem_cons, List.mem_append, Regions.entrance?_alterAt] at member
      rw [Body.entrances, List.mem_cons, List.mem_append]
      rcases member with here | inside | behind
      · exact .inl (.inl here)
      · exact (Regions.mem_entrances_alterAt changes regions inside).imp_left fun old => .inr (.inl old)
      · exact (Body.mem_entrances_alterAt changes rest behind).imp_left fun old => .inr (.inr old)

theorem Blocks.mem_entrances_alterAt (changes : ∀ regions rest, ∀ pair ∈ (change regions rest).entrances,
      pair ∈ (Body.cons op regions rest).entrances ∨ others pair) :
    (blocks : Blocks) → pair ∈ (blocks.alterAt op change).entrances → pair ∈ blocks.entrances ∨ others pair
  | .nil, member => absurd member List.not_mem_nil
  | .cons block body rest, member => by
    rw [Blocks.alterAt, Blocks.entrances, List.mem_append] at member
    rw [Blocks.entrances, List.mem_append]
    rcases member with here | behind
    · exact (Body.mem_entrances_alterAt changes body here).imp_left .inl
    · exact (Blocks.mem_entrances_alterAt changes rest behind).imp_left .inr

theorem Regions.mem_entrances_alterAt (changes : ∀ regions rest, ∀ pair ∈ (change regions rest).entrances,
      pair ∈ (Body.cons op regions rest).entrances ∨ others pair) :
    (regions : Regions) → pair ∈ (regions.alterAt op change).entrances →
      pair ∈ regions.entrances ∨ others pair
  | .nil, member => absurd member List.not_mem_nil
  | .cons blocks rest, member => by
    rw [Regions.alterAt, Regions.entrances, List.mem_append] at member
    rw [Regions.entrances, List.mem_append]
    rcases member with here | behind
    · exact (Blocks.mem_entrances_alterAt changes blocks here).imp_left .inl
    · exact (Regions.mem_entrances_alterAt changes rest behind).imp_left .inr

end

end Change

section Visits

variable {visit : Visit} {pair : OpId × Option BlockId}

mutual

/-- What is found on a visit is entered where it is entered in the tree. -/
theorem Body.entrances_of_visits (block : Option BlockId) (parent : Option OpId) (depth : Nat) :
    (body : Body) → visit ∈ body.visits block parent depth →
      pair ∈ (Body.cons visit.op visit.regions visit.rest).entrances → pair ∈ body.entrances
  | .nil, visited, _ => absurd visited List.not_mem_nil
  | .cons op regions rest, visited, member => by
    rw [Body.visits, List.mem_cons, List.mem_append] at visited
    rw [Body.entrances, List.mem_cons, List.mem_append]
    rcases visited with rfl | inside | behind
    · simpa [Body.entrances] using member
    · exact .inr (.inl (Regions.entrances_of_visits op (depth + 1) regions inside member))
    · exact .inr (.inr (Body.entrances_of_visits block parent depth rest behind member))

theorem Blocks.entrances_of_visits (parent : OpId) (depth : Nat) :
    (blocks : Blocks) → visit ∈ blocks.visits parent depth →
      pair ∈ (Body.cons visit.op visit.regions visit.rest).entrances → pair ∈ blocks.entrances
  | .nil, visited, _ => absurd visited List.not_mem_nil
  | .cons block body rest, visited, member => by
    rw [Blocks.visits, List.mem_append] at visited
    rw [Blocks.entrances, List.mem_append]
    exact visited.imp
      (fun here => Body.entrances_of_visits (some block) (some parent) depth body here member)
      (fun behind => Blocks.entrances_of_visits parent depth rest behind member)

theorem Regions.entrances_of_visits (parent : OpId) (depth : Nat) :
    (regions : Regions) → visit ∈ regions.visits parent depth →
      pair ∈ (Body.cons visit.op visit.regions visit.rest).entrances → pair ∈ regions.entrances
  | .nil, visited, _ => absurd visited List.not_mem_nil
  | .cons blocks rest, visited, member => by
    rw [Regions.visits, List.mem_append] at visited
    rw [Regions.entrances, List.mem_append]
    exact visited.imp
      (fun here => Blocks.entrances_of_visits parent depth blocks here member)
      (fun behind => Regions.entrances_of_visits parent depth rest behind member)

end

end Visits

/-! ### The side of a branch -/

section Inlining

variable {blocks : Blocks} {body : Body} {block : BlockId} {pair : OpId × Option BlockId}

theorem Blocks.mem_entrances_withEntryBody (member : pair ∈ (blocks.withEntryBody body).entrances) :
    pair ∈ blocks.entrances ∨ pair ∈ body.entrances := by
  cases blocks with
  | nil => exact .inl member
  | cons first content rest =>
    rw [Blocks.withEntryBody, Blocks.entrances, List.mem_append] at member
    rw [Blocks.entrances, List.mem_append]
    exact member.elim .inr fun behind => .inl (.inr behind)

theorem Regions.mem_entrances_modify : (regions : Regions) → (side : Nat) →
    pair ∈ (regions.modify side (Blocks.withEntryBody body)).entrances →
      pair ∈ regions.entrances ∨ pair ∈ body.entrances
  | .nil, _, member => by
    rw [Regions.modify, Regions.toList, List.modify_nil] at member
    exact .inl member
  | .cons first rest, 0, member => by
    rw [Regions.modify_cons_zero, Regions.entrances, List.mem_append] at member
    rw [Regions.entrances, List.mem_append]
    rcases member with here | behind
    · exact (Blocks.mem_entrances_withEntryBody here).imp_left .inl
    · exact .inl (.inr behind)
  | .cons first rest, side + 1, member => by
    rw [Regions.modify_cons_succ, Regions.entrances, List.mem_append] at member
    rw [Regions.entrances, List.mem_append]
    rcases member with here | behind
    · exact .inl (.inl here)
    · exact (Regions.mem_entrances_modify rest side behind).imp_left .inr

/-- What stands in the entry block of a region is entered where it is entered in the regions. -/
theorem Regions.entrances_of_get? : (regions : Regions) → (side : Nat) → regions.get? side = some blocks →
    blocks.entryBlock? = some (block, body) → pair ∈ body.entrances → pair ∈ regions.entrances
  | .nil, _, found, _, _ => by simp [Regions.get?, Regions.toList] at found
  | .cons first rest, 0, found, entry, member => by
    obtain rfl : first = blocks := by simpa [Regions.get?, Regions.toList] using found
    cases first with
    | nil => cases entry
    | cons first content later =>
      cases entry
      exact List.mem_append_left _ (List.mem_append_left _ member)
  | .cons first rest, side + 1, found, entry, member =>
    List.mem_append_right _ (Regions.entrances_of_get? rest side
      (by simpa [Regions.get?, Regions.toList] using found) entry member)

end Inlining

/-! ### Programs -/

namespace Program

variable {program : Program} {op : OpId} {change : Regions → Body → Body} {pair : OpId × Option BlockId}
  {others : OpId × Option BlockId → Prop}

theorem mem_entrances_alterAt (changes : ∀ regions rest, ∀ pair ∈ (change regions rest).entrances,
      pair ∈ (Body.cons op regions rest).entrances ∨ others pair)
    (member : pair ∈ (program.alterAt op change).tree.entrances) :
    pair ∈ program.tree.entrances ∨ others pair := by
  simp only [Program.tree, Program.alterAt, Body.entrances, List.append_nil, List.mem_cons,
    Regions.entrance?_alterAt] at member ⊢
  rcases member with here | inside
  · exact .inl (.inl here)
  · exact (Regions.mem_entrances_alterAt changes _ inside).imp_left .inr

/-- What is inside an operation is entered where it is entered in the tree. -/
theorem WellFormed.entrances_regionsOf (formed : program.WellFormed) (present : op ∈ program.tree.ops)
    (member : pair ∈ (program.regionsOf op).entrances) : pair ∈ program.tree.entrances := by
  obtain ⟨visit, visited, rfl⟩ := Program.exists_visit present
  rw [formed.regionsOf_eq visited] at member
  refine Body.entrances_of_visits none none 0 _ visited (List.mem_cons_of_mem _ ?_)
  exact List.mem_append_left _ member

/-- An operation of a well-formed program is entered at one place. -/
theorem WellFormed.mem_entrances_iff (formed : program.WellFormed) (present : op ∈ program.tree.ops)
    {entrance : Option BlockId} :
    (op, entrance) ∈ program.tree.entrances ↔ (program.entryOf? op).map Prod.fst = entrance := by
  have distinct : (program.tree.entrances.map Prod.fst).Nodup := by
    rw [Body.map_fst_entrances]
    exact Body.nodup_ops formed.nodup
  have found : (op, (program.entryOf? op).map Prod.fst) ∈ program.tree.entrances := by
    obtain ⟨visit, visited, rfl⟩ := Program.exists_visit present
    rw [Program.entryOf?, formed.regionsOf_eq visited]
    exact Body.entrances_of_visits none none 0 _ visited List.mem_cons_self
  constructor
  · intro member
    have same := List.inj_on_of_nodup_map distinct found member rfl
    exact congrArg Prod.snd same
  · rintro rfl
    exact found

end Program

end TensorIR
