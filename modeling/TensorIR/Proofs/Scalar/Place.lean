import TensorIR.Proofs.Evolution

/-!
# Places in a tree

An operation of a block keeps its place whatever happens at another one, unless it is taken away
there, and what is inside it is apart from what is inside the others. In a well-formed program each
operation is visited at one place.

## Main definitions

* `Body.entries` — the operations of a block with their regions
* `KeepsEntries` — a change that keeps what follows in the block

## Main results

* `Regions.entries_alterAt` — an operation of a block after a change at another operation
* `Program.WellFormed.visit?_eq` — each operation is visited once
* `Regions.apart_of_entries` — what is inside two operations has nothing in common
-/

namespace TensorIR

/-! ### The operations of a block with their regions -/

/-- The operations of the block itself with their regions. -/
def Body.entries : Body → List (OpId × Regions)
  | .nil => []
  | .cons op regions rest => (op, regions) :: rest.entries

/-- The operations directly in blocks with their regions. -/
def Blocks.entries : Blocks → List (OpId × Regions)
  | .nil => []
  | .cons _ body rest => body.entries ++ rest.entries

/-- The operations directly in the blocks of regions with their regions. -/
def Regions.entries : Regions → List (OpId × Regions)
  | .nil => []
  | .cons blocks rest => blocks.entries ++ rest.entries

theorem Body.entries_append : (first second : Body) →
    (first.append second).entries = first.entries ++ second.entries
  | .nil, _ => rfl
  | .cons op regions rest, second => by
    rw [Body.append, Body.entries, Body.entries_append rest second, Body.entries, List.cons_append]

/-- What follows an operation in its block stays when the operation is changed. -/
def KeepsEntries (op : OpId) (change : Regions → Body → Body) : Prop :=
  ∀ regions rest function inside, function ≠ op → op ∉ inside.ops →
    (function, inside) ∈ rest.entries → (function, inside) ∈ (change regions rest).entries

section Entries

variable {op function : OpId} {inside : Regions} {change : Regions → Body → Body}

theorem Body.entries_alterAt_of_notMem (other : function ≠ op) (absent : op ∉ inside.ops)
    (keeps : KeepsEntries op change) : (body : Body) → (function, inside) ∈ body.entries →
      (function, inside) ∈ (body.alterAt op change).entries
  | .nil, member => by cases member
  | .cons first regions rest, member => by
    rw [Body.alterAt]
    rw [Body.entries, List.mem_cons] at member
    split
    case isTrue here =>
      rcases member with same | behind
      · cases same
        exact absurd here other
      · exact keeps regions rest function inside other absent behind
    case isFalse =>
      rw [Body.entries, List.mem_cons]
      rcases member with same | behind
      · cases same
        rw [Regions.alterAt_of_notMem _ absent]
        exact .inl rfl
      · exact .inr (Body.entries_alterAt_of_notMem other absent keeps rest behind)

theorem Body.ops_of_entries : (body : Body) → (function, inside) ∈ body.entries →
    function ∈ body.ops ∧ ∀ inner ∈ inside.ops, inner ∈ body.ops
  | .nil, member => by cases member
  | .cons first regions rest, member => by
    simp only [Body.entries, List.mem_cons] at member
    simp only [Body.ops, List.mem_cons, List.mem_append]
    rcases member with same | behind
    · cases same
      exact ⟨.inl rfl, fun inner within => .inr (.inl within)⟩
    · obtain ⟨isOp, within⟩ := Body.ops_of_entries rest behind
      exact ⟨.inr (.inr isOp), fun inner member => .inr (.inr (within inner member))⟩

/-- An operation of a block keeps its place, with a change inside it if it holds the operation that is
changed. -/
theorem Body.entries_alterAt (other : function ≠ op) (keeps : KeepsEntries op change) :
    (body : Body) → body.ops.Nodup → (function, inside) ∈ body.entries →
      (function, inside.alterAt op change) ∈ (body.alterAt op change).entries
  | .nil, _, member => by cases member
  | .cons first regions rest, nodup, member => by
    by_cases within : op ∈ inside.ops
    case neg =>
      rw [Regions.alterAt_of_notMem _ within]
      exact Body.entries_alterAt_of_notMem other within keeps _ member
    case pos =>
      obtain ⟨absent, apart⟩ := List.nodup_cons.mp nodup
      simp only [Body.entries, List.mem_cons] at member
      rw [Body.alterAt]
      rcases member with same | behind
      · cases same
        rw [if_neg other]
        exact List.mem_cons_self
      · have later := (Body.ops_of_entries rest behind).2 op within
        rw [if_neg]
        · exact List.mem_cons_of_mem _
            (Body.entries_alterAt other keeps rest (List.nodup_append.mp apart).2.1 behind)
        · rintro rfl
          exact absent (List.mem_append_right _ later)

theorem Blocks.entries_alterAt (other : function ≠ op) (keeps : KeepsEntries op change) :
    (blocks : Blocks) → blocks.ops.Nodup → (function, inside) ∈ blocks.entries →
      (function, inside.alterAt op change) ∈ (blocks.alterAt op change).entries
  | .nil, _, member => by cases member
  | .cons block body rest, nodup, member => by
    obtain ⟨first, later, -⟩ := List.nodup_append.mp nodup
    rw [Blocks.entries, List.mem_append] at member
    rw [Blocks.alterAt, Blocks.entries, List.mem_append]
    exact member.imp (Body.entries_alterAt other keeps body first)
      (Blocks.entries_alterAt other keeps rest later)

theorem Regions.entries_alterAt (other : function ≠ op) (keeps : KeepsEntries op change) :
    (regions : Regions) → regions.ops.Nodup → (function, inside) ∈ regions.entries →
      (function, inside.alterAt op change) ∈ (regions.alterAt op change).entries
  | .nil, _, member => by cases member
  | .cons blocks rest, nodup, member => by
    obtain ⟨first, later, -⟩ := List.nodup_append.mp nodup
    rw [Regions.entries, List.mem_append] at member
    rw [Regions.alterAt, Regions.entries, List.mem_append]
    exact member.imp (Blocks.entries_alterAt other keeps blocks first)
      (Regions.entries_alterAt other keeps rest later)

end Entries

/-! ### Visits -/

mutual

/-- What is found on a visit is part of the tree. -/
theorem Body.parts_of_visits {visit : Visit} (block : Option BlockId) (parent : Option OpId)
    (depth : Nat) : (body : Body) → visit ∈ body.visits block parent depth →
      ∀ part ∈ (Body.cons visit.op visit.regions visit.rest).parts, part ∈ body.parts
  | .nil, member => by cases member
  | .cons op regions rest, member => by
    intro part within
    rw [Body.visits, List.mem_cons, List.mem_append] at member
    rcases member with rfl | inside | behind
    · exact within
    · exact List.mem_cons_of_mem _ (List.mem_append_left _
        (Regions.parts_of_visits op (depth + 1) regions inside part within))
    · exact List.mem_cons_of_mem _ (List.mem_append_right _
        (Body.parts_of_visits block parent depth rest behind part within))

theorem Blocks.parts_of_visits {visit : Visit} (parent : OpId) (depth : Nat) :
    (blocks : Blocks) → visit ∈ blocks.visits parent depth →
      ∀ part ∈ (Body.cons visit.op visit.regions visit.rest).parts, part ∈ blocks.parts
  | .nil, member => by cases member
  | .cons block body rest, member => by
    intro part within
    rw [Blocks.visits, List.mem_append] at member
    refine List.mem_cons_of_mem _ (List.mem_append.mpr ?_)
    exact member.imp
      (fun inside => Body.parts_of_visits (some block) (some parent) depth body inside part within)
      (fun behind => Blocks.parts_of_visits parent depth rest behind part within)

theorem Regions.parts_of_visits {visit : Visit} (parent : OpId) (depth : Nat) :
    (regions : Regions) → visit ∈ regions.visits parent depth →
      ∀ part ∈ (Body.cons visit.op visit.regions visit.rest).parts, part ∈ regions.parts
  | .nil, member => by cases member
  | .cons blocks rest, member => by
    intro part within
    rw [Regions.visits, List.mem_append] at member
    refine List.mem_append.mpr ?_
    exact member.imp
      (fun inside => Blocks.parts_of_visits parent depth blocks inside part within)
      (fun behind => Regions.parts_of_visits parent depth rest behind part within)

end

/-- What is inside an operation of a block is visited. -/
theorem Body.visits_of_entries {function : OpId} {inside : Regions} (block : Option BlockId)
    (parent : Option OpId) (depth : Nat) : (body : Body) → (function, inside) ∈ body.entries →
      (∀ visit ∈ inside.visits function (depth + 1), visit ∈ body.visits block parent depth) ∧
        ∃ rest, ⟨function, inside, rest, block, parent, depth⟩ ∈ body.visits block parent depth
  | .nil, member => by cases member
  | .cons op regions rest, member => by
    rw [Body.entries, List.mem_cons] at member
    rw [Body.visits]
    rcases member with same | behind
    · cases same
      exact ⟨fun visit within => List.mem_cons_of_mem _ (List.mem_append_left _ within), rest,
        List.mem_cons_self⟩
    · obtain ⟨within, later, found⟩ := Body.visits_of_entries block parent depth rest behind
      exact ⟨fun visit member => List.mem_cons_of_mem _ (List.mem_append_right _ (within visit member)),
        later, List.mem_cons_of_mem _ (List.mem_append_right _ found)⟩

theorem Blocks.visits_of_entries {function : OpId} {inside : Regions} (parent : OpId) (depth : Nat) :
    (blocks : Blocks) → (function, inside) ∈ blocks.entries →
      (∀ visit ∈ inside.visits function (depth + 1), visit ∈ blocks.visits parent depth) ∧
        ∃ visit ∈ blocks.visits parent depth, visit.op = function ∧ visit.regions = inside
  | .nil, member => by cases member
  | .cons block body rest, member => by
    rw [Blocks.entries, List.mem_append] at member
    rw [Blocks.visits]
    rcases member with first | behind
    · obtain ⟨within, later, found⟩ := Body.visits_of_entries (some block) (some parent) depth body first
      exact ⟨fun visit member => List.mem_append_left _ (within visit member), _,
        List.mem_append_left _ found, rfl, rfl⟩
    · obtain ⟨within, visit, found, same⟩ := Blocks.visits_of_entries parent depth rest behind
      exact ⟨fun visit member => List.mem_append_right _ (within visit member), visit,
        List.mem_append_right _ found, same⟩

theorem Regions.visits_of_entries {function : OpId} {inside : Regions} (parent : OpId) (depth : Nat) :
    (regions : Regions) → (function, inside) ∈ regions.entries →
      (∀ visit ∈ inside.visits function (depth + 1), visit ∈ regions.visits parent depth) ∧
        ∃ visit ∈ regions.visits parent depth, visit.op = function ∧ visit.regions = inside
  | .nil, member => by cases member
  | .cons blocks rest, member => by
    rw [Regions.entries, List.mem_append] at member
    rw [Regions.visits]
    rcases member with first | behind
    · obtain ⟨within, visit, found, same⟩ := Blocks.visits_of_entries parent depth blocks first
      exact ⟨fun visit member => List.mem_append_left _ (within visit member), visit,
        List.mem_append_left _ found, same⟩
    · obtain ⟨within, visit, found, same⟩ := Regions.visits_of_entries parent depth rest behind
      exact ⟨fun visit member => List.mem_append_right _ (within visit member), visit,
        List.mem_append_right _ found, same⟩

theorem Body.parts_of_entries {function : OpId} {inside : Regions} : (body : Body) →
    (function, inside) ∈ body.entries → ∀ part ∈ inside.parts, part ∈ body.parts
  | .nil, member => by cases member
  | .cons first regions rest, member => by
    intro part within
    rw [Body.entries, List.mem_cons] at member
    rw [Body.parts, List.mem_cons, List.mem_append]
    rcases member with same | behind
    · cases same
      exact .inr (.inl within)
    · exact .inr (.inr (Body.parts_of_entries rest behind part within))

theorem Blocks.parts_of_entries {function : OpId} {inside : Regions} : (blocks : Blocks) →
    (function, inside) ∈ blocks.entries → ∀ part ∈ inside.parts, part ∈ blocks.parts
  | .nil, member => by cases member
  | .cons block body rest, member => by
    intro part within
    rw [Blocks.entries, List.mem_append] at member
    rw [Blocks.parts, List.mem_cons, List.mem_append]
    exact .inr (member.imp (fun here => Body.parts_of_entries body here part within)
      fun behind => Blocks.parts_of_entries rest behind part within)

theorem Regions.parts_of_entries {function : OpId} {inside : Regions} : (regions : Regions) →
    (function, inside) ∈ regions.entries → ∀ part ∈ inside.parts, part ∈ regions.parts
  | .nil, member => by cases member
  | .cons blocks rest, member => by
    intro part within
    rw [Regions.entries, List.mem_append] at member
    rw [Regions.parts, List.mem_append]
    exact member.imp (fun here => Blocks.parts_of_entries blocks here part within)
      fun behind => Regions.parts_of_entries rest behind part within

/-- What is inside an operation of a block has nothing in common with what is inside another operation
elsewhere. -/
theorem Body.apart_of_entries {function : OpId} {inside : Regions} {visit : Visit} {part : Part}
    (block : Option BlockId) (parent : Option OpId) (depth : Nat) : (body : Body) →
      body.parts.Nodup → (function, inside) ∈ body.entries →
      visit ∈ body.visits block parent depth → visit.op ≠ function → visit.op ∉ inside.ops →
      part ∈ inside.parts → part ∉ visit.regions.parts
  | .nil, _, member, _, _, _, _ => by cases member
  | .cons first regions rest, nodup, member, visited, other, outside, within => by
    obtain ⟨-, apart⟩ := List.nodup_cons.mp nodup
    obtain ⟨-, behind, disjoint⟩ := List.nodup_append.mp apart
    rw [Body.entries, List.mem_cons] at member
    rw [Body.visits, List.mem_cons, List.mem_append] at visited
    intro common
    have deeper {body : Body} (found : ∀ part ∈ (Body.cons visit.op visit.regions visit.rest).parts,
        part ∈ body.parts) : part ∈ body.parts :=
      found part (List.mem_cons_of_mem _ (List.mem_append_left _ common))
    -- The function is the first operation or a later one, and what is visited is first, inside or later.
    rcases member with same | later
    · cases same
      rcases visited with rfl | here | elsewhere
      · exact other rfl
      · refine outside ?_
        rw [← Regions.map_op_visits function (depth + 1)]
        exact List.mem_map_of_mem here
      · exact disjoint part within part
          (deeper (Body.parts_of_visits block parent depth rest elsewhere)) rfl
    · have isLater := Body.parts_of_entries rest later part within
      rcases visited with rfl | here | elsewhere
      · exact disjoint part common part isLater rfl
      · exact disjoint part (Regions.parts_of_visits first (depth + 1) regions here part
          (List.mem_cons_of_mem _ (List.mem_append_left _ common))) part isLater rfl
      · exact Body.apart_of_entries block parent depth rest behind later elsewhere other outside within
          common

theorem Blocks.apart_of_entries {function : OpId} {inside : Regions} {visit : Visit} {part : Part}
    (parent : OpId) (depth : Nat) : (blocks : Blocks) → blocks.parts.Nodup →
      (function, inside) ∈ blocks.entries → visit ∈ blocks.visits parent depth →
      visit.op ≠ function → visit.op ∉ inside.ops → part ∈ inside.parts →
      part ∉ visit.regions.parts
  | .nil, _, member, _, _, _, _ => by cases member
  | .cons block body rest, nodup, member, visited, other, outside, within => by
    obtain ⟨-, apart⟩ := List.nodup_cons.mp nodup
    obtain ⟨first, later, disjoint⟩ := List.nodup_append.mp apart
    rw [Blocks.entries, List.mem_append] at member
    rw [Blocks.visits, List.mem_append] at visited
    have inner (common : part ∈ visit.regions.parts) :
        part ∈ (Body.cons visit.op visit.regions visit.rest).parts :=
      List.mem_cons_of_mem _ (List.mem_append_left _ common)
    rcases member with here | behind <;> rcases visited with isHere | isBehind
    · exact Body.apart_of_entries _ _ depth body first here isHere other outside within
    · exact fun common => disjoint part (Body.parts_of_entries body here part within) part
        (Blocks.parts_of_visits parent depth rest isBehind part (inner common)) rfl
    · exact fun common => disjoint part
        (Body.parts_of_visits _ _ depth body isHere part (inner common)) part
        (Blocks.parts_of_entries rest behind part within) rfl
    · exact Blocks.apart_of_entries parent depth rest later behind isBehind other outside within

theorem Regions.apart_of_entries {function : OpId} {inside : Regions} {visit : Visit} {part : Part}
    (parent : OpId) (depth : Nat) : (regions : Regions) → regions.parts.Nodup →
      (function, inside) ∈ regions.entries → visit ∈ regions.visits parent depth →
      visit.op ≠ function → visit.op ∉ inside.ops → part ∈ inside.parts →
      part ∉ visit.regions.parts
  | .nil, _, member, _, _, _, _ => by cases member
  | .cons blocks rest, nodup, member, visited, other, outside, within => by
    obtain ⟨first, later, disjoint⟩ := List.nodup_append.mp nodup
    rw [Regions.entries, List.mem_append] at member
    rw [Regions.visits, List.mem_append] at visited
    have inner (common : part ∈ visit.regions.parts) :
        part ∈ (Body.cons visit.op visit.regions visit.rest).parts :=
      List.mem_cons_of_mem _ (List.mem_append_left _ common)
    rcases member with here | behind <;> rcases visited with isHere | isBehind
    · exact Blocks.apart_of_entries parent depth blocks first here isHere other outside within
    · exact fun common => disjoint part (Blocks.parts_of_entries blocks here part within) part
        (Regions.parts_of_visits parent depth rest isBehind part (inner common)) rfl
    · exact fun common => disjoint part
        (Blocks.parts_of_visits parent depth blocks isHere part (inner common)) part
        (Regions.parts_of_entries rest behind part within) rfl
    · exact Regions.apart_of_entries parent depth rest later behind isBehind other outside within

section Alteration

variable {visit inner : Visit} {change : Regions → Body → Body}

mutual

/-- What is put in the place of an operation is visited there. -/
theorem Body.visits_alterAt (block : Option BlockId) (parent : Option OpId) (depth : Nat)
    (within : inner ∈ (change visit.regions visit.rest).visits visit.block visit.parent visit.depth) :
    (body : Body) → body.ops.Nodup → visit ∈ body.visits block parent depth →
      inner ∈ (body.alterAt visit.op change).visits block parent depth
  | .nil, _, member => by cases member
  | .cons op regions rest, nodup, member => by
    obtain ⟨absent, apart⟩ := List.nodup_cons.mp nodup
    obtain ⟨first, later, -⟩ := List.nodup_append.mp apart
    rw [Body.visits, List.mem_cons, List.mem_append] at member
    have deeper {ops : List OpId} (found : visit.op ∈ ops) (among : ∀ id ∈ ops, id ∈ regions.ops ++ rest.ops) :
        op ≠ visit.op := fun same => absent (same ▸ among _ found)
    rw [Body.alterAt]
    rcases member with rfl | here | behind
    · rwa [if_pos rfl]
    · have inside : visit.op ∈ regions.ops := by
        rw [← Regions.map_op_visits op (depth + 1)]
        exact List.mem_map_of_mem here
      rw [if_neg (deeper inside fun id among => List.mem_append_left _ among), Body.visits]
      exact List.mem_cons_of_mem _ (List.mem_append_left _
        (Regions.visits_alterAt op (depth + 1) within regions first here))
    · have inside : visit.op ∈ rest.ops := by
        rw [← Body.map_op_visits block parent depth]
        exact List.mem_map_of_mem behind
      rw [if_neg (deeper inside fun id among => List.mem_append_right _ among), Body.visits]
      exact List.mem_cons_of_mem _ (List.mem_append_right _
        (Body.visits_alterAt block parent depth within rest later behind))

theorem Blocks.visits_alterAt (parent : OpId) (depth : Nat)
    (within : inner ∈ (change visit.regions visit.rest).visits visit.block visit.parent visit.depth) :
    (blocks : Blocks) → blocks.ops.Nodup → visit ∈ blocks.visits parent depth →
      inner ∈ (blocks.alterAt visit.op change).visits parent depth
  | .nil, _, member => by cases member
  | .cons block body rest, nodup, member => by
    obtain ⟨first, later, -⟩ := List.nodup_append.mp nodup
    rw [Blocks.visits, List.mem_append] at member
    rw [Blocks.alterAt, Blocks.visits, List.mem_append]
    exact member.imp (Body.visits_alterAt _ _ depth within body first)
      (Blocks.visits_alterAt parent depth within rest later)

theorem Regions.visits_alterAt (parent : OpId) (depth : Nat)
    (within : inner ∈ (change visit.regions visit.rest).visits visit.block visit.parent visit.depth) :
    (regions : Regions) → regions.ops.Nodup → visit ∈ regions.visits parent depth →
      inner ∈ (regions.alterAt visit.op change).visits parent depth
  | .nil, _, member => by cases member
  | .cons blocks rest, nodup, member => by
    obtain ⟨first, later, -⟩ := List.nodup_append.mp nodup
    rw [Regions.visits, List.mem_append] at member
    rw [Regions.alterAt, Regions.visits, List.mem_append]
    exact member.imp (Blocks.visits_alterAt parent depth within blocks first)
      (Regions.visits_alterAt parent depth within rest later)

end

end Alteration

theorem Body.visits_append {visit : Visit} (block : Option BlockId) (parent : Option OpId)
    (depth : Nat) : (first : Body) → {second : Body} → visit ∈ second.visits block parent depth →
      visit ∈ (first.append second).visits block parent depth
  | .nil, _, member => member
  | .cons op regions rest, _, member => by
    rw [Body.append, Body.visits]
    exact List.mem_cons_of_mem _ (List.mem_append_right _
      (Body.visits_append block parent depth rest member))

/-- In a well-formed program each operation is visited once. -/
theorem Program.WellFormed.visit?_eq {program : Program} (formed : program.WellFormed) {visit : Visit}
    (member : visit ∈ program.visits) : program.visit? visit.op = some visit := by
  have inTree : visit.op ∈ program.tree.ops := by
    rw [← Body.map_op_visits none none 0]
    exact List.mem_map_of_mem member
  obtain ⟨found, isFound, same, -⟩ := formed.exists_focus inTree
  have among : found ∈ program.visits := by
    obtain ⟨other, isOther, -⟩ := program.tree.exists_focus none none 0 formed.nodup inTree
    rw [Program.visit?, Program.visits, isOther, Option.some_or, Option.some.injEq] at isFound
    exact isFound ▸ List.mem_of_find?_eq_some isOther
  have distinct : (program.visits.map Visit.op).Nodup := by
    rw [Program.visits, Body.map_op_visits]
    exact Body.nodup_ops formed.nodup
  rw [isFound, List.inj_on_of_nodup_map distinct among member same]

theorem Program.mem_ops_of_visits {program : Program} {visit : Visit}
    (member : visit ∈ program.visits) : visit.op ∈ program.tree.ops := by
  rw [← Body.map_op_visits none none 0]
  exact List.mem_map_of_mem member

/-- Every operation in the tree is visited. -/
theorem Program.exists_visit {program : Program} {op : OpId} (present : op ∈ program.tree.ops) :
    ∃ visit ∈ program.visits, visit.op = op := by
  rwa [← Body.map_op_visits none none 0, List.mem_map] at present

theorem Program.mem_parts_of_inside {program : Program} {visit : Visit}
    (visited : visit ∈ program.visits) {part : Part} (member : part ∈ visit.regions.parts) :
    part ∈ program.tree.parts :=
  Body.parts_of_visits none none 0 program.tree visited part
    (List.mem_cons_of_mem _ (List.mem_append_left _ member))

theorem Program.mem_parts_of_rest {program : Program} {visit : Visit} (visited : visit ∈ program.visits)
    {part : Part} (member : part ∈ visit.rest.parts) : part ∈ program.tree.parts :=
  Body.parts_of_visits none none 0 program.tree visited part
    (List.mem_cons_of_mem _ (List.mem_append_right _ member))

/-- What begins at an operation has distinct parts. -/
theorem Program.WellFormed.nodup_of_visits {program : Program} (formed : program.WellFormed)
    {visit : Visit} (member : visit ∈ program.visits) :
    (Body.cons visit.op visit.regions visit.rest).parts.Nodup := by
  obtain ⟨found, isFound, -, -, outside, same⟩ :=
    formed.exists_focus (Program.mem_ops_of_visits member)
  rw [formed.visit?_eq member, Option.some.injEq] at isFound
  subst isFound
  have original := same (.cons visit.op)
  rw [Body.alterAt_self] at original
  exact (List.nodup_append.mp (original.nodup_iff.mp formed.nodup)).2.1

/-- What stands inside of an operation stands there once. -/
theorem Program.WellFormed.nodup_inside {program : Program} (formed : program.WellFormed)
    {visit : Visit} (member : visit ∈ program.visits) : visit.regions.parts.Nodup :=
  (List.nodup_append.mp (List.nodup_cons.mp (formed.nodup_of_visits member)).2).1

/-- An operation does not stand inside of itself. -/
theorem Program.WellFormed.notMem_inside {program : Program} (formed : program.WellFormed)
    {visit : Visit} (member : visit ∈ program.visits) : visit.op ∉ visit.regions.ops := fun among =>
  (List.nodup_cons.mp (formed.nodup_of_visits member)).1
    (List.mem_append_left _ (Regions.op_mem_parts.mpr among))

/-- What stands inside of an operation does not stand behind it. -/
theorem Program.WellFormed.disjoint_rest {program : Program} (formed : program.WellFormed)
    {visit : Visit} (member : visit ∈ program.visits) :
    visit.regions.parts.Disjoint visit.rest.parts :=
  List.disjoint_of_nodup_append (List.nodup_cons.mp (formed.nodup_of_visits member)).2

theorem Program.WellFormed.nodup_rest {program : Program} (formed : program.WellFormed)
    {visit : Visit} (member : visit ∈ program.visits) : visit.rest.parts.Nodup :=
  (List.nodup_append.mp (List.nodup_cons.mp (formed.nodup_of_visits member)).2).2.1

/-- An operation does not stand behind itself. -/
theorem Program.WellFormed.notMem_rest {program : Program} (formed : program.WellFormed)
    {visit : Visit} (member : visit ∈ program.visits) : visit.op ∉ visit.rest.ops := fun among =>
  (List.nodup_cons.mp (formed.nodup_of_visits member)).1
    (List.mem_append_right _ (Body.op_mem_parts.mpr among))

theorem Program.WellFormed.regionsOf_eq {program : Program} (formed : program.WellFormed)
    {visit : Visit} (member : visit ∈ program.visits) :
    program.regionsOf visit.op = visit.regions := by
  obtain ⟨found, isFound, -, regions, -⟩ :=
    formed.exists_focus (Program.mem_ops_of_visits member)
  rw [formed.visit?_eq member, Option.some.injEq] at isFound
  rw [regions, isFound]

end TensorIR
