import Mathlib.Data.List.Nodup
import Mathlib.Data.List.Perm.Basic
import TensorIR.Program.Rewrite

/-!
# Changes at one place of a tree

A change at one operation leaves everything else of the tree in its place. What this says about the
operations and blocks that a tree is made of does not depend on their order, so it is stated for
lists of parts up to permutation.

## Main definitions

* `Part` — an operation or a block
* `Body.parts` — everything that a tree is made of

## Main results

* `Body.alterAt_of_notMem` — a change at an operation that is not there
* `Body.exists_focus` — what is outside of one place, whatever is put there
* `Regions.count_inline` — moving the operations of a block out of a region
-/

namespace TensorIR

/-- What a tree is made of. -/
inductive Part where
  | op (id : OpId)
  | block (id : BlockId)
  deriving DecidableEq, Repr

/-- The operation that a part is. -/
def Part.op? : Part → Option OpId
  | op id => some id
  | block _ => none

mutual

/-- The operations and blocks of a tree in program order. -/
def Body.parts : Body → List Part
  | .nil => []
  | .cons op regions rest => .op op :: (Regions.parts regions ++ Body.parts rest)

/-- The blocks of a region with what is inside them. -/
def Blocks.parts : Blocks → List Part
  | .nil => []
  | .cons block body rest => .block block :: (Body.parts body ++ Blocks.parts rest)

/-- The operations and blocks inside regions. -/
def Regions.parts : Regions → List Part
  | .nil => []
  | .cons blocks rest => Blocks.parts blocks ++ Regions.parts rest

end

mutual

theorem Body.filterMap_parts : (body : Body) → body.parts.filterMap Part.op? = body.ops
  | .nil => rfl
  | .cons op regions rest => by
    simp [Body.parts, Body.ops, Part.op?, Regions.filterMap_parts regions, Body.filterMap_parts rest]

theorem Blocks.filterMap_parts : (blocks : Blocks) → blocks.parts.filterMap Part.op? = blocks.ops
  | .nil => rfl
  | .cons block body rest => by
    rw [Blocks.parts, List.filterMap_cons_none rfl, List.filterMap_append,
      Body.filterMap_parts body, Blocks.filterMap_parts rest, Blocks.ops]

theorem Regions.filterMap_parts :
    (regions : Regions) → regions.parts.filterMap Part.op? = regions.ops
  | .nil => rfl
  | .cons blocks rest => by
    simp [Regions.parts, Regions.ops, Blocks.filterMap_parts blocks, Regions.filterMap_parts rest]

end

theorem Part.mem_filterMap_op {parts : List Part} {op : OpId} :
    op ∈ parts.filterMap Part.op? ↔ .op op ∈ parts := by
  simp only [List.mem_filterMap]
  constructor
  · rintro ⟨part, member, isOp⟩
    cases part with
    | op id =>
      cases isOp
      exact member
    | block id => simp [Part.op?] at isOp
  · exact fun member => ⟨_, member, rfl⟩

@[simp]
theorem Body.op_mem_parts {body : Body} {op : OpId} : .op op ∈ body.parts ↔ op ∈ body.ops := by
  rw [← Body.filterMap_parts, Part.mem_filterMap_op]

@[simp]
theorem Blocks.op_mem_parts {blocks : Blocks} {op : OpId} : .op op ∈ blocks.parts ↔ op ∈ blocks.ops := by
  rw [← Blocks.filterMap_parts, Part.mem_filterMap_op]

@[simp]
theorem Regions.op_mem_parts {regions : Regions} {op : OpId} :
    .op op ∈ regions.parts ↔ op ∈ regions.ops := by
  rw [← Regions.filterMap_parts, Part.mem_filterMap_op]

theorem Body.nodup_ops {body : Body} (nodup : body.parts.Nodup) : body.ops.Nodup := by
  rw [← Body.filterMap_parts]
  refine nodup.filterMap fun first second op isFirst isSecond => ?_
  cases first <;> cases second <;> simp_all [Part.op?]

theorem Body.append_assoc (first second third : Body) :
    (first.append second).append third = first.append (second.append third) := by
  fun_induction Body.append first second with
  | case1 => rfl
  | case2 op regions rest later ih => simp [Body.append, ih]

theorem Body.ops_append (first second : Body) :
    (first.append second).ops = first.ops ++ second.ops := by
  fun_induction Body.append first second with
  | case1 => rfl
  | case2 op regions rest later ih => simp [Body.ops, ih]

theorem Body.parts_append (first second : Body) :
    (first.append second).parts = first.parts ++ second.parts := by
  fun_induction Body.append first second with
  | case1 => rfl
  | case2 op regions rest later ih => simp [Body.parts, ih]

theorem Body.parts_reverseOnto (first second : Body) :
    (first.reverseOnto second).parts.Perm (first.parts ++ second.parts) := by
  fun_induction Body.reverseOnto first second with
  | case1 => exact .refl _
  | case2 op regions rest later ih =>
    refine ih.trans ?_
    simp only [Body.parts, List.cons_append]
    refine List.perm_middle.trans (.cons _ ?_)
    rw [← List.append_assoc]
    exact List.perm_append_comm.append_right _

mutual

theorem Body.map_op_visits (block : Option BlockId) (parent : Option OpId) (depth : Nat) :
    (body : Body) → (body.visits block parent depth).map Visit.op = body.ops
  | .nil => rfl
  | .cons op regions rest => by
    simp [Body.visits, Body.ops, Regions.map_op_visits op (depth + 1) regions,
      Body.map_op_visits block parent depth rest]

theorem Blocks.map_op_visits (parent : OpId) (depth : Nat) :
    (blocks : Blocks) → (blocks.visits parent depth).map Visit.op = blocks.ops
  | .nil => rfl
  | .cons block body rest => by
    simp [Blocks.visits, Blocks.ops, Body.map_op_visits (some block) (some parent) depth body,
      Blocks.map_op_visits parent depth rest]

theorem Regions.map_op_visits (parent : OpId) (depth : Nat) :
    (regions : Regions) → (regions.visits parent depth).map Visit.op = regions.ops
  | .nil => rfl
  | .cons blocks rest => by
    simp [Regions.visits, Regions.ops, Blocks.map_op_visits parent depth blocks,
      Regions.map_op_visits parent depth rest]

end

variable {op : OpId} {change : Regions → Body → Body}

mutual

/-- A change at an operation that is not in the tree changes nothing. -/
theorem Body.alterAt_of_notMem :
    (body : Body) → op ∉ body.ops → body.alterAt op change = body
  | .nil, _ => rfl
  | .cons other regions rest, absent => by
    simp only [Body.ops, List.mem_cons, List.mem_append, not_or] at absent
    obtain ⟨distinct, outside, behind⟩ := absent
    rw [Body.alterAt, if_neg (Ne.symm distinct), Regions.alterAt_of_notMem regions outside,
      Body.alterAt_of_notMem rest behind]

theorem Blocks.alterAt_of_notMem :
    (blocks : Blocks) → op ∉ blocks.ops → blocks.alterAt op change = blocks
  | .nil, _ => rfl
  | .cons block body rest, absent => by
    simp only [Blocks.ops, List.mem_append, not_or] at absent
    rw [Blocks.alterAt, Body.alterAt_of_notMem body absent.1,
      Blocks.alterAt_of_notMem rest absent.2]

theorem Regions.alterAt_of_notMem :
    (regions : Regions) → op ∉ regions.ops → regions.alterAt op change = regions
  | .nil, _ => rfl
  | .cons blocks rest, absent => by
    simp only [Regions.ops, List.mem_append, not_or] at absent
    rw [Regions.alterAt, Blocks.alterAt_of_notMem blocks absent.1,
      Regions.alterAt_of_notMem rest absent.2]

end

mutual

theorem Body.alterAt_self : (body : Body) → body.alterAt op (.cons op) = body
  | .nil => rfl
  | .cons other regions rest => by
    rw [Body.alterAt, Regions.alterAt_self regions, Body.alterAt_self rest]
    split
    case isTrue here => rw [here]
    case isFalse => rfl

theorem Blocks.alterAt_self : (blocks : Blocks) → blocks.alterAt op (.cons op) = blocks
  | .nil => rfl
  | .cons block body rest => by
    rw [Blocks.alterAt, Body.alterAt_self body, Blocks.alterAt_self rest]

theorem Regions.alterAt_self : (regions : Regions) → regions.alterAt op (.cons op) = regions
  | .nil => rfl
  | .cons blocks rest => by
    rw [Regions.alterAt, Blocks.alterAt_self blocks, Regions.alterAt_self rest]

end

/-- A visit finds an operation, and everything outside of what it finds stays as it is whatever is
put there. -/
def IsFocus (op : OpId) (visits : List Visit) (altered : (Regions → Body → Body) → List Part)
    (visit : Visit) : Prop :=
  visits.find? (·.op = op) = some visit ∧ ∃ outside : List Part, ∀ change,
    (altered change).Perm (outside ++ (change visit.regions visit.rest).parts)

/-- A place in a part of a tree is a place in the tree. -/
theorem IsFocus.within {visits : List Visit} {altered : (Regions → Body → Body) → List Part}
    {visit : Visit} (focus : IsFocus op visits altered visit) (earlier later : List Visit)
    (before after : List Part) (absent : op ∉ earlier.map Visit.op) :
    IsFocus op (earlier ++ (visits ++ later))
      (fun change => before ++ (altered change ++ after)) visit := by
  obtain ⟨found, outside, same⟩ := focus
  have none_earlier : earlier.find? (·.op = op) = none := by
    rw [List.find?_eq_none]
    intro other member
    simpa using fun same => absent (List.mem_map.mpr ⟨other, member, same⟩)
  refine ⟨by rw [List.find?_append, none_earlier, List.find?_append, found]; rfl,
    before ++ (outside ++ after), fun change => ?_⟩
  rw [List.append_assoc, List.append_assoc]
  refine List.Perm.append_left before ?_
  refine ((same change).append_right after).trans ?_
  rw [List.append_assoc]
  exact List.Perm.append_left outside List.perm_append_comm

mutual

/-- An operation that stands in a tree of distinct parts stands at one place. -/
theorem Body.exists_focus (block : Option BlockId) (parent : Option OpId) (depth : Nat) :
    (body : Body) → body.parts.Nodup → op ∈ body.ops →
      ∃ visit, IsFocus op (body.visits block parent depth)
        (fun change => (body.alterAt op change).parts) visit
  | .nil, _, member => by simp [Body.ops] at member
  | .cons other regions rest, nodup, member => by
    by_cases here : other = op
    case pos =>
      refine ⟨⟨other, regions, rest, block, parent, depth⟩, ?_, [], fun change => ?_⟩
      · simp [Body.visits, here]
      · simp [Body.alterAt, here]
    case neg =>
      obtain ⟨-, nodup⟩ := List.nodup_cons.mp nodup
      obtain ⟨inside, behind, disjoint⟩ := List.nodup_append.mp nodup
      -- All parts are distinct, so the operation is not both inside the first one and behind it.
      have apart : op ∈ regions.ops → op ∉ rest.ops := fun first second =>
        disjoint _ (Regions.op_mem_parts.mpr first) _ (Body.op_mem_parts.mpr second) rfl
      simp only [Body.ops, List.mem_cons, Ne.symm here, false_or, List.mem_append] at member
      simp only [Body.visits, Body.alterAt, if_neg here, Body.parts]
      by_cases first : op ∈ regions.ops
      case pos =>
        obtain ⟨visit, focus⟩ := Regions.exists_focus other (depth + 1) regions inside first
        refine ⟨visit, ?_⟩
        simp only [Body.alterAt_of_notMem rest (apart first)]
        exact focus.within [_] _ [_] _ (by simpa using Ne.symm here)
      case neg =>
        obtain ⟨visit, focus⟩ := Body.exists_focus block parent depth rest behind
          (member.resolve_left first)
        refine ⟨visit, ?_⟩
        simp only [Regions.alterAt_of_notMem regions first]
        have wider := focus.within
          (⟨other, regions, rest, block, parent, depth⟩ :: regions.visits other (depth + 1)) []
          (.op other :: regions.parts) []
          (by simp [Regions.map_op_visits, Ne.symm here, first])
        simpa using wider

theorem Blocks.exists_focus (parent : OpId) (depth : Nat) :
    (blocks : Blocks) → blocks.parts.Nodup → op ∈ blocks.ops →
      ∃ visit, IsFocus op (blocks.visits parent depth)
        (fun change => (blocks.alterAt op change).parts) visit
  | .nil, _, member => by simp [Blocks.ops] at member
  | .cons block body rest, nodup, member => by
    obtain ⟨-, nodup⟩ := List.nodup_cons.mp nodup
    obtain ⟨inside, behind, disjoint⟩ := List.nodup_append.mp nodup
    have apart : op ∈ body.ops → op ∉ rest.ops := fun first second =>
      disjoint _ (Body.op_mem_parts.mpr first) _ (Blocks.op_mem_parts.mpr second) rfl
    simp only [Blocks.ops, List.mem_append] at member
    simp only [Blocks.visits, Blocks.alterAt, Blocks.parts]
    by_cases first : op ∈ body.ops
    case pos =>
      obtain ⟨visit, focus⟩ := Body.exists_focus (some block) (some parent) depth body inside first
      refine ⟨visit, ?_⟩
      simp only [Blocks.alterAt_of_notMem rest (apart first)]
      exact focus.within [] _ [_] _ (by simp)
    case neg =>
      obtain ⟨visit, focus⟩ := Blocks.exists_focus parent depth rest behind
        (member.resolve_left first)
      refine ⟨visit, ?_⟩
      simp only [Body.alterAt_of_notMem body first]
      have wider := focus.within (body.visits (some block) (some parent) depth) []
        (.block block :: body.parts) [] (by simpa [Body.map_op_visits] using first)
      simpa using wider

theorem Regions.exists_focus (parent : OpId) (depth : Nat) :
    (regions : Regions) → regions.parts.Nodup → op ∈ regions.ops →
      ∃ visit, IsFocus op (regions.visits parent depth)
        (fun change => (regions.alterAt op change).parts) visit
  | .nil, _, member => by simp [Regions.ops] at member
  | .cons blocks rest, nodup, member => by
    obtain ⟨inside, behind, disjoint⟩ := List.nodup_append.mp nodup
    have apart : op ∈ blocks.ops → op ∉ rest.ops := fun first second =>
      disjoint _ (Blocks.op_mem_parts.mpr first) _ (Regions.op_mem_parts.mpr second) rfl
    simp only [Regions.ops, List.mem_append] at member
    simp only [Regions.visits, Regions.alterAt, Regions.parts]
    by_cases first : op ∈ blocks.ops
    case pos =>
      obtain ⟨visit, focus⟩ := Blocks.exists_focus parent depth blocks inside first
      refine ⟨visit, ?_⟩
      simp only [Regions.alterAt_of_notMem rest (apart first)]
      exact focus.within [] _ [] _ (by simp)
    case neg =>
      obtain ⟨visit, focus⟩ := Regions.exists_focus parent depth rest behind
        (member.resolve_left first)
      refine ⟨visit, ?_⟩
      simp only [Blocks.alterAt_of_notMem blocks first]
      have wider := focus.within (blocks.visits parent depth) [] blocks.parts []
        (by simpa [Blocks.map_op_visits] using first)
      simpa using wider

end

/-! ### The regions of a branch -/

theorem Regions.ofList_toList : (regions : Regions) → Regions.ofList regions.toList = regions
  | .nil => rfl
  | .cons blocks rest => by rw [Regions.toList, Regions.ofList, Regions.ofList_toList rest]

@[simp]
theorem Regions.modify_cons_zero (blocks : Blocks) (rest : Regions) (change : Blocks → Blocks) :
    (Regions.cons blocks rest).modify 0 change = .cons (change blocks) rest := by
  simp [Regions.modify, Regions.toList, Regions.ofList, Regions.ofList_toList]

@[simp]
theorem Regions.modify_cons_succ (blocks : Blocks) (rest : Regions) (index : Nat)
    (change : Blocks → Blocks) :
    (Regions.cons blocks rest).modify (index + 1) change = .cons blocks (rest.modify index change) := by
  simp [Regions.modify, Regions.toList, Regions.ofList]

/-- The parts of a region make up the difference between the regions with it and without it. -/
theorem Regions.count_modify (part : Part) {blocks : Blocks} (change : Blocks → Blocks) :
    (regions : Regions) → (index : Nat) → regions.get? index = some blocks →
      (regions.modify index change).parts.count part + blocks.parts.count part =
        regions.parts.count part + (change blocks).parts.count part
  | .nil, _, found => by simp [Regions.get?, Regions.toList] at found
  | .cons first rest, 0, found => by
    obtain rfl : first = blocks := by simpa [Regions.get?, Regions.toList] using found
    simp only [Regions.modify_cons_zero, Regions.parts, List.count_append]
    omega
  | .cons first rest, index + 1, found => by
    have inside := Regions.count_modify part change rest index
      (by simpa [Regions.get?, Regions.toList] using found)
    simp only [Regions.modify_cons_succ, Regions.parts, List.count_append]
    omega

theorem Body.eq_append_of_splitLast? {body front : Body} {last : OpId} {inside : Regions}
    (split : body.splitLast? = some (front, last, inside)) :
    body = front.append (.single last inside) := by
  fun_induction Body.splitLast? body generalizing front with
  | case1 => cases split
  | case2 => cases split; rfl
  | case3 op regions rest other ih =>
    cases found : rest.splitLast? with
    | none => simp [found] at split
    | some parts =>
      obtain ⟨before, other, within⟩ := parts
      simp only [found, Option.map_some, Option.some.injEq, Prod.mk.injEq] at split
      obtain ⟨rfl, rfl, rfl⟩ := split
      rw [Body.append, ← ih found]

/-- The side of a branch that is taken moves out of it, up to the operation that ends it. -/
theorem Regions.count_inline {regions : Regions} {side : Nat} {blocks : Blocks} {block : BlockId}
    {body front : Body} {last : OpId} {inside : Regions} (part : Part)
    (found : regions.get? side = some blocks) (entry : blocks.entryBlock? = some (block, body))
    (split : body.splitLast? = some (front, last, inside)) :
    front.parts.count part +
      (regions.modify side (Blocks.withEntryBody (.single last inside))).parts.count part =
        regions.parts.count part := by
  have whole := Regions.count_modify part (Blocks.withEntryBody (.single last inside)) regions side
    found
  cases blocks with
  | nil => cases entry
  | cons first content rest =>
    cases entry
    rw [Body.eq_append_of_splitLast? split] at whole
    simp only [Blocks.withEntryBody, Blocks.parts, Body.parts_append, List.count_cons,
      List.count_append] at whole
    omega

end TensorIR
