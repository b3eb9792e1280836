import TensorIR.Proofs.UseSearch

/-!
# What stays visible

Operands stay visible when only values that are not used are no longer introduced. A cast that is put
directly behind an operation is visible wherever the result that it casts is used, so uses of the result
may become uses of the cast.

## Main definitions

* `Program.Reveals` — what is introduced still is, up to values that are set aside
* `Program.CastsIn` — uses of a result have become uses of its cast

## Main results

* `Body.visible_mono` — operands that were visible or are visible from the start
* `Body.visible_alterAt` — a cast behind the operation that computes a result
-/

namespace TensorIR

variable {start now : Program} {op new : OpId} {result copy : ValueId}

/-! ### The same tree -/

theorem Body.results_congr (body : Body) (given : ∀ part ∈ body.parts, now.given part = start.given part) :
    body.results now = body.results start := by
  fun_induction body.results start with
  | case1 => rfl
  | case2 op regions rest ih =>
    rw [Body.results, ih fun part member => given part (List.mem_cons_of_mem _ (List.mem_append_right _ member)),
      show now.results op = start.results op from given (.op op) List.mem_cons_self]

/-- Among parts, everything that is introduced still is unless it is set aside, and operands that are new
are visible from the start. -/
structure Program.Reveals (start now : Program) (aside sees : ValueId → Prop) (parts : List Part) : Prop where
  given : ∀ part ∈ parts, ∀ value ∈ start.given part, aside value ∨ value ∈ now.given part
  uses : ∀ op, .op op ∈ parts → ∀ operand ∈ now.operands op,
    operand ∈ start.operands op ∧ ¬aside operand ∨ sees operand

/-- Nothing is set aside where everything is introduced that was. -/
theorem Program.Reveals.of_given {sees : ValueId → Prop} {parts : List Part}
    (given : ∀ part ∈ parts, now.given part = start.given part)
    (uses : ∀ op, .op op ∈ parts → ∀ operand ∈ now.operands op, operand ∈ start.operands op ∨ sees operand) :
    start.Reveals now (fun _ => False) sees parts where
  given part member _ among := .inr ((given part member).symm ▸ among)
  uses op member operand isOperand := (uses op member operand isOperand).imp_left fun old => ⟨old, id⟩

section Reveals

variable {aside seen sees more : ValueId → Prop} {parts fewer : List Part}

theorem Program.Reveals.mono (reveals : start.Reveals now aside sees parts) (subset : fewer ⊆ parts)
    (among : ∀ value, sees value → more value) : start.Reveals now aside more fewer where
  given part member := reveals.given part (subset member)
  uses op member operand isOperand := (reveals.uses op (subset member) operand isOperand).imp_right (among operand)

/-- What the operations of a block introduce. -/
theorem Body.results_of_reveals (body : Body) (reveals : start.Reveals now aside sees body.parts) (value : ValueId)
    (among : value ∈ body.results start) : aside value ∨ value ∈ body.results now := by
  fun_induction body.results start with
  | case1 => cases among
  | case2 op regions rest ih =>
    rw [Body.results, List.mem_append]
    rcases List.mem_append.mp among with here | later
    · exact (reveals.given (.op op) List.mem_cons_self value here).imp_right .inl
    · have behind := List.subset_cons_of_subset (.op op) (List.subset_append_right regions.parts rest.parts)
      exact (ih (reveals.mono behind fun _ => id) later).imp_right .inr

mutual

/-- Operands that were visible, or are visible from the start, are visible. -/
theorem Body.visible_mono {seen sees : ValueId → Prop} (known : ∀ value, seen value → aside value ∨ sees value) :
    (body : Body) → start.Reveals now aside sees body.parts → body.Visible start seen → body.Visible now sees
  | .nil, _, _ => trivial
  | .cons other regions rest, reveals, visible => by
    obtain ⟨shown, inside, later⟩ := visible
    have within := List.subset_cons_of_subset (.op other) (List.subset_append_left regions.parts rest.parts)
    have behind := List.subset_cons_of_subset (.op other) (List.subset_append_right regions.parts rest.parts)
    refine ⟨fun operand member => ?_, Regions.visible_mono known regions (reveals.mono within fun _ => id) inside,
      Body.visible_mono (fun value => ?_) rest (reveals.mono behind fun _ => .inr) later⟩
    · rcases reveals.uses other List.mem_cons_self operand member with ⟨old, used⟩ | new
      · exact (known operand (shown operand old)).resolve_left used
      · exact new
    · rintro (result | before)
      · exact (reveals.given (.op other) List.mem_cons_self value result).imp_right .inl
      · exact (known value before).imp_right .inr

theorem Blocks.visible_mono {seen sees : ValueId → Prop} (known : ∀ value, seen value → aside value ∨ sees value) :
    (blocks : Blocks) → start.Reveals now aside sees blocks.parts → blocks.Visible start seen →
      blocks.Visible now sees
  | .nil, _, _ => trivial
  | .cons block body rest, reveals, visible => by
    have within := List.subset_cons_of_subset (.block block) (List.subset_append_left body.parts rest.parts)
    have behind := List.subset_cons_of_subset (.block block) (List.subset_append_right body.parts rest.parts)
    have entered (value : ValueId) : value ∈ (start.header block).arguments ∨ seen value →
        aside value ∨ value ∈ (now.header block).arguments ∨ sees value := by
      rintro (argument | before)
      · exact (reveals.given (.block block) List.mem_cons_self value argument).imp_right .inl
      · exact (known value before).imp_right .inr
    refine ⟨Body.visible_mono entered body (reveals.mono within fun _ => .inr) visible.1,
      Blocks.visible_mono (fun value => ?_) rest (reveals.mono behind fun _ => .inr ∘ .inr) visible.2⟩
    rintro (result | before)
    · exact (body.results_of_reveals (reveals.mono within fun _ => id) value result).imp_right .inl
    · exact (entered value before).imp_right .inr

theorem Regions.visible_mono {seen sees : ValueId → Prop} (known : ∀ value, seen value → aside value ∨ sees value) :
    (regions : Regions) → start.Reveals now aside sees regions.parts → regions.Visible start seen →
      regions.Visible now sees
  | .nil, _, _ => trivial
  | .cons blocks rest, reveals, visible =>
    ⟨Blocks.visible_mono known blocks (reveals.mono (List.subset_append_left _ _) fun _ => id) visible.1,
      Regions.visible_mono known rest (reveals.mono (List.subset_append_right _ _) fun _ => id) visible.2⟩

end

end Reveals

/-! ### A cast behind an operation -/

/-- Among parts, an operation alone introduces a result, and some uses of it have become uses of its
cast. -/
structure Program.CastsIn (start now : Program) (op : OpId) (result copy : ValueId) (parts : List Part) :
    Prop where
  nodup : parts.Nodup
  given : ∀ part ∈ parts, now.given part = start.given part
  uses : ∀ other, .op other ∈ parts → ∀ operand ∈ now.operands other,
    operand ∈ start.operands other ∨ operand = copy ∧ result ∈ start.operands other
  only : start.OnlyGives (.op op) result parts

theorem Program.CastsIn.mono {parts fewer : List Part} (casts : start.CastsIn now op result copy parts)
    (sublist : fewer.Sublist parts) : start.CastsIn now op result copy fewer where
  nodup := casts.nodup.sublist sublist
  given part member := casts.given part (sublist.subset member)
  uses other member := casts.uses other (sublist.subset member)
  only := casts.only.mono sublist.subset

/-- An operation that does not see the result does not use the cast. -/
theorem Program.CastsIn.reveals {parts : List Part} (casts : start.CastsIn now op result copy parts)
    {seen : ValueId → Prop} (hidden : ¬seen result) {other : OpId} (member : .op other ∈ parts)
    (shown : ∀ operand ∈ start.operands other, seen operand) : ∀ operand ∈ now.operands other, seen operand := by
  intro operand isOperand
  rcases casts.uses other member operand isOperand with old | ⟨-, isUse⟩
  · exact shown operand old
  · exact absurd (shown result isUse) hidden

/-- The operations from the given one on, with the cast behind it. -/
abbrev putBehind (op new : OpId) (regions : Regions) (rest : Body) : Body :=
  .cons op regions (.cons new .nil rest)

/-- A block that introduces the result introduces the cast as well. -/
theorem Body.mem_results_alterAt (body : Body) (casts : start.CastsIn now op result copy body.parts)
    (results_new : now.results new = [copy]) (value : ValueId)
    (among : value ∈ body.results start) :
    value ∈ (body.alterAt op (putBehind op new)).results now ∧
      (value = result → copy ∈ (body.alterAt op (putBehind op new)).results now) := by
  fun_induction body.results start with
  | case1 => cases among
  | case2 other regions rest ih =>
    have same : now.results other = start.results other := casts.given (.op other) List.mem_cons_self
    have sublist : rest.parts.Sublist (Body.cons other regions rest).parts :=
      (List.sublist_append_right _ _).cons _
    rw [Body.alterAt]
    split
    case isTrue here =>
      subst here
      have behind : rest.results now = rest.results start :=
        rest.results_congr fun part member => casts.given part (sublist.subset member)
      rw [Body.results, Body.results, results_new, same, behind]
      refine ⟨?_, fun _ => List.mem_append_right _ List.mem_cons_self⟩
      exact (List.mem_append.mp among).elim (List.mem_append_left _)
        fun later => List.mem_append_right _ (List.mem_cons_of_mem _ later)
    case isFalse different =>
      rw [Body.results, same, List.mem_append, List.mem_append]
      rcases List.mem_append.mp among with isResult | later
      · refine ⟨.inl isResult, ?_⟩
        rintro rfl
        cases casts.only (.op other) List.mem_cons_self isResult
        exact absurd rfl different
      · exact (ih (casts.mono sublist) later).imp .inr fun copies same => .inr (copies same)

mutual

/-- Behind the operation that computes the result, its cast is visible as well. -/
theorem Body.visible_alterAt (operands_new : now.operands new = [result])
    (results_new : now.results new = [copy]) (isResult : result ∈ start.results op)
    {seen sees : ValueId → Prop} (reveals : ∀ value, seen value → sees value) (hidden : ¬seen result) :
    (body : Body) → start.CastsIn now op result copy body.parts → body.Visible start seen →
      (body.alterAt op (putBehind op new)).Visible now sees
  | .nil, _, _ => trivial
  | .cons other regions rest, casts, visible => by
    obtain ⟨shown, inside, later⟩ := visible
    have here := casts.reveals hidden List.mem_cons_self shown
    have results : now.results other = start.results other := casts.given (.op other) List.mem_cons_self
    have castsInside := casts.mono ((List.sublist_append_left regions.parts rest.parts).cons _)
    have castsLater := casts.mono ((List.sublist_append_right regions.parts rest.parts).cons _)
    have within := Regions.visible_alterAt operands_new results_new isResult reveals hidden regions castsInside inside
    by_cases isOp : other = op
    case pos =>
      subst isOp
      have absent := (List.nodup_cons.mp casts.nodup).1
      rw [Regions.alterAt_of_notMem regions fun among =>
        absent (List.mem_append_left _ (Regions.op_mem_parts.mpr among))] at within
      rw [Body.alterAt, if_pos rfl]
      refine ⟨fun operand member => reveals operand (here operand member), within, ?_, trivial, ?_⟩
      · intro operand member
        rw [operands_new, List.mem_singleton] at member
        rw [member, results]
        exact .inl isResult
      · refine Body.visible_mono (fun value known => .inr (.inr ?known)) rest
          (.of_given castsLater.given fun user member operand isOperand => ?uses) later
        case known =>
          rw [results]
          exact known.imp_right (reveals value)
        case uses =>
          refine (castsLater.uses user member operand isOperand).imp_right fun isCopy => .inl ?_
          rw [results_new, isCopy.1]
          exact List.mem_cons_self
    case neg =>
      have hiddenLater : ¬(result ∈ start.results other ∨ seen result) := by
        rintro (among | before)
        · cases casts.only (.op other) List.mem_cons_self among
          exact isOp rfl
        · exact hidden before
      rw [Body.alterAt, if_neg isOp]
      refine ⟨fun operand member => reveals operand (here operand member), within, ?_⟩
      refine Body.visible_alterAt operands_new results_new isResult (fun value => ?_) hiddenLater rest castsLater later
      rw [results]
      exact Or.imp_right (reveals value)

theorem Blocks.visible_alterAt (operands_new : now.operands new = [result])
    (results_new : now.results new = [copy]) (isResult : result ∈ start.results op)
    {seen sees : ValueId → Prop} (reveals : ∀ value, seen value → sees value) (hidden : ¬seen result) :
    (blocks : Blocks) → start.CastsIn now op result copy blocks.parts → blocks.Visible start seen →
      (blocks.alterAt op (putBehind op new)).Visible now sees
  | .nil, _, _ => trivial
  | .cons block body rest, casts, visible => by
    have arguments : (now.header block).arguments = (start.header block).arguments :=
      casts.given (.block block) List.mem_cons_self
    have castsInside := casts.mono ((List.sublist_append_left body.parts rest.parts).cons _)
    have castsLater := casts.mono ((List.sublist_append_right body.parts rest.parts).cons _)
    have entered : ¬(result ∈ (start.header block).arguments ∨ seen result) := by
      rintro (among | before)
      · cases casts.only (.block block) List.mem_cons_self among
      · exact hidden before
    have showsInside (value : ValueId) : value ∈ (start.header block).arguments ∨ seen value →
        value ∈ (start.header block).arguments ∨ sees value := Or.imp_right (reveals value)
    have results := body.mem_results_alterAt castsInside results_new
    have showsLater (value : ValueId) :
        value ∈ body.results start ∨ value ∈ (start.header block).arguments ∨ seen value →
          value ∈ (body.alterAt op (putBehind op new)).results now ∨
            value ∈ (start.header block).arguments ∨ sees value :=
      Or.imp (fun among => (results value among).1) (showsInside value)
    rw [Blocks.alterAt, Blocks.Visible, arguments]
    refine ⟨Body.visible_alterAt operands_new results_new isResult showsInside entered body castsInside visible.1, ?_⟩
    by_cases introduced : result ∈ body.results start
    case neg =>
      exact Blocks.visible_alterAt operands_new results_new isResult showsLater (not_or.mpr ⟨introduced, entered⟩)
        rest castsLater visible.2
    case pos =>
      -- The cast stands in this block, so nothing has been put into the blocks behind it.
      have isInside : .op op ∈ body.parts := by
        by_contra absent
        exact body.notMem_results (castsInside.only.elsewhere absent) introduced
      have notLater : op ∉ rest.ops := fun among =>
        (List.nodup_append.mp (List.nodup_cons.mp casts.nodup).2).2.2 _ isInside _ (Blocks.op_mem_parts.mpr among) rfl
      rw [Blocks.alterAt_of_notMem rest notLater]
      refine Blocks.visible_mono (fun value known => .inr (showsLater value known)) rest
        (.of_given castsLater.given fun user member operand isOperand => ?_) visible.2
      refine (castsLater.uses user member operand isOperand).imp_right fun isCopy => .inl ?_
      exact isCopy.1 ▸ (results result introduced).2 rfl

theorem Regions.visible_alterAt (operands_new : now.operands new = [result])
    (results_new : now.results new = [copy]) (isResult : result ∈ start.results op)
    {seen sees : ValueId → Prop} (reveals : ∀ value, seen value → sees value) (hidden : ¬seen result) :
    (regions : Regions) → start.CastsIn now op result copy regions.parts → regions.Visible start seen →
      (regions.alterAt op (putBehind op new)).Visible now sees
  | .nil, _, _ => trivial
  | .cons blocks rest, casts, visible =>
    ⟨Blocks.visible_alterAt operands_new results_new isResult reveals hidden blocks
      (casts.mono (List.sublist_append_left _ _)) visible.1,
      Regions.visible_alterAt operands_new results_new isResult reveals hidden rest
        (casts.mono (List.sublist_append_right _ _)) visible.2⟩

end

end TensorIR
