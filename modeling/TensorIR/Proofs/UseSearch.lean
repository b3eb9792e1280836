import TensorIR.Proofs.Scalar.Rounds
import TensorIR.Proofs.Visibility

/-!
# What the search for uses finds

In a valid program a result is used only behind the operation that computes it, and an argument only in
its block or in blocks behind it. The search for uses looks at the rest of the block and at what is inside
it. So all it may miss are uses in the blocks that come after the one of the value in its region, and it
misses all of those.

## Main definitions

* `Program.allUses` — the operands in the tree that are a given value
* `Program.opsBehind` — the operations in later blocks of the region

## Main results

* `Program.mem_allUses`, `Program.nodup_allUses` — every operand that is the value is listed once
* `Program.allUses_eq` — what the search for uses finds, and what it misses
* `Program.usesOf_eq_allUses` — in regions of one block it misses nothing
-/

namespace TensorIR

variable {program : Program} {value : ValueId} {part : Part}

/-! ### All uses -/

/-- The operands in the tree that are the value, in program order. -/
def Program.allUses (program : Program) (value : ValueId) : List Use :=
  program.tree.ops.flatMap (program.usesIn value)

theorem Program.mem_allUses {use : Use} : use ∈ program.allUses value ↔
    use.op ∈ program.tree.ops ∧ (program.operands use.op)[use.index]? = some value := by
  simp only [Program.allUses, List.mem_flatMap, Program.mem_usesIn]
  constructor
  · rintro ⟨op, member, rfl, found⟩
    exact ⟨member, found⟩
  · rintro ⟨member, found⟩
    exact ⟨use.op, member, rfl, found⟩

theorem Program.nodup_usesIn (op : OpId) : (program.usesIn value op).Nodup := by
  have nodup : (program.operands op).zipIdx.Nodup := by
    refine List.Nodup.of_map Prod.snd ?_
    rw [List.zipIdx_map_snd]
    exact List.nodup_range'
  refine nodup.filterMap ?_
  rintro ⟨first, index⟩ ⟨second, other⟩ use isFirst isSecond
  simp only [Option.mem_def, Option.ite_none_right_eq_some, Option.some.injEq] at isFirst isSecond
  obtain ⟨rfl, rfl⟩ := isFirst
  obtain ⟨rfl, same⟩ := isSecond
  rw [(Use.mk.inj same).2]

/-- No operand is listed twice. -/
theorem Program.nodup_allUses (formed : program.WellFormed) : (program.allUses value).Nodup := by
  refine List.nodup_flatMap.mpr ⟨fun op _ => Program.nodup_usesIn op, ?_⟩
  refine (Body.nodup_ops formed.nodup).imp fun different use isFirst isSecond => ?_
  exact different ((Program.mem_usesIn.mp isFirst).1.symm.trans (Program.mem_usesIn.mp isSecond).1)

/-! ### Places in the tree -/

mutual

/-- The parts of a tree with the block where their values are introduced and the operations behind them
in it. -/
def Body.sights (block : Option BlockId) : Body → List (Part × Option BlockId × Body)
  | .nil => []
  | .cons op regions rest =>
    (.op op, block, rest) :: (Regions.sights regions ++ Body.sights block rest)

/-- Blocks and the parts inside them with the operations behind them. -/
def Blocks.sights : Blocks → List (Part × Option BlockId × Body)
  | .nil => []
  | .cons block body rest =>
    (.block block, some block, body) :: (Body.sights (some block) body ++ Blocks.sights rest)

/-- The parts inside regions with the operations behind them. -/
def Regions.sights : Regions → List (Part × Option BlockId × Body)
  | .nil => []
  | .cons blocks rest => Blocks.sights blocks ++ Regions.sights rest

end

mutual

/-- The operations in the blocks that come after a block in its region. -/
def Body.opsBehind (block : BlockId) : Body → List OpId
  | .nil => []
  | .cons _ regions rest => Regions.opsBehind block regions ++ Body.opsBehind block rest

/-- The operations in the blocks that come after a block among these or inside them. -/
def Blocks.opsBehind (block : BlockId) : Blocks → List OpId
  | .nil => []
  | .cons other body rest =>
    if other = block then rest.ops else Body.opsBehind block body ++ Blocks.opsBehind block rest

/-- The operations in the blocks that come after a block inside regions. -/
def Regions.opsBehind (block : BlockId) : Regions → List OpId
  | .nil => []
  | .cons blocks rest => Blocks.opsBehind block blocks ++ Regions.opsBehind block rest

end

section Places

variable {home : Option BlockId} {scope : Body}

mutual

theorem Body.map_sights (block : Option BlockId) :
    (body : Body) → (body.sights block).map Prod.fst = body.parts
  | .nil => rfl
  | .cons op regions rest => by
    rw [Body.sights, Body.parts, List.map_cons, List.map_append, Regions.map_sights regions,
      Body.map_sights block rest]

theorem Blocks.map_sights : (blocks : Blocks) → blocks.sights.map Prod.fst = blocks.parts
  | .nil => rfl
  | .cons block body rest => by
    rw [Blocks.sights, Blocks.parts, List.map_cons, List.map_append, Body.map_sights _ body,
      Blocks.map_sights rest]

theorem Regions.map_sights : (regions : Regions) → regions.sights.map Prod.fst = regions.parts
  | .nil => rfl
  | .cons blocks rest => by
    rw [Regions.sights, Regions.parts, List.map_append, Blocks.map_sights blocks,
      Regions.map_sights rest]

end

mutual

/-- Visits tell what is behind operations. -/
theorem Body.visit_of_sights {op : OpId} (block : Option BlockId) (parent : Option OpId) (depth : Nat) :
    (body : Body) → (.op op, home, scope) ∈ body.sights block →
      ∃ visit ∈ body.visits block parent depth, visit.op = op ∧ visit.block = home ∧ visit.rest = scope
  | .nil, member => by cases member
  | .cons head regions rest, member => by
    rw [Body.sights] at member
    rcases List.mem_cons.mp member with same | inner
    · cases same
      exact ⟨_, List.mem_cons_self, rfl, rfl, rfl⟩
    rcases List.mem_append.mp inner with within | behind
    · obtain ⟨visit, visited, same⟩ := Regions.visit_of_sights head (depth + 1) regions within
      exact ⟨visit, List.mem_cons_of_mem _ (List.mem_append_left _ visited), same⟩
    · obtain ⟨visit, visited, same⟩ := Body.visit_of_sights block parent depth rest behind
      exact ⟨visit, List.mem_cons_of_mem _ (List.mem_append_right _ visited), same⟩

theorem Blocks.visit_of_sights {op : OpId} (parent : OpId) (depth : Nat) :
    (blocks : Blocks) → (.op op, home, scope) ∈ blocks.sights →
      ∃ visit ∈ blocks.visits parent depth, visit.op = op ∧ visit.block = home ∧ visit.rest = scope
  | .nil, member => by cases member
  | .cons block body rest, member => by
    rw [Blocks.sights] at member
    rcases List.mem_cons.mp member with same | inner
    · cases same
    rcases List.mem_append.mp inner with within | behind
    · obtain ⟨visit, visited, same⟩ :=
        Body.visit_of_sights (some block) (some parent) depth body within
      exact ⟨visit, List.mem_append_left _ visited, same⟩
    · obtain ⟨visit, visited, same⟩ := Blocks.visit_of_sights parent depth rest behind
      exact ⟨visit, List.mem_append_right _ visited, same⟩

theorem Regions.visit_of_sights {op : OpId} (parent : OpId) (depth : Nat) :
    (regions : Regions) → (.op op, home, scope) ∈ regions.sights →
      ∃ visit ∈ regions.visits parent depth, visit.op = op ∧ visit.block = home ∧ visit.rest = scope
  | .nil, member => by cases member
  | .cons blocks rest, member => by
    rw [Regions.sights] at member
    rcases List.mem_append.mp member with within | behind
    · obtain ⟨visit, visited, same⟩ := Blocks.visit_of_sights parent depth blocks within
      exact ⟨visit, List.mem_append_left _ visited, same⟩
    · obtain ⟨visit, visited, same⟩ := Regions.visit_of_sights parent depth rest behind
      exact ⟨visit, List.mem_append_right _ visited, same⟩

end

mutual

/-- The operations behind the arguments of a block are those of the block. -/
theorem Body.block_of_sights {inner : BlockId} (block : Option BlockId) :
    (body : Body) → (.block inner, home, scope) ∈ body.sights block →
      home = some inner ∧ (inner, scope) ∈ body.blockBodies
  | .nil, member => by cases member
  | .cons head regions rest, member => by
    rw [Body.sights] at member
    rcases List.mem_cons.mp member with same | inside
    · cases same
    rcases List.mem_append.mp inside with within | behind
    · exact (Regions.block_of_sights regions within).imp_right (List.mem_append_left _)
    · exact (Body.block_of_sights block rest behind).imp_right (List.mem_append_right _)

theorem Blocks.block_of_sights {inner : BlockId} :
    (blocks : Blocks) → (.block inner, home, scope) ∈ blocks.sights →
      home = some inner ∧ (inner, scope) ∈ blocks.blockBodies
  | .nil, member => by cases member
  | .cons block body rest, member => by
    rw [Blocks.sights] at member
    rcases List.mem_cons.mp member with same | inside
    · cases same
      exact ⟨rfl, List.mem_cons_self⟩
    rcases List.mem_append.mp inside with within | behind
    · exact (Body.block_of_sights _ body within).imp_right fun among =>
        List.mem_cons_of_mem _ (List.mem_append_left _ among)
    · exact (Blocks.block_of_sights rest behind).imp_right fun among =>
        List.mem_cons_of_mem _ (List.mem_append_right _ among)

theorem Regions.block_of_sights {inner : BlockId} :
    (regions : Regions) → (.block inner, home, scope) ∈ regions.sights →
      home = some inner ∧ (inner, scope) ∈ regions.blockBodies
  | .nil, member => by cases member
  | .cons blocks rest, member => by
    rw [Regions.sights] at member
    rcases List.mem_append.mp member with within | behind
    · exact (Blocks.block_of_sights blocks within).imp_right (List.mem_append_left _)
    · exact (Regions.block_of_sights rest behind).imp_right (List.mem_append_right _)

end

mutual

theorem Body.opsBehind_of_notMem {block : BlockId} :
    (body : Body) → .block block ∉ body.parts → body.opsBehind block = []
  | .nil, _ => rfl
  | .cons op regions rest, absent => by
    rw [Body.parts] at absent
    rw [Body.opsBehind, Regions.opsBehind_of_notMem regions fun among =>
      absent (List.mem_cons_of_mem _ (List.mem_append_left _ among)),
      Body.opsBehind_of_notMem rest fun among =>
        absent (List.mem_cons_of_mem _ (List.mem_append_right _ among)), List.append_nil]

theorem Blocks.opsBehind_of_notMem {block : BlockId} :
    (blocks : Blocks) → .block block ∉ blocks.parts → blocks.opsBehind block = []
  | .nil, _ => rfl
  | .cons other body rest, absent => by
    rw [Blocks.parts] at absent
    have different : other ≠ block := by
      rintro rfl
      exact absent List.mem_cons_self
    rw [Blocks.opsBehind, if_neg different, Body.opsBehind_of_notMem body fun among =>
      absent (List.mem_cons_of_mem _ (List.mem_append_left _ among)),
      Blocks.opsBehind_of_notMem rest fun among =>
        absent (List.mem_cons_of_mem _ (List.mem_append_right _ among)), List.append_nil]

theorem Regions.opsBehind_of_notMem {block : BlockId} :
    (regions : Regions) → .block block ∉ regions.parts → regions.opsBehind block = []
  | .nil, _ => rfl
  | .cons blocks rest, absent => by
    rw [Regions.parts] at absent
    rw [Regions.opsBehind, Blocks.opsBehind_of_notMem blocks fun among =>
      absent (List.mem_append_left _ among), Regions.opsBehind_of_notMem rest fun among =>
      absent (List.mem_append_right _ among), List.append_nil]

end

end Places

/-! ### Where a value is used -/

theorem Program.usesIn_of_notMem {op : OpId} (absent : value ∉ program.operands op) :
    program.usesIn value op = [] := by
  rw [List.eq_nil_iff_forall_not_mem]
  intro use among
  exact absent (List.mem_of_getElem? (Program.mem_usesIn.mp among).2)

section Hidden

variable {seen : ValueId → Prop}

/-- A value that is not introduced in a block is no result there. -/
theorem Body.notMem_results (body : Body) (elsewhere : ∀ other ∈ body.parts, value ∉ program.given other) :
    value ∉ body.results program := by
  fun_induction Body.results program body with
  | case1 => exact List.not_mem_nil
  | case2 op regions rest ih =>
    intro among
    rcases List.mem_append.mp among with isResult | later
    · exact elsewhere (.op op) List.mem_cons_self isResult
    · exact ih (fun other member =>
        elsewhere other (List.mem_cons_of_mem _ (List.mem_append_right _ member))) later

theorem Program.usesIn_of_hidden {op : OpId} (hidden : ¬seen value)
    (shown : ∀ operand ∈ program.operands op, seen operand) : program.usesIn value op = [] :=
  Program.usesIn_of_notMem fun isOperand => hidden (shown value isOperand)

mutual

/-- A value that is not visible and not introduced in a block is not used in it. -/
theorem Body.uses_eq_nil {seen : ValueId → Prop} (hidden : ¬seen value) : (body : Body) →
    (∀ other ∈ body.parts, value ∉ program.given other) → body.Visible program seen →
      body.ops.flatMap (program.usesIn value) = []
  | .nil, _, _ => rfl
  | .cons op regions rest, elsewhere, visible => by
    obtain ⟨shown, inside, later⟩ := visible
    rw [Body.parts] at elsewhere
    have hiddenLater : ¬(value ∈ program.results op ∨ seen value) :=
      not_or.mpr ⟨elsewhere (.op op) List.mem_cons_self, hidden⟩
    rw [Body.ops, List.flatMap_cons, List.flatMap_append, Program.usesIn_of_hidden hidden shown,
      Regions.uses_eq_nil hidden regions (fun other member =>
        elsewhere other (List.mem_cons_of_mem _ (List.mem_append_left _ member))) inside,
      Body.uses_eq_nil hiddenLater rest (fun other member =>
        elsewhere other (List.mem_cons_of_mem _ (List.mem_append_right _ member))) later]
    rfl

theorem Blocks.uses_eq_nil {seen : ValueId → Prop} (hidden : ¬seen value) : (blocks : Blocks) →
    (∀ other ∈ blocks.parts, value ∉ program.given other) → blocks.Visible program seen →
      blocks.ops.flatMap (program.usesIn value) = []
  | .nil, _, _ => rfl
  | .cons block body rest, elsewhere, visible => by
    rw [Blocks.parts] at elsewhere
    have inBody (other : Part) (member : other ∈ body.parts) :=
      elsewhere other (List.mem_cons_of_mem _ (List.mem_append_left _ member))
    have entered : ¬(value ∈ (program.header block).arguments ∨ seen value) :=
      not_or.mpr ⟨elsewhere (.block block) List.mem_cons_self, hidden⟩
    rw [Blocks.ops, List.flatMap_append, Body.uses_eq_nil entered body inBody visible.1,
      Blocks.uses_eq_nil (not_or.mpr ⟨body.notMem_results inBody, entered⟩) rest (fun other member =>
        elsewhere other (List.mem_cons_of_mem _ (List.mem_append_right _ member))) visible.2]
    rfl

theorem Regions.uses_eq_nil {seen : ValueId → Prop} (hidden : ¬seen value) :
    (regions : Regions) → (∀ other ∈ regions.parts, value ∉ program.given other) →
    regions.Visible program seen → regions.ops.flatMap (program.usesIn value) = []
  | .nil, _, _ => rfl
  | .cons blocks rest, elsewhere, visible => by
    rw [Regions.parts] at elsewhere
    rw [Regions.ops, List.flatMap_append,
      Blocks.uses_eq_nil hidden blocks (fun other member =>
        elsewhere other (List.mem_append_left _ member)) visible.1,
      Regions.uses_eq_nil hidden rest (fun other member =>
        elsewhere other (List.mem_append_right _ member)) visible.2]
    rfl

end

end Hidden

/-- What uses a value among operations is in its scope, or in operations that come later. -/
structure Program.Spans (program : Program) (value : ValueId) (ops scope later : List OpId) : Prop where
  uses_eq : ops.flatMap (program.usesIn value) =
    scope.flatMap (program.usesIn value) ++ later.flatMap (program.usesIn value)
  sublist : (scope ++ later).Sublist ops

namespace Program.Spans

variable {ops scope later : List OpId}

theorem all (ops : List OpId) : program.Spans value ops ops [] where
  uses_eq := (List.append_nil _).symm
  sublist := (List.append_nil ops).symm ▸ .refl _

/-- Operations in front that do not use the value. -/
theorem behind (spans : program.Spans value ops scope later) {front : List OpId}
    (unused : front.flatMap (program.usesIn value) = []) :
    program.Spans value (front ++ ops) scope later where
  uses_eq := by rw [List.flatMap_append, unused, List.nil_append, spans.uses_eq]
  sublist := spans.sublist.trans (List.sublist_append_right _ _)

/-- An operation in front that does not use the value. -/
theorem cons (spans : program.Spans value ops scope later) {op : OpId}
    (unused : program.usesIn value op = []) : program.Spans value (op :: ops) scope later :=
  spans.behind (show [op].flatMap (program.usesIn value) = [] by rw [List.flatMap_singleton, unused])

/-- Operations at the end that do not use the value. -/
theorem before (spans : program.Spans value ops scope later) {back : List OpId}
    (unused : back.flatMap (program.usesIn value) = []) :
    program.Spans value (ops ++ back) scope later where
  uses_eq := by rw [List.flatMap_append, unused, List.append_nil, spans.uses_eq]
  sublist := spans.sublist.trans (List.sublist_append_left _ _)

/-- Operations at the end that come later. -/
theorem extend (spans : program.Spans value ops scope []) (later : List OpId) :
    program.Spans value (ops ++ later) scope later where
  uses_eq := by rw [List.flatMap_append, spans.uses_eq, List.flatMap_nil, List.append_nil]
  sublist := by
    have sublist := spans.sublist
    rw [List.append_nil] at sublist
    exact sublist.append (.refl _)

end Program.Spans

section Spans

variable {home : Option BlockId} {scope : Body}

/-- The part alone introduces the value. -/
def Program.OnlyGives (program : Program) (part : Part) (value : ValueId) (parts : List Part) : Prop :=
  ∀ other ∈ parts, value ∈ program.given other → other = part

theorem Program.OnlyGives.mono {parts fewer : List Part} (only : program.OnlyGives part value parts)
    (subset : fewer ⊆ parts) : program.OnlyGives part value fewer :=
  fun other member => only other (subset member)

/-- Where the part is not, the value is not introduced. -/
theorem Program.OnlyGives.elsewhere {parts : List Part} (only : program.OnlyGives part value parts)
    (absent : part ∉ parts) : ∀ other ∈ parts, value ∉ program.given other :=
  fun other member isGiven => absent (only other member isGiven ▸ member)

mutual

/-- What uses a value that a part of a block introduces is behind the part in its block, or it is in
later blocks of the region. -/
theorem Body.spans {seen : ValueId → Prop} (hidden : ¬seen value) (block : Option BlockId) :
    (body : Body) → body.parts.Nodup → program.OnlyGives part value body.parts →
      body.Visible program seen → (part, home, scope) ∈ body.sights block →
        home = block ∧ program.Spans value body.ops scope.ops [] ∨
          ∃ inner, home = some inner ∧ .block inner ∈ body.parts ∧
            value ∉ body.results program ∧
            program.Spans value body.ops scope.ops (body.opsBehind inner)
  | .nil, _, _, _, member => by cases member
  | .cons op regions rest, nodup, only, visible, member => by
    rw [Body.parts] at nodup only
    obtain ⟨absent, apart⟩ := List.nodup_cons.mp nodup
    obtain ⟨regionsNodup, restNodup, disjoint⟩ := List.nodup_append.mp apart
    obtain ⟨shown, visibleInside, visibleLater⟩ := visible
    have here := Program.usesIn_of_hidden hidden shown
    have inRegions := only.mono (List.subset_cons_of_subset _ (List.subset_append_left _ rest.parts))
    have inRest := only.mono (List.subset_cons_of_subset _ (List.subset_append_right regions.parts _))
    rw [Body.sights] at member
    rcases List.mem_cons.mp member with same | inner
    · cases same
      have inside := Regions.uses_eq_nil hidden regions
        (inRegions.elsewhere fun among => absent (List.mem_append_left _ among)) visibleInside
      exact .inl ⟨rfl, ((Program.Spans.all scope.ops).behind inside).cons here⟩
    have notResult (among : part ∈ regions.parts ++ rest.parts) :
        ¬(value ∈ program.results op ∨ seen value) := by
      rintro (isResult | before)
      · exact absent (only (.op op) List.mem_cons_self isResult ▸ among)
      · exact hidden before
    rcases List.mem_append.mp inner with within | behind
    · -- The value is introduced inside the operation, so what follows does not see it.
      have inside : part ∈ regions.parts := regions.map_sights ▸ List.mem_map_of_mem within
      have outside := inRest.elsewhere fun among => disjoint part inside part among rfl
      have later := notResult (List.mem_append_left _ inside)
      obtain ⟨inner, isHome, isBlock, spans⟩ :=
        Regions.spans hidden regions regionsNodup inRegions visibleInside within
      refine .inr ⟨inner, isHome, List.mem_cons_of_mem _ (List.mem_append_left _ isBlock),
        fun among => (List.mem_append.mp among).elim (not_or.mp later).1 (rest.notMem_results outside), ?_⟩
      rw [Body.opsBehind, rest.opsBehind_of_notMem fun among => disjoint _ isBlock _ among rfl,
        List.append_nil]
      exact (spans.before (Body.uses_eq_nil later rest outside visibleLater)).cons here
    · have inside : part ∈ rest.parts := Body.map_sights block rest ▸ List.mem_map_of_mem behind
      have none := Regions.uses_eq_nil hidden regions
        (inRegions.elsewhere fun among => disjoint part among part inside rfl) visibleInside
      rcases Body.spans (notResult (List.mem_append_right _ inside)) block rest restNodup inRest visibleLater
        behind with ⟨isHome, spans⟩ | ⟨inner, isHome, isBlock, later, spans⟩
      · exact .inl ⟨isHome, (spans.behind none).cons here⟩
      · refine .inr ⟨inner, isHome, List.mem_cons_of_mem _ (List.mem_append_right _ isBlock), fun among =>
          (List.mem_append.mp among).elim (not_or.mp (notResult (List.mem_append_right _ inside))).1 later, ?_⟩
        rw [Body.opsBehind, regions.opsBehind_of_notMem fun among => disjoint _ among _ isBlock rfl,
          List.nil_append]
        exact (spans.behind none).cons here

theorem Blocks.spans {seen : ValueId → Prop} (hidden : ¬seen value) :
    (blocks : Blocks) → blocks.parts.Nodup → program.OnlyGives part value blocks.parts →
      blocks.Visible program seen → (part, home, scope) ∈ blocks.sights →
        ∃ inner, home = some inner ∧ .block inner ∈ blocks.parts ∧
          program.Spans value blocks.ops scope.ops (blocks.opsBehind inner)
  | .nil, _, _, _, member => by cases member
  | .cons block body rest, nodup, only, visible, member => by
    rw [Blocks.parts] at nodup only
    obtain ⟨absent, apart⟩ := List.nodup_cons.mp nodup
    obtain ⟨bodyNodup, restNodup, disjoint⟩ := List.nodup_append.mp apart
    have inBody := only.mono (List.subset_cons_of_subset _ (List.subset_append_left _ rest.parts))
    have inRest := only.mono (List.subset_cons_of_subset _ (List.subset_append_right body.parts _))
    rw [Blocks.sights] at member
    rcases List.mem_cons.mp member with same | inner
    · cases same
      refine ⟨block, rfl, List.mem_cons_self, ?_⟩
      rw [Blocks.opsBehind, if_pos rfl]
      exact (Program.Spans.all scope.ops).extend rest.ops
    -- Away from this block itself the value is not among its arguments, so it stays hidden.
    have entered (among : part ∈ body.parts ++ rest.parts) :
        ¬(value ∈ (program.header block).arguments ∨ seen value) := by
      rintro (isArgument | before)
      · exact absent (only (.block block) List.mem_cons_self isArgument ▸ among)
      · exact hidden before
    rcases List.mem_append.mp inner with within | behind
    · have inside : part ∈ body.parts := Body.map_sights (some block) body ▸ List.mem_map_of_mem within
      rcases Body.spans (entered (List.mem_append_left _ inside)) (some block) body bodyNodup inBody visible.1
        within with ⟨isHome, spans⟩ | ⟨inner, isHome, isBlock, later, spans⟩
      · refine ⟨block, isHome, List.mem_cons_self, ?_⟩
        rw [Blocks.opsBehind, if_pos rfl]
        exact spans.extend rest.ops
      · refine ⟨inner, isHome, List.mem_cons_of_mem _ (List.mem_append_left _ isBlock), ?_⟩
        have different : block ≠ inner := by
          rintro rfl
          exact absent (List.mem_append_left _ isBlock)
        rw [Blocks.opsBehind, if_neg different,
          rest.opsBehind_of_notMem fun among => disjoint _ isBlock _ among rfl, List.append_nil]
        exact spans.before (Blocks.uses_eq_nil
          (not_or.mpr ⟨later, entered (List.mem_append_left _ inside)⟩) rest
          (inRest.elsewhere fun among => disjoint part inside part among rfl) visible.2)
    · have inside : part ∈ rest.parts := rest.map_sights ▸ List.mem_map_of_mem behind
      have outside := inBody.elsewhere fun among => disjoint part among part inside rfl
      have hiddenInside := entered (List.mem_append_right _ inside)
      obtain ⟨inner, isHome, isBlock, spans⟩ :=
        Blocks.spans (not_or.mpr ⟨body.notMem_results outside, hiddenInside⟩) rest restNodup inRest visible.2 behind
      refine ⟨inner, isHome, List.mem_cons_of_mem _ (List.mem_append_right _ isBlock), ?_⟩
      have different : block ≠ inner := by
        rintro rfl
        exact absent (List.mem_append_right _ isBlock)
      rw [Blocks.opsBehind, if_neg different,
        body.opsBehind_of_notMem fun among => disjoint _ among _ isBlock rfl, List.nil_append]
      exact spans.behind (Body.uses_eq_nil hiddenInside body outside visible.1)

theorem Regions.spans {seen : ValueId → Prop} (hidden : ¬seen value) :
    (regions : Regions) → regions.parts.Nodup → program.OnlyGives part value regions.parts →
      regions.Visible program seen → (part, home, scope) ∈ regions.sights →
        ∃ inner, home = some inner ∧ .block inner ∈ regions.parts ∧
          program.Spans value regions.ops scope.ops (regions.opsBehind inner)
  | .nil, _, _, _, member => by cases member
  | .cons blocks rest, nodup, only, visible, member => by
    rw [Regions.parts] at nodup only
    obtain ⟨blocksNodup, restNodup, disjoint⟩ := List.nodup_append.mp nodup
    have inBlocks := only.mono (List.subset_append_left _ rest.parts)
    have inRest := only.mono (List.subset_append_right blocks.parts _)
    rw [Regions.sights] at member
    rcases List.mem_append.mp member with within | behind
    · have inside : part ∈ blocks.parts := blocks.map_sights ▸ List.mem_map_of_mem within
      obtain ⟨inner, isHome, isBlock, spans⟩ :=
        Blocks.spans hidden blocks blocksNodup inBlocks visible.1 within
      refine ⟨inner, isHome, List.mem_append_left _ isBlock, ?_⟩
      rw [Regions.opsBehind, rest.opsBehind_of_notMem fun among => disjoint _ isBlock _ among rfl,
        List.append_nil]
      exact spans.before (Regions.uses_eq_nil hidden rest
        (inRest.elsewhere fun among => disjoint part inside part among rfl) visible.2)
    · have inside : part ∈ rest.parts := rest.map_sights ▸ List.mem_map_of_mem behind
      obtain ⟨inner, isHome, isBlock, spans⟩ :=
        Regions.spans hidden rest restNodup inRest visible.2 behind
      refine ⟨inner, isHome, List.mem_append_right _ isBlock, ?_⟩
      rw [Regions.opsBehind, blocks.opsBehind_of_notMem fun among => disjoint _ among _ isBlock rfl,
        List.nil_append]
      exact spans.behind (Blocks.uses_eq_nil hidden blocks
        (inBlocks.elsewhere fun among => disjoint part among part inside rfl) visible.1)

end

end Spans

/-! ### What is found and what is missed -/

/-- The block in which a value is introduced. -/
def Program.home? (program : Program) (value : ValueId) : Option BlockId :=
  match (program.value value).origin with
  | .result op => (program.visit? op).bind Visit.block
  | .argument block => block
  | .signature => none

/-- The operations in the blocks that come after the one of a value in its region. -/
def Program.opsBehind (program : Program) (value : ValueId) : List OpId :=
  ((program.home? value).map program.tree.opsBehind).getD []

section Search

/-- Only one part of a well-formed tree introduces a value. -/
theorem Program.onlyGives (formed : program.WellFormed) (tabled : program.Tabled)
    (origin : (program.value value).origin = part.origin) :
    program.OnlyGives part value program.tree.parts := by
  intro other member isGiven
  refine Part.origin_inj (Eq.trans ?_ origin)
  have knows := formed.knows other member
  cases other with
  | block id => exact (knows.2.origin_eq value isGiven).symm
  | op id =>
    by_cases isFunction : program.kind id = .func .func
    · rw [tabled.outputs id isFunction value isGiven] at origin
      cases part <;> cases origin
    · exact ((knows.2 isFunction).origin_eq value isGiven).symm

/-- What is behind a part in the tree is the scope of the values that it introduces. -/
theorem Program.scopeOf_of_sights (formed : program.WellFormed) {home : Option BlockId} {scope : Body}
    (seen : (part, home, scope) ∈ program.tree.sights none)
    (origin : (program.value value).origin = part.origin) :
    program.home? value = home ∧ program.scopeOf value = scope.ops := by
  cases part with
  | op op =>
    obtain ⟨visit, visited, rfl, rfl, rfl⟩ := Body.visit_of_sights none none 0 program.tree seen
    refine ⟨?_, formed.scopeOf_result visited origin⟩
    simp [Program.home?, origin, Part.origin, formed.visit?_eq visited]
  | block block =>
    obtain ⟨rfl, among⟩ := Body.block_of_sights none program.tree seen
    rw [Program.tree, Body.blockBodies, Body.blockBodies, List.append_nil] at among
    simp [Program.home?, Program.scopeOf, origin, Part.origin, formed.bodyOf?_eq among]

/-- A value is used in its scope or in later blocks of the region. -/
theorem Program.spans_scopeOf (formed : program.WellFormed) (tabled : program.Tabled)
    (visible : program.tree.Visible program fun _ => False) (member : part ∈ program.tree.parts)
    (origin : (program.value value).origin = part.origin) :
    program.Spans value program.tree.ops (program.scopeOf value) (program.opsBehind value) := by
  have only := Program.onlyGives formed tabled origin
  rw [← Body.map_sights none program.tree] at member
  obtain ⟨⟨_, home, scope⟩, seen, rfl⟩ := List.mem_map.mp member
  obtain ⟨isHome, isScope⟩ := Program.scopeOf_of_sights formed seen origin
  rw [isScope, Program.opsBehind, isHome]
  rcases Body.spans id none program.tree formed.nodup only visible seen with
    ⟨rfl, spans⟩ | ⟨inner, rfl, -, -, spans⟩
  · exact spans
  · exact spans

/-- Operands outside of the scope of a value stay when another value is put in its place. -/
theorem Program.usesIn_replaceUses {other : ValueId} (different : other ≠ value) (op : OpId) :
    (program.replaceUses value other).usesIn value op =
      (program.usesIn value op).filter (·.op ∉ program.scopeOf value) := by
  have operands := program.operands_replaceUses value other op
  by_cases inScope : op ∈ program.scopeOf value
  · rw [if_pos inScope] at operands
    have unused : value ∉ (program.replaceUses value other).operands op := by
      rw [operands, List.mem_map]
      rintro ⟨operand, -, same⟩
      unfold ValueId.swap at same
      split at same
      case isTrue => exact different same
      case isFalse apart => exact apart same
    rw [Program.usesIn_of_notMem unused, eq_comm, List.filter_eq_nil_iff]
    intro use among
    simpa [(Program.mem_usesIn.mp among).1] using inScope
  · rw [if_neg inScope] at operands
    rw [Program.usesIn, operands, eq_comm]
    refine List.filter_eq_self.mpr fun use among => ?_
    simpa [(Program.mem_usesIn.mp among).1] using inScope

theorem Program.allUses_replaceUses {other : ValueId} (different : other ≠ value) :
    (program.replaceUses value other).allUses value =
      (program.allUses value).filter (·.op ∉ program.scopeOf value) := by
  rw [Program.allUses, tree_replaceUses, Program.allUses, List.filter_flatMap]
  exact List.flatMap_congr fun op _ => Program.usesIn_replaceUses different op

/-- The search for the uses of a value in a valid program lists its uses, each once and in program order,
up to those in the blocks that come after the one of the value in its region. Only those are left after
another value has been put in its place. -/
theorem Program.allUses_eq (formed : program.WellFormed) (tabled : program.Tabled)
    (valid : program.verify = .ok ()) (member : part ∈ program.tree.parts)
    (origin : (program.value value).origin = part.origin) {other : ValueId} (different : other ≠ value) :
    program.allUses value =
        program.usesOf value ++ (program.opsBehind value).flatMap (program.usesIn value) ∧
      (program.replaceUses value other).allUses value =
        (program.opsBehind value).flatMap (program.usesIn value) := by
  obtain ⟨symbols, -, visible, -⟩ := Program.verify_iff.mp valid
  obtain ⟨uses_eq, sublist⟩ := Program.spans_scopeOf formed tabled visible member origin
  refine ⟨uses_eq, ?_⟩
  obtain ⟨-, -, disjoint⟩ := List.nodup_append.mp (sublist.nodup (Body.nodup_ops formed.nodup))
  have found : (program.usesOf value).filter (·.op ∉ program.scopeOf value) = [] := by
    refine List.filter_eq_nil_iff.mpr fun use among => ?_
    simpa using (Program.mem_usesOf.mp among).1
  have missed : ((program.opsBehind value).flatMap (program.usesIn value)).filter
      (·.op ∉ program.scopeOf value) = (program.opsBehind value).flatMap (program.usesIn value) := by
    refine List.filter_eq_self.mpr fun use among => ?_
    obtain ⟨op, behind, isUse⟩ := List.mem_flatMap.mp among
    simp only [decide_eq_true_eq, (Program.mem_usesIn.mp isUse).1]
    exact fun inScope => disjoint op inScope op behind rfl
  rw [Program.allUses_replaceUses different, show program.allUses value = _ from uses_eq,
    List.filter_append, show List.flatMap _ (program.scopeOf value) = program.usesOf value from rfl, found,
    missed, List.nil_append]

/-- A function with a block that no run comes to, where a result from the block in front is used. -/
def trailing : Program where
  values := #[⟨some "%x", some (.torch .int), .argument (some ⟨0⟩)⟩,
    ⟨none, some (.torch .int), .signature⟩,
    ⟨some "%a", some (.torch .int), .result ⟨1⟩⟩]
  operations := #[
    { kind := .func .func, results := [⟨1⟩],
      attributes := Attributes.empty.insert "sym_name" (.ofSymbol "f") },
    { kind := .torch .addInt, operands := [⟨0⟩, ⟨0⟩], results := [⟨2⟩] },
    { kind := .func .ret, operands := [⟨0⟩] },
    { kind := .func .ret, operands := [⟨2⟩] },
    { kind := .module }]
  headers := #[{ arguments := [⟨0⟩] }, { label := some "^bb1" }, {}]
  root := ⟨4⟩
  regions := .single ⟨2⟩ (.single ⟨0⟩ (.cons
    (.cons ⟨0⟩ (.cons ⟨1⟩ .nil (.single ⟨2⟩ .nil)) (.cons ⟨1⟩ (.single ⟨3⟩ .nil) .nil)) .nil))

/-- The use in the later block is missed, and it is left when the argument is put in place of the
result. -/
theorem allUses_trailing :
    trailing.usesOf ⟨2⟩ = [] ∧ trailing.allUses ⟨2⟩ = [⟨⟨3⟩, 0⟩] ∧
      (trailing.replaceUses ⟨2⟩ ⟨0⟩).allUses ⟨2⟩ = [⟨⟨3⟩, 0⟩] := by
  have isResult : Part.op ⟨1⟩ ∈ trailing.tree.parts := by decide
  obtain ⟨before, after⟩ := Program.allUses_eq (show trailing.WellFormed by decide +kernel)
    (by decide +kernel) rfl isResult rfl (show (⟨0⟩ : ValueId) ≠ ⟨2⟩ by decide)
  have found : trailing.usesOf ⟨2⟩ = [] := by decide +kernel
  have missed : (trailing.opsBehind ⟨2⟩).flatMap (trailing.usesIn ⟨2⟩) = [⟨⟨3⟩, 0⟩] := by
    decide +kernel
  rw [found, missed] at before
  rw [missed] at after
  exact ⟨found, before, after⟩

/-! ### Regions of one block -/

/-- No region of an operation in the program has more than one block. -/
def Program.HasSingleBlocks (program : Program) : Prop :=
  ∀ visit ∈ program.visits, ∀ blocks ∈ visit.regions.toList, blocks.size ≤ 1

mutual

theorem Body.opsBehind_eq_nil (inner : BlockId) (block : Option BlockId) (parent : Option OpId)
    (depth : Nat) : (body : Body) →
      (∀ visit ∈ body.visits block parent depth, ∀ blocks ∈ visit.regions.toList, blocks.size ≤ 1) →
      body.opsBehind inner = []
  | .nil, _ => rfl
  | .cons op regions rest, single => by
    rw [Body.visits] at single
    rw [Body.opsBehind, Regions.opsBehind_eq_nil inner op (depth + 1) regions
      (single _ List.mem_cons_self)
      (fun visit visited => single visit (List.mem_cons_of_mem _ (List.mem_append_left _ visited))),
      Body.opsBehind_eq_nil inner block parent depth rest
      (fun visit visited => single visit (List.mem_cons_of_mem _ (List.mem_append_right _ visited))),
      List.append_nil]

theorem Blocks.opsBehind_eq_nil (inner : BlockId) (parent : OpId) (depth : Nat) : (blocks : Blocks) →
    blocks.size ≤ 1 →
      (∀ visit ∈ blocks.visits parent depth, ∀ blocks ∈ visit.regions.toList, blocks.size ≤ 1) →
      blocks.opsBehind inner = []
  | .nil, _, _ => rfl
  | .cons block body .nil, _, single => by
    rw [Blocks.visits, Blocks.visits, List.append_nil] at single
    rw [Blocks.opsBehind, Body.opsBehind_eq_nil inner (some block) (some parent) depth body single]
    exact ite_self _
  | .cons block body (.cons _ _ _), few, _ => by simp [Blocks.size] at few

theorem Regions.opsBehind_eq_nil (inner : BlockId) (parent : OpId) (depth : Nat) :
    (regions : Regions) → (∀ blocks ∈ regions.toList, blocks.size ≤ 1) →
      (∀ visit ∈ regions.visits parent depth, ∀ blocks ∈ visit.regions.toList, blocks.size ≤ 1) →
      regions.opsBehind inner = []
  | .nil, _, _ => rfl
  | .cons blocks rest, few, single => by
    rw [Regions.visits] at single
    rw [Regions.toList] at few
    rw [Regions.opsBehind, Blocks.opsBehind_eq_nil inner parent depth blocks (few _ List.mem_cons_self)
      (fun visit visited => single visit (List.mem_append_left _ visited)),
      Regions.opsBehind_eq_nil inner parent depth rest
      (fun blocks among => few blocks (List.mem_cons_of_mem _ among))
      (fun visit visited => single visit (List.mem_append_right _ visited)), List.append_nil]

end

/-- In regions of one block, the search for uses finds all of them. -/
theorem Program.usesOf_eq_allUses (formed : program.WellFormed) (tabled : program.Tabled)
    (visible : program.tree.Visible program fun _ => False) (single : program.HasSingleBlocks)
    (member : part ∈ program.tree.parts) (origin : (program.value value).origin = part.origin) :
    program.usesOf value = program.allUses value := by
  have none : program.opsBehind value = [] := by
    rw [Program.opsBehind]
    cases program.home? value with
    | none => rfl
    | some block => exact Body.opsBehind_eq_nil block Option.none Option.none 0 program.tree single
  have uses_eq := (Program.spans_scopeOf formed tabled visible member origin).uses_eq
  rw [none, List.flatMap_nil, List.append_nil] at uses_eq
  exact uses_eq.symm

/-- In a valid program with regions of one block, no use is left after another value has been put in place of
the value. -/
theorem Program.allUses_replaceUses_eq_nil (formed : program.WellFormed) (tabled : program.Tabled)
    (valid : program.verify = .ok ()) (single : program.HasSingleBlocks)
    (member : part ∈ program.tree.parts) (origin : (program.value value).origin = part.origin)
    {other : ValueId} (different : other ≠ value) : (program.replaceUses value other).allUses value = [] := by
  obtain ⟨symbols, -, visible, -⟩ := Program.verify_iff.mp valid
  rw [Program.allUses_replaceUses different, List.filter_eq_nil_iff,
    ← Program.usesOf_eq_allUses formed tabled visible single member origin]
  intro use among
  simpa using (Program.mem_usesOf.mp among).1

end Search

end TensorIR
