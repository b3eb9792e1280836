import TensorIR.Proofs.Execution.Scope

/-!
# Programs in which an operation has been replaced

New operations without regions stand in the place of an operation, and what follows it uses other values
instead of its results, or does not use them. All other operations do what they did with the values that
stand for the old ones, so a run is followed as soon as the new operations do what the old one did.

## Main definitions

* `Program.Replaces` — a program with new operations in the place of one
* `Program.StandsIn`, `Program.Mirrors` — what a function uses in the place of its values

## Main results

* `Program.Replaces.mirrors` — operations that have not been replaced do the same with other values
* `Program.Replaces.stays_scoped` — the functions are still closed
-/

namespace TensorIR

/-! ### Operations in the place of one -/

section Tree

variable {op function : OpId} {inside : Regions} {front : Body}

theorem Body.entered_append (first second : Body) :
    (first.append second).entered = first.entered ++ second.entered := by
  fun_induction Body.append first second with
  | case1 => rfl
  | case2 op regions rest later ih => simp [Body.entered, ih]

/-- What is put in front of what follows an operation. -/
abbrev Body.inFront (front : Body) : Regions → Body → Body :=
  fun _ rest => front.append rest

theorem keepsEntries_inFront (op : OpId) (front : Body) : KeepsEntries op front.inFront := by
  intro regions rest function inside _ _ member
  rw [Body.entries_append]
  exact List.mem_append_right _ member

mutual

/-- A run can come to what it could come to before, and to the new operations where it came to the old
one. -/
theorem Body.of_entered_alterAt {part : Part} : (body : Body) → body.ops.Nodup →
    part ∈ (body.alterAt op front.inFront).entered →
      part ∈ body.entered ∧ part ≠ .op op ∨ part ∈ front.entered ∧ .op op ∈ body.entered
  | .nil, _, member => absurd member List.not_mem_nil
  | .cons head regions rest, nodup, member => by
    obtain ⟨absent, apart⟩ := List.nodup_cons.mp nodup
    rw [Body.alterAt] at member
    rw [Body.entered]
    split at member
    case isTrue same =>
      subst same
      rw [Body.entered_append, List.mem_append] at member
      rcases member with new | behind
      · exact .inr ⟨new, List.mem_cons_self⟩
      · refine .inl ⟨List.mem_cons_of_mem _ (List.mem_append_right _ behind), ?_⟩
        rintro rfl
        exact absent (List.mem_append_right _ (Body.op_mem_parts.mp (rest.entered_sublist.subset behind)))
    case isFalse other =>
      rw [Body.entered] at member
      rcases List.mem_cons.mp member with rfl | inner
      · exact .inl ⟨List.mem_cons_self, fun same => other (Part.op.inj same)⟩
      rcases List.mem_append.mp inner with within | behind
      · refine (Regions.of_entered_alterAt regions (List.nodup_append.mp apart).1 within).imp ?_ ?_
        · exact And.imp_left fun old => List.mem_cons_of_mem _ (List.mem_append_left _ old)
        · exact And.imp_right fun old => List.mem_cons_of_mem _ (List.mem_append_left _ old)
      · refine (Body.of_entered_alterAt rest (List.nodup_append.mp apart).2.1 behind).imp ?_ ?_
        · exact And.imp_left fun old => List.mem_cons_of_mem _ (List.mem_append_right _ old)
        · exact And.imp_right fun old => List.mem_cons_of_mem _ (List.mem_append_right _ old)

theorem Blocks.of_entered_alterAt {part : Part} : (blocks : Blocks) → blocks.ops.Nodup →
    part ∈ (blocks.alterAt op front.inFront).entered →
      part ∈ blocks.entered ∧ part ≠ .op op ∨ part ∈ front.entered ∧ .op op ∈ blocks.entered
  | .nil, _, member => absurd member List.not_mem_nil
  | .cons block body rest, nodup, member => by
    rw [Blocks.alterAt, Blocks.entered] at member
    rw [Blocks.entered]
    rcases List.mem_cons.mp member with rfl | inner
    · exact .inl ⟨List.mem_cons_self, by simp⟩
    refine (Body.of_entered_alterAt body (List.nodup_append.mp nodup).1 inner).imp ?_ ?_
    · exact And.imp_left fun old => List.mem_cons_of_mem _ old
    · exact And.imp_right fun old => List.mem_cons_of_mem _ old

theorem Regions.of_entered_alterAt {part : Part} : (regions : Regions) → regions.ops.Nodup →
    part ∈ (regions.alterAt op front.inFront).entered →
      part ∈ regions.entered ∧ part ≠ .op op ∨ part ∈ front.entered ∧ .op op ∈ regions.entered
  | .nil, _, member => absurd member List.not_mem_nil
  | .cons blocks rest, nodup, member => by
    rw [Regions.alterAt, Regions.entered] at member
    rw [Regions.entered]
    rcases List.mem_append.mp member with within | behind
    · refine (Blocks.of_entered_alterAt blocks (List.nodup_append.mp nodup).1 within).imp ?_ ?_
      · exact And.imp_left fun old => List.mem_append_left _ old
      · exact And.imp_right fun old => List.mem_append_left _ old
    · refine (Regions.of_entered_alterAt rest (List.nodup_append.mp nodup).2.1 behind).imp ?_ ?_
      · exact And.imp_left fun old => List.mem_append_right _ old
      · exact And.imp_right fun old => List.mem_append_right _ old

end

/-- An operation of a block with a change in it has been there before, or it is new. -/
theorem Body.of_entries_alterAt (body : Body) (nodup : body.ops.Nodup)
    (member : (function, inside) ∈ (body.alterAt op front.inFront).entries) :
    (∃ old, (function, old) ∈ body.entries ∧ inside = old.alterAt op front.inFront) ∨
      (function, inside) ∈ front.entries := by
  fun_induction Body.entries body with
  | case1 => cases member
  | case2 head regions rest ih =>
    obtain ⟨absent, apart⟩ := List.nodup_cons.mp nodup
    rw [Body.alterAt] at member
    split at member
    case isTrue same =>
      subst same
      rw [Body.entries_append] at member
      rcases List.mem_append.mp member with new | behind
      · exact .inr new
      · refine .inl ⟨inside, List.mem_cons_of_mem _ behind, (inside.alterAt_of_notMem fun within => ?_).symm⟩
        exact absent (List.mem_append_right _ ((Body.ops_of_entries rest behind).2 head within))
    case isFalse =>
      rcases List.mem_cons.mp member with same | behind
      · cases same
        exact .inl ⟨regions, List.mem_cons_self, rfl⟩
      · refine (ih (List.nodup_append.mp apart).2.1 behind).imp_left ?_
        rintro ⟨old, isOld, same⟩
        exact ⟨old, List.mem_cons_of_mem _ isOld, same⟩

theorem Blocks.of_entries_alterAt (blocks : Blocks) (nodup : blocks.ops.Nodup)
    (member : (function, inside) ∈ (blocks.alterAt op front.inFront).entries) :
    (∃ old, (function, old) ∈ blocks.entries ∧ inside = old.alterAt op front.inFront) ∨
      (function, inside) ∈ front.entries := by
  fun_induction Blocks.entries blocks with
  | case1 => cases member
  | case2 block body rest ih =>
    rw [Blocks.alterAt, Blocks.entries] at member
    rcases List.mem_append.mp member with here | behind
    · refine (Body.of_entries_alterAt body (List.nodup_append.mp nodup).1 here).imp_left ?_
      rintro ⟨old, isOld, same⟩
      exact ⟨old, List.mem_append_left _ isOld, same⟩
    · refine (ih (List.nodup_append.mp nodup).2.1 behind).imp_left ?_
      rintro ⟨old, isOld, same⟩
      exact ⟨old, List.mem_append_right _ isOld, same⟩

theorem Regions.of_entries_alterAt (regions : Regions) (nodup : regions.ops.Nodup)
    (member : (function, inside) ∈ (regions.alterAt op front.inFront).entries) :
    (∃ old, (function, old) ∈ regions.entries ∧ inside = old.alterAt op front.inFront) ∨
      (function, inside) ∈ front.entries := by
  fun_induction Regions.entries regions with
  | case1 => cases member
  | case2 blocks rest ih =>
    rw [Regions.alterAt, Regions.entries] at member
    rcases List.mem_append.mp member with here | behind
    · refine (Blocks.of_entries_alterAt blocks (List.nodup_append.mp nodup).1 here).imp_left ?_
      rintro ⟨old, isOld, same⟩
      exact ⟨old, List.mem_append_left _ isOld, same⟩
    · refine (ih (List.nodup_append.mp nodup).2.1 behind).imp_left ?_
      rintro ⟨old, isOld, same⟩
      exact ⟨old, List.mem_append_right _ isOld, same⟩

/-- Operations are found at the top as before if what has been replaced is not looked for. -/
theorem Body.map_filter_entries (body : Body) {select : OpId → Bool} (notOp : select op = false)
    (notFront : ∀ new inside, (new, inside) ∈ front.entries → select new = false) :
    ((body.alterAt op front.inFront).entries.map Prod.fst).filter select =
      (body.entries.map Prod.fst).filter select := by
  fun_induction Body.entries body with
  | case1 => rfl
  | case2 head regions rest ih =>
    rw [Body.alterAt]
    split
    case isTrue same =>
      subst same
      have none : (front.entries.map Prod.fst).filter select = [] := by
        rw [List.filter_eq_nil_iff]
        intro new member
        obtain ⟨entry, among, rfl⟩ := List.mem_map.mp member
        simpa using notFront entry.1 entry.2 among
      rw [Body.entries_append, List.map_append, List.filter_append, none, List.map_cons,
        List.filter_cons_of_neg (by simp [notOp])]
      rfl
    case isFalse =>
      rw [Body.entries, List.map_cons, List.map_cons, List.filter_cons, List.filter_cons, ih]

theorem Blocks.map_filter_entries (blocks : Blocks) {select : OpId → Bool} (notOp : select op = false)
    (notFront : ∀ new inside, (new, inside) ∈ front.entries → select new = false) :
    ((blocks.alterAt op front.inFront).entries.map Prod.fst).filter select =
      (blocks.entries.map Prod.fst).filter select := by
  fun_induction Blocks.entries blocks with
  | case1 => rfl
  | case2 block body rest ih =>
    rw [Blocks.alterAt, Blocks.entries, List.map_append, List.map_append, List.filter_append,
      List.filter_append, Body.map_filter_entries body notOp notFront, ih]

theorem Regions.map_filter_entries (regions : Regions) {select : OpId → Bool} (notOp : select op = false)
    (notFront : ∀ new inside, (new, inside) ∈ front.entries → select new = false) :
    ((regions.alterAt op front.inFront).entries.map Prod.fst).filter select =
      (regions.entries.map Prod.fst).filter select := by
  fun_induction Regions.entries regions with
  | case1 => rfl
  | case2 blocks rest ih =>
    rw [Regions.alterAt, Regions.entries, List.map_append, List.map_append, List.filter_append,
      List.filter_append, Blocks.map_filter_entries blocks notOp notFront, ih]

end Tree

/-! ### Programs -/

/-- A program with new operations in the place of one that has been visited. Behind it other values are
used instead of its results. -/
structure Program.Replaces (start now : Program) (visit : Visit) (front : Body)
    (image : ValueId → ValueId) (dead : ValueId → Prop) : Prop where
  visited : visit ∈ start.visits
  notFunction : start.kind visit.op ≠ .func .func
  grown : start.Grows (fun _ => True) now
  formed : now.WellFormed
  regions : now.regions = start.regions.alterAt visit.op front.inFront
  front_entries : ∀ new inside, (new, inside) ∈ front.entries →
    inside = .nil ∧ now.kind new ≠ .func .func ∧ start.operations.size ≤ new.index
  results_eq : ∀ other : OpId, other.index < start.operations.size →
    now.results other = start.results other
  operands_eq : ∀ other : OpId, other.index < start.operations.size →
    now.operands other =
      if other ∈ visit.rest.ops then (start.operands other).map image else start.operands other
  types_eq : ∀ value : ValueId, value.index < start.values.size →
    now.typeOf? value = start.typeOf? value ∧ now.typeOf? (image value) = start.typeOf? value
  image_cases : ∀ value, image value = value ∨ value ∈ start.results visit.op ∧
    start.values.size ≤ (image value).index ∧
    ∃ new : OpId, start.operations.size ≤ new.index ∧
      (now.value (image value)).origin = .result new
  dead_results : ∀ value, dead value → value ∈ start.results visit.op
  unused : ∀ other ∈ visit.rest.ops, ∀ operand ∈ start.operands other, ¬dead operand

/-! ### Functions of well-formed programs -/

namespace Program.StartsWith

variable {program : Program} {function : OpId} {block : BlockId} {body : Body}

/-- What a function comes to is in the tree. -/
theorem parts (starts : program.StartsWith function block body) :
    ∀ part ∈ .block block :: body.parts, part ∈ program.tree.parts := by
  obtain ⟨inside, member, entry⟩ := starts
  obtain ⟨others, rest, rfl⟩ := Regions.of_entryBlock? entry
  intro part among
  refine List.mem_cons_of_mem _ (List.mem_append_left _ ?_)
  refine Regions.parts_of_entries program.regions member part (List.mem_append_left _ ?_)
  exact (List.cons_subset_cons _ (List.subset_append_left _ _)) among

theorem entered_mem (starts : program.StartsWith function block body) :
    ∀ part ∈ .block block :: body.entered, part ∈ program.tree.parts :=
  fun part among => starts.parts part (List.cons_subset_cons _ body.entered_sublist.subset among)

theorem visits (starts : program.StartsWith function block body) :
    ∀ visit ∈ body.visits (some block) (some function) 2, visit ∈ program.visits := by
  obtain ⟨inside, member, entry⟩ := starts
  obtain ⟨others, rest, rfl⟩ := Regions.of_entryBlock? entry
  intro visit visited
  refine Program.mem_visits ((Regions.visits_of_entries program.root 1 program.regions member).1 visit ?_)
  exact List.mem_append_left _ (List.mem_append_left _ visited)

/-- The body of a function is the entry block of its first region. -/
theorem functionBody (starts : program.StartsWith function block body) (formed : program.WellFormed) :
    program.functionBody function = .ok (block, body) := by
  obtain ⟨inside, member, entry⟩ := starts
  obtain ⟨-, visit, visited, rfl, rfl⟩ := Program.visits_of_entries member
  unfold Program.functionBody
  rw [Program.entryOf?, formed.regionsOf_eq visited, entry]

theorem nodup (starts : program.StartsWith function block body) (formed : program.WellFormed) :
    (Part.block block :: body.parts).Nodup := by
  obtain ⟨inside, member, entry⟩ := starts
  obtain ⟨others, rest, rfl⟩ := Regions.of_entryBlock? entry
  obtain ⟨-, visit, visited, -, same⟩ := Program.visits_of_entries member
  have distinct := formed.nodup_inside visited
  rw [same, Regions.parts, Blocks.parts, List.cons_append, List.append_assoc, ← List.cons_append]
    at distinct
  exact (List.nodup_append.mp distinct).1

end Program.StartsWith

theorem Program.WellFormed.regions_ops_nodup {program : Program} (formed : program.WellFormed) :
    program.regions.ops.Nodup := by
  have nodup := Body.nodup_ops formed.nodup
  rw [Program.tree, Body.ops, Body.ops, List.append_nil] at nodup
  exact (List.nodup_cons.mp nodup).2

namespace Program.Replaces

variable {start now : Program} {visit : Visit} {front : Body} {image : ValueId → ValueId}
  {dead : ValueId → Prop} {function : OpId} {block : BlockId} {body : Body}

/-- A function keeps its place. -/
theorem startsWith (replaces : start.Replaces now visit front image dead) (formed : start.WellFormed)
    (starts : start.StartsWith function block body) (other : function ≠ visit.op) :
    now.StartsWith function block (body.alterAt visit.op front.inFront) := by
  obtain ⟨inside, member, entry⟩ := starts
  obtain ⟨others, rest, rfl⟩ := Regions.of_entryBlock? entry
  refine ⟨Regions.alterAt visit.op front.inFront (.cons (.cons block body others) rest), ?_, rfl⟩
  rw [replaces.regions]
  exact Regions.entries_alterAt other (keepsEntries_inFront visit.op front) _
    formed.regions_ops_nodup member

/-- Every function has been there before. -/
theorem of_startsWith (replaces : start.Replaces now visit front image dead)
    (formed : start.WellFormed) (starts : now.StartsWith function block body) :
    ∃ old, start.StartsWith function block old ∧ body = old.alterAt visit.op front.inFront := by
  obtain ⟨inside, member, entry⟩ := starts
  rw [replaces.regions] at member
  rcases Regions.of_entries_alterAt _ formed.regions_ops_nodup member with ⟨old, isOld, rfl⟩ | new
  · cases old with
    | nil => cases entry
    | cons blocks rest =>
      cases blocks with
      | nil => cases entry
      | cons first before others =>
        cases entry
        exact ⟨before, ⟨_, isOld, rfl⟩, rfl⟩
  · obtain ⟨rfl, -, -⟩ := replaces.front_entries function inside new
    cases entry

/-- The new operations are all there is in front. -/
theorem of_entered_front (replaces : start.Replaces now visit front image dead) {part : Part}
    (member : part ∈ front.entered) :
    ∃ new : OpId, part = .op new ∧ start.operations.size ≤ new.index := by
  have entries := replaces.front_entries
  clear replaces
  fun_induction Body.entries front with
  | case1 => cases member
  | case2 head regions rest ih =>
    obtain ⟨rfl, -, isNew⟩ := entries head regions List.mem_cons_self
    rcases List.mem_cons.mp member with rfl | behind
    · exact ⟨head, rfl, isNew⟩
    · exact ih behind fun new inside among => entries new inside (List.mem_cons_of_mem _ among)

/-- Values that a function does not introduce are not introduced afterwards either, nor are those that
stand for them. -/
theorem not_inside (replaces : start.Replaces now visit front image dead) (formed : start.WellFormed)
    (tabled : start.Tabled) (starts : start.StartsWith function block body) {value : ValueId}
    (below : value.index < start.values.size)
    (outside : ¬start.Inside (.block block :: body.entered) value) :
    ¬now.Inside (.block block :: (body.alterAt visit.op front.inFront).entered) value ∧
      ¬now.Inside (.block block :: (body.alterAt visit.op front.inFront).entered) (image value) := by
  have nodup := Body.nodup_ops (List.nodup_cons.mp (starts.nodup formed)).2
  have cases_of {part : Part}
      (member : part ∈ Part.block block :: (body.alterAt visit.op front.inFront).entered) :
      part ∈ Part.block block :: body.entered ∨
        part ∈ front.entered ∧ .op visit.op ∈ body.entered := by
    rcases List.mem_cons.mp member with rfl | inner
    · exact .inl List.mem_cons_self
    · exact (Body.of_entered_alterAt body nodup inner).imp_left fun old =>
        List.mem_cons_of_mem _ old.1
  have notOld : ¬now.Inside (.block block :: (body.alterAt visit.op front.inFront).entered) value := by
    rintro ⟨part, member, -, origin⟩
    rw [replaces.grown.origin_eq value below] at origin
    rcases cases_of member with old | ⟨fresh, -⟩
    · exact outside ⟨part, old, below, origin⟩
    · obtain ⟨new, rfl, isNew⟩ := replaces.of_entered_front fresh
      exact absurd (tabled.origins value below new origin) (Nat.not_lt.mpr isNew)
  refine ⟨notOld, ?_⟩
  rcases replaces.image_cases value with same | ⟨isResult, -, new, isNew, from_new⟩
  · rwa [same]
  rintro ⟨part, member, -, origin⟩
  obtain rfl : part = .op new := Part.origin_inj (origin.symm.trans from_new)
  rcases cases_of member with old | ⟨-, entered⟩
  · exact absurd (formed.knows _ (starts.entered_mem _ old)).1 (Nat.not_lt.mpr isNew)
  · have knows := formed.knows _ (starts.entered_mem _ (List.mem_cons_of_mem _ entered))
    exact outside ⟨_, List.mem_cons_of_mem _ entered, below,
      (knows.2 replaces.notFunction).origin_eq value isResult⟩

end Program.Replaces

/-! ### Visible values -/

/-- A value that is used instead of another one. If the function introduces the other one, it must be
the one that stands for it. -/
structure Program.StandsIn (start now : Program) (parts : List Part) (image : ValueId → ValueId)
    (dead : ValueId → Prop) (value other : ValueId) : Prop where
  below : value.index < start.values.size
  type_eq : now.typeOf? other = start.typeOf? value
  inside : start.Inside parts value → ¬dead value ∧ other = image value
  outside : other = value ∨ other = image value

/-- A part of the tree uses values that stand for those it has used, and gives the same values. -/
structure Program.Mirrors (start now : Program) (parts : List Part) (image : ValueId → ValueId)
    (dead : ValueId → Prop) (part : Part) : Prop where
  given_eq : now.given part = start.given part
  fixed : ∀ value ∈ start.given part, image value = value
  operands : ∀ op, part = .op op →
    List.Forall₂ (start.StandsIn now parts image dead) (start.operands op) (now.operands op)

/-- The values that stand for visible ones are visible, and so are those from outside the function. -/
structure Program.Shows (start : Program) (parts : List Part) (image : ValueId → ValueId)
    (dead : ValueId → Prop) (visible shown : ValueId → Prop) : Prop where
  inside : ∀ value, start.Inside parts value → visible value → ¬dead value → shown (image value)
  outside : ∀ value : ValueId, value.index < start.values.size → ¬start.Inside parts value →
    shown value ∧ shown (image value)

section Shows

variable {start now : Program} {parts : List Part} {image : ValueId → ValueId}
  {dead visible shown : ValueId → Prop} {op : OpId} {front : Body}

theorem Program.Shows.extend (shows : start.Shows parts image dead visible shown) {given : List ValueId}
    (fixed : ∀ value ∈ given, image value = value) :
    start.Shows parts image dead (fun value => value ∈ given ∨ visible value)
      (fun value => value ∈ given ∨ shown value) where
  inside value introduced seen alive := by
    rcases seen with isGiven | seen
    · exact .inl ((fixed value isGiven).symm ▸ isGiven)
    · exact .inr (shows.inside value introduced seen alive)
  outside value below elsewhere := (shows.outside value below elsewhere).imp .inr .inr

theorem Program.Shows.standsIn (shows : start.Shows parts image dead visible shown)
    {value other : ValueId} (stands : start.StandsIn now parts image dead value other)
    (seen : visible value) : shown other := by
  by_cases introduced : start.Inside parts value
  · obtain ⟨alive, rfl⟩ := stands.inside introduced
    exact shows.inside value introduced seen alive
  · obtain ⟨one, two⟩ := shows.outside value stands.below introduced
    rcases stands.outside with rfl | rfl
    · exact one
    · exact two

/-- The new operations are closed where the old one has been, if what follows is. -/
def Program.ClosesAt (start now : Program) (parts : List Part) (image : ValueId → ValueId)
    (dead : ValueId → Prop) (op : OpId) (front : Body) : Prop :=
  ∀ visible shown rest, start.Shows parts image dead visible shown →
    (∀ more, start.Shows parts image dead (fun value => value ∈ start.results op ∨ visible value) more →
      rest.Closed now more) → (front.append rest).Closed now shown

mutual

/-- A closed block is still closed after the replacement. -/
theorem Body.closed_alterAt (closesAt : start.ClosesAt now parts image dead op front)
    {visible shown : ValueId → Prop} (shows : start.Shows parts image dead visible shown) :
    (body : Body) → body.ops.Nodup →
      (∀ part ∈ body.entered, part ≠ .op op → start.Mirrors now parts image dead part) →
      body.Closed start visible → (body.alterAt op front.inFront).Closed now shown
  | .nil, _, _, _ => trivial
  | .cons head regions rest, nodup, mirrors, closed => by
    obtain ⟨absent, apart⟩ := List.nodup_cons.mp nodup
    obtain ⟨operands, inside, later⟩ := closed
    rw [Body.entered] at mirrors
    have behind (part : Part) (member : part ∈ rest.entered) :=
      mirrors part (List.mem_cons_of_mem _ (List.mem_append_right _ member))
    -- What stands behind the operation sees its results as well, whatever else is shown by then.
    have after {more : ValueId → Prop}
        (moreShows : start.Shows parts image dead (fun value => value ∈ start.results head ∨ visible value)
          more) : (rest.alterAt op front.inFront).Closed now more :=
      Body.closed_alterAt closesAt moreShows rest (List.nodup_append.mp apart).2.1 behind later
    rw [Body.alterAt]
    split
    case isTrue same =>
      subst same
      rw [rest.alterAt_of_notMem fun member => absent (List.mem_append_right _ member)] at after
      exact closesAt visible shown rest shows fun more moreShows => after moreShows
    case isFalse other =>
      have mirror := mirrors (.op head) List.mem_cons_self fun same => other (Part.op.inj same)
      have results_eq : now.results head = start.results head := mirror.given_eq
      refine ⟨fun operand isOperand => ?_, ?_, ?_⟩
      · obtain ⟨value, isValue, stands⟩ := forall₂_mem_right (mirror.operands head rfl) isOperand
        exact shows.standsIn stands (operands value isValue)
      · exact Regions.closed_alterAt closesAt shows regions (List.nodup_append.mp apart).1
          (fun part member => mirrors part (List.mem_cons_of_mem _ (List.mem_append_left _ member))) inside
      · rw [results_eq]
        exact after (shows.extend mirror.fixed)

theorem Blocks.closed_alterAt (closesAt : start.ClosesAt now parts image dead op front)
    {visible shown : ValueId → Prop} (shows : start.Shows parts image dead visible shown) :
    (blocks : Blocks) → blocks.ops.Nodup →
      (∀ part ∈ blocks.entered, part ≠ .op op → start.Mirrors now parts image dead part) →
      blocks.Closed start visible → (blocks.alterAt op front.inFront).Closed now shown
  | .nil, _, _, _ => trivial
  | .cons block body rest, nodup, mirrors, closed => by
    rw [Blocks.entered] at mirrors
    have mirror := mirrors (.block block) List.mem_cons_self (by simp)
    have arguments_eq : (now.header block).arguments = (start.header block).arguments := mirror.given_eq
    rw [Blocks.alterAt, Blocks.Closed, arguments_eq]
    exact Body.closed_alterAt closesAt (shows.extend mirror.fixed) body (List.nodup_append.mp nodup).1
      (fun part member => mirrors part (List.mem_cons_of_mem _ member)) closed

theorem Regions.closed_alterAt (closesAt : start.ClosesAt now parts image dead op front)
    {visible shown : ValueId → Prop} (shows : start.Shows parts image dead visible shown) :
    (regions : Regions) → regions.ops.Nodup →
      (∀ part ∈ regions.entered, part ≠ .op op → start.Mirrors now parts image dead part) →
      regions.Closed start visible → (regions.alterAt op front.inFront).Closed now shown
  | .nil, _, _, _ => trivial
  | .cons blocks rest, nodup, mirrors, closed => by
    obtain ⟨first, later, -⟩ := List.nodup_append.mp nodup
    rw [Regions.entered] at mirrors
    rw [Regions.alterAt]
    exact ⟨Blocks.closed_alterAt closesAt shows blocks first
      (fun part member => mirrors part (List.mem_append_left _ member)) closed.1,
      Regions.closed_alterAt closesAt shows rest later
        (fun part member => mirrors part (List.mem_append_right _ member)) closed.2⟩

end

end Shows

namespace Program.Replaces

variable {start now : Program} {visit : Visit} {front : Body} {image : ValueId → ValueId}
  {dead : ValueId → Prop} {function : OpId} {block : BlockId} {body : Body}

/-- The results of the operation are not given by other parts. -/
theorem not_given (replaces : start.Replaces now visit front image dead) (formed : start.WellFormed)
    (tabled : start.Tabled) {part : Part} (member : part ∈ start.tree.parts) (other : part ≠ .op visit.op)
    {value : ValueId} (isResult : value ∈ start.results visit.op) : value ∉ start.given part := by
  intro isGiven
  have knows := formed.knows _ (Body.op_mem_parts.mpr (Program.mem_ops_of_visits replaces.visited))
  have origin := (knows.2 replaces.notFunction).origin_eq value isResult
  cases part with
  | op id =>
    have absent : .op id ∉ [Part.op visit.op] := fun among => other (List.mem_singleton.mp among)
    exact tabled.apart_results (formed.knows _ member) absent value isGiven _ List.mem_cons_self origin
  | block id =>
    rw [(formed.knows _ member).2.origin_eq value isGiven] at origin
    cases origin

/-- What a function uses behind the operation it uses through the values that stand for the old ones. -/
theorem standsIn (replaces : start.Replaces now visit front image dead) (formed : start.WellFormed)
    (tabled : start.Tabled) (closed : start.Scoped) (starts : start.StartsWith function block body)
    {op : OpId} (member : .op op ∈ body.entered) :
    List.Forall₂ (start.StandsIn now (.block block :: body.entered) image dead) (start.operands op)
      (now.operands op) := by
  have entered := List.mem_cons_of_mem (Part.block block) member
  have below := (formed.knows _ (starts.entered_mem _ entered)).1
  -- Values that are no results of the replaced operation stand for themselves.
  have stands (value : ValueId) (isOperand : value ∈ start.operands op) (other : ValueId)
      (same : other = value ∨ other = image value)
      (seen : start.Inside (.block block :: body.entered) value → ¬dead value ∧ other = image value) :
      start.StandsIn now (.block block :: body.entered) image dead value other := by
    have known := tabled.operands op value isOperand
    obtain ⟨one, two⟩ := replaces.types_eq value known
    refine ⟨known, ?_, seen, same⟩
    rcases same with rfl | rfl
    · exact one
    · exact two
  rw [replaces.operands_eq op below]
  split
  case isTrue behind =>
    rw [List.forall₂_map_right_iff, List.forall₂_same]
    exact fun value isOperand => stands value isOperand _ (.inr rfl) fun _ =>
      ⟨replaces.unused op behind value isOperand, rfl⟩
  case isFalse elsewhere =>
    rw [List.forall₂_same]
    refine fun value isOperand => stands value isOperand value (.inl rfl) fun introduced => ?_
    -- A result that the function introduces is used only behind the operation.
    have notResult : value ∉ start.results visit.op := fun isResult => by
      have hidden : ¬(value ∈ (start.header block).arguments ∨
          ¬start.Inside (.block block :: body.entered) value) := by
        rw [not_or, not_not]
        refine ⟨?_, introduced⟩
        exact replaces.not_given formed tabled (starts.entered_mem _ List.mem_cons_self) (by simp)
          isResult
      have only (part : Part) (among : part ∈ body.entered) (given : value ∈ start.given part) :
          part = .op visit.op := by
        by_contra other
        exact replaces.not_given formed tabled (starts.entered_mem _ (List.mem_cons_of_mem _ among))
          other isResult given
      obtain ⟨found, visited, isFound, follows⟩ := Body.uses_after isOperand (some block)
        (some function) 2 hidden body (closed function block body starts) only member
      have same := formed.visit?_eq (starts.visits found visited)
      rw [isFound, formed.visit?_eq replaces.visited] at same
      cases same
      exact elsewhere follows
    have fixed : image value = value :=
      (replaces.image_cases value).resolve_right fun isNew => notResult isNew.1
    exact ⟨fun isDead => notResult (replaces.dead_results value isDead), fixed.symm⟩

/-- What a function comes to besides the operation uses values that stand for the old ones, and gives
the same values. -/
theorem mirrors (replaces : start.Replaces now visit front image dead) (formed : start.WellFormed)
    (tabled : start.Tabled) (closed : start.Scoped) (starts : start.StartsWith function block body)
    {part : Part} (member : part ∈ .block block :: body.entered) (other : part ≠ .op visit.op) :
    start.Mirrors now (.block block :: body.entered) image dead part where
  given_eq := by
    have knows := formed.knows part (starts.entered_mem part member)
    cases part with
    | op op => exact replaces.results_eq op knows.1
    | block inner => exact replaces.grown.arguments_eq inner knows.1
  fixed value isGiven := by
    refine (replaces.image_cases value).resolve_right fun isNew => ?_
    exact replaces.not_given formed tabled (starts.entered_mem part member) other isNew.1 isGiven
  operands op isOp := by
    subst isOp
    refine replaces.standsIn formed tabled closed starts ?_
    simpa using member

/-- The functions are still closed if the new operations are. -/
theorem stays_scoped (replaces : start.Replaces now visit front image dead) (formed : start.WellFormed)
    (tabled : start.Tabled) (closed : start.Scoped)
    (closesAt : ∀ parts, start.ClosesAt now parts image dead visit.op front) : now.Scoped := by
  intro function block inner starting
  obtain ⟨body, starts, rfl⟩ := replaces.of_startsWith formed starting
  have entry := replaces.mirrors formed tabled closed starts List.mem_cons_self (by simp)
  have arguments_eq : (now.header block).arguments = (start.header block).arguments := entry.given_eq
  refine Body.closed_alterAt (closesAt (.block block :: body.entered)) ⟨?_, ?_⟩ body
    (Body.nodup_ops (List.nodup_cons.mp (starts.nodup formed)).2)
    (fun part member => replaces.mirrors formed tabled closed starts (List.mem_cons_of_mem _ member))
    (closed function block body starts)
  · rintro value introduced (isArgument | outside) -
    · rw [entry.fixed value isArgument, arguments_eq]
      exact .inl isArgument
    · exact absurd introduced outside
  · intro value below outside
    exact (replaces.not_inside formed tabled starts below outside).imp .inr .inr

end Program.Replaces

end TensorIR
