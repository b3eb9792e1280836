import TensorIR.Proofs.Tree

/-!
# Operations put behind others

Where users of a result need its declared type, a cast is put directly behind the operation that computes
the result. What reads the tree finds the same operations as before, with casts behind those whose types
may be made more precise.

## Main definitions

* `Body.Padded`, `Blocks.Padded`, `Regions.Padded` — a tree with further operations
* `Visit.Padded` — the same place in such a tree

## Main results

* `Body.padded_alterAt` — putting an operation behind another one
* `Body.Padded.exists_visit`, `Body.Padded.of_visit` — the places in the two trees
* `Regions.Padded.heads_eq`, `Regions.Padded.filter_heads` — the operations directly inside
-/

namespace TensorIR

mutual

/-- A block with further operations inside it. Each stands directly behind one that is loose, and nothing
is inside it. -/
inductive Body.Padded (loose added : OpId → Prop) : Body → Body → Prop
  | nil : Body.Padded loose added .nil .nil
  | cons {op : OpId} {regions wider : Regions} {rest later : Body}
      (inside : Regions.Padded loose added regions wider) (behind : Body.Padded loose added rest later) :
      Body.Padded loose added (.cons op regions rest) (.cons op wider later)
  | pad {op new : OpId} {regions wider : Regions} {rest later : Body} (isLoose : loose op)
      (isAdded : added new) (inside : Regions.Padded loose added regions wider)
      (behind : Body.Padded loose added rest later) :
      Body.Padded loose added (.cons op regions rest) (.cons op wider (.cons new .nil later))

/-- Blocks with further operations inside them. -/
inductive Blocks.Padded (loose added : OpId → Prop) : Blocks → Blocks → Prop
  | nil : Blocks.Padded loose added .nil .nil
  | cons {block : BlockId} {body wider : Body} {rest later : Blocks}
      (inside : Body.Padded loose added body wider) (behind : Blocks.Padded loose added rest later) :
      Blocks.Padded loose added (.cons block body rest) (.cons block wider later)

/-- Regions with further operations inside them. -/
inductive Regions.Padded (loose added : OpId → Prop) : Regions → Regions → Prop
  | nil : Regions.Padded loose added .nil .nil
  | cons {blocks wider : Blocks} {rest later : Regions}
      (inside : Blocks.Padded loose added blocks wider) (behind : Regions.Padded loose added rest later) :
      Regions.Padded loose added (.cons blocks rest) (.cons wider later)

end

/-- The same place in a tree with further operations. -/
structure Visit.Padded (loose added : OpId → Prop) (visit wider : Visit) : Prop where
  op_eq : wider.op = visit.op
  parent_eq : wider.parent = visit.parent
  regions : visit.regions.Padded loose added wider.regions
  rest : ¬loose visit.op → visit.rest.Padded loose added wider.rest

variable {loose added : OpId → Prop} {op new : OpId}

mutual

theorem Body.Padded.refl : (body : Body) → body.Padded loose added body
  | .nil => .nil
  | .cons _ regions rest => .cons (Regions.Padded.refl regions) (Body.Padded.refl rest)

theorem Blocks.Padded.refl : (blocks : Blocks) → blocks.Padded loose added blocks
  | .nil => .nil
  | .cons _ body rest => .cons (Body.Padded.refl body) (Blocks.Padded.refl rest)

theorem Regions.Padded.refl : (regions : Regions) → regions.Padded loose added regions
  | .nil => .nil
  | .cons blocks rest => .cons (Blocks.Padded.refl blocks) (Regions.Padded.refl rest)

end

mutual

/-- Putting an operation behind another one. -/
theorem Body.padded_alterAt (isLoose : loose op) (isAdded : added new) : (body : Body) →
    body.Padded loose added (body.alterAt op fun regions rest => .cons op regions (.cons new .nil rest))
  | .nil => .nil
  | .cons other regions rest => by
    rw [Body.alterAt]
    split
    case isTrue here =>
      subst here
      exact .pad isLoose isAdded (.refl regions) (.refl rest)
    case isFalse =>
      exact .cons (Regions.padded_alterAt isLoose isAdded regions) (Body.padded_alterAt isLoose isAdded rest)

theorem Blocks.padded_alterAt (isLoose : loose op) (isAdded : added new) : (blocks : Blocks) →
    blocks.Padded loose added (blocks.alterAt op fun regions rest => .cons op regions (.cons new .nil rest))
  | .nil => .nil
  | .cons _ body rest =>
    .cons (Body.padded_alterAt isLoose isAdded body) (Blocks.padded_alterAt isLoose isAdded rest)

theorem Regions.padded_alterAt (isLoose : loose op) (isAdded : added new) : (regions : Regions) →
    regions.Padded loose added (regions.alterAt op fun regions rest => .cons op regions (.cons new .nil rest))
  | .nil => .nil
  | .cons blocks rest =>
    .cons (Blocks.padded_alterAt isLoose isAdded blocks) (Regions.padded_alterAt isLoose isAdded rest)

end

/-! ### Places -/

section Places

variable {visit wide : Visit}

mutual

/-- Every place is still there. -/
theorem Body.Padded.exists_visit (block : Option BlockId) (parent : Option OpId) (depth : Nat)
    {body wider : Body} (padded : body.Padded loose added wider) :
    visit ∈ body.visits block parent depth →
      ∃ wide ∈ wider.visits block parent depth, visit.Padded loose added wide := by
  intro visited
  cases padded with
  | nil => cases visited
  | cons inside behind =>
    rw [Body.visits, List.mem_cons, List.mem_append] at visited
    rcases visited with rfl | within | later
    · exact ⟨_, List.mem_cons_self, rfl, rfl, inside, fun _ => behind⟩
    · obtain ⟨wide, found, same⟩ := Regions.Padded.exists_visit _ _ inside within
      exact ⟨wide, List.mem_cons_of_mem _ (List.mem_append_left _ found), same⟩
    · obtain ⟨wide, found, same⟩ := Body.Padded.exists_visit block parent depth behind later
      exact ⟨wide, List.mem_cons_of_mem _ (List.mem_append_right _ found), same⟩
  | pad isLoose _ inside behind =>
    rw [Body.visits, List.mem_cons, List.mem_append] at visited
    rcases visited with rfl | within | later
    · exact ⟨_, List.mem_cons_self, rfl, rfl, inside, fun tight => absurd isLoose tight⟩
    · obtain ⟨wide, found, same⟩ := Regions.Padded.exists_visit _ _ inside within
      exact ⟨wide, List.mem_cons_of_mem _ (List.mem_append_left _ found), same⟩
    · obtain ⟨wide, found, same⟩ := Body.Padded.exists_visit block parent depth behind later
      exact ⟨wide, List.mem_cons_of_mem _ (List.mem_append_right _ (List.mem_cons_of_mem _ found)), same⟩

theorem Blocks.Padded.exists_visit (parent : OpId) (depth : Nat) {blocks wider : Blocks}
    (padded : blocks.Padded loose added wider) : visit ∈ blocks.visits parent depth →
      ∃ wide ∈ wider.visits parent depth, visit.Padded loose added wide := by
  intro visited
  cases padded with
  | nil => cases visited
  | cons inside behind =>
    rw [Blocks.visits, List.mem_append] at visited
    rcases visited with within | later
    · obtain ⟨wide, found, same⟩ := Body.Padded.exists_visit _ _ depth inside within
      exact ⟨wide, List.mem_append_left _ found, same⟩
    · obtain ⟨wide, found, same⟩ := Blocks.Padded.exists_visit parent depth behind later
      exact ⟨wide, List.mem_append_right _ found, same⟩

theorem Regions.Padded.exists_visit (parent : OpId) (depth : Nat) {regions wider : Regions}
    (padded : regions.Padded loose added wider) : visit ∈ regions.visits parent depth →
      ∃ wide ∈ wider.visits parent depth, visit.Padded loose added wide := by
  intro visited
  cases padded with
  | nil => cases visited
  | cons inside behind =>
    rw [Regions.visits, List.mem_append] at visited
    rcases visited with within | later
    · obtain ⟨wide, found, same⟩ := Blocks.Padded.exists_visit parent depth inside within
      exact ⟨wide, List.mem_append_left _ found, same⟩
    · obtain ⟨wide, found, same⟩ := Regions.Padded.exists_visit parent depth behind later
      exact ⟨wide, List.mem_append_right _ found, same⟩

end

mutual

/-- Every place was there before, or what stands there has been put there. -/
theorem Body.Padded.of_visit (block : Option BlockId) (parent : Option OpId) (depth : Nat)
    {body wider : Body} (padded : body.Padded loose added wider) :
    wide ∈ wider.visits block parent depth →
      (∃ visit ∈ body.visits block parent depth, visit.Padded loose added wide) ∨
        added wide.op ∧ wide.regions = .nil := by
  intro visited
  cases padded with
  | nil => cases visited
  | cons inside behind =>
    rw [Body.visits, List.mem_cons, List.mem_append] at visited
    rcases visited with rfl | within | later
    · exact .inl ⟨_, List.mem_cons_self, rfl, rfl, inside, fun _ => behind⟩
    · refine (Regions.Padded.of_visit _ _ inside within).imp_left ?_
      rintro ⟨visit, found, same⟩
      exact ⟨visit, List.mem_cons_of_mem _ (List.mem_append_left _ found), same⟩
    · refine (Body.Padded.of_visit block parent depth behind later).imp_left ?_
      rintro ⟨visit, found, same⟩
      exact ⟨visit, List.mem_cons_of_mem _ (List.mem_append_right _ found), same⟩
  | pad isLoose isAdded inside behind =>
    rw [Body.visits, List.mem_cons, List.mem_append, Body.visits, List.mem_cons, Regions.visits,
      List.nil_append] at visited
    rcases visited with rfl | within | rfl | later
    · exact .inl ⟨_, List.mem_cons_self, rfl, rfl, inside, fun tight => absurd isLoose tight⟩
    · refine (Regions.Padded.of_visit _ _ inside within).imp_left ?_
      rintro ⟨visit, found, same⟩
      exact ⟨visit, List.mem_cons_of_mem _ (List.mem_append_left _ found), same⟩
    · exact .inr ⟨isAdded, rfl⟩
    · refine (Body.Padded.of_visit block parent depth behind later).imp_left ?_
      rintro ⟨visit, found, same⟩
      exact ⟨visit, List.mem_cons_of_mem _ (List.mem_append_right _ found), same⟩

theorem Blocks.Padded.of_visit (parent : OpId) (depth : Nat) {blocks wider : Blocks}
    (padded : blocks.Padded loose added wider) : wide ∈ wider.visits parent depth →
      (∃ visit ∈ blocks.visits parent depth, visit.Padded loose added wide) ∨
        added wide.op ∧ wide.regions = .nil := by
  intro visited
  cases padded with
  | nil => cases visited
  | cons inside behind =>
    rw [Blocks.visits, List.mem_append] at visited
    rcases visited with within | later
    · refine (Body.Padded.of_visit _ _ depth inside within).imp_left ?_
      rintro ⟨visit, found, same⟩
      exact ⟨visit, List.mem_append_left _ found, same⟩
    · refine (Blocks.Padded.of_visit parent depth behind later).imp_left ?_
      rintro ⟨visit, found, same⟩
      exact ⟨visit, List.mem_append_right _ found, same⟩

theorem Regions.Padded.of_visit (parent : OpId) (depth : Nat) {regions wider : Regions}
    (padded : regions.Padded loose added wider) : wide ∈ wider.visits parent depth →
      (∃ visit ∈ regions.visits parent depth, visit.Padded loose added wide) ∨
        added wide.op ∧ wide.regions = .nil := by
  intro visited
  cases padded with
  | nil => cases visited
  | cons inside behind =>
    rw [Regions.visits, List.mem_append] at visited
    rcases visited with within | later
    · refine (Blocks.Padded.of_visit parent depth inside within).imp_left ?_
      rintro ⟨visit, found, same⟩
      exact ⟨visit, List.mem_append_left _ found, same⟩
    · refine (Regions.Padded.of_visit parent depth behind later).imp_left ?_
      rintro ⟨visit, found, same⟩
      exact ⟨visit, List.mem_append_right _ found, same⟩

end

end Places

/-! ### Blocks -/

section Bodies

variable {body wider : Body}

theorem Body.Padded.isEmpty_eq (padded : body.Padded loose added wider) : wider.isEmpty = body.isEmpty := by
  cases padded <;> rfl

/-- The last operation is the same, or it has been put behind the one that was the last. -/
theorem Body.Padded.last?_eq (padded : body.Padded loose added wider) :
    wider.last? = body.last? ∨
      ∃ last new, body.last? = some last ∧ loose last ∧ wider.last? = some new ∧ added new := by
  fun_induction Body.last? body generalizing wider with
  | case1 =>
    cases padded
    exact .inl rfl
  | case2 op regions =>
    cases padded with
    | cons _ behind =>
      cases behind
      exact .inl rfl
    | @pad _ new _ _ _ _ isLoose isAdded _ behind =>
      cases behind
      exact .inr ⟨op, new, rfl, isLoose, rfl, isAdded⟩
  | case3 op regions rest some ih =>
    have later {last wide : Body} (same : last.Padded loose added wide) (other : last ≠ .nil) (op : OpId)
        (regions : Regions) : (Body.cons op regions wide).last? = wide.last? := by
      cases same with
      | nil => exact absurd rfl other
      | cons => rfl
      | pad => rfl
    cases padded with
    | cons _ behind =>
      rw [later behind some]
      exact ih behind
    | pad _ _ _ behind =>
      rw [Body.last?, later behind some]
      · exact ih behind
      · exact Body.noConfusion

/-- Where no operation is loose, nothing has been put. -/
theorem Body.Padded.heads_eq (padded : body.Padded loose added wider)
    (tight : ∀ head ∈ body.heads, ¬loose head) : wider.heads = body.heads := by
  fun_induction Body.heads body generalizing wider with
  | case1 =>
    cases padded
    rfl
  | case2 op regions rest ih =>
    have later := fun head member => tight head (List.mem_cons_of_mem _ member)
    cases padded with
    | cons _ behind => rw [Body.heads, ih behind later]
    | pad isLoose => exact absurd isLoose (tight op List.mem_cons_self)

/-- Without the operations that have been put there, the block has those that it had. -/
theorem Body.Padded.filter_heads (padded : body.Padded loose added wider) {old : OpId → Bool}
    (olds : ∀ head ∈ body.heads, old head = true) (news : ∀ head, added head → old head = false) :
    wider.heads.filter old = body.heads := by
  fun_induction Body.heads body generalizing wider with
  | case1 =>
    cases padded
    rfl
  | case2 op regions rest ih =>
    have first := olds op List.mem_cons_self
    have later := fun head member => olds head (List.mem_cons_of_mem _ member)
    cases padded with
    | cons _ behind => rw [Body.heads, List.filter_cons_of_pos first, ih behind later]
    | pad _ isAdded _ behind =>
      have put := news _ isAdded
      rw [Body.heads, Body.heads, List.filter_cons_of_pos first, List.filter_cons_of_neg (by simp [put]),
        ih behind later]

end Bodies

/-! ### Regions -/

section Regions

open Regions.heads (blockHeads)

variable {blocks wideBlocks : Blocks} {regions wider : Regions}

theorem Blocks.Padded.entryBlock? (padded : blocks.Padded loose added wideBlocks) :
    wideBlocks.entryBlock? = none ∧ blocks.entryBlock? = none ∨ ∃ block body wide,
      blocks.entryBlock? = some (block, body) ∧ wideBlocks.entryBlock? = some (block, wide) ∧
        body.Padded loose added wide := by
  cases padded with
  | nil => exact .inl ⟨rfl, rfl⟩
  | cons inside => exact .inr ⟨_, _, _, rfl, rfl, inside⟩

theorem Blocks.Padded.size_eq (padded : blocks.Padded loose added wideBlocks) :
    wideBlocks.size = blocks.size := by
  fun_induction Blocks.size blocks generalizing wideBlocks with
  | case1 =>
    cases padded
    rfl
  | case2 block body rest ih =>
    cases padded with
    | cons _ behind => rw [Blocks.size, ih behind]

theorem Regions.Padded.toList (padded : regions.Padded loose added wider) :
    List.Forall₂ (Blocks.Padded loose added) regions.toList wider.toList := by
  fun_induction Regions.toList regions generalizing wider with
  | case1 =>
    cases padded
    exact .nil
  | case2 blocks rest ih =>
    cases padded with
    | cons inside behind => exact .cons inside (ih behind)

theorem Regions.Padded.map_size (padded : regions.Padded loose added wider) :
    wider.toList.map Blocks.size = regions.toList.map Blocks.size := by
  have each := padded.toList
  generalize regions.toList = items, wider.toList = others at each ⊢
  induction each with
  | nil => rfl
  | cons inside _ ih => rw [List.map_cons, List.map_cons, inside.size_eq, ih]

theorem Blocks.Padded.isEmpty_heads (padded : blocks.Padded loose added wideBlocks) :
    (blockHeads wideBlocks).isEmpty = (blockHeads blocks).isEmpty := by
  fun_induction blockHeads blocks generalizing wideBlocks with
  | case1 =>
    cases padded
    rfl
  | case2 block body rest ih =>
    cases padded with
    | cons inside behind =>
      have later := ih behind
      rw [Bool.eq_iff_iff, List.isEmpty_iff, List.isEmpty_iff] at later ⊢
      rw [blockHeads, List.append_eq_nil_iff, List.append_eq_nil_iff, later]
      refine and_congr_left' ?_
      cases inside <;> simp [Body.heads]

theorem Blocks.Padded.heads_eq (padded : blocks.Padded loose added wideBlocks)
    (tight : ∀ head ∈ blockHeads blocks, ¬loose head) : blockHeads wideBlocks = blockHeads blocks := by
  fun_induction blockHeads blocks generalizing wideBlocks with
  | case1 =>
    cases padded
    rfl
  | case2 block body rest ih =>
    cases padded with
    | cons inside behind =>
      rw [blockHeads, inside.heads_eq fun head member => tight head (List.mem_append_left _ member),
        ih behind fun head member => tight head (List.mem_append_right _ member)]

theorem Blocks.Padded.filter_heads (padded : blocks.Padded loose added wideBlocks) {old : OpId → Bool}
    (olds : ∀ head ∈ blockHeads blocks, old head = true) (news : ∀ head, added head → old head = false) :
    (blockHeads wideBlocks).filter old = blockHeads blocks := by
  fun_induction blockHeads blocks generalizing wideBlocks with
  | case1 =>
    cases padded
    rfl
  | case2 block body rest ih =>
    cases padded with
    | cons inside behind =>
      rw [blockHeads, List.filter_append,
        inside.filter_heads (fun head member => olds head (List.mem_append_left _ member)) news,
        ih behind fun head member => olds head (List.mem_append_right _ member)]

/-- Where no operation directly inside is loose, none has been put there. -/
theorem Regions.Padded.heads_eq (padded : regions.Padded loose added wider)
    (tight : ∀ head ∈ regions.heads, ¬loose head) : wider.heads = regions.heads := by
  have each := padded.toList
  unfold Regions.heads at tight ⊢
  generalize regions.toList = items, wider.toList = others at each tight ⊢
  induction each with
  | nil => rfl
  | cons inside _ ih =>
    rw [List.flatMap_cons] at tight
    rw [List.flatMap_cons, List.flatMap_cons,
      inside.heads_eq fun head member => tight head (List.mem_append_left _ member),
      ih fun head member => tight head (List.mem_append_right _ member)]

/-- Without the operations that have been put there, those directly inside are the same. -/
theorem Regions.Padded.filter_heads (padded : regions.Padded loose added wider) {old : OpId → Bool}
    (olds : ∀ head ∈ regions.heads, old head = true) (news : ∀ head, added head → old head = false) :
    wider.heads.filter old = regions.heads := by
  have each := padded.toList
  unfold Regions.heads at olds ⊢
  generalize regions.toList = items, wider.toList = others at each olds ⊢
  induction each with
  | nil => rfl
  | cons inside _ ih =>
    rw [List.flatMap_cons] at olds
    rw [List.flatMap_cons, List.flatMap_cons, List.filter_append,
      inside.filter_heads (fun head member => olds head (List.mem_append_left _ member)) news,
      ih fun head member => olds head (List.mem_append_right _ member)]

end Regions

end TensorIR
