import TensorIR.Proofs.Scalar.Branching

/-!
# The body of a loop gets a position

The body of a loop takes the number of the round as an integer. In a lowered loop that is a position, so
a cast to an integer is put in front of the body and used in place of it. Everything else stays as it is,
but for the types of what the loop carries.

## Main definitions

* `Program.ConvertsBody` — a program whose loop has a body for positions

## Main results

* `Program.WellFormed.scopeOf_argument` — where the arguments of a block are seen
* `of_convertBody_eq_ok` — what becomes of the body of a loop
-/

namespace TensorIR

/-! ### Where the arguments of a block are seen -/

/-- The block that a part is. -/
def Part.block? : Part → Option BlockId
  | op _ => none
  | block id => some id

mutual

theorem Body.filterMap_block : (body : Body) →
    body.parts.filterMap Part.block? = body.blockBodies.map Prod.fst
  | .nil => rfl
  | .cons op regions rest => by
    rw [Body.parts, List.filterMap_cons_none rfl, List.filterMap_append,
      Regions.filterMap_block regions, Body.filterMap_block rest, Body.blockBodies, List.map_append]

theorem Blocks.filterMap_block : (blocks : Blocks) →
    blocks.parts.filterMap Part.block? = blocks.blockBodies.map Prod.fst
  | .nil => rfl
  | .cons block body rest => by
    have first : Part.block? (.block block) = some block := rfl
    rw [Blocks.parts, List.filterMap_cons_some first, List.filterMap_append,
      Body.filterMap_block body, Blocks.filterMap_block rest, Blocks.blockBodies, List.map_cons,
      List.map_append]

theorem Regions.filterMap_block : (regions : Regions) →
    regions.parts.filterMap Part.block? = regions.blockBodies.map Prod.fst
  | .nil => rfl
  | .cons blocks rest => by
    rw [Regions.parts, List.filterMap_append, Blocks.filterMap_block blocks,
      Regions.filterMap_block rest, Regions.blockBodies, List.map_append]

end

section Visits

variable {visit : Visit} {entry : BlockId × Body}

mutual

/-- The blocks of an operation are blocks of the tree. -/
theorem Body.blockBodies_of_visits (among : entry ∈ visit.regions.blockBodies)
    (block : Option BlockId) (parent : Option OpId) (depth : Nat) : (body : Body) →
      visit ∈ body.visits block parent depth → entry ∈ body.blockBodies
  | .nil, member => by cases member
  | .cons op regions rest, member => by
    rw [Body.visits, List.mem_cons, List.mem_append] at member
    rcases member with rfl | inside | behind
    · exact List.mem_append_left _ among
    · exact List.mem_append_left _ (Regions.blockBodies_of_visits among op (depth + 1) regions inside)
    · exact List.mem_append_right _
        (Body.blockBodies_of_visits among block parent depth rest behind)

theorem Blocks.blockBodies_of_visits (among : entry ∈ visit.regions.blockBodies) (parent : OpId)
    (depth : Nat) : (blocks : Blocks) → visit ∈ blocks.visits parent depth →
      entry ∈ blocks.blockBodies
  | .nil, member => by cases member
  | .cons block body rest, member => by
    rw [Blocks.visits, List.mem_append] at member
    refine List.mem_cons_of_mem _ (List.mem_append.mpr ?_)
    exact member.imp
      (Body.blockBodies_of_visits among (some block) (some parent) depth body)
      (Blocks.blockBodies_of_visits among parent depth rest)

theorem Regions.blockBodies_of_visits (among : entry ∈ visit.regions.blockBodies) (parent : OpId)
    (depth : Nat) : (regions : Regions) → visit ∈ regions.visits parent depth →
      entry ∈ regions.blockBodies
  | .nil, member => by cases member
  | .cons blocks rest, member => by
    rw [Regions.visits, List.mem_append] at member
    refine List.mem_append.mpr ?_
    exact member.imp (Blocks.blockBodies_of_visits among parent depth blocks)
      (Regions.blockBodies_of_visits among parent depth rest)

end

end Visits

theorem lookup_of_mem {α β : Type} [DecidableEq α] {key : α} {value : β} {pairs : List (α × β)}
    (nodup : (pairs.map Prod.fst).Nodup) (member : (key, value) ∈ pairs) :
    pairs.lookup key = some value := by
  induction pairs with
  | nil => cases member
  | cons first pairs ih =>
    obtain ⟨absent, nodup⟩ := List.nodup_cons.mp nodup
    rcases List.mem_cons.mp member with rfl | later
    · exact List.lookup_cons_self
    · have other : (key == first.1) = false := by
        refine beq_eq_false_iff_ne.mpr fun same => absent ?_
        exact List.mem_map.mpr ⟨(key, value), later, same⟩
      rw [List.lookup_cons, other]
      exact ih nodup later

variable {program after : Program} {op : OpId}

/-- A block in the tree is found with its operations. -/
theorem Program.WellFormed.bodyOf?_eq (formed : program.WellFormed) {block : BlockId} {body : Body}
    (member : (block, body) ∈ program.regions.blockBodies) : program.bodyOf? block = some body := by
  have nodup : (program.regions.blockBodies.map Prod.fst).Nodup := by
    rw [← Regions.filterMap_block]
    refine formed.regions_nodup.filterMap fun first second id isFirst isSecond => ?_
    cases first <;> cases isFirst
    cases second <;> cases isSecond
    rfl
  rw [Program.bodyOf?, lookup_of_mem nodup member, Option.some_or]

/-- The arguments of the first block of an operation are seen by the operations of the block. -/
theorem Program.WellFormed.scopeOf_argument (formed : program.WellFormed) {visit : Visit}
    (visited : visit ∈ program.visits) (notRoot : visit.op ≠ program.root) {block : BlockId} {body : Body}
    (entry : visit.regions.entryBlock? = some (block, body)) {value : ValueId}
    (origin : (program.value value).origin = .argument block) :
    program.scopeOf value = body.ops := by
  have among : (block, body) ∈ visit.regions.blockBodies := by
    cases regions : visit.regions with
    | nil =>
      rw [regions] at entry
      cases entry
    | cons blocks rest =>
      rw [regions] at entry
      cases blocks with
      | nil => cases entry
      | cons first inner later =>
        cases entry
        exact List.mem_cons_self
  have member : (block, body) ∈ program.regions.blockBodies := by
    rw [Program.visits, Program.tree, Body.visits, Body.visits, List.append_nil, List.mem_cons]
      at visited
    rcases visited with rfl | inner
    · exact absurd rfl notRoot
    · exact Regions.blockBodies_of_visits among program.root 1 program.regions inner
  simp [Program.scopeOf, origin, formed.bodyOf?_eq member]

/-! ### Types of arguments -/

theorem typeOf?_setTypes_of_mem {types : List (ValueId × Ty)} (nodup : (types.map Prod.fst).Nodup)
    {value : ValueId} {type : Ty} (member : (value, type) ∈ types) (program : Program)
    (below : value.index < program.values.size) :
    (program.setTypes types).typeOf? value = some type := by
  induction types generalizing program with
  | nil => cases member
  | cons first types ih =>
    obtain ⟨absent, nodup⟩ := List.nodup_cons.mp nodup
    rw [setTypes_cons]
    have stillBelow : value.index < (program.setType first.1 first.2).values.size := by
      rw [Program.setType, Program.modifyValue]
      exact below.trans_le (Array.size_modify ..).ge
    rcases List.mem_cons.mp member with rfl | later
    · rcases typeOf?_setTypes types value (program.setType value type) with same | ⟨other, among, -⟩
      · rw [same, typeOf?_setType, if_pos ⟨rfl, below⟩]
      · exact absurd (List.mem_map.mpr ⟨(value, other), among, rfl⟩) absent
    · exact ih nodup later _ stillBelow

theorem alters_setTypes {owned : ValueId → Prop} {types : List (ValueId × Ty)}
    (among : ∀ pair ∈ types, owned pair.1) (program : Program) :
    program.Alters owned op (.cons op) (program.setTypes types) := by
  induction types generalizing program with
  | nil => exact .refl program owned op
  | cons first types ih =>
    have one : program.Alters owned op (.cons op) (program.setType first.1 first.2) :=
      alters_setType (among first List.mem_cons_self) first.2
    rw [setTypes_cons]
    have both := one.trans (ih (fun pair member => among pair (List.mem_cons_of_mem _ member)) _)
    simpa only [Body.alterAt_self] using both

theorem scopeOf_setType (program : Program) (value other : ValueId) (type : Ty) :
    (program.setType value type).scopeOf other = program.scopeOf other := by
  have origin : ((program.setType value type).value other).origin = (program.value other).origin := by
    rw [Program.setType, Program.value_modifyValue]
    split <;> rfl
  rw [Program.scopeOf, origin]
  rfl

theorem usesOf_setTypes (types : List (ValueId × Ty)) (value : ValueId) (program : Program) :
    (program.setTypes types).usesOf value = program.usesOf value := by
  induction types generalizing program with
  | nil => rfl
  | cons first types ih =>
    rw [setTypes_cons, ih, Program.usesOf, scopeOf_setType]
    rfl

/-! ### What becomes of the body -/

/-- The types that the arguments of the body get. -/
def roundTypes (round : ValueId) (rest : List ValueId) (types : List Ty) : List (ValueId × Ty) :=
  rest.zip types ++ [(round, .scalar .index)]

/-- The cast that gets the number of the round back has been put before the first operation of the body,
and is used in place of the position. -/
inductive CastsRound (program : Program) (round : ValueId) (typed : Program) : Body → Program → Prop where
  | unused {body : Body} (none : body.heads = [] ∨ program.usesOf round = []) :
    CastsRound program round typed body typed
  | used {first : OpId} {regions : Regions} {rest : Body} {draft : Draft}
    (adds : (typed.draft first .before).Adds (.arith .indexCast) [round] .empty [.scalar .i64] draft) :
    CastsRound program round typed (.cons first regions rest)
      ((program.usesOf round).foldl (fun changed use => changed.setUse use ⟨typed.values.size⟩)
        draft.finished)

/-- The steps of converting the body of a loop. -/
theorem of_convertBody_eq_ok {block : BlockId} {body : Body} {types : List Ty}
    (inside : ∀ first ∈ body.heads, first ≠ program.root)
    (run : (Change.convertBody block body types).run program = (.ok (), after)) :
    (program.header block).arguments = [] ∧ after = program ∨
      ∃ round rest, (program.header block).arguments = round :: rest ∧
        CastsRound program round
          (program.setTypes (roundTypes round rest types)) body after := by
  unfold Change.convertBody at run
  rw [run_bind, Change.run_ask] at run
  simp only [] at run
  rw [run_bind, run_forIn_modify] at run
  simp only [] at run
  cases isArguments : (program.header block).arguments with
  | nil =>
    rw [isArguments] at run
    cases run
    exact .inl ⟨rfl, rfl⟩
  | cons round rest =>
    refine .inr ⟨round, rest, rfl, ?_⟩
    rw [isArguments] at run
    simp only [List.drop_succ_cons, List.drop_zero] at run
    rw [run_bind, Change.run_ask] at run
    simp only [] at run
    rw [run_bind, run_modify] at run
    simp only [] at run
    have typed : ((rest.zip types).foldl (fun now pair => now.setType pair.1 pair.2) program).setType
        round (.scalar .index) = program.setTypes (roundTypes round rest types) := by
      rw [Program.setTypes, roundTypes, List.foldl_append]
      rfl
    have uses : ((rest.zip types).foldl (fun now pair => now.setType pair.1 pair.2) program).usesOf
        round = program.usesOf round := usesOf_setTypes _ _ _
    rw [typed, uses] at run
    -- Without an operation, or without a use of the counter, there is nothing to convert.
    cases body with
    | nil =>
      cases run
      exact .unused (.inl rfl)
    | cons first regions later =>
      simp only [Body.heads] at run
      split at run
      case isTrue none =>
        cases run
        exact .unused (.inr (List.isEmpty_iff.mp none))
      case isFalse =>
        obtain ⟨cast, middle, built, replaced⟩ := of_run_bind_eq_ok run
        obtain ⟨draft, isCast, rfl⟩ := of_build_eq_ok built
        have isRoot := root_setTypes program (roundTypes round rest types)
        generalize program.setTypes (roundTypes round rest types) = changed at *
        have placed : (changed.draft first .before).anchor ≠
            (changed.draft first .before).program.root := by
          have notRoot := inside first List.mem_cons_self
          rwa [← isRoot] at notRoot
        obtain ⟨other, made, adds⟩ :=
          adds_value (.arith .indexCast) [round] (.scalar .i64) .empty placed
        obtain ⟨same, rfl⟩ := Prod.mk.inj (made.symm.trans isCast)
        cases same
        rw [run_bind, run_forIn_modify] at replaced
        cases replaced
        exact .used adds

/-- The body of an operation takes a position and values of given types. Either nothing has used the
number of the round, or a cast of the position stands in front and is used in place of it. -/
structure Program.TakesPosition (program : Program) (visit : Visit) (block : BlockId) (body : Body)
    (types : List Ty) (inner : Regions → Regions) (after : Program) : Prop where
  sameType : ∀ value : ValueId, value.index < program.values.size →
    value ∉ (program.header block).arguments → after.typeOf? value = program.typeOf? value
  arguments : ∀ round rest, (program.header block).arguments = round :: rest →
    after.typeOf? round = some (.scalar .index) ∧
      ∀ pair ∈ rest.zip types, after.typeOf? pair.1 = some pair.2
  casts : ∀ round rest, (program.header block).arguments = round :: rest →
    (inner visit.regions = visit.regions ∧ ∀ other ∈ body.ops,
      after.operands other = program.operands other ∧ round ∉ program.operands other) ∨
    ∃ id cast, (inner visit.regions).entryBlock? = some (block, .cons id .nil body) ∧
      after.Defines id (.arith .indexCast) [round] .empty [cast] [.scalar .i64] ∧
      program.operations.size ≤ id.index ∧ program.values.size ≤ cast.index ∧
      ∀ other ∈ body.ops, after.operands other = (program.operands other).map (ValueId.swap round cast)

/-- The body of an operation takes a position, and nothing else has changed. -/
structure Program.ConvertsBody (program : Program) (visit : Visit) (block : BlockId) (body : Body)
    (types : List Ty) (inner : Regions → Regions) (after : Program) : Prop
    extends program.TakesPosition visit block body types inner after where
  alters : ∀ owned : ValueId → Prop, (∀ value ∈ (program.header block).arguments, owned value) →
    program.Alters owned visit.op (fun regions rest => .cons visit.op (inner regions) rest) after
  operands : ∀ other : OpId, other.index < program.operations.size → other ∉ body.ops →
    after.operands other = program.operands other

/-- A change inside an operation is a change at the operation. -/
theorem Program.WellFormed.alterAt_inside (formed : program.WellFormed) {visit : Visit}
    (visited : visit ∈ program.visits) (notRoot : visit.op ≠ program.root) {first : OpId}
    (member : first ∈ visit.regions.ops) (change : Regions → Body → Body) :
    program.regions.alterAt first change = program.regions.alterAt visit.op
      fun regions rest => .cons visit.op (regions.alterAt first change) rest := by
  have isPart : Part.op first ∈ visit.regions.parts := Regions.op_mem_parts.mpr member
  have around := formed.notMem_around visited notRoot
    (List.mem_cons_of_mem (.op visit.op) (List.mem_append_left visit.rest.parts isPart))
  calc program.regions.alterAt first change
    _ = (program.regions.alterAt visit.op (.cons visit.op)).alterAt first change := by
      rw [Regions.alterAt_self]
    _ = program.regions.alterAt visit.op
        fun regions rest => (Body.cons visit.op regions rest).alterAt first change :=
      Regions.alterAt_absent program.regions around
    _ = _ := by
      refine formed.alterAt_eq visited ?_
      have distinct : visit.op ≠ first := by
        rintro rfl
        exact formed.notMem_inside visited member
      have notBehind : first ∉ visit.rest.ops := fun behind =>
        formed.disjoint_rest visited isPart (Body.op_mem_parts.mpr behind)
      rw [Body.alterAt, if_neg distinct, Body.alterAt_of_notMem _ notBehind]

/-- What is inside an operation other than the outermost one is not the outermost one. -/
theorem Program.WellFormed.ne_root_of_inside (formed : program.WellFormed) {visit : Visit}
    (visited : visit ∈ program.visits) (notRoot : visit.op ≠ program.root) {inner : OpId}
    (member : inner ∈ visit.regions.ops) : inner ≠ program.root := by
  rintro rfl
  rw [Program.visits, Program.tree, Body.visits, Body.visits, List.append_nil, List.mem_cons] at visited
  rcases visited with rfl | within
  · exact notRoot rfl
  · refine formed.root_notMem (Regions.op_mem_parts.mp ?_)
    exact Regions.parts_of_visits program.root 1 program.regions within _
      (List.mem_cons_of_mem _ (List.mem_append_left _ (Regions.op_mem_parts.mpr member)))

theorem Regions.parts_of_entryBlock? {regions : Regions} {block : BlockId} {body : Body}
    (entry : regions.entryBlock? = some (block, body)) :
    .block block ∈ regions.parts ∧ ∀ part ∈ body.parts, part ∈ regions.parts := by
  cases regions with
  | nil => cases entry
  | cons blocks rest =>
    cases blocks with
    | nil => cases entry
    | cons first inner later =>
      cases entry
      exact ⟨List.mem_cons_self, fun part member =>
        List.mem_cons_of_mem _ (List.mem_append_left _ (List.mem_append_left _ member))⟩

theorem Body.mem_ops_of_heads {first : OpId} : (body : Body) → first ∈ body.heads → first ∈ body.ops
  | .nil, member => by cases member
  | .cons op regions rest, member => by
    rcases List.mem_cons.mp member with rfl | later
    · exact List.mem_cons_self
    · exact List.mem_cons_of_mem _ (List.mem_append_right _ (Body.mem_ops_of_heads rest later))

section Conversion

variable {visit : Visit} {block : BlockId} {body : Body} {types : List Ty} {round : ValueId}
  {rest : List ValueId}

theorem mem_of_roundTypes {pair : ValueId × Ty} (member : pair ∈ roundTypes round rest types) :
    pair.1 ∈ round :: rest := by
  rcases List.mem_append.mp member with old | last
  · exact List.mem_cons_of_mem _ (List.of_mem_zip old).1
  · rw [List.mem_singleton.mp last]
    exact List.mem_cons_self

theorem typeOf?_roundTypes_of_notMem {value : ValueId} (outside : value ∉ round :: rest)
    (program : Program) :
    (program.setTypes (roundTypes round rest types)).typeOf? value = program.typeOf? value := by
  rcases typeOf?_setTypes (roundTypes round rest types) value program with same | ⟨type, member, -⟩
  · exact same
  · exact absurd (mem_of_roundTypes member) outside

theorem map_fst_zip_sublist {α β : Type} :
    (first : List α) → (second : List β) → ((first.zip second).map Prod.fst).Sublist first
  | [], _ => List.Sublist.refl []
  | _ :: _, [] => List.nil_sublist _
  | _ :: first, _ :: second => (map_fst_zip_sublist first second).cons_cons _

/-- Every argument of the body gets the type that is meant for it. -/
theorem typeOf?_roundTypes (owns : program.Owns (.argument block) (round :: rest))
    {pair : ValueId × Ty} (member : pair ∈ roundTypes round rest types) :
    (program.setTypes (roundTypes round rest types)).typeOf? pair.1 = some pair.2 := by
  refine typeOf?_setTypes_of_mem ?_ member program (owns.lt _ (mem_of_roundTypes member))
  obtain ⟨absent, distinct⟩ := List.nodup_cons.mp owns.nodup
  have sub := map_fst_zip_sublist rest types
  rw [roundTypes, List.map_append, List.nodup_append]
  refine ⟨distinct.sublist sub, List.nodup_singleton _, fun value among other last same => ?_⟩
  obtain rfl : other = round := by simpa using last
  exact absent (same ▸ sub.subset among)

/-- The arguments have new types, and nothing else has changed. -/
theorem convertsBody_setTypes (owns : program.Owns (.argument block) (round :: rest))
    (isArguments : (program.header block).arguments = round :: rest)
    (scope : program.scopeOf round = body.ops)
    (none : body.heads = [] ∨ program.usesOf round = []) :
    program.ConvertsBody visit block body types id
      (program.setTypes (roundTypes round rest types)) := by
  have operands (other : OpId) :
      (program.setTypes (roundTypes round rest types)).operands other = program.operands other := by
    rw [Program.operands, Program.operation, operations_setTypes]
    rfl
  refine ⟨⟨fun value _ outside => ?_, fun other others same => ?_, fun other others same =>
      .inl ⟨rfl, fun user member => ⟨operands user, fun uses => ?_⟩⟩⟩,
    fun owned each => ?_, fun other _ _ => operands other⟩
  · exact typeOf?_roundTypes_of_notMem (isArguments ▸ outside) program
  · rw [isArguments] at same
    cases same
    exact ⟨typeOf?_roundTypes owns (List.mem_append_right _ (List.mem_singleton_self _)),
      fun pair member => typeOf?_roundTypes owns (List.mem_append_left _ member)⟩
  · rw [isArguments] at same
    cases same
    rcases none with empty | unused
    · cases body with
      | nil => cases member
      | cons => cases empty
    · obtain ⟨index, found⟩ := List.getElem?_of_mem uses
      have use : (⟨user, index⟩ : Use) ∈ program.usesOf round :=
        Program.mem_usesOf.mpr ⟨scope ▸ member, found⟩
      rw [unused] at use
      cases use
  · exact alters_setTypes (fun pair member => each _ (isArguments ▸ mem_of_roundTypes member)) program

/-- An operation put before the first one of the body. -/
def Regions.putBefore (first new : OpId) (regions : Regions) : Regions :=
  regions.alterAt first fun inside rest => .cons new .nil (.cons first inside rest)

theorem Regions.entryBlock?_putBefore {regions inside : Regions} {first new : OpId} {later : Body}
    (entry : regions.entryBlock? = some (block, .cons first inside later)) :
    (regions.putBefore first new).entryBlock? =
      some (block, .cons new .nil (.cons first inside later)) := by
  cases regions with
  | nil => cases entry
  | cons blocks rest =>
    cases blocks with
    | nil => cases entry
    | cons block body rest =>
      cases entry
      simp only [Regions.putBefore, Regions.alterAt, Blocks.alterAt, Body.alterAt, if_true]
      rfl

/-! #### A cast of the position -/

section Cast

variable {first : OpId} {given : List (ValueId × Ty)} {kind : OpKind} {operands : List ValueId}
  {attributes : Attributes} {results : List Ty} {draft : Draft} {inside : Regions} {later : Body}

/-- What has been built in front of an operation stands there in the tree. -/
theorem Draft.Adds.regions_eq
    (adds : (program.draft first .before).Adds kind operands attributes results draft) :
    draft.finished.regions = program.regions.alterAt first
      fun inside rest => .cons ⟨program.operations.size⟩ .nil (.cons first inside rest) := by
  have anchor : draft.anchor = first := adds.anchor
  have change : draft.change =
      fun inside rest => .cons ⟨program.operations.size⟩ .nil (.cons first inside rest) := by
    funext inside rest
    exact adds.change_eq inside rest
  have regions : draft.program.regions = program.regions := by
    obtain ⟨location, names, -, defined⟩ := adds.program
    rw [defined]
    rfl
  have built : draft.finished.regions = draft.program.regions.alterAt draft.anchor draft.change :=
    congrArg Program.regions draft.finished_eq
  rw [built, regions, anchor, change]

/-- Building after types have been set leaves the operands of all operations that were there. -/
theorem Program.operands_of_extends
    (extended : ((program.setTypes given).draft first .before).Extends allowed [] draft) {other : OpId}
    (below : other.index < program.operations.size) :
    draft.finished.operands other = program.operands other := by
  have operations := operations_setTypes program given
  have same := congrArg Operation.operands
    (extended.program.operation_eq other (operations.symm ▸ below))
  exact same.trans (by rw [Program.operation, Program.operands, Program.operation, ← operations]; rfl)

/-- The types of all values that were there are those that have been set. -/
theorem Program.typeOf?_of_extends
    (extended : ((program.setTypes given).draft first .before).Extends allowed [] draft)
    (uses : List Use) (new : ValueId) {value : ValueId} (below : value.index < program.values.size) :
    (uses.foldl (fun changed use => changed.setUse use new) draft.finished).typeOf? value =
      (program.setTypes given).typeOf? value := by
  have values := values_setTypes program given
  rw [Program.typeOf?, Program.value, (tables_setUses uses new draft.finished).2.1]
  exact congrArg Value.type (extended.program.value_eq value (values.symm ▸ below))

/-- A cast of the position is defined in the end. -/
theorem Draft.Adds.defines_cast
    (adds : ((program.setTypes given).draft first .before).Adds (.arith .indexCast) [round] .empty
      [.scalar .i64] draft)
    (fresh : (⟨program.operations.size⟩ : OpId) ∉ program.scopeOf round) :
    ((program.usesOf round).foldl (fun changed use => changed.setUse use ⟨program.values.size⟩)
      draft.finished).Defines ⟨program.operations.size⟩ (.arith .indexCast) [round] .empty
        [⟨program.values.size⟩] [.scalar .i64] := by
  have defines : draft.finished.Defines ⟨program.operations.size⟩ (.arith .indexCast) [round] .empty
      [⟨program.values.size⟩] [.scalar .i64] := by
    have defined := adds.defines.placed
    simpa [Program.draft, operations_setTypes, Program.freshValues, values_setTypes] using defined
  have grown : draft.finished.Grows OpKind.IsTarget ((program.usesOf round).foldl
      (fun changed use => changed.setUse use ⟨program.values.size⟩) draft.finished) := grows_setUses _ _ _
  refine defines.grown grown (by simp) (Program.operands_setUsesOf_of_notMem round _ fresh) fun value _ => ?_
  rw [Program.typeOf?, Program.value, (tables_setUses _ _ draft.finished).2.1]
  rfl

/-- A cast of the position changes a program at the operation that has the body. -/
theorem Draft.Adds.alters_cast (formed : program.WellFormed) (visited : visit ∈ program.visits)
    (notRoot : visit.op ≠ program.root) (member : first ∈ visit.regions.ops)
    (known : ∀ other ∈ program.scopeOf round, other.index < program.operations.size)
    {owned : ValueId → Prop} (isOwned : owned round) (each : ∀ pair ∈ given, owned pair.1)
    (adds : ((program.setTypes given).draft first .before).Adds (.arith .indexCast) [round] .empty
      [.scalar .i64] draft) :
    program.Alters owned visit.op
      (fun regions rest => .cons visit.op (regions.putBefore first ⟨program.operations.size⟩) rest)
      ((program.usesOf round).foldl (fun changed use => changed.setUse use ⟨program.values.size⟩)
        draft.finished) := by
  have extended := adds.extended OpKind.isTarget_arith
  have retyped : program.Alters owned first (.cons first) (program.setTypes given) :=
    alters_setTypes each program
  have reused : draft.finished.Alters owned first (.cons first) ((program.usesOf round).foldl
      (fun changed use => changed.setUse use ⟨program.values.size⟩) draft.finished) := by
    refine alters_setUses _ _ fun use member value found => ?_
    obtain ⟨inScope, isRound⟩ := Program.mem_usesOf.mp member
    rw [Program.operands_of_extends extended (known _ inScope), isRound, Option.some.injEq] at found
    exact found ▸ isOwned
  refine ((retyped.trans (alters_build extended)).trans reused).withRegions rfl rfl ?_
    fun regions rest function within _ _ member => List.mem_cons_of_mem _ member
  rw [(tables_setUses _ _ draft.finished).2.2, adds.regions_eq, regions_setTypes, operations_setTypes]
  exact formed.alterAt_inside visited notRoot member _

/-- A cast of the position stands in front of the body. -/
theorem convertsBody_cast (formed : program.WellFormed) (visited : visit ∈ program.visits)
    (notRoot : visit.op ≠ program.root)
    (entry : visit.regions.entryBlock? = some (block, .cons first inside later))
    (owns : program.Owns (.argument block) (round :: rest))
    (isArguments : (program.header block).arguments = round :: rest)
    (scope : program.scopeOf round = (Body.cons first inside later).ops)
    (adds : ((program.setTypes (roundTypes round rest types)).draft first .before).Adds
      (.arith .indexCast) [round] .empty [.scalar .i64] draft) :
    program.ConvertsBody visit block (.cons first inside later) types
      (Regions.putBefore first ⟨program.operations.size⟩)
      ((program.usesOf round).foldl
        (fun changed use => changed.setUse use ⟨program.values.size⟩) draft.finished) := by
  have extended := adds.extended OpKind.isTarget_arith
  obtain ⟨-, within⟩ := Regions.parts_of_entryBlock? entry
  -- The uses stand in the body, which has been there before.
  have known (other : OpId) (member : other ∈ program.scopeOf round) :
      other.index < program.operations.size :=
    (formed.knows (.op other) (Program.mem_parts_of_inside visited
      (within _ (Body.op_mem_parts.mpr (scope ▸ member))))).1
  have fresh : (⟨program.operations.size⟩ : OpId) ∉ program.scopeOf round := fun member =>
    absurd (known _ member) (lt_irrefl _)
  have typed {value : ValueId} (below : value.index < program.values.size) :=
    Program.typeOf?_of_extends extended (program.usesOf round) ⟨program.values.size⟩ below
  have given (pair : ValueId × Ty) (member : pair ∈ roundTypes round rest types) :=
    (typed (owns.lt _ (mem_of_roundTypes member))).trans (typeOf?_roundTypes owns member)
  refine ⟨⟨fun value below outside => ?_, fun other others same => ?_, fun other others same => .inr ?_⟩,
    fun owned each => ?_, fun other below outside => ?_⟩
  · rw [typed below]
    exact typeOf?_roundTypes_of_notMem (isArguments ▸ outside) program
  · rw [isArguments] at same
    cases same
    exact ⟨given (round, .scalar .index) (List.mem_append_right _ (List.mem_singleton_self _)),
      fun pair member => given pair (List.mem_append_left _ member)⟩
  · rw [isArguments] at same
    cases same
    refine ⟨⟨program.operations.size⟩, ⟨program.values.size⟩, Regions.entryBlock?_putBefore entry,
      adds.defines_cast fresh, le_rfl, le_rfl, fun other member => ?_⟩
    rw [← scope] at member
    rw [Program.operands_setUsesOf _ _ (Program.operands_of_extends extended (known _ member)),
      if_pos member]
  · have isFirst : first ∈ visit.regions.ops :=
      Regions.op_mem_parts.mp (within _ List.mem_cons_self)
    exact adds.alters_cast formed visited notRoot isFirst known (each _ (isArguments ▸ List.mem_cons_self))
      fun pair member => each _ (isArguments ▸ mem_of_roundTypes member)
  · rw [Program.operands_setUsesOf_of_notMem _ _ (scope ▸ outside),
      Program.operands_of_extends extended below]

end Cast

/-- What becomes of the body of a loop. -/
theorem convertsBody_of_eq_ok (formed : program.WellFormed) (visited : visit ∈ program.visits)
    (notRoot : visit.op ≠ program.root) (entry : visit.regions.entryBlock? = some (block, body))
    (run : (Change.convertBody block body types).run program = (.ok (), after)) :
    ∃ inner, program.ConvertsBody visit block body types inner after := by
  obtain ⟨isBlock, within⟩ := Regions.parts_of_entryBlock? entry
  have owns := (formed.knows _ (Program.mem_parts_of_inside visited isBlock)).2
  have heads (first : OpId) (member : first ∈ body.heads) : first ≠ program.root :=
    formed.ne_root_of_inside visited notRoot (Regions.op_mem_parts.mp
      (within _ (Body.op_mem_parts.mpr (Body.mem_ops_of_heads body member))))
  rcases of_convertBody_eq_ok heads run with ⟨none, rfl⟩ | ⟨round, rest, isArguments, casts⟩
  · refine ⟨id, ⟨fun _ _ _ => rfl, ?_, ?_⟩, fun owned _ => .refl _ owned visit.op, fun _ _ _ => rfl⟩
    all_goals
      intro round rest same
      rw [none] at same
      cases same
  · rw [isArguments] at owns
    have scope := formed.scopeOf_argument visited notRoot entry
      (owns.origin_eq round List.mem_cons_self)
    cases casts with
    | unused none => exact ⟨id, convertsBody_setTypes owns isArguments scope none⟩
    | used adds =>
      have converts := convertsBody_cast formed visited notRoot entry owns isArguments scope adds
      rw [← values_setTypes program (roundTypes round rest types)] at converts
      exact ⟨_, converts⟩

end Conversion

end TensorIR
