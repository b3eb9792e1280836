import TensorIR.Proofs.Refinement.Alike
import TensorIR.Proofs.Refinement.Padding
import TensorIR.Proofs.Scalar.Inlining
import TensorIR.Proofs.Verified

/-!
# Rules after types have been made more precise

Making a type more precise concerns tensor operations and casts alone. All others have operands and
results of the types that these had, and what is directly inside or around them is the same up to casts
behind tensor operations. So they keep their rules.

## Main definitions

* `Program.Loose` — the types of an operation may be made more precise
* `Program.NarrowsTo` — a program in which this has been done

## Main results

* `Program.NarrowsTo.verifyFunc_eq`, `Program.NarrowsTo.verifyScf_eq`,
  `Program.NarrowsTo.verifyTorchControl_eq` — rules about control flow
* `Program.NarrowsTo.symbolTable_eq` — the symbols are the same
-/

namespace TensorIR

/-- The types of the operation may be made more precise. -/
def Program.Loose (program : Program) (op : OpId) : Prop :=
  (program.kind op).allowsRefinement = true

/-- The operation is a cast that has been put into the program. -/
def Program.NewCast (start now : Program) (op : OpId) : Prop :=
  start.operations.size ≤ op.index ∧ now.kind op = .torch .tensorStaticInfoCast

/-- A program with casts put behind operations whose types may be made more precise. All other operations
have operands and results of the same types as before. -/
structure Program.NarrowsTo (start now : Program) : Prop where
  formed : start.WellFormed
  formed_now : now.WellFormed
  operations_le : start.operations.size ≤ now.operations.size
  operation_eq : ∀ op : OpId, op.index < start.operations.size →
    now.operation op = { start.operation op with operands := now.operands op, results := now.results op }
  header_eq : ∀ block : BlockId, block.index < start.headers.size → now.header block = start.header block
  tree : start.tree.Padded start.Loose (start.NewCast now) now.tree
  operands : ∀ op ∈ start.tree.ops, ¬start.Loose op →
    (now.operands op).map now.typed = (start.operands op).map start.typed
  results : ∀ op ∈ start.tree.ops, ¬start.Loose op →
    (now.results op).map now.typed = (start.results op).map start.typed
  arguments : ∀ block, .block block ∈ start.tree.parts →
    (start.header block).arguments.map now.typed = (start.header block).arguments.map start.typed

/-- The same region, as it is now and as it was. -/
structure Program.SameRegion (start now : Program) (wider blocks : Blocks) : Prop where
  padded : blocks.Padded start.Loose (start.NewCast now) wider
  inside : ∀ part ∈ blocks.parts, part ∈ start.tree.parts

/-! ### Parents and members -/

section Surroundings

variable {visit : Visit}

mutual

/-- What stands around an operation is in the tree. -/
theorem Body.parent_of_visits (block : Option BlockId) (parent : Option OpId) (depth : Nat) :
    (body : Body) → visit ∈ body.visits block parent depth →
      visit.parent = parent ∨ ∃ around ∈ body.ops, visit.parent = some around
  | .nil, visited => by cases visited
  | .cons op regions rest, visited => by
    rw [Body.visits, List.mem_cons, List.mem_append] at visited
    rcases visited with rfl | within | later
    · exact .inl rfl
    · obtain same | ⟨around, member, same⟩ := Regions.parent_of_visits op (depth + 1) regions within
      · exact .inr ⟨op, List.mem_cons_self, same⟩
      · exact .inr ⟨around, List.mem_cons_of_mem _ (List.mem_append_left _ member), same⟩
    · refine (Body.parent_of_visits block parent depth rest later).imp_right ?_
      rintro ⟨around, member, same⟩
      exact ⟨around, List.mem_cons_of_mem _ (List.mem_append_right _ member), same⟩

theorem Blocks.parent_of_visits (parent : OpId) (depth : Nat) :
    (blocks : Blocks) → visit ∈ blocks.visits parent depth →
      visit.parent = some parent ∨ ∃ around ∈ blocks.ops, visit.parent = some around
  | .nil, visited => by cases visited
  | .cons block body rest, visited => by
    rw [Blocks.visits, List.mem_append] at visited
    rcases visited with within | later
    · refine (Body.parent_of_visits (some block) (some parent) depth body within).imp_right ?_
      rintro ⟨around, member, same⟩
      exact ⟨around, List.mem_append_left _ member, same⟩
    · refine (Blocks.parent_of_visits parent depth rest later).imp_right ?_
      rintro ⟨around, member, same⟩
      exact ⟨around, List.mem_append_right _ member, same⟩

theorem Regions.parent_of_visits (parent : OpId) (depth : Nat) :
    (regions : Regions) → visit ∈ regions.visits parent depth →
      visit.parent = some parent ∨ ∃ around ∈ regions.ops, visit.parent = some around
  | .nil, visited => by cases visited
  | .cons blocks rest, visited => by
    rw [Regions.visits, List.mem_append] at visited
    rcases visited with within | later
    · refine (Blocks.parent_of_visits parent depth blocks within).imp_right ?_
      rintro ⟨around, member, same⟩
      exact ⟨around, List.mem_append_left _ member, same⟩
    · refine (Regions.parent_of_visits parent depth rest later).imp_right ?_
      rintro ⟨around, member, same⟩
      exact ⟨around, List.mem_append_right _ member, same⟩

end

end Surroundings

section Members

variable {op : OpId}

theorem Body.op_of_heads (body : Body) (member : op ∈ body.heads) : .op op ∈ body.parts := by
  fun_induction Body.heads body with
  | case1 => cases member
  | case2 other regions rest ih =>
    rcases List.mem_cons.mp member with rfl | later
    · exact List.mem_cons_self
    · exact List.mem_cons_of_mem _ (List.mem_append_right _ (ih later))

theorem Blocks.op_of_heads (blocks : Blocks) (member : op ∈ Regions.heads.blockHeads blocks) :
    .op op ∈ blocks.parts := by
  fun_induction Regions.heads.blockHeads blocks with
  | case1 => cases member
  | case2 block body rest ih =>
    rcases List.mem_append.mp member with here | later
    · exact List.mem_cons_of_mem _ (List.mem_append_left _ (body.op_of_heads here))
    · exact List.mem_cons_of_mem _ (List.mem_append_right _ (ih later))

theorem Regions.parts_of_toList {blocks : Blocks} {part : Part} (regions : Regions)
    (among : blocks ∈ regions.toList) (member : part ∈ blocks.parts) : part ∈ regions.parts := by
  fun_induction Regions.toList regions with
  | case1 => cases among
  | case2 first rest ih =>
    rcases List.mem_cons.mp among with rfl | later
    · exact List.mem_append_left _ member
    · exact List.mem_append_right _ (ih later)

theorem Regions.op_of_heads (regions : Regions) (member : op ∈ regions.heads) : .op op ∈ regions.parts := by
  obtain ⟨blocks, among, here⟩ := List.mem_flatMap.mp member
  exact regions.parts_of_toList among (blocks.op_of_heads here)

theorem Body.op_of_last? (body : Body) (last : body.last? = some op) : .op op ∈ body.parts := by
  fun_induction Body.last? body with
  | case1 => cases last
  | case2 =>
    cases last
    exact List.mem_cons_self
  | case3 _ regions rest _ ih => exact List.mem_cons_of_mem _ (List.mem_append_right _ (ih last))

end Members

theorem Program.terminatorOf?_eq_some_iff {program : Program} {blocks : Blocks} {kind : OpKind} {last : OpId} :
    program.terminatorOf? (some blocks) kind = some last ↔ ∃ block body,
      blocks.entryBlock? = some (block, body) ∧ body.last? = some last ∧ program.kind last = kind := by
  unfold Program.terminatorOf?
  simp only [Option.bind_eq_bind, Option.bind_some, Option.bind_eq_some_iff, Option.ite_none_right_eq_some,
    Option.some.injEq]
  constructor
  · rintro ⟨⟨block, body⟩, isEntry, _, isLast, isKind, rfl⟩
    exact ⟨block, body, isEntry, isLast, isKind⟩
  · rintro ⟨block, body, isEntry, isLast, isKind⟩
    exact ⟨⟨block, body⟩, isEntry, _, isLast, isKind, rfl⟩

theorem foldlM_filter {α β : Type} {items : List α} {keep : α → Bool} {step stepOther : β → α → Except Error β}
    (same : ∀ state, ∀ item ∈ items, keep item = true → step state item = stepOther state item)
    (skips : ∀ state, ∀ item ∈ items, keep item = false → step state item = .ok state) (state : β) :
    items.foldlM step state = (items.filter keep).foldlM stepOther state := by
  induction items generalizing state with
  | nil => rfl
  | cons first items ih =>
    have later := ih (fun state item member => same state item (List.mem_cons_of_mem _ member))
      fun state item member => skips state item (List.mem_cons_of_mem _ member)
    rw [List.foldlM_cons, List.filter_cons]
    split
    case isTrue kept =>
      rw [List.foldlM_cons, same state first List.mem_cons_self kept]
      exact bind_congr later
    case isFalse dropped =>
      rw [skips state first List.mem_cons_self (Bool.eq_false_iff.mpr dropped)]
      exact later state

/-! ### What is found in the tree -/

/-- The entry block of a region. -/
theorem Program.SameRegion.entryBlock? {start now : Program} {wider blocks : Blocks}
    (same : start.SameRegion now wider blocks) :
    wider.entryBlock? = none ∧ blocks.entryBlock? = none ∨ ∃ block wide body,
      wider.entryBlock? = some (block, wide) ∧ blocks.entryBlock? = some (block, body) ∧
        .block block ∈ start.tree.parts := by
  rcases same.padded.entryBlock? with none | ⟨block, body, wide, isEntry, isWide, -⟩
  · exact .inl none
  · refine .inr ⟨block, wide, body, isWide, isEntry, same.inside _ ?_⟩
    cases blocks with
    | nil => cases isEntry
    | cons first inner rest =>
      cases isEntry
      exact List.mem_cons_self

namespace Program.NarrowsTo

variable {start now : Program} {op : OpId} {σ : Type} (narrows : start.NarrowsTo now)
include narrows

theorem below (member : op ∈ start.tree.ops) : op.index < start.operations.size :=
  (narrows.formed.knows _ (Body.op_mem_parts.mpr member)).1

theorem kind_eq (member : op ∈ start.tree.ops) : now.kind op = start.kind op := by
  rw [Program.kind, narrows.operation_eq op (narrows.below member), Program.kind]

theorem attributes_eq (member : op ∈ start.tree.ops) : now.attributes op = start.attributes op := by
  rw [Program.attributes, narrows.operation_eq op (narrows.below member), Program.attributes]

theorem alike (member : op ∈ start.tree.ops) (tight : ¬start.Loose op) : start.Alike now op where
  operation_eq := narrows.operation_eq op (narrows.below member)
  operands := narrows.operands op member tight
  results := narrows.results op member tight

theorem block_eq {block : BlockId} (member : .block block ∈ start.tree.parts) :
    now.header block = start.header block :=
  narrows.header_eq block (narrows.formed.knows _ member).1

/-- The place of an operation before and after. -/
theorem exists_places (member : op ∈ start.tree.ops) : ∃ visit ∈ start.visits, ∃ wide ∈ now.visits,
    visit.op = op ∧ visit.Padded start.Loose (start.NewCast now) wide := by
  obtain ⟨visit, visited, rfl⟩ := Program.exists_visit member
  obtain ⟨wide, found, same⟩ := narrows.tree.exists_visit none none 0 visited
  exact ⟨visit, visited, wide, found, rfl, same⟩

theorem parent?_eq (member : op ∈ start.tree.ops) : now.parent? op = start.parent? op := by
  obtain ⟨visit, visited, wide, found, rfl, same⟩ := narrows.exists_places member
  rw [Program.parent?, Program.parent?, narrows.formed.visit?_eq visited, ← same.op_eq,
    narrows.formed_now.visit?_eq found, Option.bind_some, Option.bind_some, same.parent_eq]

theorem mem_of_parent? {around : OpId} (member : op ∈ start.tree.ops)
    (parent : start.parent? op = some around) : around ∈ start.tree.ops := by
  obtain ⟨visit, visited, -, -, rfl, -⟩ := narrows.exists_places member
  rw [Program.parent?, narrows.formed.visit?_eq visited, Option.bind_some] at parent
  rcases Body.parent_of_visits none none 0 start.tree visited with none | ⟨other, among, same⟩
  · rw [parent] at none
    cases none
  · rw [parent, Option.some.injEq] at same
    exact same ▸ among

theorem regionsOf_padded (member : op ∈ start.tree.ops) :
    (start.regionsOf op).Padded start.Loose (start.NewCast now) (now.regionsOf op) ∧
      (∀ part ∈ (start.regionsOf op).parts, part ∈ start.tree.parts) ∧
      ∀ part ∈ (now.regionsOf op).parts, part ∈ now.tree.parts := by
  obtain ⟨visit, visited, wide, found, rfl, same⟩ := narrows.exists_places member
  rw [narrows.formed.regionsOf_eq visited, ← same.op_eq, narrows.formed_now.regionsOf_eq found]
  exact ⟨same.regions, fun _ => Program.mem_parts_of_inside visited,
    fun _ => Program.mem_parts_of_inside found⟩

/-- What stands in the tree now has stood there before, or it is a cast that has been put there. -/
theorem mem_or_newCast (member : op ∈ now.tree.ops) : op ∈ start.tree.ops ∨ start.NewCast now op := by
  obtain ⟨wide, found, rfl⟩ := Program.exists_visit member
  rcases narrows.tree.of_visit none none 0 found with ⟨visit, visited, same⟩ | ⟨isCast, -⟩
  · rw [same.op_eq]
    exact .inl (Program.mem_ops_of_visits visited)
  · exact .inr isCast

theorem root_eq : now.root = start.root := by
  have tree := narrows.tree
  unfold Program.tree at tree
  generalize now.root = root, start.root = first, now.regions = wider, start.regions = regions at tree ⊢
  cases tree
  rfl

/-- The regions of an operation. -/
theorem regions (member : op ∈ start.tree.ops) :
    List.Forall₂ (start.SameRegion now) (now.regionsOf op).toList (start.regionsOf op).toList := by
  obtain ⟨padded, inside, -⟩ := narrows.regionsOf_padded member
  have each : ∀ blocks ∈ (start.regionsOf op).toList, ∀ part ∈ blocks.parts, part ∈ start.tree.parts :=
    fun blocks among part within => inside part (Regions.parts_of_toList _ among within)
  refine (((List.forall₂_and_left _ _).mpr ⟨each, padded.toList⟩).imp ?_).flip
  rintro blocks wider ⟨inside, padded⟩
  exact ⟨padded, inside⟩

theorem getElem?_regions (member : op ∈ start.tree.ops) (index : Nat) :
    (now.regionsOf op).get? index = none ∧ (start.regionsOf op).get? index = none ∨
      ∃ wider blocks, (now.regionsOf op).get? index = some wider ∧
        (start.regionsOf op).get? index = some blocks ∧ start.SameRegion now wider blocks := by
  have regions := narrows.regions member
  unfold Regions.get?
  generalize (now.regionsOf op).toList = wider, (start.regionsOf op).toList = blocks at regions ⊢
  induction regions generalizing index with
  | nil => exact .inl ⟨rfl, rfl⟩
  | cons here _ ih =>
    cases index with
    | zero => exact .inr ⟨_, _, rfl, rfl, here⟩
    | succ index => exact ih index

/-- The operation that ends a region. -/
theorem terminatorOf?_eq {wider blocks : Blocks} (same : start.SameRegion now wider blocks) {kind : OpKind}
    (tight : kind.allowsRefinement = false) :
    now.terminatorOf? (some wider) kind = start.terminatorOf? (some blocks) kind := by
  refine Option.ext fun last => ?_
  rw [Program.terminatorOf?_eq_some_iff, Program.terminatorOf?_eq_some_iff]
  rcases same.padded.entryBlock? with ⟨isNone, wasNone⟩ | ⟨block, body, wide, isEntry, isWide, padded⟩
  · simp [isNone, wasNone]
  simp only [isEntry, isWide, Option.some.injEq, Prod.mk.injEq, ↓existsAndEq, true_and, and_true]
  have inside {op : OpId} (found : body.last? = some op) : op ∈ start.tree.ops :=
    Body.op_mem_parts.mp (same.inside _
      ((Blocks.parts_of_entryBlock? isEntry).subset (body.op_of_last? found)))
  rcases padded.last?_eq with same | ⟨old, new, isOld, isLoose, isNew, isCast⟩
  · rw [same]
    refine and_congr_right fun found => ?_
    rw [narrows.kind_eq (inside found)]
  · -- Neither a cast nor an operation with a cast behind it ends a region.
    have notNew : now.kind new ≠ kind := by
      rintro rfl
      rw [isCast.2] at tight
      cases tight
    have notOld : start.kind old ≠ kind := by
      rintro rfl
      exact Bool.false_ne_true (tight.symm.trans isLoose)
    simp only [isOld, isNew, Option.some.injEq]
    constructor
    · rintro ⟨rfl, isKind⟩
      exact absurd isKind notNew
    · rintro ⟨rfl, isKind⟩
      exact absurd isKind notOld

theorem alike_terminator {wider blocks : Blocks} (same : start.SameRegion now wider blocks) {kind : OpKind}
    (tight : kind.allowsRefinement = false) {last : OpId}
    (found : start.terminatorOf? (some blocks) kind = some last) : start.Alike now last := by
  obtain ⟨block, body, isEntry, isLast, rfl⟩ := Program.terminatorOf?_eq_some_iff.mp found
  refine narrows.alike (Body.op_mem_parts.mp (same.inside _
    ((Blocks.parts_of_entryBlock? isEntry).subset (body.op_of_last? isLast)))) fun isLoose => ?_
  exact Bool.false_ne_true (tight.symm.trans isLoose)

theorem typedArguments_eq {block : BlockId} (member : .block block ∈ start.tree.parts) :
    (now.header block).arguments.mapM now.typed = (start.header block).arguments.mapM start.typed := by
  rw [narrows.block_eq member]
  exact mapM_congr (narrows.arguments block member)

theorem forall₂_arguments {block : BlockId} (member : .block block ∈ start.tree.parts) :
    List.Forall₂ (fun value other => now.typed value = start.typed other) (now.header block).arguments
      (start.header block).arguments := by
  have same := List.forall₂_eq_eq_eq.symm ▸ narrows.arguments block member
  rw [List.forall₂_map_left_iff, List.forall₂_map_right_iff] at same
  rwa [narrows.block_eq member]

/-! ### Rules about what is inside and around -/

theorem expectParent_eq (member : op ∈ start.tree.ops) (allowed : List OpKind) (names : String) :
    now.expectParent op allowed names = start.expectParent op allowed names := by
  have same : (now.parent? op).map now.kind = (start.parent? op).map start.kind := by
    rw [narrows.parent?_eq member]
    cases parent : start.parent? op with
    | none => rfl
    | some around => rw [Option.map_some, Option.map_some, narrows.kind_eq (narrows.mem_of_parent? member parent)]
  rw [Program.expectParent, same, Program.expectParent]

theorem functionBody_cases (member : op ∈ start.tree.ops) :
    (∃ error, now.functionBody op = .error error ∧ start.functionBody op = .error error) ∨
      ∃ block wide body, now.functionBody op = .ok (block, wide) ∧ start.functionBody op = .ok (block, body) ∧
        .block block ∈ start.tree.parts := by
  unfold Program.functionBody Program.entryOf? Regions.entryBlock?
  rcases narrows.getElem?_regions member 0 with ⟨isNone, wasNone⟩ | ⟨wider, blocks, isWide, isRegion, same⟩
  · rw [isNone, wasNone]
    exact .inl ⟨_, rfl, rfl⟩
  rw [isWide, isRegion, Option.bind_some, Option.bind_some]
  rcases same.entryBlock? with ⟨isNone, wasNone⟩ | ⟨block, wide, body, isWide, isEntry, inTree⟩
  · rw [isNone, wasNone]
    exact .inl ⟨_, rfl, rfl⟩
  · rw [isWide, isEntry]
    exact .inr ⟨block, wide, body, rfl, rfl, inTree⟩

theorem verifyFunc_eq (symbols : SymbolTable) (member : op ∈ start.tree.ops) (tight : ¬start.Loose op)
    (kind : FuncKind) : now.verifyFunc symbols op kind = start.verifyFunc symbols op kind := by
  have alike := narrows.alike member tight
  cases kind with
  | ret => exact narrows.expectParent_eq member _ _
  | call =>
    simp only [Program.verifyFunc, alike.attributes_eq, alike.typedOperands_eq, alike.typedResults_eq]
  | func =>
    simp only [Program.verifyFunc]
    rcases narrows.functionBody_cases member with ⟨error, isError, wasError⟩ | ⟨_, wide, body, isBody, wasBody, -⟩
    · rw [isError, wasError]
      rfl
    rw [isBody, wasBody, ok_bind, ok_bind]
    rcases narrows.getElem?_regions member 0 with ⟨isNone, wasNone⟩ | ⟨wider, blocks, isWide, isRegion, same⟩
    · rw [isNone, wasNone]
      rfl
    rw [isWide, isRegion, narrows.terminatorOf?_eq same rfl]
    cases found : start.terminatorOf? (some blocks) (.func .ret) with
    | none => rfl
    | some last =>
      have ends := narrows.alike_terminator same rfl found
      simp only [ends.typedOperands_eq, alike.typedResults_eq]

theorem yieldedTypes_eq {wider blocks : Blocks} (same : start.SameRegion now wider blocks) :
    now.yieldedTypes wider = start.yieldedTypes blocks := by
  unfold Program.yieldedTypes
  rw [narrows.terminatorOf?_eq same rfl]
  cases found : start.terminatorOf? (some blocks) (.scf .yield) with
  | none => rfl
  | some last => exact (narrows.alike_terminator same rfl found).typedOperands_eq

theorem verifyFor_eq (member : op ∈ start.tree.ops) (tight : ¬start.Loose op) :
    now.verifyFor op = start.verifyFor op := by
  have alike := narrows.alike member tight
  unfold Program.verifyFor
  simp only [alike.typedOperands_eq, alike.typedResults_eq]
  rcases narrows.getElem?_regions member 0 with ⟨isNone, wasNone⟩ | ⟨wider, blocks, isWide, isRegion, same⟩
  · simp only [isNone, wasNone]
  simp only [isWide, isRegion, narrows.yieldedTypes_eq same]
  rcases same.entryBlock? with ⟨isNone, wasNone⟩ | ⟨block, wide, body, isWide, isEntry, inTree⟩
  · simp only [isNone, wasNone]
  · simp only [isWide, isEntry, narrows.typedArguments_eq inTree]

theorem verifyChoice_eq (member : op ∈ start.tree.ops) (tight : ¬start.Loose op) :
    now.verifyChoice op = start.verifyChoice op := by
  have alike := narrows.alike member tight
  have regions := narrows.regions member
  unfold Program.verifyChoice
  simp only [alike.typedOperands_eq, alike.typedResults_eq, regions.length_eq]
  refine bind_congr fun types => ?_
  split
  · rfl
  split
  · rfl
  refine bind_congr fun results => bind_congr_left (forIn_congr regions ?_ _) _
  intro wider blocks same
  rw [same.padded.isEmpty_heads, narrows.yieldedTypes_eq same]

theorem verifyScf_eq (member : op ∈ start.tree.ops) (tight : ¬start.Loose op) (kind : ScfKind) :
    now.verifyScf op kind = start.verifyScf op kind := by
  cases kind with
  | forLoop => exact narrows.verifyFor_eq member tight
  | ifElse => exact narrows.verifyChoice_eq member tight
  | yield => exact narrows.expectParent_eq member _ _

omit narrows in
/-- Values of the same types fit the same types. -/
theorem checkForwarded_eq {values others : List ValueId}
    (same : List.Forall₂ (fun value other => now.typed value = start.typed other) values others)
    (what : String) (expected : List Ty) :
    now.checkForwarded what values expected = start.checkForwarded what others expected := by
  unfold Program.checkForwarded
  rw [same.length_eq]
  split
  · rfl
  refine bind_congr_left (forIn_congr (forall₂_zipIdx_zip same expected 0) ?_ _) _
  rintro ⟨⟨value, wanted⟩, index⟩ ⟨⟨other, _⟩, _⟩ ⟨typed, rfl, rfl⟩
  dsimp only
  rw [typed]

omit narrows in
theorem head_torchTypeOf?_eq {values others : List ValueId}
    (same : List.Forall₂ (fun value other => now.typed value = start.typed other) values others) :
    values.head?.bind now.torchTypeOf? = others.head?.bind start.torchTypeOf? := by
  cases same with
  | nil => rfl
  | cons typed => exact Program.torchTypeOf?_congr typed

theorem verifyBranch_eq (member : op ∈ start.tree.ops) (tight : ¬start.Loose op) :
    now.verifyBranch op = start.verifyBranch op := by
  have alike := narrows.alike member tight
  have regions := narrows.regions member
  unfold Program.verifyBranch
  simp only [alike.operandType_eq, alike.typedResults_eq, regions.length_eq]
  refine bind_congr fun condition => ?_
  split
  · rfl
  split
  · rfl
  refine bind_congr fun results => bind_congr_left (forIn_congr (forall₂_zip_zip (List.forall₂_same.mpr fun _ _ => rfl) regions) ?_ _) _
  rintro ⟨what, wider⟩ ⟨_, blocks⟩ ⟨rfl, same⟩
  funext _
  dsimp only
  rw [narrows.terminatorOf?_eq same rfl]
  cases found : start.terminatorOf? (some blocks) (.torch .primIfYield) with
  | none => rfl
  | some last => 
    have ends := narrows.alike_terminator same rfl found
    simp only [checkForwarded_eq ends.forall₂_operands]

theorem verifyLoop_eq (member : op ∈ start.tree.ops) (tight : ¬start.Loose op) :
    now.verifyLoop op = start.verifyLoop op := by
  have alike := narrows.alike member tight
  -- Check by check, each reads types that are the same in both programs.
  unfold Program.verifyLoop
  simp only [alike.operandType_eq, alike.typedResults_eq,
    checkForwarded_eq (List.forall₂_drop 2 alike.forall₂_operands)]
  refine bind_congr fun trips => bind_congr fun initial => ?_
  split
  · rfl
  refine bind_congr fun results => bind_congr fun _ => ?_
  rcases narrows.getElem?_regions member 0 with ⟨isNone, wasNone⟩ | ⟨wider, blocks, isWide, isRegion, same⟩
  · rw [isNone, wasNone]
  rw [isWide, isRegion]
  dsimp only
  rcases same.entryBlock? with ⟨isNone, wasNone⟩ | ⟨block, wide, body, isWide, isEntry, inTree⟩
  · rw [isNone, wasNone]
  rw [isWide, isEntry]
  dsimp only
  have arguments := narrows.forall₂_arguments inTree
  rw [arguments.length_eq, head_torchTypeOf?_eq arguments, narrows.terminatorOf?_eq same rfl]
  split
  · rfl
  split
  · rfl
  refine bind_congr_both
    (forIn_congr (forall₂_zipIdx_zip (List.forall₂_drop 1 arguments) results 0) ?_ _) fun _ => ?_
  · rintro ⟨⟨argument, expected⟩, index⟩ ⟨⟨other, _⟩, _⟩ ⟨typed, rfl, rfl⟩
    dsimp only
    rw [typed]
  cases found : start.terminatorOf? (some blocks) (.torch .primLoopCondition) with
  | none => rfl
  | some last =>
    have ends := (narrows.alike_terminator same rfl found).forall₂_operands
    simp only [head_torchTypeOf?_eq ends, checkForwarded_eq (List.forall₂_drop 1 ends)]

theorem verifyTorchControl_eq (member : op ∈ start.tree.ops) (tight : ¬start.Loose op) (kind : TorchKind) :
    now.verifyTorchControl op kind = start.verifyTorchControl op kind := by
  unfold Program.verifyTorchControl
  split
  · exact narrows.verifyBranch_eq member tight
  · exact narrows.expectParent_eq member _ _
  · exact narrows.verifyLoop_eq member tight
  · exact narrows.expectParent_eq member _ _
  · rfl

/-! ### Symbols -/

/-- What is gathered from the operations directly inside one is the same if nothing comes from casts. -/
theorem foldlM_membersOf (member : op ∈ start.tree.ops) {step stepOld : σ → OpId → Except Error σ}
    (same : ∀ state, ∀ inner ∈ start.tree.ops, step state inner = stepOld state inner)
    (skips : ∀ state cast, now.kind cast = .torch .tensorStaticInfoCast → step state cast = .ok state)
    (state : σ) : (now.membersOf op).foldlM step state = (start.membersOf op).foldlM stepOld state := by
  obtain ⟨padded, inside, insideNow⟩ := narrows.regionsOf_padded member
  have heads : (now.membersOf op).filter (fun head => decide (head.index < start.operations.size)) =
      start.membersOf op := by
    refine padded.filter_heads (fun head among => ?_) fun head isCast => ?_
    · simpa using narrows.below (Body.op_mem_parts.mp (inside _ (Regions.op_of_heads _ among)))
    · simpa using isCast.1
  rw [← heads]
  refine foldlM_filter (fun state head among kept => ?_) (fun state head among dropped => ?_) state
  all_goals have isNow := Body.op_mem_parts.mp (insideNow _ (Regions.op_of_heads _ among))
  · refine same state head ((narrows.mem_or_newCast isNow).resolve_right fun isCast => ?_)
    exact absurd (of_decide_eq_true kept) (Nat.not_lt.mpr isCast.1)
  · refine skips state head ((narrows.mem_or_newCast isNow).resolve_left fun isOld => ?_).2
    exact absurd (narrows.below isOld) (of_decide_eq_false dropped)

theorem addMember_eq (layout : ClassLayout) (member : op ∈ start.tree.ops) :
    now.addMember layout op = start.addMember layout op := by
  simp only [Program.addMember, Program.declaredType, Program.stringOf, Program.symbolOf, Program.isPrivate,
    narrows.kind_eq member, narrows.attributes_eq member]

theorem classLayout_eq (member : op ∈ start.tree.ops) : now.classLayout op = start.classLayout op := by
  rw [Program.classLayout, Program.classLayout, Program.symbolOf, Program.symbolOf,
    narrows.attributes_eq member]
  refine narrows.foldlM_membersOf member (fun layout inner => narrows.addMember_eq layout)
    (fun layout cast isCast => ?_) _
  rw [Program.addMember, isCast]

theorem signature_eq (member : op ∈ start.tree.ops) (tight : ¬start.Loose op) :
    now.signature op = start.signature op := by
  have alike := narrows.alike member tight
  unfold Program.signature
  rw [alike.typedResults_eq]
  rcases narrows.functionBody_cases member with ⟨error, isError, wasError⟩ | ⟨block, wide, body, isBody, wasBody, inTree⟩
  · rw [isError, wasError]
    rfl
  · rw [isBody, wasBody]
    simp only [bind, Except.bind, narrows.typedArguments_eq inTree]

theorem addSymbol_eq (symbols : SymbolTable) (member : op ∈ start.tree.ops) :
    now.addSymbol symbols op = start.addSymbol symbols op := by
  unfold Program.addSymbol
  rw [narrows.kind_eq member]
  split
  case h_1 isKind =>
    have tight : ¬start.Loose op := by
      rw [Program.Loose, isKind]
      exact Bool.false_ne_true
    rw [narrows.signature_eq member tight, Program.functionName?, Program.functionName?,
      narrows.attributes_eq member]
  case h_2 => rw [narrows.classLayout_eq member]
  case h_3 =>
    rw [Program.declaredType, Program.declaredType, Program.symbolOf, Program.symbolOf,
      narrows.attributes_eq member]
  case h_4 => rfl

/-- The symbols are the same. -/
theorem symbolTable_eq : now.symbolTable = start.symbolTable := by
  have topLevel (program : Program) : program.topLevel = program.membersOf program.root := by
    rw [Program.topLevel, Program.membersOf, Program.regionsOf, if_pos rfl]
  rw [Program.symbolTable, Program.symbolTable, topLevel, topLevel, narrows.root_eq]
  refine narrows.foldlM_membersOf List.mem_cons_self (fun symbols inner => narrows.addSymbol_eq symbols)
    (fun symbols cast isCast => ?_) _
  rw [Program.addSymbol, isCast]
  rfl

end Program.NarrowsTo

end TensorIR
