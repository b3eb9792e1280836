import TensorIR.Proofs.Scalar.Branching
import TensorIR.Proofs.Scalar.Positions

/-!
# The head of a new loop

A loop of a lowered program counts positions from zero up to the number of rounds. That number becomes
a constant position if it is known, and is converted otherwise.

## Main definitions

* `Draft.PlacesLoop` — a draft with a new loop and the operations in front that it needs

## Main results

* `of_loopHead_eq_ok` — what is built for a loop
* `Draft.PlacesLoop.through` — what is known behind the operations in front of the loop
-/

namespace TensorIR

variable {program after : Program} {start final : Draft} {op new : OpId}

/-- An operation converts the number of rounds to a position. -/
def Program.IsRoundCast (program : Program) (op : OpId) (rounds value : ValueId) : Prop :=
  program.Defines op (.arith .indexCast) [rounds] .empty [value] [.scalar .index]

/-- A value is the number of rounds of a loop as a position, or none if the number is negative. -/
structure Draft.HasTripCount (start : Draft) (op : OpId) (rounds upper : ValueId) (final : Draft) :
    Prop where
  positioned : final.Positioned
  reached : start.program.Extends OpKind.IsTarget final.program
  anchor : final.anchor = start.anchor
  placement : final.placement = start.placement
  casts : ∀ id ∈ final.code.heads, ∃ value, final.program.IsRoundCast id rounds value
  upper : (∃ known, start.program.foldInt? rounds = some known ∧ (max known 0, upper) ∈ final.indices) ∨
    ∃ id ∈ final.code.heads, final.program.IsRoundCast id rounds upper

theorem of_tripCount_eq_ok {upper : ValueId} (positioned : start.Positioned)
    (placed : start.anchor ≠ start.program.root) (empty : start.code = .nil)
    (run : (Change.tripCount op).run start = (.ok upper, final)) :
    ∃ rounds, start.program.operand op 0 = .ok rounds ∧ start.HasTripCount op rounds upper final := by
  unfold Change.tripCount at run
  obtain ⟨rounds, isRounds, others⟩ := Build.of_askFor_bind_eq_ok run
  refine ⟨rounds, isRounds, ?_⟩
  rw [run_bind, Build.run_ask] at others
  simp only [] at others
  -- A known number of rounds becomes a constant, and any other one is converted.
  cases isKnown : start.program.foldInt? rounds with
  | some known =>
    rw [isKnown] at others
    obtain ⟨value, found, built, reaches, isIndex⟩ := positioned_index positioned (max known 0) placed
    obtain ⟨same, rfl⟩ := Prod.mk.inj (built.symm.trans others)
    cases same
    refine ⟨reaches.positioned, reaches.extends_program, reaches.anchor, reaches.placement, ?_,
      .inl ⟨known, isKnown, isIndex⟩⟩
    rw [reaches.code, empty]
    nofun
  | none =>
    rw [isKnown] at others
    obtain ⟨found, built, adds⟩ :=
      adds_value (.arith .indexCast) [rounds] (.scalar .index) .empty placed
    obtain ⟨same, rfl⟩ := Prod.mk.inj (built.symm.trans others)
    cases same
    have isCast : found.program.IsRoundCast ⟨start.program.operations.size⟩ rounds
        ⟨start.program.values.size⟩ := adds.defines
    have reached := adds.reached OpKind.isTarget_arith
    have code : found.code.heads = [⟨start.program.operations.size⟩] := by
      rw [adds.code, empty]
      rfl
    refine ⟨positioned.grow reached adds.hoisted adds.lead adds.indices adds.started, reached,
      adds.anchor, adds.placement, ?_, .inr ⟨_, code ▸ List.mem_singleton_self _, isCast⟩⟩
    rw [code]
    intro id member
    obtain rfl := List.mem_singleton.mp member
    exact ⟨_, isCast⟩

/-- A new loop stands before an operation, and in front of it those that compute its positions. -/
structure Draft.PlacesLoop (program : Program) (op : OpId) (rounds : ValueId) (types : List Ty)
    (front : Body) (new : OpId) (final : Draft) : Prop where
  change_eq : ∀ regions rest,
    final.change regions rest = front.append (.cons new .nil (.cons op regions rest))
  heads : ∀ id ∈ front.heads, (∃ position value, final.program.IsPosition id position value) ∨
    ∃ value, final.program.IsRoundCast id rounds value
  defines : ∃ lower upper step, (∃ id ∈ front.heads, final.program.IsPosition id 0 lower) ∧
    (∃ id ∈ front.heads, final.program.IsPosition id 1 step) ∧
    ((∃ known, program.foldInt? rounds = some known ∧
        ∃ id ∈ front.heads, final.program.IsPosition id (max known 0) upper) ∨
      ∃ id ∈ front.heads, final.program.IsRoundCast id rounds upper) ∧
    final.program.Defines new (.scf .forLoop)
      ([lower, upper, step] ++ (program.operands op).drop 2) .empty (final.program.results new) types
  isNew : program.operations.size ≤ new.index
  built : ∀ part ∈ front.parts, part ∈ final.built

/-- The head of a new loop. -/
abbrev buildLoop (op : OpId) (types : List Ty) : Build OpId := do
  let upper ← Change.tripCount op
  let lower ← Build.index 0
  let step ← Build.index 1
  let initial ← Build.ask fun program => (program.operands op).drop 2
  Build.create (.scf .forLoop) ([lower, upper, step] ++ initial) types

/-- The steps of building the head of a loop. -/
theorem of_loopHead_steps {types : List Ty} (notRoot : op ≠ program.root)
    (run : (buildLoop op types).run (program.draft op .before) = (.ok new, final)) :
    ∃ rounds upper lower step counted built, program.operand op 0 = .ok rounds ∧
      (program.draft op .before).HasTripCount op rounds upper counted ∧ counted.Reaches built ∧
      (0, lower) ∈ built.indices ∧ (1, step) ∈ built.indices ∧
      new = ⟨built.program.operations.size⟩ ∧ built.Adds (.scf .forLoop)
        ([lower, upper, step] ++ (built.program.operands op).drop 2) .empty types final := by
  obtain ⟨upper, first, counted, others⟩ := of_run_bind_eq_ok run
  obtain ⟨rounds, isRounds, trip⟩ :=
    of_tripCount_eq_ok (positioned_draft program op .before) notRoot rfl counted
  have placed : first.anchor ≠ first.program.root := by
    rw [trip.anchor, trip.reached.root]
    exact notRoot
  obtain ⟨lower, second, isLower, toSecond, lowerIndex⟩ := positioned_index trip.positioned 0 placed
  rw [run_bind, isLower] at others
  simp only [] at others
  have placedSecond : second.anchor ≠ second.program.root := by
    rw [toSecond.anchor, toSecond.extends_program.root]
    exact placed
  obtain ⟨step, third, isStep, toThird, stepIndex⟩ := positioned_index toSecond.positioned 1 placedSecond
  rw [run_bind, isStep] at others
  simp only [] at others
  rw [run_bind, Build.run_ask] at others
  simp only [] at others
  have placedThird : third.anchor ≠ third.program.root := by
    rw [toThird.anchor, toThird.extends_program.root]
    exact placedSecond
  obtain ⟨last, created, adds⟩ := adds_create (.scf .forLoop)
    ([lower, upper, step] ++ (third.program.operands op).drop 2) types .empty placedThird
  obtain ⟨isNew, rfl⟩ := Prod.mk.inj (created.symm.trans others)
  cases isNew
  exact ⟨rounds, upper, lower, step, first, third, isRounds, trip, toSecond.trans toThird,
    toThird.indices _ lowerIndex, stepIndex, rfl, adds⟩

/-- A loop that has been built on its positions stands behind what computes them. -/
theorem placesLoop_of_adds {rounds upper lower step : ValueId} {types : List Ty} {counted built : Draft}
    (inside : op.index < program.operations.size)
    (trip : (program.draft op .before).HasTripCount op rounds upper counted)
    (reaches : counted.Reaches built) (isLower : (0, lower) ∈ built.indices)
    (isStep : (1, step) ∈ built.indices)
    (adds : built.Adds (.scf .forLoop) ([lower, upper, step] ++ (built.program.operands op).drop 2) .empty
      types final) :
    Draft.PlacesLoop program op rounds types ((built.hoisted.append built.lead).append counted.code)
      ⟨built.program.operations.size⟩ final := by
  have toLast := adds.reached OpKind.isTarget_scf
  have stillPosition {position : Int} {value : ValueId} (member : (position, value) ∈ built.indices) :
      ∃ id ∈ ((built.hoisted.append built.lead).append counted.code).heads,
        final.program.IsPosition id position value := by
    obtain ⟨id, among, isPosition⟩ := reaches.positioned.indices position value member
    exact ⟨id, by rw [Body.heads_append]; exact List.mem_append_left _ among, isPosition.extend toLast⟩
  have castsAfter {id : OpId} {value : ValueId} (isCast : counted.program.IsRoundCast id rounds value) :
      final.program.IsRoundCast id rounds value :=
    Program.Defines.extend isCast (reaches.extends_program.trans toLast)
  have isOperands : (built.program.operands op).drop 2 = (program.operands op).drop 2 :=
    congrArg (fun operation : Operation => operation.operands.drop 2)
      ((trip.reached.trans reaches.extends_program).operation_eq op inside)
  constructor
  case change_eq =>
    intro regions rest
    have placement : final.placement = .before :=
      adds.placement.trans (reaches.placement.trans trip.placement)
    have anchor : final.anchor = op := adds.anchor.trans (reaches.anchor.trans trip.anchor)
    rw [Draft.change, placement, anchor, adds.hoisted, adds.lead, adds.code, reaches.code]
    simp only [Body.append_assoc, Body.single, Body.append]
  case heads =>
    intro id member
    rw [Body.heads_append, List.mem_append] at member
    rcases member with position | cast
    · obtain ⟨position, value, isPosition⟩ := reaches.positioned.heads id position
      exact .inl ⟨position, value, isPosition.extend toLast⟩
    · obtain ⟨value, isCast⟩ := trip.casts id cast
      exact .inr ⟨value, castsAfter isCast⟩
  case defines =>
    refine ⟨lower, upper, step, stillPosition isLower, stillPosition isStep, ?_, ?_⟩
    · rcases trip.upper with ⟨known, isKnown, member⟩ | ⟨id, member, isCast⟩
      · exact .inl ⟨known, isKnown, stillPosition (reaches.indices _ member)⟩
      · exact .inr ⟨id, by rw [Body.heads_append]; exact List.mem_append_right _ member,
          castsAfter isCast⟩
    · rw [← isOperands, adds.defines.results_eq]
      exact adds.defines
  case isNew => exact (trip.reached.trans reaches.extends_program).operations_le
  case built =>
    intro part member
    rw [Draft.built, adds.hoisted, adds.lead, adds.code, reaches.code]
    simp only [Body.parts_append, List.mem_append] at member ⊢
    tauto

/-- What is built for a loop. -/
theorem of_loopHead_eq_ok {types : List Ty} (inside : op.index < program.operations.size)
    (notRoot : op ≠ program.root)
    (run : (buildLoop op types).run (program.draft op .before) = (.ok new, final)) :
    ∃ rounds front, program.operand op 0 = .ok rounds ∧
      Draft.PlacesLoop program op rounds types front new final := by
  obtain ⟨rounds, upper, lower, step, counted, built, isRounds, trip, reaches, isLower, isStep, rfl, adds⟩ :=
    of_loopHead_steps notRoot run
  exact ⟨rounds, _, isRounds, placesLoop_of_adds inside trip reaches isLower isStep adds⟩

/-- The rounds of a loop that counts positions from zero. -/
theorem Run.rounds_zero_one (last : Int) : Run.rounds 0 last 1 = last.toNat := by
  simp [Run.rounds]

section Through

variable {environment image : Environment} {count : Int}

/-- The position that a new operation in front of a loop computes: that of a constant, or the number of
rounds. -/
def Program.positionAt (program : Program) (count : Int) (value : ValueId) : Atom :=
  .index (((program.definingOp? value).bind fun op =>
    (program.attributes op).int? "value").getD count)

theorem Program.IsPosition.positionAt_eq {position : Int} {value : ValueId}
    (isPosition : program.IsPosition op position value)
    (origin : (program.value value).origin = .result op) (count : Int) :
    program.positionAt count value = .index position := by
  have same : program.attributes op = Build.constantAttributes (some (.int position)) :=
    isPosition.attributes_eq
  simp [Program.positionAt, Program.definingOp?, origin, same, int?_constantAttributes]

theorem Program.IsRoundCast.positionAt_eq {rounds value : ValueId}
    (isCast : program.IsRoundCast op rounds value)
    (origin : (program.value value).origin = .result op) (count : Int) :
    program.positionAt count value = .index count := by
  have same : program.attributes op = .empty := isCast.attributes_eq
  simp [Program.positionAt, Program.definingOp?, origin, same]
  rfl

variable {rounds : ValueId} {types : List Ty} {front : Body}

/-- The operations in front of a loop, and the loop, are afterwards what they have been built as. -/
def Program.KeepsBuilt (built after : Program) (front : Body) (new : OpId) : Prop :=
  ∀ id kind operands attributes values types, id ∈ front.heads ∨ id = new →
    built.Defines id kind operands attributes values types → kind ≠ .func .func →
    after.Defines id kind operands attributes values types

section Front

variable (keeps : final.program.KeepsBuilt after front new)
  (fresh : ∀ id ∈ front.heads, Program.AreFresh program after (.result id) (after.results id))
  {id : OpId} {value : ValueId} (member : id ∈ front.heads)
include keeps fresh member

theorem Program.IsPosition.after_front {place : Int} (isPosition : final.program.IsPosition id place value)
    (count : Int) : after.IsPosition id place value ∧ value ∈ after.results id ∧
      after.positionAt count value = .index place := by
  have isAfter : after.IsPosition id place value := keeps _ _ _ _ _ _ (.inl member) isPosition nofun
  have among : value ∈ after.results id := isAfter.results_eq ▸ List.mem_singleton_self value
  exact ⟨isAfter, among, isAfter.positionAt_eq ((fresh id member).origin_eq value among) count⟩

theorem Program.IsRoundCast.after_front (isCast : final.program.IsRoundCast id rounds value) (count : Int) :
    after.IsRoundCast id rounds value ∧ value ∈ after.results id ∧ after.positionAt count value = .index count := by
  have isAfter : after.IsRoundCast id rounds value := keeps _ _ _ _ _ _ (.inl member) isCast nofun
  have among : value ∈ after.results id := isAfter.results_eq ▸ List.mem_singleton_self value
  exact ⟨isAfter, among, isAfter.positionAt_eq ((fresh id member).origin_eq value among) count⟩

/-- Each operation in front of a loop computes one new position. -/
theorem Draft.PlacesLoop.exists_computesFresh (places : Draft.PlacesLoop program op rounds types front new final)
    (isCount : environment rounds = some (.int count)) :
    ∃ value, after.ComputesFresh program.values.size environment id value (after.positionAt count value) := by
  rcases places.heads id member with ⟨place, value, isPosition⟩ | ⟨value, isCast⟩
  · obtain ⟨isAfter, among, isTarget⟩ := isPosition.after_front keeps fresh member count
    refine ⟨value, ?_⟩
    rw [isTarget]
    exact isAfter.computesFresh environment ((fresh id member).new value among)
  · obtain ⟨isAfter, among, isTarget⟩ := isCast.after_front keeps fresh member count
    refine ⟨value, ?_⟩
    rw [isTarget]
    exact Program.Defines.castFresh isAfter isCount ((fresh id member).new value among)

end Front

/-- Behind the operations in front of a loop, its positions are known. -/
theorem Draft.PlacesLoop.through (places : Draft.PlacesLoop program op rounds types front new final)
    (keeps : final.program.KeepsBuilt after front new)
    (fresh : ∀ id ∈ front.heads, Program.AreFresh program after (.result id) (after.results id))
    (below : ∀ value atom, environment value = some atom → value.index < program.values.size)
    (carries : ∀ value atom, environment value = some atom → image value = some atom)
    (isCount : environment rounds = some (.int count))
    (agrees : ∀ known, program.foldInt? rounds = some known → known = count) :
    ∃ ready lower upper step last, front.through after image = some ready ∧
      (∀ value atom, environment value = some atom → ready value = some atom) ∧
      ready lower = some (.index 0) ∧ ready upper = some (.index last) ∧
      ready step = some (.index 1) ∧ Run.rounds 0 last 1 = count.toNat ∧
      after.Defines new (.scf .forLoop) ([lower, upper, step] ++ (program.operands op).drop 2) .empty
        (final.program.results new) types := by
  obtain ⟨ready, through, carriesReady, targets, -⟩ := Body.through_fresh below front
    (fun id member => places.exists_computesFresh keeps fresh member isCount) image carries
  obtain ⟨lower, upper, step, ⟨lowerId, lowerIn, isLower⟩, ⟨stepId, stepIn, isStep⟩, isUpper, defines⟩ :=
    places.defines
  have known {id : OpId} {place : Int} {value : ValueId} (member : id ∈ front.heads)
      (isPosition : final.program.IsPosition id place value) : ready value = some (.index place) := by
    obtain ⟨-, among, isTarget⟩ := isPosition.after_front keeps fresh member count
    rw [targets id member value among, isTarget]
  have loop := keeps _ _ _ _ _ _ (.inr rfl) defines nofun
  -- The last position is a constant where the number of rounds is known, and zero for a negative number.
  rcases isUpper with ⟨fixed, isFixed, id, member, isPosition⟩ | ⟨id, member, isCast⟩
  · obtain rfl := agrees fixed isFixed
    refine ⟨ready, lower, upper, step, max fixed 0, through, carriesReady, known lowerIn isLower,
      known member isPosition, known stepIn isStep, ?_, loop⟩
    rw [Run.rounds_zero_one]
    omega
  · obtain ⟨-, among, isTarget⟩ := isCast.after_front keeps fresh member count
    refine ⟨ready, lower, upper, step, count, through, carriesReady, known lowerIn isLower, ?_,
      known stepIn isStep, Run.rounds_zero_one count, loop⟩
    rw [targets id member upper among, isTarget]

end Through

end TensorIR
