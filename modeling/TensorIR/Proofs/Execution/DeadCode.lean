import TensorIR.Proofs.Success
import TensorIR.Proofs.Execution.Following

/-!
# Dropping what is not used

An operation without effects whose results are not used may be taken out of a valid program. In a run
of the program the results are in the frame of the function, but nothing that the run comes to reads
them: what uses a result would stand behind the operation, where the search for uses looks. The values
left are the same, and so are the contents of all buffers but new ones that only the results refer to.

## Main definitions

* `Program.Droppable` — operations may be dropped from the program

## Main results

* `Program.replaces_of_dropDead` — dropping an operation puts nothing in its place
* `Program.Droppable.dropDead` — one step
* `exists_dropDead_refines` — dropping as much as possible
-/

namespace TensorIR

/-! ### Operations without effects -/

section Pure

variable {tracking : Tracking} {links : Links} {program other : Program} {op : OpId}
  {machine image after : Machine} {slots : List Slot}

/-- A new buffer that the other run does not have. -/
theorem Links.Hold.push_left {memory imageMemory : Array Grid} (holds : links.Hold memory imageMemory)
    (grid : Grid) : links.Hold (memory.push grid) imageMemory where
  left place stands linked := by
    rw [Array.size_push]
    exact Nat.lt_succ_of_lt (holds.left place stands linked)
  right := holds.right
  contents place stands linked := by
    have left := holds.left place stands linked
    have same := holds.contents place stands linked
    simp only [Array.getD_eq_getD_getElem?, Array.getElem?_push, left.ne, if_false] at same ⊢
    exact same
  functional := holds.functional
  injective := holds.injective

/-- Only a new buffer comes into memory. -/
theorem Run.of_alloc_eq_ok
    (run : (Run.memrefOp program op .alloc).run machine = .ok (slots, after)) :
    ∃ grid, after = { machine with memory := machine.memory.push grid } := by
  obtain ⟨result, middle, found, later⟩ := Run.run_bind_eq_ok run
  obtain ⟨-, rfl⟩ := Run.run_lift_eq_ok found
  obtain ⟨type, last, typed, allocated⟩ := Run.run_bind_eq_ok later
  obtain ⟨-, rfl⟩ := Run.run_lift_eq_ok typed
  split at allocated
  · obtain ⟨_, _, ⟨⟩, ⟨⟩⟩ := Run.run_bind_eq_ok allocated
    exact ⟨_, rfl⟩
  · cases allocated

/-- After an operation without effects, the values are followed in the same state of the other run. -/
theorem Tracking.Holds.of_pure (holds : tracking.Holds links machine image)
    (copies : program.Copies tracking other op) (isPure : (program.kind op).isPure = true)
    (run : (Run.plainOp program op).run machine = .ok (slots, after)) :
    tracking.Holds links after image := by
  have computed {slot : Slot} {final : Machine}
      (ran : (Run.scalarOp program op).run machine = .ok (slot, final)) : final = machine :=
    (agrees_scalarOp holds copies slot final ran).1
  unfold Run.plainOp at run
  cases kind : program.kind op with
  | tosa name =>
    rw [kind] at run
    obtain ⟨contents, middle, ran, ⟨⟩⟩ := Run.run_bind_eq_ok run
    obtain ⟨rfl, -⟩ := agrees_tosaOp holds copies name contents _ ran
    exact holds
  | memref name =>
    rw [kind] at run isPure
    cases name with
    | load =>
      obtain ⟨rfl, -⟩ := agrees_loadOp holds copies slots after run
      exact holds
    | store => cases isPure
    | alloc =>
      obtain ⟨grid, rfl⟩ := Run.of_alloc_eq_ok run
      exact { holds with memory := holds.memory.push_left grid }
  | _ =>
    rw [kind] at run
    obtain ⟨slot, middle, ran, ⟨⟩⟩ := Run.run_bind_eq_ok run
    exact computed ran ▸ holds

/-- Values that the other run need not have are written. -/
theorem Tracking.Holds.write_dead (holds : tracking.Holds links machine image) {value : ValueId}
    {slot : Slot} (inside : tracking.inside value) (dead : tracking.dead value)
    (known : tracking.known value slot) :
    tracking.Holds links
      { machine with frame := machine.frame.setIfInBounds value.index (some slot) } image where
  memory := holds.memory
  inside item found isFound := by
    rcases getD_setIfInBounds_eq_some isFound with ⟨rfl, -⟩ | ⟨-, before⟩
    · exact inside
    · exact holds.inside item found before
  known item found isFound := by
    rcases getD_setIfInBounds_eq_some isFound with ⟨rfl, rfl⟩ | ⟨-, before⟩
    · exact known
    · exact holds.known item found before
  found item found isFound alive := by
    rcases getD_setIfInBounds_eq_some isFound with ⟨rfl, -⟩ | ⟨-, before⟩
    · exact absurd dead alive
    · exact holds.found item found before alive
  size_eq := holds.size_eq

theorem Tracking.Holds.writeEach_dead {values : List ValueId}
    (holds : tracking.Holds links machine image)
    (each : ∀ value ∈ values, tracking.inside value ∧ tracking.dead value ∧
      ∀ slot, tracking.known value slot)
    (run : (Run.writeEach values slots).run machine = .ok ((), after)) :
    tracking.Holds links after image := by
  induction values generalizing slots machine with
  | nil =>
    cases run
    exact holds
  | cons value values ih =>
    cases slots with
    | nil =>
      cases run
      exact holds
    | cons slot slots =>
      rw [Run.run_writeEach_cons] at run
      obtain ⟨inside, dead, known⟩ := each value List.mem_cons_self
      exact ih (holds.write_dead inside dead (known slot))
        (fun other member => each other (List.mem_cons_of_mem _ member)) run

/-- A block goes on without an operation that has no effects, if its results are dead. -/
theorem Tracking.followsAt_dead {call otherCall : Caller} (copies : program.Copies tracking other op)
    (isPure : (program.kind op).isPure = true)
    (dead : ∀ result ∈ program.results op, tracking.inside result ∧ tracking.dead result ∧
      ∀ slot, tracking.known result slot) :
    tracking.FollowsAt program other call otherCall op (Body.inFront .nil) := by
  intro regions rest later links machine image value after holds run
  have goesOn := (OpKind.of_isPure isPure).1
  rw [Body.run_cons call regions rest goesOn] at run
  obtain ⟨slots, middle, ran, run⟩ := Run.run_bind_eq_ok run
  obtain ⟨⟨⟩, last, written, run⟩ := Run.run_bind_eq_ok run
  have plain : (Run.plainOp program op).run machine = .ok (slots, middle) := by
    unfold Run.inner at ran
    cases kind : program.kind op with
    | scf | func => rw [kind] at isPure; cases isPure
    | _ => rwa [kind] at ran
  exact later links last image value after
    ((holds.of_pure copies isPure plain).writeEach_dead dead written) run

end Pure

/-! ### Dropping an operation -/

section Dropping

variable {program after : Program} {visit : Visit}

/-- Dropping an operation whose results are not used puts nothing in its place. -/
theorem Program.replaces_of_erase (formed : program.WellFormed) (visited : visit ∈ program.visits)
    (notFunction : program.kind visit.op ≠ .func .func)
    (unused : ∀ result ∈ program.results visit.op, program.usesOf result = [])
    (run : (Change.erase visit.op).run program = (.ok (), after)) :
    program.Replaces after visit .nil id fun value => value ∈ program.results visit.op := by
  obtain ⟨operations, values⟩ := tables_erase run
  have evolved : program.Evolves (fun _ => True) after := (evolving_erase visit.op).of_run formed run
  have operation_eq (op : OpId) : after.operation op = program.operation op := by
    rw [Program.operation, operations]
    rfl
  have type_eq (value : ValueId) : after.typeOf? value = program.typeOf? value := by
    rw [Program.typeOf?, Program.value, values]
    rfl
  -- Only the tree changes. Both tables stay as they are.
  refine
    { visited, notFunction
      grown := evolved.toGrows
      formed := evolved.wellFormed formed
      regions := ?_
      front_entries := fun new inside among => absurd among List.not_mem_nil
      results_eq := fun op _ => congrArg Operation.results (operation_eq op)
      operands_eq := fun op _ => ?_
      types_eq := fun value _ => ⟨type_eq value, type_eq value⟩
      image_cases := fun value => .inl rfl
      dead_results := fun value => id
      unused := fun op behind operand isOperand isResult => ?_ }
  · have alters : program.Alters (fun _ => False) visit.op (fun _ rest => rest) after := alters_erase run
    exact alters.regions
  · rw [List.map_id, ite_self]
    exact congrArg Operation.operands (operation_eq op)
  · have none := unused operand isResult
    have owns := (formed.knows _ (Body.op_mem_parts.mpr (Program.mem_ops_of_visits visited))).2 notFunction
    rw [Program.usesOf, formed.scopeOf_result visited (owns.origin_eq operand isResult),
      List.flatMap_eq_nil_iff] at none
    obtain ⟨index, found⟩ := List.getElem?_of_mem isOperand
    have use : (⟨op, index⟩ : Use) ∈ program.usesIn operand op := Program.mem_usesIn.mpr ⟨rfl, found⟩
    rw [none op behind] at use
    cases use

/-- Nothing is closed where the results of an operation are dead. -/
theorem Program.closesAt_nil {parts : List Part} {dead : ValueId → Prop} {op : OpId}
    (isDead : ∀ result ∈ program.results op, dead result) :
    program.ClosesAt after parts id dead op .nil := by
  intro visible shown rest shows closed
  refine closed shown ⟨fun value introduced seen alive => ?_, shows.outside⟩
  rcases seen with isResult | seen
  · exact absurd (isDead value isResult) alive
  · exact shows.inside value introduced seen alive

/-- Dropping an operation without effects whose results are not used keeps the outcomes of calls. -/
theorem Program.Replaces.refines_of_isPure
    (replaces : program.Replaces after visit .nil id fun value => value ∈ program.results visit.op)
    (formed : program.WellFormed) (tabled : program.Tabled) (closed : program.Scoped)
    (isPure : (program.kind visit.op).isPure = true) : program.Refines after := by
  refine replaces.refines (fun _ _ => True) formed tabled closed
    (fun _ _ _ _ _ _ _ _ _ _ => trivial) (fun _ _ _ _ => trivial) ?_
  intro function block body starts member call otherCall _
  have owns := (formed.knows _ (starts.entered_mem _ (.tail _ member))).2 replaces.notFunction
  refine Tracking.followsAt_dead (replaces.copies formed tabled closed starts member replaces.notFunction)
    isPure fun result isResult => ⟨⟨_, .tail _ member, ?_⟩, isResult, fun _ => trivial⟩
  exact ⟨owns.lt result isResult, owns.origin_eq result isResult⟩

/-- Operations without effects whose results are not used may be dropped from the program. -/
structure Program.Droppable (start now : Program) : Prop where
  formed : now.WellFormed
  tabled : now.Tabled
  closed : now.Scoped
  isModule : now.kind now.root = .module
  refines : start.Refines now

theorem Program.Tabled.of_tables (tabled : program.Tabled)
    (operations : after.operations = program.operations) (values : after.values = program.values) :
    after.Tabled := by
  have operation_eq (op : OpId) : after.operation op = program.operation op := by
    rw [Program.operation, operations]
    rfl
  have value_eq (value : ValueId) : after.value value = program.value value := by
    rw [Program.value, values]
    rfl
  refine ⟨fun op operand isOperand => ?_, fun value below op origin => ?_, fun op isFunction value among => ?_⟩
  · rw [values]
    rw [Program.operands, operation_eq] at isOperand
    exact tabled.operands op operand isOperand
  · rw [values] at below
    rw [value_eq] at origin
    rw [operations]
    exact tabled.origins value below op origin
  · rw [Program.kind, operation_eq] at isFunction
    rw [Program.results, operation_eq] at among
    rw [value_eq]
    exact tabled.outputs op isFunction value among

theorem exists_erase_eq_ok (formed : program.WellFormed) (visited : visit ∈ program.visits)
    (notRoot : visit.op ≠ program.root) :
    ∃ after, (Change.erase visit.op).run program = (.ok (), after) := by
  have placed : (Change.expectPlace visit.op "remove").run program = (.ok (), program) := by
    unfold Change.expectPlace
    rw [run_bind, Change.run_program]
    simp only [notRoot, if_false, formed.visit?_eq visited, Option.isNone_some, Bool.false_eq_true]
    rfl
  exact ⟨_, (run_bind_of_ok placed).trans rfl⟩

/-- Without users, no result is used. -/
theorem Program.usesOf_of_usersOf? {op : OpId} (unused : (program.usersOf? op).any List.isEmpty = true) :
    ∀ result ∈ program.results op, program.usesOf result = [] := by
  unfold Program.usersOf? at unused
  dsimp only at unused
  split at unused
  case isTrue => cases unused
  case isFalse =>
    rw [Option.any_some, List.isEmpty_iff, List.flatMap_eq_nil_iff] at unused
    exact unused

/-- One step of dropping what is not used does not fail, and outcomes of calls stay the same. -/
theorem Program.Droppable.dropDead {start : Program} (droppable : start.Droppable program) {op : OpId}
    (member : op ∈ program.tree.ops) :
    ∃ changed after, (Rewrite.dropDead op).run program = (.ok changed, after) ∧
      start.Droppable after := by
  obtain ⟨visit, visited, rfl⟩ := Program.exists_visit member
  unfold Rewrite.dropDead
  rw [run_bind, Change.run_ask]
  dsimp only
  split
  case isFalse => exact ⟨false, program, rfl, droppable⟩
  case isTrue dead =>
    unfold Rewrite.isDead at dead
    obtain ⟨isPure, unused⟩ := Bool.and_eq_true_iff.mp dead
    have notModule := (OpKind.of_isPure isPure).2.1
    have notFunction := (OpKind.of_isPure isPure).2.2
    have notRoot : visit.op ≠ program.root := fun same => notModule (same ▸ droppable.isModule)
    obtain ⟨after, run⟩ := exists_erase_eq_ok droppable.formed visited notRoot
    have replaces := Program.replaces_of_erase droppable.formed visited notFunction
      (Program.usesOf_of_usersOf? unused) run
    obtain ⟨operations, values⟩ := tables_erase run
    refine ⟨true, after, (run_bind_of_ok run).trans rfl, ?_⟩
    exact
      { formed := replaces.formed
        tabled := droppable.tabled.of_tables operations values
        closed := replaces.stays_scoped droppable.formed droppable.tabled droppable.closed
          fun parts => Program.closesAt_nil fun _ => id
        isModule := by
          have known := droppable.formed.knows _ (.head _ : Part.op program.root ∈ program.tree.parts)
          rw [replaces.grown.root, replaces.grown.kind_eq _ known.1]
          exact droppable.isModule
        refines := droppable.refines.trans (replaces.refines_of_isPure droppable.formed droppable.tabled
          droppable.closed isPure) }

/-- Dropping all operations without effects whose results are not used does not fail in a valid module,
and calls that succeed have the same outcomes: what they return, and what their arguments, which may
share buffers, are afterwards. -/
theorem exists_dropDead_refines (formed : program.Formed) (valid : program.verify = .ok ()) :
    ∃ changed after, Change.dropDead.run program = (.ok changed, after) ∧ program.Refines after ∧
      ∀ name arguments outcome, program.run name arguments = .ok outcome →
        after.run name arguments = .ok outcome := by
  have each : RewriteCompletes program.Droppable Rewrite.dropDead :=
    fun op now droppable member => droppable.dropDead member
  have completes : Completes program.Droppable Change.dropDead := by
    refine completes_exhaust (fun rewrite member => ?_) fun rewrite member => ?_
    all_goals cases List.mem_singleton.mp member
    · exact Rewrite.idle_dropDead
    · exact each
  obtain ⟨changed, after, run, droppable⟩ := completes program
    ⟨formed.toWellFormed, formed.toTabled, Program.scoped_of_verify formed.toWellFormed formed.toTabled valid,
      formed.isModule, .refl program⟩
  exact ⟨changed, after, run, droppable.refines, fun _ _ _ => droppable.refines.run_eq⟩

/-- A function that sets an element of a buffer and returns the element that has been there before. What
it does with a buffer of its own is not used. -/
def exchanging : Program where
  values := #[⟨some "%x", some (.shaped ⟨.memref, [2], .i64⟩), .argument (some ⟨0⟩)⟩,
    ⟨some "%n", some (.scalar .i64), .argument (some ⟨0⟩)⟩,
    ⟨none, some (.scalar .i64), .signature⟩,
    ⟨some "%c1", some (.scalar .index), .result ⟨1⟩⟩,
    ⟨some "%old", some (.scalar .i64), .result ⟨2⟩⟩,
    ⟨some "%alloc", some (.shaped ⟨.memref, [2], .i64⟩), .result ⟨3⟩⟩,
    ⟨some "%new", some (.scalar .i64), .result ⟨5⟩⟩,
    ⟨some "%sum", some (.scalar .i64), .result ⟨6⟩⟩]
  operations := #[
    { kind := .func .func, results := [⟨2⟩],
      attributes := Attributes.empty.insert "sym_name" (.ofSymbol "f") },
    { kind := .arith .constant, results := [⟨3⟩], attributes := Attributes.empty.insert "value" (.int 1) },
    { kind := .memref .load, operands := [⟨0⟩, ⟨3⟩], results := [⟨4⟩] },
    { kind := .memref .alloc, results := [⟨5⟩] },
    { kind := .memref .store, operands := [⟨1⟩, ⟨0⟩, ⟨3⟩] },
    { kind := .memref .load, operands := [⟨5⟩, ⟨3⟩], results := [⟨6⟩] },
    { kind := .arith .addi, operands := [⟨4⟩, ⟨6⟩], results := [⟨7⟩] },
    { kind := .func .ret, operands := [⟨4⟩] },
    { kind := .module }]
  headers := #[{ arguments := [⟨0⟩, ⟨1⟩] }, {}]
  root := ⟨8⟩
  regions := .single ⟨1⟩ (.single ⟨0⟩ (.single ⟨0⟩
    (.cons ⟨1⟩ .nil (.cons ⟨2⟩ .nil (.cons ⟨3⟩ .nil (.cons ⟨4⟩ .nil (.cons ⟨5⟩ .nil
      (.cons ⟨6⟩ .nil (.single ⟨7⟩ .nil)))))))))

/-- Without the buffer that nothing is done with, the elements are still exchanged. -/
theorem run_dropDead_exchanging : ∃ changed after, Change.dropDead.run exchanging = (.ok changed, after) ∧
    after.run "f" [.memref ⟨[2], .i64, #[.int 3, .int 4]⟩, .scalar (.int 7)] =
      .ok ([.scalar (.int 4)], [.memref ⟨[2], .i64, #[.int 3, .int 7]⟩, .scalar (.int 7)]) := by
  obtain ⟨changed, after, run, -, runs⟩ := exists_dropDead_refines
    (show exchanging.Formed from { (show exchanging.WellFormed by decide +kernel),
      (show exchanging.Tabled by decide +kernel) with isModule := rfl }) rfl
  exact ⟨changed, after, run, runs _ _ _ rfl⟩

end Dropping

end TensorIR
