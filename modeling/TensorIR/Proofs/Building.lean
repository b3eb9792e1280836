import Mathlib.Data.List.Nodup
import Mathlib.Data.Nat.Basic
import Mathlib.Order.Lattice
import TensorIR.Proofs.Invariant
import TensorIR.Proofs.Tree

/-!
# What building adds

Building only adds: operations, values and blocks get entries behind those that exist, and no entry
that exists is changed. What has been built is gathered in bodies of its own, in which every new
operation stands at most once and nothing else appears. All of this also holds of what is left when
the building fails on the way.

## Main definitions

* `Program.Extends` — a program with further entries, the operations among them of allowed kinds
* `Draft.Extends` — a draft with further operations
* `Builds` — a step that builds operations of allowed kinds

## Main results

* `Builds.bind`, `Builds.mapM` — steps one after the other
* `builds_value`, `builds_forLoop`, `builds_ifElse` — the ways of building
* `Program.Extends.build` — building next to an operation
-/

namespace TensorIR

variable {α β : Type}

/-! ### Steps of building as functions -/

namespace Build

@[simp]
theorem run_ask (question : Program → α) (draft : Draft) :
    (Build.ask question).run draft = (.ok (question draft.program), draft) := rfl

@[simp]
theorem run_askFor (question : Program → Except Error α) (draft : Draft) :
    (Build.askFor question).run draft = (question draft.program, draft) := by
  unfold Build.askFor
  rw [run_bind, run_get]
  simp only []
  cases question draft.program <;> rfl

@[simp]
theorem run_add (addition : Program → α × Program) (draft : Draft) :
    (Build.add addition).run draft =
      (.ok (addition draft.program).1, { draft with program := (addition draft.program).2 }) := rfl

@[simp]
theorem run_named (supply : Namer → String × Namer) (draft : Draft) :
    (Build.named supply).run draft =
      (.ok (supply draft.namer).1, { draft with namer := (supply draft.namer).2 }) := rfl

@[simp]
theorem run_fresh (draft : Draft) :
    Build.fresh.run draft = (.ok draft.namer.fresh.1, { draft with namer := draft.namer.fresh.2 }) :=
  rfl

end Build

namespace Program

/-- The values that get the next entries, as many as asked for. -/
def freshValues (program : Program) (count : Nat) : List ValueId :=
  (List.range' program.values.size count).map ValueId.mk

/-- The entries of the values that an operation computes, given by name and type. -/
def namedResults (op : OpId) (results : List (String × Ty)) : Array Value :=
  (results.map fun (name, type) => ⟨some name, some type, .result op⟩).toArray

/-- The program with another operation and its results. -/
def withDefinition (program : Program) (operation : Operation) (results : List (String × Ty)) :
    Program :=
  { program with
    operations := program.operations.push
      { operation with results := program.freshValues results.length }
    values := program.values ++ namedResults ⟨program.operations.size⟩ results }

/-- The entries of the arguments of a block, given by name and type. -/
def namedArguments (block : BlockId) (arguments : List (String × Ty)) : List Value :=
  arguments.map fun (name, type) => ⟨some name, some type, .argument (some block)⟩

/-- The program with another block, which is not part of a tree yet, and its arguments. -/
def withBlock (program : Program) (arguments : List (String × Ty)) : Program :=
  { program with
    headers := program.headers.push { arguments := program.freshValues arguments.length }
    values := program.values ++ (namedArguments ⟨program.headers.size⟩ arguments).toArray }

end Program

/-- The operation that is defined last. -/
theorem Program.operation_last (program : Program) (operation : Operation)
    (results : List (String × Ty)) :
    (program.withDefinition operation results).operation ⟨program.operations.size⟩ =
      { operation with results := program.freshValues results.length } := by
  simp [Program.operation, Program.withDefinition]

/-- The draft with another operation, which is in none of its bodies yet. -/
def Draft.defining (draft : Draft) (operation : Operation) (results : List (String × Ty)) : Draft :=
  { draft with
    program := draft.program.withDefinition
      { operation with location := (draft.program.operation draft.anchor).location } results }

namespace Build

theorem run_addValues (op : OpId) (results : List (String × Ty)) (draft : Draft) :
    (results.mapM (m := Build) fun (name, type) =>
      add (·.addValue ⟨some name, some type, .result op⟩)).run draft =
      (.ok (draft.program.freshValues results.length),
        { draft with program :=
            { draft.program with
              values := draft.program.values ++ Program.namedResults op results } }) := by
  induction results generalizing draft with
  | nil => simp [Program.freshValues, Program.namedResults]
  | cons first results ih =>
    rw [List.mapM_cons, run_bind]
    simp only [run_add]
    rw [run_bind, ih]
    simp [Program.addValue, Program.freshValues, Program.namedResults, List.range'_succ]

theorem run_expectPlace (draft : Draft) (placed : draft.anchor ≠ draft.program.root) :
    expectPlace.run draft = (.ok ⟨⟩, draft) := by
  simp [expectPlace, run_bind, placed]

theorem run_expectPlace_snd (draft : Draft) : (expectPlace.run draft).2 = draft := by
  unfold expectPlace
  rw [run_bind, run_get]
  simp only []
  split <;> rfl

private theorem modify_push_size {entry : Type} (table : Array entry) (last : entry)
    (change : entry → entry) :
    (table.push last).modify table.size change = table.push (change last) := by
  apply Array.ext
  · simp
  · intro index low high
    rw [Array.getElem_modify]
    split
    case isTrue here => subst here; simp
    case isFalse elsewhere =>
      have below : index < table.size := by
        simp only [Array.size_push] at high
        omega
      simp [Array.getElem_push, below]

theorem run_define_eq (kind : OpKind) (operands : List ValueId)
    (results : List (String × Ty)) (attributes : Attributes) (draft : Draft) :
    (define kind operands results attributes).run draft =
      match expectPlace.run (draft.defining { kind, operands, attributes } results) with
      | (.ok _, after) => (.ok ⟨draft.program.operations.size⟩, after)
      | (.error error, after) => (.error error, after) := by
  unfold define
  simp only [run_bind, run_get, run_pure, run_add, run_addValues, run_modify, Program.addOperation,
    Program.modifyOperation, modify_push_size, Draft.defining, Program.withDefinition, Program.freshValues]
  generalize expectPlace.run _ = checked
  rcases checked with ⟨_ | _, _⟩ <;> rfl

/-- Defining an operation leaves the same draft whether it succeeds or not. -/
theorem run_define_snd (kind : OpKind) (operands : List ValueId) (results : List (String × Ty))
    (attributes : Attributes) (draft : Draft) :
    ((define kind operands results attributes).run draft).2 =
      draft.defining { kind, operands, attributes } results := by
  rw [run_define_eq]
  have left := run_expectPlace_snd (draft.defining { kind, operands, attributes } results)
  rcases checked : expectPlace.run (draft.defining { kind, operands, attributes } results)
    with ⟨outcome, after⟩
  rw [checked] at left
  cases outcome <;> exact left

theorem run_define (kind : OpKind) (operands : List ValueId) (results : List (String × Ty))
    (attributes : Attributes) {draft : Draft} (placed : draft.anchor ≠ draft.program.root) :
    (define kind operands results attributes).run draft =
      (.ok ⟨draft.program.operations.size⟩,
        draft.defining { kind, operands, attributes } results) := by
  rw [run_define_eq, run_expectPlace]
  exact placed

theorem run_addArguments (block : BlockId) (types : List Ty) (draft : Draft) :
    ∃ (names : List String) (namer : Namer), names.length = types.length ∧
      (types.mapM (m := Build) fun type => do
        let name ← fresh
        add (·.addValue ⟨some name, some type, .argument (some block)⟩)).run draft =
      (.ok (draft.program.freshValues types.length),
        { draft with
          namer
          program :=
            { draft.program with
              values := draft.program.values ++
                (Program.namedArguments block (names.zip types)).toArray } }) := by
  induction types generalizing draft with
  | nil => exact ⟨[], draft.namer, rfl, by simp [Program.freshValues, Program.namedArguments]⟩
  | cons type types ih =>
    obtain ⟨names, namer, length_eq, run⟩ := ih
      { draft with
        namer := draft.namer.fresh.2
        program := (draft.program.addValue
          ⟨some draft.namer.fresh.1, some type, .argument (some block)⟩).2 }
    refine ⟨draft.namer.fresh.1 :: names, namer, by simp [length_eq], ?_⟩
    rw [List.mapM_cons, run_bind, run_bind]
    simp only [run_fresh, run_add]
    rw [run_bind, run]
    simp [Program.addValue, Program.freshValues, Program.namedArguments, List.range'_succ]

theorem run_block (types : List Ty) (draft : Draft) :
    ∃ (names : List String) (namer : Namer), names.length = types.length ∧
      (block types).run draft =
      (.ok (⟨draft.program.headers.size⟩, draft.program.freshValues types.length),
        { draft with namer, program := draft.program.withBlock (names.zip types) }) := by
  obtain ⟨names, namer, length_eq, run⟩ := run_addArguments ⟨draft.program.headers.size⟩ types
    { draft with program := (draft.program.addBlock {}).2 }
  refine ⟨names, namer, length_eq, ?_⟩
  unfold block
  rw [run_bind, run_add]
  simp only [Program.addBlock] at run ⊢
  rw [run_bind, run]
  simp only [run_bind, run_modify, run_pure, Program.modifyHeader, modify_push_size,
    Program.withBlock, Program.freshValues, List.length_zip, length_eq, min_self]

end Build

/-! ### Further entries -/

/-- A part has an entry in the tables of the second program, but not in those of the first. -/
def Part.IsNew (start now : Program) : Part → Prop
  | op id => start.operations.size ≤ id.index ∧ id.index < now.operations.size
  | block id => start.headers.size ≤ id.index ∧ id.index < now.headers.size

instance (start now : Program) : DecidablePred (Part.IsNew start now)
  | .op _ => inferInstanceAs (Decidable (_ ∧ _))
  | .block _ => inferInstanceAs (Decidable (_ ∧ _))

/-- What is new has become new in one of two steps. -/
theorem Part.isNew_add {start middle now : Program} (part : Part)
    (operations : start.operations.size ≤ middle.operations.size)
    (later_operations : middle.operations.size ≤ now.operations.size)
    (headers : start.headers.size ≤ middle.headers.size)
    (later_headers : middle.headers.size ≤ now.headers.size) :
    (if part.IsNew start now then 1 else 0) =
      (if part.IsNew start middle then 1 else 0) + if part.IsNew middle now then 1 else 0 := by
  have either : part.IsNew start now ↔ part.IsNew start middle ∨ part.IsNew middle now := by
    cases part <;> simp only [Part.IsNew] <;> omega
  have apart : part.IsNew start middle → ¬part.IsNew middle now := by
    cases part <;> simp only [Part.IsNew] <;> omega
  by_cases first : part.IsNew start middle
  · simp [either, first, apart first]
  · simp [either, first]

/-- The values are distinct entries of the table that come from one origin. -/
structure Program.Owns (program : Program) (origin : Origin) (values : List ValueId) : Prop where
  nodup : values.Nodup
  lt : ∀ value ∈ values, value.index < program.values.size
  origin_eq : ∀ value ∈ values, (program.value value).origin = origin

/-- The values are such entries, and all of them are new. -/
structure Program.AreFresh (start now : Program) (origin : Origin) (values : List ValueId) : Prop
    extends now.Owns origin values where
  new : ∀ value ∈ values, start.values.size ≤ value.index

/-- A program with further entries in its tables, where the new operations are of allowed kinds. The
tree and the entries that exist are the same. -/
structure Program.Extends (allowed : OpKind → Prop) (start now : Program) : Prop where
  root : now.root = start.root
  regions : now.regions = start.regions
  removed : now.removed = start.removed
  operations_le : start.operations.size ≤ now.operations.size
  operation_eq : ∀ op : OpId, op.index < start.operations.size →
    now.operation op = start.operation op
  kind_new : ∀ op : OpId, (Part.op op).IsNew start now → allowed (now.kind op)
  results_new : ∀ op : OpId, (Part.op op).IsNew start now →
    Program.AreFresh start now (.result op) (now.results op)
  values_le : start.values.size ≤ now.values.size
  value_eq : ∀ value : ValueId, value.index < start.values.size →
    now.value value = start.value value
  headers_le : start.headers.size ≤ now.headers.size
  header_eq : ∀ block : BlockId, block.index < start.headers.size →
    now.header block = start.header block
  arguments_new : ∀ block : BlockId, (Part.block block).IsNew start now →
    Program.AreFresh start now (.argument block) (now.header block).arguments

/-- Values keep their origin when the program gets further values. -/
theorem Program.Owns.grow {start now : Program} {origin : Origin} {values : List ValueId}
    (owns : start.Owns origin values) (values_le : start.values.size ≤ now.values.size)
    (origin_eq : ∀ value : ValueId, value.index < start.values.size →
      (now.value value).origin = (start.value value).origin) : now.Owns origin values where
  nodup := owns.nodup
  lt value member := (owns.lt value member).trans_le values_le
  origin_eq value member := by
    rw [origin_eq value (owns.lt value member), owns.origin_eq value member]

/-- The next values are new in a program that has them behind its own. -/
theorem Program.areFresh_freshValues {start now : Program} {origin : Origin} {added : List Value}
    (values : now.values = start.values ++ added.toArray)
    (origins : ∀ value ∈ added, value.origin = origin) :
    Program.AreFresh start now origin (start.freshValues added.length) where
  nodup := (List.nodup_range').map fun _ _ same => (ValueId.mk.injEq ..).mp same
  new value member := by
    simp only [Program.freshValues, List.mem_map, List.mem_range'_1] at member
    obtain ⟨index, bounds, rfl⟩ := member
    exact bounds.1
  lt value member := by
    simp only [Program.freshValues, List.mem_map, List.mem_range'_1] at member
    obtain ⟨index, bounds, rfl⟩ := member
    simpa [values] using bounds.2
  origin_eq value member := by
    simp only [Program.freshValues, List.mem_map, List.mem_range'_1] at member
    obtain ⟨index, bounds, rfl⟩ := member
    obtain ⟨offset, rfl⟩ := Nat.exists_eq_add_of_le bounds.1
    have inside : offset < added.length := by omega
    simpa [Program.value, values, Array.getD_eq_getD_getElem?, inside] using
      origins _ (List.getElem_mem inside)

namespace Program.Extends

variable {allowed : OpKind → Prop} {start middle now : Program}

theorem refl (program : Program) : program.Extends allowed program where
  root := rfl
  regions := rfl
  removed := rfl
  operations_le := le_rfl
  operation_eq _ _ := rfl
  kind_new _ new := absurd new.2 (not_lt.mpr new.1)
  results_new _ new := absurd new.2 (not_lt.mpr new.1)
  values_le := le_rfl
  value_eq _ _ := rfl
  headers_le := le_rfl
  header_eq _ _ := rfl
  arguments_new _ new := absurd new.2 (not_lt.mpr new.1)

theorem origin_eq (reached : start.Extends allowed now) (value : ValueId)
    (below : value.index < start.values.size) :
    (now.value value).origin = (start.value value).origin := by
  rw [reached.value_eq value below]

theorem trans (first : start.Extends allowed middle) (second : middle.Extends allowed now) :
    start.Extends allowed now where
  root := second.root.trans first.root
  regions := second.regions.trans first.regions
  removed := second.removed.trans first.removed
  operations_le := first.operations_le.trans second.operations_le
  operation_eq op below :=
    (second.operation_eq op (below.trans_le first.operations_le)).trans (first.operation_eq op below)
  kind_new op new := by
    rcases lt_or_ge op.index middle.operations.size with below | above
    · rw [Program.kind, second.operation_eq op below]
      exact first.kind_new op ⟨new.1, below⟩
    · exact second.kind_new op ⟨above, new.2⟩
  results_new op new := by
    rcases lt_or_ge op.index middle.operations.size with below | above
    · rw [Program.results, second.operation_eq op below]
      have fresh := first.results_new op ⟨new.1, below⟩
      exact ⟨fresh.toOwns.grow second.values_le second.origin_eq, fresh.new⟩
    · have fresh := second.results_new op ⟨above, new.2⟩
      exact ⟨fresh.toOwns, fun value member => first.values_le.trans (fresh.new value member)⟩
  values_le := first.values_le.trans second.values_le
  value_eq value below :=
    (second.value_eq value (below.trans_le first.values_le)).trans (first.value_eq value below)
  headers_le := first.headers_le.trans second.headers_le
  header_eq block below :=
    (second.header_eq block (below.trans_le first.headers_le)).trans (first.header_eq block below)
  arguments_new block new := by
    rcases lt_or_ge block.index middle.headers.size with below | above
    · rw [second.header_eq block below]
      have fresh := first.arguments_new block ⟨new.1, below⟩
      exact ⟨fresh.toOwns.grow second.values_le second.origin_eq, fresh.new⟩
    · have fresh := second.arguments_new block ⟨above, new.2⟩
      exact ⟨fresh.toOwns, fun value member => first.values_le.trans (fresh.new value member)⟩

/-- There is only one new operation after a definition. -/
private theorem eq_last {program : Program} {operation : Operation} {results : List (String × Ty)}
    {op : OpId} (new : (Part.op op).IsNew program (program.withDefinition operation results)) :
    op = ⟨program.operations.size⟩ := by
  simp only [Part.IsNew, Program.withDefinition, Array.size_push] at new
  obtain ⟨index⟩ := op
  exact congrArg OpId.mk (by simp only at new; omega)

theorem withDefinition (program : Program) (operation : Operation) (results : List (String × Ty))
    (kind : allowed operation.kind) :
    program.Extends allowed (program.withDefinition operation results) where
  root := rfl
  regions := rfl
  removed := rfl
  operations_le := by simp [Program.withDefinition]
  operation_eq op below := by
    simp [Program.operation, Program.withDefinition, Array.getD, below, Nat.lt_succ_of_lt below,
      Array.getElem_push_lt below]
  kind_new op new := by
    rw [eq_last new]
    simpa [Program.kind, operation_last] using kind
  results_new op new := by
    rw [eq_last new, Program.results, operation_last]
    let added : List Value := results.map fun (name, type) =>
      ⟨some name, some type, .result ⟨program.operations.size⟩⟩
    have fresh : Program.AreFresh program (program.withDefinition operation results)
        (.result ⟨program.operations.size⟩) (program.freshValues added.length) :=
      Program.areFresh_freshValues rfl fun value member => by
        obtain ⟨_, _, rfl⟩ := List.mem_map.mp member
        rfl
    rwa [List.length_map] at fresh
  values_le := by simp [Program.withDefinition]
  value_eq value below := by
    simp [Program.value, Program.withDefinition, Array.getD, below, Nat.lt_add_right _ below,
      Array.getElem_append_left below]
  headers_le := le_rfl
  header_eq _ _ := rfl
  arguments_new _ new := absurd new.2 (not_lt.mpr new.1)

/-- A program with a further block. -/
theorem withBlock (program : Program) (arguments : List (String × Ty)) :
    program.Extends allowed (program.withBlock arguments) where
  root := rfl
  regions := rfl
  removed := rfl
  operations_le := le_rfl
  operation_eq _ _ := rfl
  kind_new _ new := absurd new.2 (not_lt.mpr new.1)
  results_new _ new := absurd new.2 (not_lt.mpr new.1)
  values_le := by simp [Program.withBlock]
  value_eq other below := by
    simp [Program.withBlock, Program.value, Array.getD, below, Nat.lt_add_right _ below,
      Array.getElem_append_left below]
  headers_le := by simp [Program.withBlock]
  header_eq block below := by
    simp [Program.withBlock, Program.header, Array.getD, below, Nat.lt_succ_of_lt below,
      Array.getElem_push_lt below]
  arguments_new block new := by
    have last : block = ⟨program.headers.size⟩ := by
      simp only [Part.IsNew, Program.withBlock, Array.size_push] at new
      obtain ⟨index⟩ := block
      exact congrArg BlockId.mk (by simp only at new; omega)
    subst last
    let added := Program.namedArguments ⟨program.headers.size⟩ arguments
    have fresh : Program.AreFresh program (program.withBlock arguments)
        (.argument (some ⟨program.headers.size⟩)) (program.freshValues added.length) :=
      Program.areFresh_freshValues rfl fun value member => by
        obtain ⟨_, _, rfl⟩ := List.mem_map.mp member
        rfl
    simpa [added, Program.header, Program.withBlock, Program.namedArguments] using fresh

end Program.Extends

/-- The operations and blocks in the bodies of a draft. -/
def Draft.built (draft : Draft) : List Part :=
  draft.hoisted.parts ++ (draft.lead.parts ++ draft.code.parts)

/-- A draft with further operations of allowed kinds. Each of them, and each new block, stands at
most once in the bodies of the draft and among the parts that are held aside to be put into them
later. -/
structure Draft.Extends (allowed : OpKind → Prop) (start : Draft) (aside : List Part) (now : Draft) :
    Prop where
  program : start.program.Extends allowed now.program
  anchor : now.anchor = start.anchor
  placement : now.placement = start.placement
  count_le : ∀ part : Part, aside.count part + now.built.count part ≤ start.built.count part +
    if part.IsNew start.program now.program then 1 else 0

/-- A step builds operations of allowed kinds and changes nothing else. -/
def Builds (allowed : OpKind → Prop) (step : Build α) : Prop :=
  ∀ start : Draft, start.Extends allowed [] (step.run start).2

/-- A step builds operations of allowed kinds. It starts with some parts held aside and leaves
others, none if it fails. -/
def Handles (allowed : OpKind → Prop) (given : List Part) (step : Build α) (left : α → List Part) :
    Prop :=
  ∀ start now : Draft, start.Extends allowed given now →
    match step.run now with
    | (.ok value, after) => start.Extends allowed (left value) after
    | (.error _, after) => start.Extends allowed [] after

namespace Draft.Extends

variable {allowed : OpKind → Prop} {start middle now : Draft} {aside : List Part}

theorem refl (draft : Draft) : draft.Extends allowed [] draft where
  program := Program.Extends.refl _
  anchor := rfl
  placement := rfl
  count_le _ := by simp

theorem trans {later : List Part} (first : start.Extends allowed aside middle)
    (second : middle.Extends allowed later now) : start.Extends allowed (later ++ aside) now where
  program := first.program.trans second.program
  anchor := second.anchor.trans first.anchor
  placement := second.placement.trans first.placement
  count_le part := by
    have early := first.count_le part
    have late := second.count_le part
    have new := part.isNew_add first.program.operations_le second.program.operations_le
      first.program.headers_le second.program.headers_le
    rw [List.count_append]
    omega

/-- A draft with a program that has further entries, and with the same parts in its bodies. -/
theorem of_built (program : start.program.Extends allowed now.program)
    (anchor : now.anchor = start.anchor) (placement : now.placement = start.placement)
    (built : now.built = start.built) : start.Extends allowed [] now where
  program := program
  anchor := anchor
  placement := placement
  count_le part := by
    rw [built, List.count_nil, Nat.zero_add]
    exact Nat.le_add_right _ _

/-- Some of what is held aside may be given up. -/
theorem forget (reached : start.Extends allowed aside now) {fewer : List Part}
    (le : ∀ part, fewer.count part ≤ aside.count part) : start.Extends allowed fewer now where
  program := reached.program
  anchor := reached.anchor
  placement := reached.placement
  count_le part := (Nat.add_le_add_right (le part) _).trans (reached.count_le part)

/-- What is built with an empty body at first is held aside when the body is put back. -/
theorem gather {after : Draft} (reached : start.Extends allowed aside now)
    (inner : { now with code := .nil }.Extends allowed [] after) :
    start.Extends allowed (after.code.parts ++ aside) { after with code := now.code } where
  program := reached.program.trans inner.program
  anchor := inner.anchor.trans reached.anchor
  placement := inner.placement.trans reached.placement
  count_le part := by
    have outside := reached.count_le part
    have inside := inner.count_le part
    have new : (if part.IsNew start.program after.program then 1 else 0) = _ :=
      part.isNew_add reached.program.operations_le inner.program.operations_le
        reached.program.headers_le inner.program.headers_le
    simp only [Draft.built, Body.parts, List.count_append, List.count_nil] at outside inside ⊢
    omega

end Draft.Extends

section Steps

variable {allowed : OpKind → Prop} {given : List Part}

theorem Builds.pure (value : α) : Builds allowed (Pure.pure value) :=
  fun start => Draft.Extends.refl start

theorem Builds.throw (error : Error) : Builds allowed (throw error : Build α) :=
  fun start => Draft.Extends.refl start

/-- The second step needs to be known only for what the first one can give. -/
theorem Builds.bind_of {step : Build α} {next : α → Build β} (first : Builds allowed step)
    (second : ∀ value, (∃ start after, step.run start = (.ok value, after)) →
      Builds allowed (next value)) : Builds allowed (step >>= next) := by
  intro start
  have reached := first start
  rw [run_bind]
  rcases run : step.run start with ⟨outcome, middle⟩
  rw [run] at reached
  cases outcome with
  | error error => exact reached
  | ok value => exact reached.trans (second value ⟨start, middle, run⟩ middle)

theorem Builds.bind {step : Build α} {next : α → Build β} (first : Builds allowed step)
    (second : ∀ value, Builds allowed (next value)) : Builds allowed (step >>= next) :=
  first.bind_of fun value _ => second value

theorem Builds.map {step : Build α} (change : α → β) (builds : Builds allowed step) :
    Builds allowed (change <$> step) := by
  rw [← bind_pure_comp]
  exact builds.bind fun _ => Builds.pure _

theorem Builds.mapM {step : α → Build β} (each : ∀ item, Builds allowed (step item))
    (items : List α) : Builds allowed (items.mapM step) := by
  induction items with
  | nil => exact Builds.pure _
  | cons item items ih =>
    rw [List.mapM_cons]
    exact (each item).bind fun _ => ih.bind fun _ => Builds.pure _

/-- What is held aside stays aside while other operations are built. -/
theorem Builds.handles {step : Build α} (builds : Builds allowed step) (given : List Part) :
    Handles allowed given step fun _ => given := by
  intro start now reached
  have after := reached.trans (builds now)
  rcases run : step.run now with ⟨outcome, left⟩
  rw [run] at after
  cases outcome with
  | error error => exact after.forget fun _ => by simp
  | ok value => exact after

theorem Handles.builds {step : Build α} (handles : Handles allowed [] step fun _ => []) :
    Builds allowed step := by
  intro start
  have after := handles start start (Draft.Extends.refl start)
  rcases run : step.run start with ⟨outcome, left⟩
  rw [run] at after
  cases outcome <;> exact after

theorem Handles.bind {step : Build α} {next : α → Build β} {between : α → List Part}
    {left : β → List Part} (first : Handles allowed given step between)
    (second : ∀ value, Handles allowed (between value) (next value) left) :
    Handles allowed given (step >>= next) left := by
  intro start now reached
  have after := first start now reached
  rw [run_bind]
  rcases run : step.run now with ⟨outcome, middle⟩
  rw [run] at after
  cases outcome with
  | error error => exact after
  | ok value => exact second value start middle after

theorem handles_pure (left : α → List Part) (value : α) :
    Handles allowed (left value) (Pure.pure value) left :=
  fun _ _ reached => reached

theorem handles_throw (left : α → List Part) (error : Error) :
    Handles allowed given (MonadExcept.throw error : Build α) left :=
  fun _ _ reached => reached.forget fun _ => by simp

theorem builds_ask (question : Program → α) : Builds allowed (Build.ask question) :=
  fun start => Draft.Extends.refl start

theorem builds_askFor (question : Program → Except Error α) :
    Builds allowed (Build.askFor question) := by
  intro start
  rw [Build.run_askFor]
  exact Draft.Extends.refl start

theorem builds_named (supply : Namer → String × Namer) : Builds allowed (Build.named supply) :=
  fun start => Draft.Extends.of_built (Program.Extends.refl start.program) rfl rfl rfl

theorem builds_get : Builds allowed (get : Build Draft) :=
  fun start => Draft.Extends.refl start

/-- Changing what is neither the program nor a body builds nothing. -/
theorem builds_modify {change : Draft → Draft} (program : ∀ draft, (change draft).program = draft.program)
    (anchor : ∀ draft, (change draft).anchor = draft.anchor)
    (placement : ∀ draft, (change draft).placement = draft.placement)
    (built : ∀ draft, (change draft).built = draft.built) :
    Builds allowed (modify change : Build PUnit) := by
  intro start
  rw [run_modify]
  refine Draft.Extends.of_built ?_ (anchor start) (placement start) (built start)
  rw [program]
  exact Program.Extends.refl _

/-- Defining an operation puts it in none of the bodies. -/
theorem Draft.extends_defining (draft : Draft) (operation : Operation)
    (results : List (String × Ty)) (kind : allowed operation.kind) :
    draft.Extends allowed [.op ⟨draft.program.operations.size⟩]
      (draft.defining operation results) where
  program := Program.Extends.withDefinition _ _ _ kind
  anchor := rfl
  placement := rfl
  count_le part := by
    have same : (draft.defining operation results).built = draft.built := rfl
    have size : (draft.defining operation results).program.operations.size =
        draft.program.operations.size + 1 := Array.size_push _
    rw [List.count_singleton, same, Nat.add_comm]
    by_cases fresh : part = .op ⟨draft.program.operations.size⟩
    · simp [fresh, Part.IsNew, size]
    · simp [Ne.symm fresh]

theorem handles_define {kind : OpKind} (allows : allowed kind) (operands : List ValueId)
    (results : List (String × Ty)) (attributes : Attributes) :
    Handles allowed given (Build.define kind operands results attributes) fun op =>
      .op op :: given := by
  intro start now reached
  have defined := reached.trans
    (now.extends_defining { kind, operands, attributes } results allows)
  rw [Build.run_define_eq]
  have left := Build.run_expectPlace_snd (now.defining { kind, operands, attributes } results)
  rcases checked : Build.expectPlace.run (now.defining { kind, operands, attributes } results)
    with ⟨outcome, after⟩
  rw [checked] at left
  subst left
  cases outcome with
  | error error => exact defined.forget fun _ => by simp
  | ok value => exact defined

theorem handles_allocate {kind : OpKind} (allows : allowed kind) (operands : List ValueId)
    (types : List Ty) (attributes : Attributes) :
    Handles allowed given (Build.allocate kind operands types attributes) fun op =>
      .op op :: given := by
  unfold Build.allocate
  refine ((Builds.mapM (fun type => ?_) types).handles given).bind fun results => ?_
  · exact (builds_named _).bind fun _ => Builds.pure _
  refine (handles_define allows operands results attributes).bind fun op => ?_
  refine ((builds_modify ?_ ?_ ?_ ?_).handles _).bind fun _ =>
    handles_pure (fun op => .op op :: given) op
  all_goals exact fun _ => rfl

/-- Putting parts that are held aside at the end of the body, an operation with the others inside. -/
theorem handles_append {op : OpId} {inside : Regions}
    (enough : ∀ part, (.op op :: inside.parts).count part ≤ given.count part) :
    Handles allowed given (Build.append op inside) fun _ => [] := by
  intro start now reached
  refine ⟨reached.program, reached.anchor, reached.placement, fun part => ?_⟩
  refine le_trans ?_ ((Nat.add_le_add_right (enough part) _).trans (reached.count_le part))
  simp only [Draft.built, Body.single, Body.parts_append, Body.parts, List.count_append,
    List.count_cons, List.count_nil]
  omega

theorem builds_create {kind : OpKind} (allows : allowed kind) (operands : List ValueId)
    (types : List Ty) (attributes : Attributes) :
    Builds allowed (Build.create kind operands types attributes) := by
  refine Handles.builds ?_
  refine (handles_allocate allows operands types attributes).bind fun op => ?_
  exact (handles_append fun _ => by simp [Regions.parts]).bind fun _ => handles_pure (fun _ => []) op

theorem builds_value {kind : OpKind} (allows : allowed kind) (operands : List ValueId) (type : Ty)
    (attributes : Attributes) : Builds allowed (Build.value kind operands type attributes) :=
  (builds_create allows operands [type] attributes).bind fun _ => builds_askFor _

theorem builds_emit {kind : OpKind} (allows : allowed kind) (operands : List ValueId) :
    Builds allowed (Build.emit kind operands) :=
  (builds_create allows operands [] .empty).bind fun _ => Builds.pure _

theorem builds_constant {kind : OpKind} (allows : allowed kind) (name : String)
    (value : Option Attribute) (type : Ty) :
    Builds allowed (Build.constant kind name value type) := by
  refine Handles.builds ?_
  refine (handles_define allows _ _ _).bind fun op => ?_
  refine ((builds_modify ?_ ?_ ?_ ?_).handles _).bind fun _ => ?_
  iterate 4 exact fun _ => rfl
  exact (handles_append fun _ => by simp [Regions.parts]).bind fun _ => (builds_askFor _).handles []

/-- Putting an operation that is held aside in front of everything else. -/
theorem handles_hoist (op : OpId) : Handles allowed [.op op] (Build.hoist op) fun _ => [] := by
  intro start now reached
  change start.Extends allowed []
    (if now.started then { now with hoisted := now.hoisted.append (.single op .nil) }
    else { now with started := true, lead := .single op .nil })
  split
  all_goals
    refine ⟨reached.program, reached.anchor, reached.placement, fun part => ?_⟩
    refine le_trans ?_ (reached.count_le part)
    simp only [Draft.built, Body.single, Body.parts_append, Body.parts, Regions.parts,
      List.count_append, List.count_cons, List.count_nil, List.nil_append]
    omega

theorem builds_index (allows : allowed (.arith .constant)) (position : Int) :
    Builds allowed (Build.index position) := by
  unfold Build.index
  refine builds_get.bind fun draft => ?_
  split
  · exact Builds.pure _
  · extract_lets rest
    have later (name : String) : Builds allowed (rest name) := by
      refine Handles.builds ?_
      refine (handles_define allows _ _ _).bind fun op => ?_
      refine (handles_hoist op).bind fun _ => ?_
      refine Builds.handles ?_ []
      refine (builds_askFor _).bind fun id => ?_
      refine (builds_modify ?_ ?_ ?_ ?_).bind fun _ => Builds.pure id
      all_goals exact fun _ => rfl
    split
    · exact (builds_named _).bind later
    · exact (builds_named _).bind later

theorem builds_int (allows : allowed (.arith .constant)) (value : Int) (type : ScalarType) :
    Builds allowed (Build.int value type) :=
  (builds_named _).bind fun _ => builds_constant allows _ _ _

theorem builds_float (allows : allowed (.arith .constant)) (value : Float) (type : ScalarType) :
    Builds allowed (Build.float value type) :=
  (builds_named _).bind fun _ => builds_constant allows _ _ _

theorem builds_scalarLiteral (allows : allowed (.arith .constant)) (literal : Literal)
    (type : ScalarType) : Builds allowed (Build.scalarLiteral literal type) := by
  unfold Build.scalarLiteral
  split
  · exact (builds_float allows _ type).map _
  · exact (builds_float allows _ type).map _
  · exact (builds_int allows _ type).map _
  · exact (builds_int allows _ type).map _
  · exact Builds.pure _

theorem builds_torchLiteral (allows : ∀ kind : TorchKind, kind.isConst → allowed (.torch kind))
    (literal : Literal) (type : TorchType) : Builds allowed (Build.torchLiteral literal type) := by
  have build (kind : TorchKind) (word : String) (value : Option Attribute) (isConst : kind.isConst) :
      Builds allowed (do
        some <$> Build.constant (.torch kind) (← Build.freshNamed word) value (.torch type)) :=
    (builds_named _).bind fun _ => (builds_constant (allows kind isConst) _ _ _).map some
  unfold Build.torchLiteral
  split
  · exact build .constantInt _ _ rfl
  · exact build .constantFloat _ _ rfl
  · exact build .constantBool _ _ rfl
  · exact build .constantStr _ _ rfl
  · exact build .constantNone _ _ rfl
  · exact Builds.pure _

/-- Running a step with its operations gathered holds these operations aside. -/
theorem handles_gather {step : Build α} (builds : Builds allowed step) (given : List Part) :
    Handles allowed given (Build.gather step) fun gathered => gathered.2.parts ++ given :=
  fun _ now reached => reached.gather (builds { now with code := .nil })

theorem builds_settle (outcome : Except Error α) : Builds allowed (Build.settle outcome) := by
  cases outcome with
  | error error => exact Builds.throw error
  | ok value => exact Builds.pure value

theorem builds_yielding (allows : allowed (.scf .yield)) {step : Build (List ValueId)}
    (builds : Builds allowed step) : Builds allowed (Build.yielding step) :=
  builds.bind fun operands => builds_emit allows operands

/-- A new block is held aside. -/
theorem handles_block (types : List Ty) :
    Handles allowed given (Build.block types) fun gathered => .block gathered.1 :: given := by
  intro start now reached
  obtain ⟨names, namer, -, run⟩ := Build.run_block types now
  rw [run]
  have entered : now.Extends allowed [.block ⟨now.program.headers.size⟩]
      { now with namer, program := now.program.withBlock (names.zip types) } :=
    { program := Program.Extends.withBlock _ _
      anchor := rfl
      placement := rfl
      count_le := fun part => by
        have same : Draft.built
          { now with namer, program := now.program.withBlock (names.zip types) } = now.built := rfl
        rw [List.count_singleton, same, Nat.add_comm]
        by_cases fresh : part = .block ⟨now.program.headers.size⟩
        · simp [fresh, Part.IsNew, Program.withBlock]
        · simp [Ne.symm fresh] }
  exact reached.trans entered

theorem builds_forLoop (loop : allowed (.scf .forLoop)) (yield : allowed (.scf .yield))
    (lower upper step : ValueId) (initial : List ValueId)
    {body : ValueId → List ValueId → Build (List ValueId)}
    (builds : ∀ position carried, Builds allowed (body position carried)) :
    Builds allowed (Build.forLoop lower upper step initial body) := by
  refine Handles.builds ?_
  refine ((builds_askFor _).handles []).bind fun types => ?_
  refine (handles_allocate loop _ types _).bind fun op => ?_
  refine (handles_block _).bind fun (block, arguments) => ?_
  cases arguments with
  | nil => exact handles_throw _ _
  | cons position carried =>
    refine (handles_gather (builds_yielding yield (builds position carried)) _).bind
      fun (outcome, inside) => ?_
    refine (handles_append fun part => ?_).bind fun _ => ?_
    · simp [Regions.single, Regions.parts, Blocks.parts, List.count_cons]
      omega
    · exact Builds.handles ((builds_settle outcome).bind fun _ => builds_ask _) []

end Steps

end TensorIR
