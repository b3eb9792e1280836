import TensorIR.Proofs.Execution.Agreement
import TensorIR.Proofs.Planning.Drafts

/-!
# What is known while operations are built

Operations are built without being run, but it is known what a run will find at each point: the data of some
values, and the contents of all buffers. A scene is a draft together with this knowledge, which may depend on a
situation, such as the round of a loop around the draft. One scene leads to another if what has been built in
between takes every machine that fits the first one to a machine that fits the second.

What has been built is run later, when more has been built, and the constant positions have been put in front of
everything. So a scene speaks of every setting that has at least the entries of its draft, in which the constant
positions are set from the beginning.

## Main definitions

* `Program.Covers` — a program has the entries of another one
* `Draft.Tidy` — the constant positions of a draft stand in front, each with a value of its own
* `Setting.Hosts`, `Setting.Serves` — where what has been built is run
* `Scene`, `Scene.Holds` — a draft with what is known, and a fact that is known
* `Scene.Leads` — what has been built in between does what the scenes say

## Main results

* `Scene.Leads.trans` — what leads from scene to scene
* `Scene.Holds.reaches` — what is known stays known
-/

namespace TensorIR

/-- The program has the entries of another one, and perhaps more. -/
structure Program.Covers (program known : Program) : Prop where
  operations_le : known.operations.size ≤ program.operations.size
  operation_eq : ∀ op : OpId, op.index < known.operations.size → program.operation op = known.operation op
  values_le : known.values.size ≤ program.values.size
  value_eq : ∀ value : ValueId, value.index < known.values.size → program.value value = known.value value
  header_eq : ∀ block : BlockId, block.index < known.headers.size → program.header block = known.header block

namespace Program.Covers

variable {program known : Program} {op : OpId} {value : ValueId}

theorem refl (program : Program) : program.Covers program :=
  ⟨le_rfl, fun _ _ => rfl, le_rfl, fun _ _ => rfl, fun _ _ => rfl⟩

theorem of_extends {allowed : OpKind → Prop} {earlier : Program} (covers : program.Covers known)
    (reached : earlier.Extends allowed known) : program.Covers earlier where
  operations_le := reached.operations_le.trans covers.operations_le
  operation_eq op below :=
    (covers.operation_eq op (below.trans_le reached.operations_le)).trans (reached.operation_eq op below)
  values_le := reached.values_le.trans covers.values_le
  value_eq value below :=
    (covers.value_eq value (below.trans_le reached.values_le)).trans (reached.value_eq value below)
  header_eq block below :=
    (covers.header_eq block (below.trans_le reached.headers_le)).trans (reached.header_eq block below)

theorem typeOf?_eq (covers : program.Covers known) {type : Ty} (typed : known.typeOf? value = some type) :
    program.typeOf? value = some type := by
  rwa [Program.typeOf?, covers.value_eq value (Program.lt_of_typeOf? typed)]

theorem defines (covers : program.Covers known) {kind : OpKind} {operands values : List ValueId}
    {attributes : Attributes} {types : List Ty}
    (defines : known.Defines op kind operands attributes values types) :
    program.Defines op kind operands attributes values types := by
  have entry := covers.operation_eq op defines.below
  refine ⟨defines.below.trans_le covers.operations_le, ?_, ?_, ?_, ?_, ?_⟩
  · rw [Program.kind, entry]
    exact defines.kind_eq
  · rw [Program.operands, entry]
    exact defines.operands_eq
  · rw [Program.attributes, entry]
    exact defines.attributes_eq
  · rw [Program.results, entry]
    exact defines.results_eq
  · rw [← defines.types_eq]
    refine List.map_congr_left fun value member => ?_
    rw [Program.typeOf?, covers.value_eq value (defines.lt member)]
    rfl

end Program.Covers

/-! ### Drafts and where they are run -/

/-- Something can be built next to the anchor, and the constant positions stand in front, each with a value of
its own. -/
structure Draft.Tidy (draft : Draft) : Prop where
  placed : draft.anchor ≠ draft.program.root
  lead : draft.started = false → draft.lead = .nil
  heads : ∀ op ∈ draft.constants.heads, ∃ pair ∈ draft.indices, draft.program.IsPosition op pair.1 pair.2
  indices : ∀ pair ∈ draft.indices, ∃ op ∈ draft.constants.heads, draft.program.IsPosition op pair.1 pair.2
  distinct : ∀ first ∈ draft.indices, ∀ second ∈ draft.indices, first.2 = second.2 → first = second

/-- The second draft has been made from the first one by building. -/
structure Draft.Follows (start now : Draft) : Prop where
  program : start.program.Extends (fun _ => True) now.program
  anchor : now.anchor = start.anchor
  placement : now.placement = start.placement
  indices : ∀ pair ∈ start.indices, pair ∈ now.indices
  fresh : ∀ pair ∈ now.indices, pair.2.index < start.program.values.size → pair ∈ start.indices

/-- A program in which what has been built is run, and all constant positions that have been built by then. -/
structure Setting where
  program : Program
  indices : List (Int × ValueId)

/-- What has been built in the draft can be run: the program has its entries, and the only constant positions
with a value that the draft has are those of the draft. -/
structure Setting.Hosts (setting : Setting) (draft : Draft) : Prop where
  covers : setting.program.Covers draft.program
  indices : ∀ pair ∈ draft.indices, pair ∈ setting.indices
  known : ∀ pair ∈ setting.indices, pair.2.index < draft.program.values.size → pair ∈ draft.indices

/-- A position as a run finds it in a constant, where it goes through a floating-point number. -/
def Number.asPosition (position : Int) : Int := truncateToInt (Float.ofInt position)

/-- The machine has room for all values, and the constant positions are set. -/
structure Setting.Serves (setting : Setting) (machine : Machine) : Prop where
  size_le : setting.program.values.size ≤ machine.frame.size
  position : ∀ pair ∈ setting.indices,
    machine.frame.getD pair.2.index none = some (.scalar (.int (Number.asPosition pair.1)))

section Drafts

variable {start middle now draft : Draft} {setting : Setting} {machine : Machine} {value : ValueId}

theorem Draft.Tidy.index_lt (tidy : draft.Tidy) {pair : Int × ValueId} (member : pair ∈ draft.indices) :
    pair.2.index < draft.program.values.size := by
  obtain ⟨op, -, isPosition⟩ := tidy.indices pair member
  exact isPosition.lt (List.mem_singleton_self _)

/-- The draft at the beginning. -/
theorem tidy_draft {program : Program} {anchor : OpId} (placement : Placement) (placed : anchor ≠ program.root) :
    (program.draft anchor placement).Tidy where
  placed := placed
  lead _ := rfl
  heads op member := by cases member
  indices pair member := by cases member
  distinct first member := by cases member

/-- A draft with the same constant positions, and perhaps more in its body. -/
theorem Draft.Tidy.grow {allowed : OpKind → Prop} (tidy : start.Tidy)
    (reached : start.program.Extends allowed now.program) (anchor : now.anchor = start.anchor)
    (hoisted : now.hoisted = start.hoisted) (lead : now.lead = start.lead) (indices : now.indices = start.indices)
    (started : start.started = true → now.started = true) : now.Tidy where
  placed := by rw [anchor, reached.root]; exact tidy.placed
  lead notStarted := by
    rw [lead]
    refine tidy.lead (Bool.eq_false_iff.mpr fun isStarted => ?_)
    rw [started isStarted] at notStarted
    cases notStarted
  heads op member := by
    rw [Draft.constants, hoisted, lead] at member
    obtain ⟨pair, among, isPosition⟩ := tidy.heads op member
    exact ⟨pair, indices ▸ among, isPosition.extend reached⟩
  indices pair member := by
    obtain ⟨op, among, isPosition⟩ := tidy.indices pair (indices ▸ member)
    refine ⟨op, ?_, isPosition.extend reached⟩
    rwa [Draft.constants, hoisted, lead]
  distinct := indices ▸ tidy.distinct

theorem Draft.Follows.refl (draft : Draft) : draft.Follows draft :=
  ⟨.refl _, rfl, rfl, fun _ => id, fun _ member _ => member⟩

theorem Draft.Follows.trans (first : start.Follows middle) (second : middle.Follows now) : start.Follows now where
  program := first.program.trans second.program
  anchor := second.anchor.trans first.anchor
  placement := second.placement.trans first.placement
  indices pair member := second.indices pair (first.indices pair member)
  fresh pair member below :=
    first.fresh pair (second.fresh pair member (below.trans_le first.program.values_le)) below

/-- With no further constant positions, only the entries of the program matter. -/
theorem Draft.Follows.of_indices (reached : start.program.Extends (fun _ => True) now.program)
    (anchor : now.anchor = start.anchor) (placement : now.placement = start.placement)
    (indices : now.indices = start.indices) : start.Follows now :=
  ⟨reached, anchor, placement, fun _ member => indices ▸ member, fun _ member _ => indices ▸ member⟩

/-- A setting for what has been built later is one for what was built before. -/
theorem Setting.Hosts.of_follows (hosts : setting.Hosts now) (follows : start.Follows now) : setting.Hosts start where
  covers := hosts.covers.of_extends follows.program
  indices pair member := hosts.indices pair (follows.indices pair member)
  known pair member below :=
    follows.fresh pair (hosts.known pair member (below.trans_le follows.program.values_le)) below

/-- A value that is new in a draft without new constant positions is none of them. -/
theorem Setting.Hosts.ne_of_new (hosts : setting.Hosts now) (tidy : start.Tidy) (indices : now.indices = start.indices)
    (new : start.program.values.size ≤ value.index) (below : value.index < now.program.values.size) :
    ∀ pair ∈ setting.indices, pair.2 ≠ value := by
  rintro pair member rfl
  -- It would be one of the draft, and those are older.
  have among := hosts.known pair member below
  rw [indices] at among
  exact absurd (tidy.index_lt among) (not_lt.mpr new)

theorem getD_setIfInBounds_of_ne {α : Type} {items : Array (Option α)} {first second : Nat} {item : Option α}
    (distinct : first ≠ second) : (items.setIfInBounds first item).getD second none = items.getD second none := by
  rw [Array.getD_eq_getD_getElem?, Array.getD_eq_getD_getElem?, Array.getElem?_setIfInBounds_ne distinct]

theorem getD_setIfInBounds_self {α : Type} {items : Array (Option α)} {index : Nat} (item : Option α)
    (below : index < items.size) : (items.setIfInBounds index item).getD index none = item := by
  rw [Array.getD_eq_getD_getElem?, Array.getElem?_setIfInBounds_self_of_lt below]
  rfl

/-- The constant positions stay set when the data of another value is. -/
theorem Setting.Serves.write (serves : setting.Serves machine) (other : ∀ pair ∈ setting.indices, pair.2 ≠ value)
    (slot : Slot) (memory : Array Grid) :
    setting.Serves { frame := machine.frame.setIfInBounds value.index (some slot), memory } where
  size_le := by simpa using serves.size_le
  position pair member := by
    rw [getD_setIfInBounds_of_ne]
    · exact serves.position pair member
    · exact fun same => other pair member (congrArg ValueId.mk same.symm)

end Drafts

/-! ### Scenes -/

/-- What is known about a machine: the data of some values, and the contents of all buffers. -/
structure View where
  slot? : ValueId → Option Slot
  memory : Array Grid

/-- The machine is as it is known to be. -/
structure Machine.Fits (machine : Machine) (view : View) : Prop where
  slot : ∀ value slot, view.slot? value = some slot → machine.frame.getD value.index none = some slot
  memory : machine.memory = view.memory

/-- A draft with what is known in each of a number of situations. -/
structure Scene (σ : Type) where
  draft : Draft
  view : σ → View
  tidy : draft.Tidy
  /-- Nothing is known about values that have not been built yet. -/
  below : ∀ s value slot, (view s).slot? value = some slot → value.index < draft.program.values.size
  /-- The constant positions are known. -/
  positions : ∀ s, ∀ pair ∈ draft.indices,
    (view s).slot? pair.2 = some (.scalar (.int (Number.asPosition pair.1)))

namespace Scene

variable {σ τ υ : Type} {start middle now : Scene σ} {value : ValueId} {type : Ty} {slot : σ → Slot}

/-- The contents of all buffers. -/
def memory (scene : Scene σ) (s : σ) : Array Grid := (scene.view s).memory

/-- The type of the value and its data are known. -/
structure Holds (scene : Scene σ) (value : ValueId) (type : Ty) (slot : σ → Slot) : Prop where
  typed : scene.draft.program.typeOf? value = some type
  known : ∀ s, (scene.view s).slot? value = some (slot s)

/-- What is known in one scene is known in another one, which is in order there. -/
structure Reaches (start : Scene σ) (outer : τ → σ) (now : Scene τ) : Prop where
  follows : start.draft.Follows now.draft
  slots : ∀ t value slot, (start.view (outer t)).slot? value = some slot → (now.view t).slot? value = some slot

/-- What has been built in between, run in any setting, takes every machine of the first scene to one of the
second. -/
structure Leads (start : Scene σ) (added : Body) (now : Scene σ) : Prop
    extends Reaches start id now where
  code : now.draft.code = start.draft.code.append added
  runs : ∀ setting : Setting, setting.Hosts now.draft → ∀ s machine call, setting.Serves machine →
    machine.Fits (start.view s) → ∃ final, setting.Serves final ∧ final.Fits (now.view s) ∧
      ∀ rest, ((added.append rest).run setting.program call).run machine =
        (rest.run setting.program call).run final

theorem Reaches.refl (scene : Scene σ) : scene.Reaches id scene := ⟨.refl _, fun _ _ _ => id⟩

theorem Reaches.trans {second : Scene τ} {third : Scene υ} {outer : τ → σ} {inner : υ → τ}
    (first : start.Reaches outer second) (later : second.Reaches inner third) :
    start.Reaches (outer ∘ inner) third :=
  ⟨first.follows.trans later.follows, fun t value slot known =>
    later.slots t value slot (first.slots (inner t) value slot known)⟩

theorem Reaches.covers {later : Scene τ} {outer : τ → σ} (reaches : start.Reaches outer later) :
    later.draft.program.Covers start.draft.program :=
  (Program.Covers.refl _).of_extends reaches.follows.program

/-- What is known stays known. -/
theorem Holds.reaches {later : Scene τ} {outer : τ → σ} (holds : start.Holds value type slot)
    (reaches : start.Reaches outer later) : later.Holds value type fun t => slot (outer t) where
  typed := by
    rw [Program.typeOf?, reaches.follows.program.value_eq value (Program.lt_of_typeOf? holds.typed)]
    exact holds.typed
  known t := reaches.slots t value _ (holds.known (outer t))

/-- The data that is known may be stated in another way. -/
theorem Holds.congr {other : σ → Slot} (holds : start.Holds value type slot) (same : ∀ s, slot s = other s) :
    start.Holds value type other where
  typed := holds.typed
  known s := same s ▸ holds.known s

theorem Holds.lt (holds : start.Holds value type slot) : value.index < start.draft.program.values.size :=
  Program.lt_of_typeOf? holds.typed

/-- Nothing has been built in between. -/
theorem Leads.refl (scene : Scene σ) : scene.Leads .nil scene where
  toReaches := .refl scene
  code := (Body.append_nil _).symm
  runs _ _ _ machine _ serves fits := ⟨machine, serves, fits, fun _ => rfl⟩

theorem Leads.trans {added more : Body} (first : start.Leads added middle) (second : middle.Leads more now) :
    start.Leads (added.append more) now where
  toReaches := first.toReaches.trans second.toReaches
  code := by rw [second.code, first.code, Body.append_assoc]
  runs setting hosts s machine call serves fits := by
    obtain ⟨between, servesBetween, fitsBetween, runFirst⟩ :=
      first.runs setting (hosts.of_follows second.follows) s machine call serves fits
    obtain ⟨final, servesFinal, fitsFinal, runSecond⟩ :=
      second.runs setting hosts s between call servesBetween fitsBetween
    refine ⟨final, servesFinal, fitsFinal, fun rest => ?_⟩
    rw [Body.append_assoc, runFirst, runSecond]

/-! ### What a run finds -/

/-- A machine in a situation of a scene, with a program that has at least the entries of its draft. -/
structure Meets (scene : Scene σ) (s : σ) (program : Program) (machine : Machine) : Prop where
  covers : program.Covers scene.draft.program
  fits : machine.Fits (scene.view s)

namespace Meets

variable {scene : Scene σ} {s : σ} {program : Program} {machine : Machine}

theorem typed (meets : scene.Meets s program machine) (holds : scene.Holds value type slot) :
    program.typed value = .ok type :=
  Program.typed_of_typeOf? (meets.covers.typeOf?_eq holds.typed)

theorem read (meets : scene.Meets s program machine) (holds : scene.Holds value type slot) :
    (Run.read program value).run machine = .ok (slot s, machine) := by
  have gives : (get : Run Machine).run machine = .ok (machine, machine) := rfl
  rw [Run.read, Run.run_bind_of gives, meets.fits.slot value _ (holds.known s)]
  rfl

theorem readScalar (meets : scene.Meets s program machine) {number : σ → Scalar}
    (holds : scene.Holds value type fun s => .scalar (number s)) :
    (Run.readScalar program value).run machine = .ok (number s, machine) := by
  rw [Run.readScalar, Run.run_bind_of (meets.read holds)]
  rfl

theorem readInt (meets : scene.Meets s program machine) {number : σ → Int}
    (holds : scene.Holds value type fun s => .scalar (.int (number s))) :
    (Run.readInt program value).run machine = .ok (number s, machine) := by
  rw [Run.readInt, Run.run_bind_of (meets.readScalar holds)]
  rfl

theorem memory (meets : scene.Meets s program machine) : machine.memory = scene.memory s :=
  meets.fits.memory

end Meets

end Scene

end TensorIR
