import TensorIR.Proofs.Emission.Arithmetic
import TensorIR.Proofs.Emission.Nests
import TensorIR.Proofs.Tensors.Numbering

/-!
# Buffers that are built

A new buffer stands behind all others in memory and holds zeros. What is loaded from a buffer at a position of its
shape is its element there, and storing puts an element there. Loops that store an element at each position of the
new buffer fill it with these elements.

## Main definitions

* `Scene.HoldsBuffer` — a value that is known to be the buffer at a place in memory
* `Scene.Stores` — a buffer with known contents

## Main results

* `Scene.emits_alloc`, `Scene.emits_load`, `Scene.emits_store` — the operations on buffers
* `Scene.emits_changes`, `Scene.emits_fill` — loops that change a new buffer position by position, or fill it
-/

namespace TensorIR

open Grid (tabulate)
open Shape (Inside Static)

theorem modify_eq_set {α : Type} {items : Array α} {index : Nat} {item : α} (found : items[index]? = some item)
    (change : α → α) : items.modify index change = items.setIfInBounds index (change item) := by
  refine Array.ext_getElem? fun other => ?_
  rw [Array.getElem?_modify, Array.getElem?_setIfInBounds]
  by_cases same : index = other
  · subst same
    rw [if_pos rfl, if_pos rfl, if_pos (Array.getElem?_eq_some_iff.mp found).1, found, Option.map_some]
  · rw [if_neg same, if_neg same]

namespace Scene

variable {σ τ : Type} {start now : Scene σ} {buffer value : ValueId} {shape : List Int} {element : ScalarType}
  {place : σ → Nat} {grid : σ → Grid} {position : σ → List Int} {places : List ValueId}

/-- The value is known to be the buffer at a place in memory. -/
abbrev HoldsBuffer (scene : Scene σ) (value : ValueId) (shape : List Int) (element : ScalarType) (place : σ → Nat) :
    Prop :=
  scene.Holds value (.shaped (.memref shape element)) fun s => .buffer (place s)

/-- The value is known to be a buffer with known contents. -/
def Stores (scene : Scene σ) (value : ValueId) (shape : List Int) (element : ScalarType) (grid : σ → Grid) : Prop :=
  ∃ place : σ → Nat, scene.HoldsBuffer value shape element place ∧
    (∀ s, (scene.memory s)[place s]? = some (grid s)) ∧ ∀ s, (grid s).Fits shape element

/-- A buffer keeps its contents when only one behind it is changed. -/
theorem Stores.inside {state : τ → Grid} {inner : Scene τ} {outer : τ → σ}
    (stores : start.Stores buffer shape element grid) (reaches : start.Reaches outer inner)
    (memory : inner.memory = fun t => (start.memory (outer t)).push (state t)) :
    inner.Stores buffer shape element fun t => grid (outer t) := by
  obtain ⟨place, holds, found, fits⟩ := stores
  refine ⟨_, holds.reaches reaches, fun t => ?_, fun t => fits (outer t)⟩
  have below := (Array.getElem?_eq_some_iff.mp (found (outer t))).1
  rw [memory, Array.getElem?_push_lt below]
  exact (Array.getElem?_eq_getElem below).symm.trans (found (outer t))

/-- A buffer keeps its contents when the memory stays as it is. -/
theorem Stores.reaches {inner : Scene τ} {outer : τ → σ} (stores : start.Stores buffer shape element grid)
    (reaches : start.Reaches outer inner) (memory : inner.memory = fun t => start.memory (outer t)) :
    inner.Stores buffer shape element fun t => grid (outer t) := by
  obtain ⟨place, holds, found, fits⟩ := stores
  exact ⟨_, holds.reaches reaches, fun t => memory ▸ found (outer t), fun t => fits (outer t)⟩

/-- The type of a buffer that is known. -/
theorem Holds.bufferType_bind {α : Type} {memory : σ → Array Grid} {slot : σ → Slot} {next : ShapedType → Build α}
    {post : α → Scene σ → Prop} {type : ShapedType} (holds : start.Holds value (.shaped type) slot)
    (later : start.Emits (next type) memory post) : start.Emits (Loops.bufferType value >>= next) memory post := by
  refine Emits.askFor_bind ?_ later
  rw [Program.typed_of_typeOf? holds.typed]
  rfl

theorem Meets.bufferOf {s : σ} {program : Program} {machine : Machine} (meets : start.Meets s program machine)
    (holds : start.HoldsBuffer buffer shape element place) (op : OpId) :
    (Run.bufferOf program op buffer).run machine = .ok (place s, machine) := by
  rw [Run.bufferOf, Run.run_bind_of (meets.read holds)]
  rfl

/-- The contents of a buffer that is in memory. -/
theorem Meets.contents {s : σ} {program : Program} {machine : Machine} (meets : start.Meets s program machine)
    (found : (start.memory s)[place s]? = some (grid s)) :
    (Run.contents (place s)).run machine = .ok (grid s, machine) := by
  change Except.ok (machine.memory.getD (place s) default, machine) = _
  rw [meets.memory, Array.getD_eq_getD_getElem?, found, Option.getD_some]

theorem Meets.storeAt {s : σ} {program : Program} {machine : Machine} (meets : start.Meets s program machine)
    (found : (start.memory s)[place s]? = some (grid s)) (fits : (grid s).Fits shape element)
    (inside : Inside (position s) shape) (x : Scalar) :
    (Run.storeAt (place s) (position s) x).run machine = .ok (⟨⟩, { machine with
      memory := (start.memory s).setIfInBounds (place s) ((grid s).put (position s) x) }) := by
  rw [Run.storeAt, Run.run_bind_of (meets.contents found), Run.run_bind_of (Run.run_lift (fits.offset_eq inside)),
    ← meets.memory]
  rw [← meets.memory] at found
  change Except.ok ((⟨⟩ : PUnit), { machine with memory := machine.memory.modify (place s) _ }) = _
  rw [modify_eq_set found, Grid.put, fits.shape_eq]

/-- A new buffer holds zeros. -/
theorem emits_alloc (start : Scene σ) (shape : List Int) (element : ScalarType) :
    start.Emits (Loops.alloc shape element) (fun s => (start.memory s).push (Grid.filled shape element 0.0))
      fun value now => now.HoldsBuffer value shape element fun s => (start.memory s).size := by
  refine emits_value rfl fun program op value s machine meets defines => ?_
  have typed : program.typed value = .ok (.shaped (.memref shape element)) :=
    Program.typed_of_typeOf? (by simpa using defines.types_eq)
  have result : (monadLift (program.result op 0) : Run ValueId).run machine = .ok (value, machine) :=
    Run.run_lift (by rw [Program.result, defines.results_eq]; rfl)
  rw [Run.plainOp, defines.kind_eq]
  dsimp only
  rw [Run.memrefOp, Run.run_bind_of result, Run.run_bind_of (Run.run_lift typed), ← meets.memory]
  rfl

/-- What is loaded from a buffer at a position of its shape. -/
theorem emits_load (stores : start.Stores buffer shape element grid) (locates : start.Locates places position)
    (inside : ∀ s, Inside (position s) shape) :
    start.Emits (Loops.load buffer places) start.memory fun value now =>
      now.Holds value (.scalar element) fun s => .scalar ((grid s).entry (position s)) := by
  obtain ⟨place, holds, found, fits⟩ := stores
  refine holds.bufferType_bind ?_
  refine emits_pure rfl fun program op _ s machine meets defines => ?_
  rw [Run.plainOp, defines.kind_eq]
  dsimp only
  rw [Run.memrefOp, defines.operands_eq, List.drop_one, List.tail_cons, Run.run_bind_of (meets.readPosition locates),
    Run.run_bind_of (defines.run_operand rfl), Run.run_bind_of (meets.bufferOf holds op),
    Run.run_bind_of (meets.contents (found s)), Run.run_bind_of (Run.run_lift ((fits s).get_eq (inside s)))]
  rfl

/-- Storing puts an element at a position of the shape. -/
theorem emits_store {type : Ty} {x : σ → Scalar} (valueHolds : start.Holds value type fun s => .scalar (x s))
    (holds : start.HoldsBuffer buffer shape element place)
    (found : ∀ s, (start.memory s)[place s]? = some (grid s)) (fits : ∀ s, (grid s).Fits shape element)
    (locates : start.Locates places position) (inside : ∀ s, Inside (position s) shape) :
    start.Emits (Loops.store value buffer places)
      (fun s => (start.memory s).setIfInBounds (place s) ((grid s).put (position s) (x s))) fun _ _ => True := by
  refine emits_emit rfl fun program op s machine meets defines => ?_
  rw [Run.plainOp, defines.kind_eq]
  dsimp only
  rw [Run.memrefOp, defines.operands_eq, List.drop_succ_cons, List.drop_succ_cons, List.drop_zero,
    Run.run_bind_of (meets.readPosition locates),
    Run.run_bind_of (defines.run_operand rfl), Run.run_bind_of (meets.bufferOf holds op),
    Run.run_bind_of (defines.run_operand rfl), Run.run_bind_of (meets.readScalar valueHolds)]
  rw [Run.run_bind_of (meets.storeAt (found s) (fits s) (inside s) (x s))]
  rfl

/-! ### The buffer that is filled -/

variable {base : σ → Array Grid} {source : List Int} {body : List ValueId → Build Unit}

/-- The buffer behind all others. -/
theorem Stores.last (memory : start.memory = fun s => (base s).push (grid s))
    (holds : start.HoldsBuffer buffer shape element fun s => (base s).size)
    (fits : ∀ s, (grid s).Fits shape element) : start.Stores buffer shape element grid :=
  ⟨_, holds, fun s => by rw [memory, Array.getElem?_push_size], fits⟩

/-- Storing in the buffer behind all others. -/
theorem emits_store_last {type : Ty} {x : σ → Scalar} (memory : start.memory = fun s => (base s).push (grid s))
    (valueHolds : start.Holds value type fun s => .scalar (x s))
    (holds : start.HoldsBuffer buffer shape element fun s => (base s).size)
    (fits : ∀ s, (grid s).Fits shape element) (locates : start.Locates places position)
    (inside : ∀ s, Inside (position s) shape) :
    start.Emits (Loops.store value buffer places) (fun s => (base s).push ((grid s).put (position s) (x s)))
      fun _ _ => True := by
  have found : ∀ s, (start.memory s)[(base s).size]? = some (grid s) := by
    intro s
    rw [memory, Array.getElem?_push_size]
  refine (emits_store valueHolds holds found fits locates inside).of_memory (funext fun s => ?_)
  -- Setting the last buffer leaves those in front of it.
  rw [memory]
  refine Array.ext_getElem? fun index => ?_
  rw [Array.getElem?_setIfInBounds, Array.getElem?_push, Array.getElem?_push, Array.size_push]
  by_cases last : index = (base s).size
  · subst last
    simp
  · rw [if_neg (Ne.symm last), if_neg last, if_neg last]

/-- The body changes the buffer behind all others at each position of a shape, as long as it is a good one, in every
scene that the scene leads to inside the loops. -/
def Changes (start : Scene σ) (base : σ → Array Grid) (source : List Int) (good : Grid → Prop)
    (next : σ → List Int → Grid → Grid) (body : List ValueId → Build Unit) : Prop :=
  ∀ (τ : Type) (inner : Scene τ) (outer : τ → σ) (position : τ → List Int) (state : τ → Grid)
    (places : List ValueId), start.Reaches outer inner →
    inner.memory = (fun t => (base (outer t)).push (state t)) → (∀ t, Inside (position t) source) →
    (∀ t, good (state t)) → places.length = source.length → inner.Locates places position →
      inner.Emits (body places) (fun t => (base (outer t)).push (next (outer t) (position t) (state t)))
        fun _ _ => True

/-- Loops over a shape in which the buffer behind all others is changed at each position. -/
theorem emits_changes {first : σ → Grid} {good : Grid → Prop} {next : σ → List Int → Grid → Grid}
    (memory : start.memory = fun s => (base s).push (first s)) (begins : ∀ s, good (first s))
    (static : Static source) (loopable : Shape.Loopable source)
    (keeps : ∀ s position grid, Inside position source → good grid → good (next s position grid))
    (changes : start.Changes base source good next body) :
    start.Emits (Build.loopNest source body)
      (fun s => (base s).push
        ((Grid.positions source).foldl (fun grid position => next s position grid) (first s)))
      fun _ _ => True := by
  have visited {position : List Int} : position ∈ Shape.visits source ↔ Inside position source := by
    rw [Shape.visits_eq static loopable, Shape.mem_positions static]
  let sweep : Sweep σ Grid (Shape.visits source) :=
    { good := fun _ grid => good grid
      contents := fun s grid => (base s).push grid
      next := next
      preserved := fun s position grid member => keeps s position grid (visited.mp member) }
  have sweeps : start.Sweeps sweep (fun _ => []) source.length body := by
    intro τ inner outer position state places reaches memory member good count locates
    exact changes τ inner outer position state places reaches memory (fun t => visited.mp (member t)) good count locates
  rw [← Shape.visits_eq static loopable]
  exact emits_loopNest memory begins sweeps

/-- Loops that store an element at each position fill the buffer behind all others. -/
theorem emits_fill {first : σ → Grid} {compute : σ → List Int → Scalar}
    (memory : start.memory = fun s => (base s).push (first s)) (fits : ∀ s, (first s).Fits shape element)
    (static : Static shape) (loopable : Shape.Loopable shape)
    (fills : start.Changes base shape (·.Fits shape element)
      (fun s position grid => grid.put position (compute s position)) body) :
    start.Emits (Build.loopNest shape body) (fun s => (base s).push (tabulate shape element (compute s)))
      fun _ _ => True := by
  refine (emits_changes memory fits static loopable (fun s position grid _ fits => fits.put position _) fills).of_memory
    (funext fun s => ?_)
  rw [Grid.foldl_put (fits s) static]

end Scene

end TensorIR
