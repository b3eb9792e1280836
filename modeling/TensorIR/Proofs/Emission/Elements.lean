import TensorIR.Proofs.Emission.Buffers
import TensorIR.Proofs.Emission.Places

/-!
# Tensor operations as loops

Loops over the shape of the result compute the elements of a new buffer, each from elements of the operands.

## Main definitions

* `Scene.Input` — a buffer from which elements are loaded
* `Scene.CastsTo` — each element that is loaded is converted to an integer

## Main results

* `Scene.emits_gather` — elements of the operand at other positions
* `Scene.emits_elementwise`, `Scene.emits_each` — elements that are computed from those of operands that are broadcast,
  or of one operand
* `Scene.emits_sum` — elements of the operand that are converted and added up
-/

namespace TensorIR

open Grid (tabulate)
open Shape (Inside Static aligned Loopable)

namespace Scene

variable {σ : Type} {start : Scene σ} {op : OpId} {value input : ValueId} {shape source : List Int}
  {element from_ : ScalarType} {dtype : Option Dtype} {grid : σ → Grid}

/-- A number of the right type needs no conversion. -/
theorem emits_cast_self {slot : σ → Slot} (holds : start.Holds value (.scalar element) slot) :
    start.Emits (Loops.cast value element) start.memory fun result now => now.Holds result (.scalar element) slot := by
  refine holds.scalarType_bind ?_
  rw [if_pos rfl]
  exact Emits.pure holds

/-- A new buffer is filled by loops over its shape. -/
theorem emits_filled {compute : σ → List Int → Scalar} {body : ValueId → List ValueId → Build Unit}
    (static : Static shape) (loopable : Loopable shape)
    (fills : ∀ output (now : Scene σ), start.Reaches id now →
      now.memory = (fun s => (start.memory s).push (Grid.filled shape element 0.0)) →
      now.HoldsBuffer output shape element (fun s => (start.memory s).size) →
        now.Changes start.memory shape (·.Fits shape element)
          (fun s position grid => grid.put position (compute s position)) (body output)) :
    start.Emits (do
      let output ← Loops.alloc shape element
      Build.loopNest shape (body output)
      return output) (fun s => (start.memory s).push (tabulate shape element (compute s))) fun result now =>
        now.HoldsBuffer result shape element fun s => (start.memory s).size := by
  refine (emits_alloc start shape element).bind fun output now reaches memory holds => ?_
  have zeros : ∀ s : σ, (Grid.filled shape element 0.0).Fits shape element :=
    fun _ => Grid.filled_fits static element 0.0
  refine (emits_fill memory zeros static loopable (fills output now reaches memory holds)).bind
    fun _ last reaches memory _ => ?_
  exact (Emits.pure (holds.reaches reaches)).of_memory memory

/-- Elements of the operand at other positions. -/
theorem emits_gather {origin : σ → List Int → List Int} {places : List ValueId → Build (List ValueId)}
    (result : start.draft.program.resultTensor op = .ok (shape, element, dtype))
    (isInput : start.draft.program.operand op 0 = .ok input) (static : Static shape) (loopable : Loopable shape)
    (stores : start.Stores input source element grid)
    (inside : ∀ s position, Inside position shape → Inside (origin s position) source)
    (locates : ∀ (τ : Type) (inner : Scene τ) (outer : τ → σ) (position : τ → List Int) (values : List ValueId),
      start.Reaches outer inner → (∀ t, Inside (position t) shape) → inner.Locates values position →
        inner.Emits (places values) inner.memory fun result now =>
          now.Locates result fun t => origin (outer t) (position t)) :
    start.Emits (Loops.gather op places)
      (fun s => (start.memory s).push (tabulate shape element fun position => (grid s).entry (origin s position)))
      fun result now => now.HoldsBuffer result shape element fun s => (start.memory s).size := by
  refine Emits.askFor_bind result (Emits.askFor_bind isInput ?_)
  refine emits_filled static loopable fun output now reaches _ holds => ?_
  intro τ inner outer position state values reachesInner memory within fits _ located
  have reachesStart := reaches.trans reachesInner
  refine (locates τ inner outer position values reachesStart within located).bind
    fun values atOrigin reachesOrigin memoryOrigin located' => ?_
  have storesInner := (stores.inside reachesStart memory).reaches reachesOrigin memoryOrigin
  refine (emits_load storesInner located' fun t => inside _ _ (within t)).bind
    fun x atLoad reachesLoad memoryLoad holdsLoad => ?_
  refine (emits_cast_self holdsLoad).bind fun x atCast reachesCast memoryCast holdsCast => ?_
  have reachesCast := (reachesOrigin.trans reachesLoad).trans reachesCast
  exact emits_store_last (((memoryCast.trans memoryLoad).trans memoryOrigin).trans memory) holdsCast
    (holds.reaches (reachesInner.trans reachesCast)) fits (located.reaches reachesCast) within

/-! ### Elements at one position of several operands -/

/-- A buffer from which elements are loaded. -/
structure Input (σ : Type) where
  value : ValueId
  shape : List Int
  element : ScalarType
  grid : σ → Grid

/-- The element that belongs to a position of the result. -/
def Input.entry (input : Input σ) (s : σ) (position : List Int) : Scalar :=
  (input.grid s).entry (aligned input.shape position)

variable {inputs : List (Input σ)}

/-- The shapes of buffers. -/
theorem emits_shapes (stores : ∀ input ∈ inputs, start.Stores input.value input.shape input.element input.grid)
    {α : Type} {memory : σ → Array Grid} {post : α → Scene σ → Prop} {next : List (List Int) → Build α}
    (later : start.Emits (next (inputs.map Input.shape)) memory post) :
    start.Emits ((inputs.map Input.value).mapM (fun input => return (← Loops.bufferType input).shape) >>= next) memory
      post := by
  induction inputs generalizing next with
  | nil => exact later
  | cons input inputs ih =>
    obtain ⟨_, holds, -, -⟩ := stores input List.mem_cons_self
    rw [List.map_cons, List.mapM_cons]
    simp only [bind_assoc, pure_bind]
    exact holds.bufferType_bind (ih (fun other member => stores other (List.mem_cons_of_mem _ member)) later)

/-- The elements of buffers at the position of a round. -/
theorem emits_loads {τ : Type} {outer : τ → σ} {position : τ → List Int} {places : List ValueId} {shape : List Int}
    (within : ∀ t, Inside (position t) shape)
    (stretches : ∀ input ∈ inputs, Shape.Stretches (Shape.raised shape.length input.shape) shape) :
    ∀ {inner : Scene τ}, inner.Locates places position →
      (∀ input ∈ inputs, inner.Stores input.value input.shape input.element fun t => input.grid (outer t)) →
      inner.Emits (((inputs.map Input.value).zip (inputs.map Input.shape)).mapM fun (input, inputShape) => do
          Loops.load input (← Loops.alignedPosition inputShape places))
        inner.memory fun loaded now => now.HoldsAll loaded (inputs.map fun input => .scalar input.element)
          fun t => inputs.map fun input => .scalar (input.entry (outer t) (position t)) := by
  induction inputs with
  | nil => exact fun _ _ => .pure .nil
  | cons input inputs ih =>
    intro inner located stores
    rw [List.map_cons, List.map_cons, List.zip_cons_cons, List.mapM_cons, bind_assoc]
    refine (emits_alignedPosition input.shape located).bind fun origin atPlace reachesPlace memoryPlace isOrigin => ?_
    have storesFirst := (stores input List.mem_cons_self).reaches reachesPlace memoryPlace
    refine ((emits_load storesFirst isOrigin fun t => (within t).aligned_of_raised
      (stretches input List.mem_cons_self)).of_memory memoryPlace).bind fun x atLoad reachesLoad memoryLoad isX => ?_
    have reaches := reachesPlace.trans reachesLoad
    refine ((ih (fun other member => stretches other (List.mem_cons_of_mem _ member)) (located.reaches reaches)
      fun other member => (stores other (List.mem_cons_of_mem _ member)).reaches reaches memoryLoad).of_memory
      memoryLoad).bind fun loaded now reachesAll memory areLoaded => ?_
    exact (Emits.pure (HoldsAll.cons (isX.reaches reachesAll) areLoaded)).of_memory memory

/-- Elements that are computed from those of operands that are broadcast. -/
theorem emits_elementwise {values : σ → List Int → Scalar} {compute : List ValueId → Build ValueId}
    (static : Static shape) (loopable : Loopable shape)
    (stores : ∀ input ∈ inputs, start.Stores input.value input.shape input.element input.grid)
    (stretches : ∀ input ∈ inputs, Shape.Stretches (Shape.raised shape.length input.shape) shape)
    (computes : ∀ (τ : Type) (inner : Scene τ) (outer : τ → σ) (position : τ → List Int) (loaded : List ValueId),
      start.Reaches outer inner → (∀ t, Inside (position t) shape) →
      inner.HoldsAll loaded (inputs.map fun input => .scalar input.element)
        (fun t => inputs.map fun input => .scalar (input.entry (outer t) (position t))) →
        inner.Emits (compute loaded) inner.memory fun result now =>
          now.Holds result (.scalar element) fun t => .scalar (values (outer t) (position t))) :
    start.Emits (Loops.elementwise (inputs.map Input.value) shape element compute)
      (fun s => (start.memory s).push (tabulate shape element (values s))) fun result now =>
        now.HoldsBuffer result shape element fun s => (start.memory s).size := by
  have ranks : ((inputs.map Input.shape).any fun input => input.length > shape.length) = false := by
    rw [List.any_map, List.any_eq_false]
    exact fun input member => by simpa using Shape.length_le_of_stretches (stretches input member)
  rw [Loops.elementwise]
  refine emits_shapes stores ?_
  rw [if_neg (Bool.eq_false_iff.mp ranks)]
  refine emits_filled static loopable fun output now reaches _ holds => ?_
  intro τ inner outer position state places reachesInner memory within fits _ located
  have reachesStart := reaches.trans reachesInner
  refine (emits_loads within stretches located fun input member =>
    (stores input member).inside reachesStart memory).bind fun loaded atLoad reachesLoad memoryLoad areLoaded => ?_
  refine (computes τ atLoad outer position loaded (reachesStart.trans reachesLoad) within areLoaded).bind
    fun value atValue reachesValue memoryValue holdsValue => ?_
  refine (emits_cast_self holdsValue).bind fun value atCast reachesCast memoryCast holdsCast => ?_
  have reachesAll := (reachesLoad.trans reachesValue).trans reachesCast
  exact emits_store_last (((memoryCast.trans memoryValue).trans memoryLoad).trans memory) holdsCast
    (holds.reaches (reachesInner.trans reachesAll)) fits (located.reaches reachesAll) within

/-- Elements that are computed from those of one operand. -/
theorem emits_each {input : ValueId} {grid : σ → Grid} {value : Scalar → Scalar} {compute : ValueId → Build ValueId}
    (static : Static shape) (loopable : Loopable shape) (stores : start.Stores input shape from_ grid)
    (computes : ∀ (τ : Type) (inner : Scene τ) (outer : τ → σ) (x : τ → Scalar) (loaded : ValueId),
      start.Reaches outer inner → (∀ t, ∃ position, Inside position shape ∧ x t = (grid (outer t)).entry position) →
      inner.Holds loaded (.scalar from_) (fun t => .scalar (x t)) →
        inner.Emits (compute loaded) inner.memory fun result now =>
          now.Holds result (.scalar element) fun t => .scalar (value (x t))) :
    start.Emits (Loops.elementwise [input] shape element (Loops.withOne compute))
      (fun s => (start.memory s).push (tabulate shape element fun position => value ((grid s).entry position)))
      fun result now => now.HoldsBuffer result shape element fun s => (start.memory s).size := by
  let inputs : List (Input σ) := [⟨input, shape, from_, grid⟩]
  have stretches : ∀ input ∈ inputs, Shape.Stretches (Shape.raised shape.length input.shape) shape := by
    refine List.forall_mem_singleton.mpr ?_
    rw [Shape.raised, Nat.sub_self]
    exact Shape.stretches_refl shape
  have atPosition {s : σ} {position : List Int} (inside : Inside position shape) :
      (⟨input, shape, from_, grid⟩ : Input σ).entry s position = (grid s).entry position := by
    rw [Input.entry, Shape.aligned_self inside]
  change start.Emits (Loops.elementwise (inputs.map Input.value) shape element _) _ _
  refine emits_elementwise static loopable (List.forall_mem_singleton.mpr stores) stretches ?_
  intro τ inner outer position loaded reaches within areLoaded
  obtain ⟨a, rfl, holds⟩ := areLoaded.exists_single
  exact computes τ inner outer _ a reaches (fun t => ⟨_, within t, rfl⟩)
    (holds.congr fun t => congrArg Slot.scalar (atPosition (within t)))

/-! ### Sums -/

/-- Each element that is loaded is converted to an integer. -/
def CastsTo (from_ element : ScalarType) (grid : σ → Grid) (values : σ → List Int → Int) : Prop :=
  ∀ (τ : Type) (inner : Scene τ) (outer : τ → σ) (position : τ → List Int) (loaded : ValueId),
    inner.Holds loaded (.scalar from_) (fun t => .scalar ((grid (outer t)).entry (position t))) →
      inner.Emits (Loops.cast loaded element) inner.memory fun result now =>
        now.HoldsInt result element fun t => values (outer t) (position t)

variable {values : σ → List Int → Int}

/-- The element at a position of the operand is converted and added to the sum that it belongs to. -/
theorem changes_sum {output : ValueId} {base : σ → Array Grid} {dims : List Nat} {keep : Bool}
    (notFloat : element.isFloat = false) (casts : CastsTo from_ element grid values)
    (belongs : ∀ s position, element.Holds (.int (values s position)))
    (holds : start.HoldsBuffer output shape element fun s => (base s).size)
    (stores : ∀ (τ : Type) (inner : Scene τ) (outer : τ → σ) (state : τ → Grid), start.Reaches outer inner →
      inner.memory = (fun t => (base (outer t)).push (state t)) →
        inner.Stores input source from_ fun t => grid (outer t))
    (inside : ∀ position, Inside position source →
      Inside (Shape.remaining dims.contains (Shape.kept keep 0) position) shape) :
    start.Changes base source (fun sums => sums.Fits shape element ∧ sums.Holds element)
      (fun s position sums => sums.put (Shape.remaining dims.contains (Shape.kept keep 0) position)
        (Scalar.add element (sums.entry (Shape.remaining dims.contains (Shape.kept keep 0) position))
          (.int (values s position))))
      (fun position => do
        let place ← Loops.reducedPosition dims keep 0 position
        let x ← Loops.cast (← Loops.load input position) element
        let sum ← Loops.binary .add (← Loops.load output place) x
        Loops.store sum output place) := by
  intro τ inner outer position sums places reaches memory within good _ located
  have target (t : τ) := inside (position t) (within t)
  -- The operand lies in front of the sums, so that loading from it does not see what has been added.
  refine (emits_reducedPosition dims keep places 0 located).bind fun place at1 reaches1 memory1 located1 => ?_
  have memoryPlace := memory1.trans memory
  have storesPlace := stores τ at1 outer sums (reaches.trans reaches1) memoryPlace
  refine (emits_load storesPlace (located.reaches reaches1) within).bind fun x at2 reaches2 memory2 holdsX => ?_
  refine (casts τ at2 outer position x holdsX).bind fun x at3 reaches3 memory3 holdsCast => ?_
  have reaches13 := (reaches1.trans reaches2).trans reaches3
  have memory13 := (memory3.trans memory2).trans memoryPlace
  have holdsOutput := holds.reaches (reaches.trans reaches13)
  refine (emits_load (.last memory13 holdsOutput fun t => (good t).1)
    (located1.reaches (reaches2.trans reaches3)) target).bind fun sum at4 reaches4 memory4 holdsSum => ?_
  have isSum : at4.HoldsInt sum element fun t => (sums t).integer
      (Shape.remaining dims.contains (Shape.kept keep 0) (position t)) := by
    refine holdsSum.congr fun t => ?_
    rw [((good t).2.entry_eq notFloat _).1]
    rfl
  have isAdd : Loops.Binary.onInts? .add = some (· + ·) := rfl
  refine (emits_binary isAdd notFloat isSum (holdsCast.reaches reaches4)
    (fun t => ((good t).2.entry_eq notFloat _).2) fun t => belongs (outer t) (position t)).bind
    fun total at5 reaches5 memory5 holdsTotal => ?_
  have isTotal : at5.Holds total (.scalar element) fun t => .scalar (Scalar.add element
      ((sums t).entry (Shape.remaining dims.contains (Shape.kept keep 0) (position t)))
      (.int (values (outer t) (position t)))) := by
    refine holdsTotal.congr fun t => ?_
    rw [((good t).2.entry_eq notFloat _).1, ScalarType.add_int notFloat]
    rfl
  exact emits_store_last ((memory5.trans memory4).trans memory13) isTotal
    (holdsOutput.reaches (reaches4.trans reaches5)) (fun t => (good t).1)
    (located1.reaches (((reaches2.trans reaches3).trans reaches4).trans reaches5)) target

/-- A new buffer is set to zero, and each element of the operand is added to the sum that it belongs to. -/
theorem emits_sum {dims : List Nat}
    (result : start.draft.program.resultTensor op = .ok (shape, element, dtype))
    (isInput : start.draft.program.operand op 0 = .ok input)
    (reduced : start.draft.program.reducedDims op source.length = .ok (some dims))
    (notFloat : element.isFloat = false) (casts : CastsTo from_ element grid values)
    (belongs : ∀ s position, element.Holds (.int (values s position)))
    (static : Static shape) (loopable : Loopable shape) (sourceStatic : Static source)
    (sourceLoopable : Loopable source) (stores : start.Stores input source from_ grid)
    (inside : ∀ position, Inside position source →
      Inside (Shape.remaining dims.contains (Shape.kept (shape.length == source.length) 0) position) shape) :
    ∃ y : σ → Grid, (∀ s, (y s).SumsUp shape element source
        (Shape.remaining dims.contains (Shape.kept (shape.length == source.length) 0)) (values s)) ∧
      start.Emits (Loops.sumOp op) (fun s => (start.memory s).push (y s)) fun result now =>
        now.HoldsBuffer result shape element fun s => (start.memory s).size := by
  let target := Shape.remaining dims.contains (Shape.kept (shape.length == source.length) 0)
  let zeros : Grid := tabulate shape element fun _ => .int 0
  have zerosFit : zeros.Fits shape element := Grid.tabulate_fits static element _
  -- The loops take the elements in row-major order, which a sum of integers that wraps around does not depend on.
  refine ⟨_, fun s =>
    Grid.foldl_add _ _ zerosFit sourceStatic notFloat (fun _ within => Grid.entry_tabulate within _) inside, ?_⟩
  obtain ⟨_, inputHolds, -, -⟩ := id stores
  refine Emits.askFor_bind result (Emits.askFor_bind isInput (inputHolds.bufferType_bind ?_))
  refine Emits.askFor_bind reduced ?_
  refine (emits_alloc start shape element).bind fun output atAlloc reachesAlloc memoryAlloc holds => ?_
  have fills : atAlloc.Changes start.memory shape (·.Fits shape element)
      (fun _ position grid => grid.put position (.int 0)) (fun position => do
        Loops.store (← Build.scalar 0.0 element) output position) := by
    intro τ inner outer position state places reachesInner memory within fits _ located
    refine (emits_zero notFloat).bind fun zero now reaches memoryZero holdsZero => ?_
    exact emits_store_last (memoryZero.trans memory) holdsZero (holds.reaches (reachesInner.trans reaches)) fits
      (located.reaches reaches) within
  refine (emits_fill memoryAlloc (fun _ => Grid.filled_fits static element 0.0) static loopable fills).bind
    fun _ atZeros reachesZeros memoryZeros _ => ?_
  have reaches := reachesAlloc.trans reachesZeros
  have storesInside (τ : Type) (inner : Scene τ) (outer : τ → σ) (state : τ → Grid)
      (reachesInner : atZeros.Reaches outer inner)
      (memory : inner.memory = fun t => (start.memory (outer t)).push (state t)) :
      inner.Stores input source from_ fun t => grid (outer t) :=
    stores.inside (reaches.trans reachesInner) memory
  have changes := changes_sum notFloat casts belongs (holds.reaches reachesZeros) storesInside inside
  have begins : zeros.Fits shape element ∧ zeros.Holds element :=
    ⟨zerosFit, Grid.tabulate_holds fun _ => element.holds_zero⟩
  refine (emits_changes memoryZeros (fun _ => begins) sourceStatic sourceLoopable (fun s position sums _ good =>
    ⟨good.1.put _ _, good.2.setIfInBounds (ScalarType.holds_arithmetic _ _) _⟩) changes).bind
    fun _ last reachesLast memoryLast _ => ?_
  exact (Emits.pure (holds.reaches (reachesZeros.trans reachesLast))).of_memory memoryLast

end Scene

end TensorIR
