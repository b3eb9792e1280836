import TensorIR.Proofs.Emission.Loops
import TensorIR.Proofs.ExactIntegers

/-!
# Loops inside each other

Loops over the sizes of a shape, one inside the other, run their body at all positions of the shape in row-major
order. The sizes are constants of the program that is built, and a run finds them through floating-point numbers.
So the positions are those of a shape only if its sizes are not too large, or if there are none.

## Main definitions

* `Scene.Locates` — values that are the coordinates of a position
* `Shape.visits` — the positions at which the body is run
* `Shape.Loopable` — shapes with sizes that are not too large
* `Sweep` — what is done at each position

## Main results

* `Shape.visits_eq` — all positions are visited in their order
* `Scene.emits_loopNest` — loops over a shape do what is done at each position, one after the other
-/

namespace TensorIR

open Number (asPosition)

/-! ### Positions that are visited -/

namespace Shape

variable {shape : List Int}

/-- A position that goes through a floating-point number stays what it is unless it is very large. -/
theorem asPosition_eq {position : Int} (nonneg : 0 ≤ position) (small : position ≤ 2 ^ 53) :
    asPosition position = position :=
  Number.truncateToInt_ofInt (by omega)

@[simp]
theorem asPosition_zero : asPosition 0 = 0 := asPosition_eq le_rfl (by decide)

@[simp]
theorem asPosition_one : asPosition 1 = 1 := asPosition_eq (by decide) (by decide)

/-- The positions at which the body of loops over the sizes is run. -/
def visits : List Int → List (List Int)
  | [] => [[]]
  | size :: shape =>
    (List.range (asPosition size).toNat).flatMap fun (place : Nat) => (visits shape).map (Int.ofNat place :: ·)

theorem mem_visits_cons {size : Int} {position : List Int} :
    position ∈ visits (size :: shape) ↔ ∃ place rest, position = place :: rest ∧ 0 ≤ place ∧
      place < asPosition size ∧ rest ∈ visits shape := by
  simp only [visits, List.mem_flatMap, List.mem_range, List.mem_map]
  constructor
  · rintro ⟨place, below, rest, visited, rfl⟩
    exact ⟨place, rest, rfl, Int.natCast_nonneg place, by omega, visited⟩
  · rintro ⟨place, rest, rfl, nonneg, below, visited⟩
    obtain ⟨place, rfl⟩ := Int.eq_ofNat_of_zero_le nonneg
    exact ⟨place, by omega, rest, visited, rfl⟩

theorem visits_of_exact (static : Static shape) (exact : ∀ size ∈ shape, asPosition size = size) :
    visits shape = Grid.positions shape := by
  induction shape with
  | nil => rfl
  | cons size shape ih =>
    rw [positions_cons static, visits, exact size List.mem_cons_self,
      ih (fun size member => static size (List.mem_cons_of_mem _ member))
        (fun size member => exact size (List.mem_cons_of_mem _ member))]

theorem visits_of_zero_mem (empty : 0 ∈ shape) : visits shape = [] := by
  induction shape with
  | nil => cases empty
  | cons size shape ih =>
    rcases List.mem_cons.mp empty with rfl | empty
    · rw [visits, asPosition_zero]
      rfl
    · simp [visits, ih empty]

theorem product_eq_zero_iff : product shape = 0 ↔ 0 ∈ shape := by
  rw [product, ← List.prod_eq_foldl, List.prod_eq_zero_iff]

/-- The sizes of the shape can be constant positions: a run finds them as they are, or there are no positions at
all. -/
def Loopable (shape : List Int) : Prop := 0 ∈ shape ∨ ∀ size ∈ shape, size ≤ 2 ^ 53

instance (shape : List Int) : Decidable (Loopable shape) := inferInstanceAs (Decidable (_ ∨ _))

/-- Loops over a shape visit all its positions in row-major order. -/
theorem visits_eq (static : Static shape) (loopable : Loopable shape) : visits shape = Grid.positions shape := by
  rcases loopable with empty | small
  · rw [visits_of_zero_mem empty, Grid.positions, product_eq_zero_iff.mpr empty]
    rfl
  · exact visits_of_exact static fun size member => asPosition_eq (static size member) (small size member)

end Shape

/-! ### Coordinates -/

namespace Scene

variable {σ τ γ : Type} {start : Scene σ} {values more : List ValueId} {position other : σ → List Int}

/-- The values are the coordinates of a position. -/
def Locates (scene : Scene σ) (values : List ValueId) (position : σ → List Int) : Prop :=
  ∃ numbers : List (σ → Int), (∀ s, position s = numbers.map fun number => number s) ∧
    List.Forall₂ (fun value number => scene.Holds value (.scalar .index) fun s => .scalar (.int (number s))) values
      numbers

namespace Locates

theorem nil : start.Locates [] fun _ => [] := ⟨[], fun _ => rfl, .nil⟩

theorem single {value : ValueId} {number : σ → Int}
    (holds : start.Holds value (.scalar .index) fun s => .scalar (.int (number s))) :
    start.Locates [value] fun s => [number s] := ⟨[number], fun _ => rfl, .cons holds .nil⟩

theorem append (first : start.Locates values position) (second : start.Locates more other) :
    start.Locates (values ++ more) fun s => position s ++ other s := by
  obtain ⟨numbers, isFirst, holds⟩ := first
  obtain ⟨further, isSecond, holdsToo⟩ := second
  exact ⟨numbers ++ further, fun s => by simp only [isFirst, isSecond, List.map_append], List.rel_append holds holdsToo⟩

theorem reaches {now : Scene τ} {outer : τ → σ} (locates : start.Locates values position)
    (reaches : start.Reaches outer now) : now.Locates values fun t => position (outer t) := by
  obtain ⟨numbers, isPosition, holds⟩ := locates
  refine ⟨numbers.map fun number t => number (outer t), fun t => ?_, ?_⟩
  · simp only [isPosition, List.map_map, Function.comp_def]
  · rw [List.forall₂_map_right_iff]
    exact holds.imp fun _ _ holds => holds.reaches reaches

end Locates

/-- The coordinates as a run reads them. -/
theorem Meets.readPosition {s : σ} {program : Program} {machine : Machine} (meets : start.Meets s program machine)
    (locates : start.Locates values position) :
    (values.mapM (Run.readInt program)).run machine = .ok (position s, machine) := by
  obtain ⟨numbers, isPosition, holds⟩ := locates
  rw [isPosition]
  clear isPosition
  induction holds with
  | nil => rfl
  | cons holds _ ih =>
    rw [List.mapM_cons, Run.run_bind_of (meets.readInt holds), Run.run_bind_of ih]
    rfl

end Scene

/-! ### What is done at all positions -/

/-- What loops do with a state at each of a list of positions, in each situation. The state determines the contents
of the buffers, and it has to be a good one. -/
structure Sweep (σ γ : Type) (listed : List (List Int)) where
  good : σ → γ → Prop
  contents : σ → γ → Array Grid
  next : σ → List Int → γ → γ
  preserved : ∀ s position state, position ∈ listed → good s state → good s (next s position state)

/-- What is done at the positions that are left when the first coordinate is known. -/
def Sweep.inside {σ γ : Type} {size : Int} {shape : List Int} (sweep : Sweep σ γ (Shape.visits (size :: shape))) :
    Sweep (Round (fun _ : σ => asPosition size) sweep.good) γ (Shape.visits shape) where
  good round := sweep.good round.outer
  contents round := sweep.contents round.outer
  next round position := sweep.next round.outer (round.place :: position)
  preserved round position state visited := sweep.preserved round.outer _ state
    (Shape.mem_visits_cons.mpr ⟨round.place, position, rfl, round.nonneg, round.below, visited⟩)

theorem Shape.foldl_visits_cons {γ : Type} {size : Int} {shape : List Int} {next : List Int → γ → γ} (state : γ) :
    (Shape.visits (size :: shape)).foldl (fun state position => next position state) state =
      (List.range (asPosition size).toNat).foldl (fun state (place : Nat) =>
        (Shape.visits shape).foldl (fun state position => next (Int.ofNat place :: position) state) state) state := by
  rw [Shape.visits, List.foldl_flatMap]
  simp only [List.foldl_map]

namespace Scene

variable {σ τ γ : Type} {start : Scene σ} {body : List ValueId → Build Unit}

/-- The body does what a sweep says, in every scene that the scene leads to inside the loops. The coordinates that
it gets come after those that are known already. -/
def Sweeps (start : Scene σ) {listed : List (List Int)} (sweep : Sweep σ γ listed) (before : σ → List Int) (rank : Nat)
    (body : List ValueId → Build Unit) : Prop :=
  ∀ (τ : Type) (inner : Scene τ) (outer : τ → σ) (position : τ → List Int) (state : τ → γ) (places : List ValueId),
    start.Reaches outer inner → inner.memory = (fun t => sweep.contents (outer t) (state t)) →
    (∀ t, position t ∈ listed) → (∀ t, sweep.good (outer t) (state t)) → places.length = rank →
    inner.Locates places (fun t => before (outer t) ++ position t) →
      inner.Emits (body places) (fun t => sweep.contents (outer t) (sweep.next (outer t) (position t) (state t)))
        fun _ _ => True

/-- Loops over sizes, inside of loops whose positions are known. -/
theorem emits_loopNestFrom {body : List ValueId → Build Unit} (shape : List Int) :
    ∀ {σ : Type} {start : Scene σ} {sweep : Sweep σ γ (Shape.visits shape)} {before : σ → List Int}
      {values : List ValueId} {first : σ → γ}, start.Locates values before →
      start.memory = (fun s => sweep.contents s (first s)) → (∀ s, sweep.good s (first s)) →
      start.Sweeps sweep before (values.length + shape.length) body →
        start.Emits (Build.loopNestFrom values body shape)
          (fun s => sweep.contents s
            ((Shape.visits shape).foldl (fun state position => sweep.next s position state) (first s)))
          fun _ _ => True := by
  induction shape with
  | nil =>
    intro σ start sweep before values first locates memory good sweeps
    refine sweeps σ start id (fun _ => []) first values (.refl start) memory
      (fun _ => List.mem_singleton_self _) good rfl ?_
    simpa using locates
  | cons size shape ih =>
    intro σ start sweep before values first locates memory good sweeps
    rw [Build.loopNestFrom]
    refine (emits_index start 0).bind fun lower atLower reachesLower memoryLower holdsLower => ?_
    refine (emits_index atLower size).bind fun upper atUpper reachesUpper memoryUpper holdsUpper => ?_
    refine (emits_index atUpper 1).bind fun step atStep reachesStep memoryStep holdsStep => ?_
    have reaches := (reachesLower.trans reachesUpper).trans reachesStep
    have lowerHolds : atStep.Holds lower (.scalar .index) fun _ => .scalar (.int 0) := by
      simpa using holdsLower.reaches (reachesUpper.trans reachesStep)
    have stepHolds : atStep.Holds step (.scalar .index) fun _ => .scalar (.int 1) := by simpa using holdsStep
    have begins := ((memoryStep.trans memoryUpper).trans memoryLower).trans memory
    -- A round of the outermost loop does what all loops inside of it do for one coordinate.
    let next (s : σ) (place : Int) (state : γ) : γ :=
      (Shape.visits shape).foldl (fun state position => sweep.next s (place :: position) state) state
    let inside (position : ValueId) (_ : List ValueId) : Build (List ValueId) := do
      Build.loopNestFrom (values ++ [position]) body shape
      return []
    have preserved : ∀ s place state, 0 ≤ place → place < asPosition size → sweep.good s state →
        sweep.good s (next s place state) := by
      intro s place state nonneg below isGood
      refine List.foldlRecOn _ _ isGood fun state isGood position visited => ?_
      exact sweep.preserved s _ state (Shape.mem_visits_cons.mpr ⟨place, position, rfl, nonneg, below, visited⟩) isGood
    have loop := @emits_forLoop σ γ atStep (fun _ => asPosition size) sweep.good sweep.contents (fun _ _ => []) first
      next lower upper step [] [] inside lowerHolds (holdsUpper.reaches reachesStep) stepHolds .nil begins good preserved
      (fun _ _ => rfl) ?rounds
    case rounds =>
      -- The situations inside are rounds, so the induction is over all kinds of situations.
      intro inner position _ reachesInner memoryInner holdsPosition _
      have later := reaches.trans reachesInner
      have nested := @ih _ inner sweep.inside (fun round => before round.outer ++ [round.place]) _ Round.state
        ((locates.reaches later).append (.single holdsPosition)) memoryInner (fun round => round.isGood) ?sweeps
      case sweeps =>
        intro τ inner' outer position state places reachesInner' memoryInner' visited good' count locates'
        have count' : places.length = values.length + (size :: shape).length := by
          rw [count, List.length_append, List.length_singleton, List.length_cons]
          omega
        refine sweeps τ inner' (fun t => (outer t).outer) (fun t => (outer t).place :: position t) state places
          (later.trans reachesInner') memoryInner' (fun t => ?_) good' count' (by simpa using locates')
        exact Shape.mem_visits_cons.mpr ⟨_, _, rfl, (outer t).nonneg, (outer t).below, visited t⟩
      refine nested.bind fun _ now _ memoryNow _ => ?_
      exact (Emits.pure HoldsAll.nil).of_memory memoryNow
    have whole : (fun s => sweep.contents s ((List.range (asPosition size).toNat).foldl
        (fun state (place : Nat) => next s place state) (first s))) = fun s => sweep.contents s
          ((Shape.visits (size :: shape)).foldl (fun state position => sweep.next s position state) (first s)) := by
      funext s
      rw [Shape.foldl_visits_cons]
      rfl
    exact (loop.of_memory whole).bind fun _ now _ memoryNow _ => (Emits.pure trivial).of_memory memoryNow

/-- Loops over the sizes of a shape do what is done at all positions, one after the other. -/
theorem emits_loopNest {shape : List Int} {sweep : Sweep σ γ (Shape.visits shape)} {first : σ → γ}
    (memory : start.memory = fun s => sweep.contents s (first s)) (good : ∀ s, sweep.good s (first s))
    (sweeps : start.Sweeps sweep (fun _ => []) shape.length body) :
    start.Emits (Build.loopNest shape body)
      (fun s => sweep.contents s
        ((Shape.visits shape).foldl (fun state position => sweep.next s position state) (first s)))
      fun _ _ => True :=
  emits_loopNestFrom shape .nil memory good (by simpa using sweeps)

end Scene

end TensorIR
