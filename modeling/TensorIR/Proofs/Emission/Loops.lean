import TensorIR.Proofs.Emission.Steps
import TensorIR.Proofs.Tensors.Numbering

/-!
# Loops that are built

The body of a loop is built once and run in every round. So it is built in a scene of its own, whose situations
are the rounds: the position of the round is known there, and so are the values that the loop carries and the
contents of the buffers, which are what the rounds before have left. A loop leads to what its rounds make of the
carried values and of the buffers, one after the other.

## Main definitions

* `Scene.HoldsAll` — values that are known
* `Scene.withValues` — a scene in which further values are known
* `Round` — a situation in the body of a loop

## Main results

* `Build.run_forLoop` — how a loop is built
* `Scene.emits_forLoop` — what a loop does with the values that it carries and with the buffers
-/

namespace TensorIR

/-! ### Several values -/

theorem lookup_zip_of_notMem {values : List ValueId} {value : ValueId} (absent : value ∉ values) (slots : List Slot) :
    (values.zip slots).lookup value = none :=
  List.lookup_eq_none_iff.mpr fun _ member =>
    bne_iff_ne.mpr (ne_of_mem_of_not_mem (List.of_mem_zip member).1 absent).symm

/-- Values without repetition are written one after the other. -/
theorem Run.run_writeEach {values : List ValueId} {machine : Machine} (slots : List Slot) (nodup : values.Nodup)
    (room : ∀ value ∈ values, value.index < machine.frame.size) :
    ∃ final, (Run.writeEach values slots).run machine = .ok (⟨⟩, final) ∧ final.memory = machine.memory ∧
      final.frame.size = machine.frame.size ∧ ∀ value : ValueId, final.frame.getD value.index none =
        ((values.zip slots).lookup value).or (machine.frame.getD value.index none) := by
  induction values generalizing slots machine with
  | nil => exact ⟨machine, rfl, rfl, rfl, fun _ => rfl⟩
  | cons value values ih =>
    cases slots with
    | nil => exact ⟨machine, rfl, rfl, rfl, fun _ => rfl⟩
    | cons slot slots =>
      obtain ⟨apart, nodup⟩ := List.nodup_cons.mp nodup
      obtain ⟨final, run, memory, size, frame⟩ := @ih
        { machine with frame := machine.frame.setIfInBounds value.index (some slot) } slots nodup
        (fun other member => by simpa using room other (List.mem_cons_of_mem _ member))
      refine ⟨final, (Run.run_writeEach_cons value slot values slots).trans run, memory,
        size.trans Array.size_setIfInBounds, fun other => ?_⟩
      rw [frame other, List.zip_cons_cons, List.lookup_cons]
      by_cases same : other = value
      · subst same
        rw [lookup_zip_of_notMem apart, beq_self_eq_true,
          getD_setIfInBounds_self _ (room other List.mem_cons_self)]
        rfl
      · rw [beq_eq_false_iff_ne.mpr same, getD_setIfInBounds_of_ne fun index => same (congrArg ValueId.mk index.symm)]

/-- In a list without repetition each value is found with its own data. -/
theorem map_lookup_zip {values : List ValueId} {slots : List Slot} (nodup : values.Nodup)
    (lengths : values.length = slots.length) :
    values.map (fun value => (values.zip slots).lookup value) = slots.map some := by
  induction values generalizing slots with
  | nil =>
    obtain rfl := List.length_eq_zero_iff.mp lengths.symm
    rfl
  | cons value values ih =>
    obtain ⟨slot, slots, rfl⟩ := List.exists_cons_of_length_eq_add_one lengths.symm
    obtain ⟨apart, nodup⟩ := List.nodup_cons.mp nodup
    rw [List.map_cons, List.map_cons, ← ih nodup (Nat.succ.inj lengths)]
    refine congrArg₂ _ (by simp) (List.map_congr_left fun other member => ?_)
    rw [List.zip_cons_cons, List.lookup_cons, beq_eq_false_iff_ne.mpr (ne_of_mem_of_not_mem member apart)]

namespace Scene

variable {σ τ γ : Type} {start now : Scene σ} {value : ValueId} {values : List ValueId} {type : Ty}
  {types : List Ty} {slot : σ → Slot} {slots : σ → List Slot}

/-- The types of values and their data are known. -/
structure HoldsAll (scene : Scene σ) (values : List ValueId) (types : List Ty) (slots : σ → List Slot) : Prop where
  typed : values.map scene.draft.program.typeOf? = types.map some
  known : ∀ s, values.map (scene.view s).slot? = (slots s).map some

namespace HoldsAll

theorem nil : start.HoldsAll [] [] fun _ => [] := ⟨rfl, fun _ => rfl⟩

theorem single (holds : start.Holds value type slot) : start.HoldsAll [value] [type] fun s => [slot s] where
  typed := by rw [List.map_singleton, holds.typed, List.map_singleton]
  known s := by rw [List.map_singleton, holds.known s, List.map_singleton]

theorem length_eq (holds : start.HoldsAll values types slots) (s : σ) : values.length = (slots s).length := by
  simpa using congrArg List.length (holds.known s)

/-- The first value and the others. -/
theorem uncons (holds : start.HoldsAll (value :: values) (type :: types) fun s => slot s :: slots s) :
    start.Holds value type slot ∧ start.HoldsAll values types slots :=
  ⟨⟨(List.cons.inj holds.typed).1, fun s => (List.cons.inj (holds.known s)).1⟩,
    ⟨(List.cons.inj holds.typed).2, fun s => (List.cons.inj (holds.known s)).2⟩⟩

theorem cons (first : start.Holds value type slot) (others : start.HoldsAll values types slots) :
    start.HoldsAll (value :: values) (type :: types) fun s => slot s :: slots s where
  typed := by rw [List.map_cons, first.typed, others.typed, List.map_cons]
  known s := by rw [List.map_cons, first.known s, others.known s, List.map_cons]

theorem exists_cons (holds : start.HoldsAll values (type :: types) fun s => slot s :: slots s) :
    ∃ value rest, values = value :: rest ∧ start.Holds value type slot ∧ start.HoldsAll rest types slots := by
  have length_eq : values.length = types.length + 1 := by simpa using congrArg List.length holds.typed
  obtain ⟨value, rest, rfl⟩ := List.exists_cons_of_length_eq_add_one length_eq
  exact ⟨value, rest, rfl, holds.uncons⟩

theorem eq_nil {slots : σ → List Slot} (holds : start.HoldsAll values [] slots) : values = [] :=
  List.map_eq_nil_iff.mp holds.typed

theorem exists_single (holds : start.HoldsAll values [type] fun s => [slot s]) :
    ∃ value, values = [value] ∧ start.Holds value type slot := by
  obtain ⟨value, rest, rfl, first, others⟩ := holds.exists_cons
  exact ⟨value, by rw [others.eq_nil], first⟩

theorem reaches {later : Scene τ} {outer : τ → σ} (holds : start.HoldsAll values types slots)
    (reaches : start.Reaches outer later) : later.HoldsAll values types fun t => slots (outer t) where
  typed := by
    rw [← holds.typed]
    refine List.map_congr_left fun value member => ?_
    have among : start.draft.program.typeOf? value ∈ types.map some := holds.typed ▸ List.mem_map_of_mem member
    obtain ⟨type, -, typed⟩ := List.mem_map.mp among
    rw [← typed]
    exact reaches.covers.typeOf?_eq typed.symm
  known t := by
    rw [← holds.known (outer t)]
    refine List.map_congr_left fun value member => ?_
    have among : (start.view (outer t)).slot? value ∈ (slots (outer t)).map some :=
      holds.known (outer t) ▸ List.mem_map_of_mem member
    obtain ⟨slot, -, known⟩ := List.mem_map.mp among
    rw [← known]
    exact reaches.slots t value slot known.symm

end HoldsAll

theorem Meets.readEach {s : σ} {program : Program} {machine : Machine} (meets : start.Meets s program machine)
    (holds : start.HoldsAll values types slots) :
    (values.mapM (Run.read program)).run machine = .ok (slots s, machine) := by
  have known : List.Forall₂ (fun value slot => (start.view s).slot? value = some slot) values (slots s) := by
    rw [← List.forall₂_map_left_iff (R := fun found slot => found = some slot), holds.known s,
      List.forall₂_map_left_iff, List.forall₂_same]
    exact fun _ _ => rfl
  refine Run.run_mapM (known.imp fun value slot known => ?_)
  have gives : (get : Run Machine).run machine = .ok (machine, machine) := rfl
  rw [Run.read, Run.run_bind_of gives, meets.fits.slot value slot known]
  rfl

section Values

variable {after : Draft} {memory : σ → Array Grid} {follows : start.draft.Follows after} {tidy : after.Tidy}
  {indices : after.indices = start.draft.indices}

/-- The scene in which the data of new values is known as well. -/
def withValues (start : Scene σ) (after : Draft) (values : List ValueId) (slots : σ → List Slot)
    (memory : σ → Array Grid) (follows : start.draft.Follows after) (tidy : after.Tidy)
    (indices : after.indices = start.draft.indices)
    (new : ∀ value ∈ values, start.draft.program.values.size ≤ value.index)
    (below : ∀ value ∈ values, value.index < after.program.values.size) : Scene σ where
  draft := after
  view s := ⟨fun value => ((values.zip (slots s)).lookup value).or ((start.view s).slot? value), memory s⟩
  tidy := tidy
  below s value slot known := by
    rcases Option.or_eq_some_iff.mp known with found | ⟨-, known⟩
    · exact below value (List.of_mem_zip (mem_of_lookup found)).1
    · exact (start.below s value slot known).trans_le follows.program.values_le
  positions s pair member := by
    have old := indices ▸ member
    have absent : pair.2 ∉ values := fun isNew => absurd (start.tidy.index_lt old) (not_lt.mpr (new _ isNew))
    exact Option.or_eq_some_iff.mpr (.inr ⟨lookup_zip_of_notMem absent _, start.positions s pair old⟩)

variable {new : ∀ value ∈ values, start.draft.program.values.size ≤ value.index}
  {below : ∀ value ∈ values, value.index < after.program.values.size}

theorem reaches_withValues :
    start.Reaches id (start.withValues after values slots memory follows tidy indices new below) where
  follows := follows
  slots s value slot known := by
    have absent : value ∉ values := fun isNew => absurd (start.below s value slot known) (not_lt.mpr (new _ isNew))
    exact Option.or_eq_some_iff.mpr (.inr ⟨lookup_zip_of_notMem absent _, known⟩)

theorem holds_withValues (nodup : values.Nodup) (lengths : ∀ s, values.length = (slots s).length)
    (typed : values.map after.program.typeOf? = types.map some) :
    (start.withValues after values slots memory follows tidy indices new below).HoldsAll values types slots where
  typed := typed
  known s := by
    rw [← map_lookup_zip nodup (lengths s)]
    refine List.map_congr_left fun value member => ?_
    have among : (values.zip (slots s)).lookup value ∈ (slots s).map some :=
      map_lookup_zip nodup (lengths s) ▸ List.mem_map_of_mem member
    obtain ⟨slot, -, found⟩ := List.mem_map.mp among
    rw [← found]
    exact Option.or_eq_some_iff.mpr (.inl found.symm)

/-- A machine that fits still fits when the new values have been written. -/
theorem fits_withValues {setting : Setting} (hosts : setting.Hosts after) (nodup : values.Nodup) {s : σ}
    {machine : Machine} (serves : setting.Serves machine) (fits : machine.Fits ⟨(start.view s).slot?, memory s⟩) :
    ∃ final, (Run.writeEach values (slots s)).run machine = .ok (⟨⟩, final) ∧ setting.Serves final ∧
      final.Fits ((start.withValues after values slots memory follows tidy indices new below).view s) := by
  obtain ⟨final, run, memoryEq, size, frame⟩ := Run.run_writeEach (slots s) nodup
    fun value member => ((below value member).trans_le hosts.covers.values_le).trans_le serves.size_le
  refine ⟨final, run, ⟨serves.size_le.trans_eq size.symm, fun pair member => ?_⟩,
    fun value slot known => ?_, memoryEq.trans fits.memory⟩
  · have absent : pair.2 ∉ values := fun isNew =>
      hosts.ne_of_new start.tidy indices (new _ isNew) (below _ isNew) pair member rfl
    rw [frame, lookup_zip_of_notMem absent]
    exact serves.position pair member
  · rw [frame]
    rcases Option.or_eq_some_iff.mp known with found | ⟨none, known⟩
    · exact Option.or_eq_some_iff.mpr (.inl found)
    · exact Option.or_eq_some_iff.mpr (.inr ⟨none, fits.slot value slot known⟩)

end Values

end Scene

/-! ### How a loop is built -/

namespace Draft

variable {start inner after : Draft} {operands results arguments : List ValueId} {types : List Ty}

/-- The draft of the body of a loop: the loop has been defined, and so has the block with its arguments. -/
structure Opens (start : Draft) (operands : List ValueId) (types : List Ty) (results arguments : List ValueId)
    (inner : Draft) : Prop where
  follows : start.Follows inner
  tidy : inner.Tidy
  indices : inner.indices = start.indices
  code : inner.code = .nil
  defines : inner.program.Defines ⟨start.program.operations.size⟩ (.scf .forLoop) operands .empty results types
  header_lt : start.program.headers.size < inner.program.headers.size
  arguments_eq : (inner.program.header ⟨start.program.headers.size⟩).arguments = arguments
  typed : arguments.map inner.program.typeOf? = (.scalar .index :: types).map some

theorem Opens.results_fresh (opens : start.Opens operands types results arguments inner) :
    Program.AreFresh start.program inner.program (.result ⟨start.program.operations.size⟩) results :=
  opens.defines.results_eq ▸ opens.follows.program.results_new ⟨_⟩ ⟨le_rfl, opens.defines.below⟩

theorem Opens.arguments_fresh (opens : start.Opens operands types results arguments inner) :
    Program.AreFresh start.program inner.program (.argument (some ⟨start.program.headers.size⟩)) arguments :=
  opens.arguments_eq ▸ opens.follows.program.arguments_new ⟨_⟩ ⟨le_rfl, opens.header_lt⟩

/-- The loop stands behind what has been built before it, with the body that has been filled. -/
def closed (start after : Draft) : Draft :=
  { after with
    code := start.code.append (.single ⟨start.program.operations.size⟩
      (.single ⟨start.program.headers.size⟩ after.code)) }

theorem Follows.closed (follows : inner.Follows after) (start : Draft) : inner.Follows (start.closed after) :=
  ⟨follows.program, follows.anchor, follows.placement, follows.indices, follows.fresh⟩

theorem Tidy.closed (tidy : after.Tidy) (start : Draft) : (start.closed after).Tidy :=
  ⟨tidy.placed, tidy.lead, tidy.heads, tidy.indices, tidy.distinct⟩

end Draft

/-- The arguments of a block that has been added, with their types. -/
theorem Program.typeOf?_withBlock (program : Program) {names : List String} {types : List Ty}
    (length_eq : names.length = types.length) :
    (program.freshValues types.length).map (program.withBlock (names.zip types)).typeOf? = types.map some := by
  refine List.ext_getElem? fun index => ?_
  simp only [freshValues, List.map_map, List.getElem?_map]
  by_cases below : index < types.length
  · have isNamed : index < names.length := length_eq ▸ below
    rw [List.getElem?_range' below, List.getElem?_eq_getElem below]
    simp [typeOf?, value, withBlock, namedArguments, Array.getD_eq_getD_getElem?, below, isNamed]
  · have above := Nat.le_of_not_lt below
    rw [List.getElem?_eq_none above, List.getElem?_eq_none (by simpa using above)]
    rfl

/-- The types of values that have some. -/
theorem Program.mapM_typed {program : Program} {values : List ValueId} {types : List Ty}
    (typed : values.map program.typeOf? = types.map some) : values.mapM program.typed = .ok types := by
  induction values generalizing types with
  | nil =>
    obtain rfl := List.map_eq_nil_iff.mp typed.symm
    rfl
  | cons value values ih =>
    obtain ⟨type, types, rfl⟩ := List.exists_cons_of_ne_nil fun isNil : types = [] => by
      rw [isNil] at typed
      cases typed
    obtain ⟨first, rest⟩ := List.cons.inj typed
    rw [List.mapM_cons, typed_of_typeOf? first, ih rest]
    rfl

/-- What a step builds is gathered, and the body stays what it was before. -/
theorem Build.run_gather {α : Type} {step : Build α} {inner after : Draft} {outcome : Except Error α}
    (empty : inner.code = .nil) (ran : step.run inner = (outcome, after)) (code : Body) :
    (Build.gather step).run { inner with code } = (.ok (outcome, after.code), { after with code }) := by
  have same : { inner with code := .nil } = inner := by rw [← empty]
  change (Except.ok ((step.run { inner with code := .nil }).1, (step.run { inner with code := .nil }).2.code),
    { (step.run { inner with code := .nil }).2 with code }) = _
  rw [same, ran]

/-- A loop is built by building its body in a draft of its own. -/
theorem Build.run_forLoop {start : Draft} (tidy : start.Tidy) (lower upper step : ValueId) {initial : List ValueId}
    {types : List Ty} (typed : initial.map start.program.typeOf? = types.map some)
    (body : ValueId → List ValueId → Build (List ValueId)) :
    ∃ results position carried inner,
      start.Opens ([lower, upper, step] ++ initial) types results (position :: carried) inner ∧
      ∀ last values, inner.Follows last → last.Tidy → (body position carried).run inner = (.ok values, last) →
        ∃ after, last.Adds (.scf .yield) values .empty [] after ∧
          (Build.forLoop lower upper step initial body).run start = (.ok results, start.closed after) := by
  obtain ⟨names, namer, length_eq, runNames⟩ := Build.run_freshNames types start
  let operation : Operation :=
    { kind := .scf .forLoop
      operands := [lower, upper, step] ++ initial
      location := (start.program.operation start.anchor).location }
  let allocated : Draft :=
    { start with
      namer
      started := start.started || start.placement == .before
      program := start.program.withDefinition operation (names.zip types) }
  have allocates : (Build.allocate (.scf .forLoop) ([lower, upper, step] ++ initial) types).run start =
      (.ok ⟨start.program.operations.size⟩, allocated) := by
    unfold Build.allocate
    rw [run_bind, runNames]
    dsimp only
    rw [run_bind, Build.run_define]
    · rfl
    · exact tidy.placed
  obtain ⟨argumentNames, argumentNamer, argumentCount, runBlock⟩ :=
    Build.run_block (.scalar .index :: types) allocated
  have defines := start.program.defines_withDefinition operation length_eq
  have first : start.program.Extends (fun _ => True) allocated.program := .withDefinition _ _ _ trivial
  have second : allocated.program.Extends (fun _ => True)
      (allocated.program.withBlock (argumentNames.zip (.scalar .index :: types))) := .withBlock _ _
  let inner : Draft :=
    { allocated with
      namer := argumentNamer
      program := allocated.program.withBlock (argumentNames.zip (.scalar .index :: types))
      code := .nil }
  -- The block takes the position and one argument for each value that is carried.
  obtain ⟨position, carried, arguments⟩ :
      ∃ position carried, allocated.program.freshValues (types.length + 1) = position :: carried :=
    ⟨_, _, rfl⟩
  refine ⟨start.program.freshValues types.length, position, carried, inner, ?opens,
    fun last values follows lastTidy runBody => ?closes⟩
  case opens =>
    constructor
    case follows => exact .of_indices (first.trans second) rfl rfl rfl
    case tidy =>
      refine tidy.grow (first.trans second) rfl rfl rfl rfl fun isStarted => ?_
      simp [inner, allocated, isStarted]
    case indices => rfl
    case code => rfl
    case defines => exact defines.extend second
    case header_lt => simp [inner, allocated, Program.withBlock, Program.withDefinition]
    case arguments_eq =>
      rw [← arguments]
      simp [inner, allocated, Program.withBlock, Program.withDefinition, Program.header, Program.freshValues,
        argumentCount]
    case typed =>
      rw [← arguments]
      exact allocated.program.typeOf?_withBlock argumentCount
  case closes =>
    obtain ⟨after, runYield, adds⟩ := adds_create (.scf .yield) values [] .empty lastTidy.placed
    refine ⟨after, adds, ?_⟩
    have results : after.program.results ⟨start.program.operations.size⟩ = start.program.freshValues types.length :=
      ((defines.extend second).extend (follows.program.trans (adds.reached trivial))).results_eq
    have yields : (Build.yielding (body position carried)).run inner = (.ok ⟨⟩, after) := by
      rw [Build.yielding, run_bind, runBody]
      dsimp only
      rw [Build.emit, run_bind, runYield]
      rfl
    unfold Build.forLoop
    rw [run_bind, Build.run_askFor, Program.mapM_typed typed]
    dsimp only
    rw [run_bind, allocates]
    dsimp only
    rw [run_bind, runBlock, List.length_cons, arguments]
    -- What is left is the body, which is gathered into the block, and the results.
    change ((do
      let gathered ← Build.gather (Build.yielding (body position carried))
      Build.append ⟨start.program.operations.size⟩ (.single ⟨start.program.headers.size⟩ gathered.2)
      Build.settle gathered.1
      Build.ask fun program => program.results ⟨start.program.operations.size⟩ : Build (List ValueId)).run
        { inner with code := start.code }) = _
    rw [run_bind, Build.run_gather rfl yields]
    change (Except.ok (after.program.results ⟨start.program.operations.size⟩), start.closed after) = _
    rw [results]

/-! ### Rounds -/

/-- If a round of a loop takes a good machine to a good one, all rounds together do. -/
theorem Run.repeated_of_round {γ : Type} {body : List Slot → Run (List Slot)} {good : Machine → γ → Prop}
    {carried : γ → List Slot} {next : Int → γ → γ} {count : Int}
    (round : ∀ place state machine, 0 ≤ place → place < count → good machine state →
      ∃ after, (body (.scalar (.int place) :: carried state)).run machine =
        .ok (carried (next place state), after) ∧ good after (next place state))
    (rounds : Nat) : ∀ place state machine, 0 ≤ place → place + rounds ≤ max count 0 → good machine state →
      ∃ after, (Run.repeated body 1 rounds place (carried state)).run machine =
        .ok (carried ((List.range rounds).foldl (fun state (index : Nat) => next (place + index) state) state),
          after) ∧
        good after ((List.range rounds).foldl (fun state (index : Nat) => next (place + index) state) state) := by
  induction rounds with
  | zero => exact fun place state machine _ _ isGood => ⟨machine, rfl, isGood⟩
  | succ rounds ih =>
    intro place state machine nonneg below isGood
    rw [Nat.cast_succ] at below
    obtain ⟨between, runFirst, goodBetween⟩ := round place state machine nonneg (by omega) isGood
    obtain ⟨after, runRest, goodAfter⟩ :=
      ih (place + 1) (next place state) between (by omega) (by omega) goodBetween
    -- The rounds that are left are counted from the next position.
    have shifted (index : Nat) : place + ((index + 1 : Nat) : Int) = place + 1 + index := by
      rw [Nat.cast_succ]
      omega
    rw [List.range_succ_eq_map, List.foldl_cons, List.foldl_map, Nat.cast_zero, add_zero]
    simp only [Nat.succ_eq_add_one, shifted]
    refine ⟨after, ?_, goodAfter⟩
    rw [Run.repeated, Run.run_bind_of runFirst]
    exact runRest

theorem Run.enter_eq {program : Program} {block : BlockId} {arguments : List ValueId} {slots : List Slot}
    (arguments_eq : (program.header block).arguments = arguments) (lengths : arguments.length = slots.length) :
    Run.enter program block slots = Run.writeEach arguments slots := by
  rw [Run.enter, arguments_eq, if_neg (not_not.mpr lengths)]
  rfl

/-- A situation in the body of a loop: that around the loop, the position of the round, and the state that the
rounds before have left. -/
structure Round {σ γ : Type} (count : σ → Int) (good : σ → γ → Prop) where
  outer : σ
  place : Int
  state : γ
  nonneg : 0 ≤ place
  below : place < count outer
  isGood : good outer state

namespace Scene

variable {σ τ γ : Type} {start : Scene σ}

/-- The scene for situations that belong to those of another one, with other contents of the buffers. -/
def along (start : Scene σ) (outer : τ → σ) (memory : τ → Array Grid) : Scene τ where
  draft := start.draft
  view t := ⟨(start.view (outer t)).slot?, memory t⟩
  tidy := start.tidy
  below t := start.below (outer t)
  positions t := start.positions (outer t)

theorem reaches_along {outer : τ → σ} {memory : τ → Array Grid} : start.Reaches outer (start.along outer memory) :=
  ⟨.refl _, fun _ _ _ => id⟩

/-- A block, run from beginning to end with the values that it passes on. -/
theorem Leads.run_block {now : Scene σ} {inner : Draft} {arguments values : List ValueId} {types : List Ty}
    {slots outputs : σ → List Slot} {memory : σ → Array Grid} {follows : start.draft.Follows inner}
    {tidy : inner.Tidy} {indices : inner.indices = start.draft.indices}
    {new : ∀ value ∈ arguments, start.draft.program.values.size ≤ value.index}
    {below : ∀ value ∈ arguments, value.index < inner.program.values.size} {added : Body}
    (leads : (start.withValues inner arguments slots memory follows tidy indices new below).Leads added now)
    {setting : Setting} (hosts : setting.Hosts now.draft) (nodup : arguments.Nodup)
    (holds : now.HoldsAll values types outputs) {yield : OpId}
    (yields : setting.program.Defines yield (.scf .yield) values .empty [] []) {block : BlockId}
    (arguments_eq : (setting.program.header block).arguments = arguments) {s : σ}
    (lengths : arguments.length = (slots s).length) {machine : Machine}
    (serves : setting.Serves machine) (fits : machine.Fits ⟨(start.view s).slot?, memory s⟩) (call : Caller)
    (loop : OpId) : ∃ final, setting.Serves final ∧ final.Fits (now.view s) ∧
      ((Regions.single block (added.append (.single yield .nil))).run setting.program call loop 0 0 (slots s)).run
        machine = .ok (outputs s, final) := by
  obtain ⟨entered, runEnter, servesEntered, fitsEntered⟩ := @fits_withValues σ start arguments slots inner memory
    follows tidy indices new below setting (hosts.of_follows leads.follows) nodup s machine serves fits
  obtain ⟨final, servesFinal, fitsFinal, run⟩ := leads.runs setting hosts s entered call servesEntered fitsEntered
  refine ⟨final, servesFinal, fitsFinal, ?_⟩
  have meets : now.Meets s setting.program final := ⟨hosts.covers, fitsFinal⟩
  change ((Run.enter setting.program block (slots s) >>= fun _ =>
    (added.append (.single yield .nil)).run setting.program call).run machine) = _
  rw [Run.enter_eq arguments_eq lengths, Run.run_bind_of runEnter, run, Body.single,
    Body.run_exit call .nil .nil (by rw [yields.kind_eq]; rfl) (by rw [yields.kind_eq]; rfl), yields.operands_eq]
  exact meets.readEach holds

section ForLoop

variable {count : σ → Int} {good : σ → γ → Prop} {contents : σ → γ → Array Grid} {carried : σ → γ → List Slot}
  {first : σ → γ} {next : σ → Int → γ → γ} {lower upper step : ValueId} {initial : List ValueId} {types : List Ty}
  {body : ValueId → List ValueId → Build (List ValueId)}

/-- A loop over a count of positions whose body takes the carried values and the buffers from one state to the next.
The state has to be a good one in each round. -/
theorem emits_forLoop (lowerHolds : start.Holds lower (.scalar .index) fun _ => .scalar (.int 0))
    (upperHolds : start.Holds upper (.scalar .index) fun s => .scalar (.int (count s)))
    (stepHolds : start.Holds step (.scalar .index) fun _ => .scalar (.int 1))
    (initialHolds : start.HoldsAll initial types fun s => carried s (first s))
    (begins : start.memory = fun s => contents s (first s)) (isGood : ∀ s, good s (first s))
    (preserved : ∀ s place state, 0 ≤ place → place < count s → good s state → good s (next s place state))
    (lengths : ∀ s state, (carried s state).length = types.length)
    (inside : ∀ (inner : Scene (Round count good)) position values, start.Reaches Round.outer inner →
      inner.memory = (fun t => contents t.outer t.state) →
      inner.Holds position (.scalar .index) (fun t => .scalar (.int t.place)) →
      inner.HoldsAll values types (fun t => carried t.outer t.state) →
        inner.Emits (body position values) (fun t => contents t.outer (next t.outer t.place t.state))
          fun results now => now.HoldsAll results types fun t => carried t.outer (next t.outer t.place t.state)) :
    start.Emits (Build.forLoop lower upper step initial body)
      (fun s => contents s
        ((List.range (count s).toNat).foldl (fun state (place : Nat) => next s place state) (first s)))
      fun results now => now.HoldsAll results types fun s => carried s
        ((List.range (count s).toNat).foldl (fun state (place : Nat) => next s place state) (first s)) := by
  obtain ⟨results, position, values, inner, opens, closes⟩ :=
    Build.run_forLoop start.tidy lower upper step initialHolds.typed body
  let block : BlockId := ⟨start.draft.program.headers.size⟩
  let loop : OpId := ⟨start.draft.program.operations.size⟩
  let memory (t : Round count good) : Array Grid := contents t.outer t.state
  let entry (t : Round count good) : List Slot := .scalar (.int t.place) :: carried t.outer t.state
  -- The body is built in the scene of its rounds.
  let entered : Scene (Round count good) :=
    (start.along Round.outer memory).withValues inner (position :: values) entry memory opens.follows opens.tidy
      opens.indices opens.arguments_fresh.new opens.arguments_fresh.lt
  have entryLength (t : Round count good) : (position :: values).length = (entry t).length := by
    have count : (position :: values).length = types.length + 1 := by simpa using congrArg List.length opens.typed
    rw [count, List.length_cons, lengths]
  have reached : start.Reaches Round.outer entered := reaches_along.trans reaches_withValues
  obtain ⟨positionHolds, valuesHold⟩ :=
    (holds_withValues opens.arguments_fresh.nodup entryLength opens.typed : entered.HoldsAll _ _ entry).uncons
  obtain ⟨outputs, added, last, run, leads, memoryEq, outputsHold⟩ :=
    inside entered position values reached rfl positionHolds valuesHold
  obtain ⟨after, adds, ran⟩ := closes last.draft outputs leads.follows last.tidy run
  have codeAfter : after.code = added.append (.single ⟨last.draft.program.operations.size⟩ .nil) := by
    rw [adds.code, leads.code]
    change (inner.code.append added).append _ = _
    rw [opens.code]
    rfl
  -- Behind the loop its results are known, but not what has been built in its body, apart from constant positions.
  have yields := (follows_of_adds adds).closed start.draft
  have entering := leads.follows.trans yields
  let final (s : σ) : γ := (List.range (count s).toNat).foldl (fun state (place : Nat) => next s place state) (first s)
  let ended : Scene σ := start.withValues inner results (fun s => carried s (final s))
    (fun s => contents s (final s)) opens.follows opens.tidy opens.indices opens.results_fresh.new
    opens.results_fresh.lt
  have resultsHold : ended.HoldsAll results types fun s => carried s (final s) := by
    refine holds_withValues opens.results_fresh.nodup (fun s => ?_) opens.defines.types_eq
    rw [lengths]
    simpa using congrArg List.length opens.defines.types_eq
  refine ⟨results, _, ended.continued (start.draft.closed after) (fun s => contents s (final s)) entering
    ((tidy_of_adds adds).closed _), ran, ⟨reaches_withValues.trans reaches_continued, rfl, ?_⟩, rfl,
    resultsHold.reaches reaches_continued⟩
  intro setting hosts s machine call serves fits
  have hostsInner := hosts.of_follows entering
  have isLoop := hosts.covers.defines (opens.defines.extend entering.program)
  have arguments : (setting.program.header block).arguments = position :: values := by
    rw [hostsInner.covers.header_eq block opens.header_lt]
    exact opens.arguments_eq
  -- In every round the position is known, and the carried values and the buffers are as the rounds before have left
  -- them.
  let fine (machine : Machine) (state : γ) : Prop :=
    good s state ∧ setting.Serves machine ∧ machine.Fits ⟨(start.view s).slot?, contents s state⟩
  let runBody (arguments : List Slot) : Run (List Slot) :=
    (Regions.single block after.code).run setting.program call loop 0 0 arguments
  have round : ∀ place state machine, 0 ≤ place → place < count s → fine machine state →
      ∃ after', (runBody (.scalar (.int place) :: carried s state)).run machine =
        .ok (carried s (next s place state), after') ∧ fine after' (next s place state) := by
    rintro place state machine nonneg below ⟨isGood, serves, fits⟩
    let t : Round count good := ⟨s, place, state, nonneg, below, isGood⟩
    have fitsRound : machine.Fits ⟨((start.along Round.outer memory).view t).slot?, memory t⟩ := fits
    obtain ⟨final, servesFinal, fitsFinal, run⟩ := leads.run_block (hosts.of_follows yields)
      opens.arguments_fresh.nodup outputsHold (hosts.covers.defines adds.defines) arguments (entryLength t) serves
      fitsRound call loop
    rw [← codeAfter] at run
    refine ⟨final, run, preserved s place state nonneg below isGood, servesFinal, fun value found known => ?_, ?_⟩
    · exact fitsFinal.slot value found ((reached.trans leads.toReaches).slots t value found known)
    · rw [fitsFinal.memory]
      exact congrFun memoryEq t
  have meets : start.Meets s setting.program machine :=
    ⟨(hosts.of_follows (opens.follows.trans entering)).covers, fits⟩
  have bounds : (Run.bounds setting.program loop).run machine =
      .ok ((0, count s, 1, carried s (first s)), machine) := by
    rw [Run.bounds, isLoop.operands_eq]
    dsimp only [List.cons_append, List.nil_append]
    rw [Run.run_bind_of (meets.readInt lowerHolds), Run.run_bind_of (meets.readInt upperHolds),
      Run.run_bind_of (meets.readInt stepHolds)]
    exact Run.run_bind_of (meets.readEach initialHolds)
  have rounds : Run.rounds 0 (count s) 1 = (count s).toNat := by
    rw [Run.rounds]
    omega
  -- After the last round the carried values are written to the results.
  have fineFirst : fine machine (first s) := ⟨isGood s, serves, fits.slot, fits.memory.trans (congrFun begins s)⟩
  obtain ⟨left, runLoop, -, servesLeft, fitsLeft⟩ := @Run.repeated_of_round γ runBody fine (carried s) (next s)
    (count s) round (count s).toNat 0 (first s) machine le_rfl (by omega) fineFirst
  simp only [zero_add] at runLoop fitsLeft
  obtain ⟨written, runWrite, servesWritten, fitsWritten⟩ := @fits_withValues σ start results
    (fun s => carried s (final s)) inner (fun s => contents s (final s)) opens.follows opens.tidy opens.indices
    opens.results_fresh.new opens.results_fresh.lt setting hostsInner opens.results_fresh.nodup s left servesLeft
    fitsLeft
  refine ⟨written, servesWritten, fits_continued hosts servesWritten fitsWritten, fun rest => ?_⟩
  have runInner : (Run.inner setting.program call loop (.single block after.code)).run machine =
      .ok (carried s (final s), left) := by
    rw [Run.inner, isLoop.kind_eq]
    dsimp only
    rw [Run.run_bind_of bounds]
    dsimp only
    rw [rounds]
    exact runLoop
  change ((Body.cons loop (.single block after.code) rest).run setting.program call).run machine = _
  rw [Body.run_cons call _ rest (by rw [isLoop.kind_eq]; rfl), Run.run_bind_of runInner, isLoop.results_eq,
    Run.run_bind_of runWrite]

end ForLoop

end Scene

end TensorIR
