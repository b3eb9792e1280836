import TensorIR.Lower.Step

/-!
# What changes keep

A change may fail on the way and leaves what it has changed until then. A property of the state that
every step keeps is therefore known also after a failure. This module has the rules by which such a
property is carried through a change: one for each way of putting steps together.

## Main definitions

* `Keeps` — a step keeps a property of the state, whether it succeeds or fails
* `Idle` — a step that reports no change leaves the program alone

## Main results

* `Keeps.bind`, `Keeps.forIn` — steps one after the other
* `keeps_exhaust` — rewriting as often as possible
-/

namespace TensorIR

variable {σ α β : Type}

/-- A step keeps a property of the state, whether it succeeds or fails. -/
def Keeps (kept : σ → Prop) (step : ExceptT Error (StateM σ) α) : Prop :=
  ∀ state, kept state → kept (step.run state).2

section Rules

variable {kept : σ → Prop}

@[simp]
theorem run_pure (value : α) (state : σ) :
    (pure value : ExceptT Error (StateM σ) α).run state = (.ok value, state) := rfl

@[simp]
theorem run_throw (error : Error) (state : σ) :
    (throw error : ExceptT Error (StateM σ) α).run state = (.error error, state) := rfl

@[simp]
theorem run_get (state : σ) :
    (get : ExceptT Error (StateM σ) σ).run state = (.ok state, state) := rfl

@[simp]
theorem run_set (state next : σ) :
    (set next : ExceptT Error (StateM σ) PUnit).run state = (.ok ⟨⟩, next) := rfl

@[simp]
theorem run_modify (change : σ → σ) (state : σ) :
    (modify change : ExceptT Error (StateM σ) PUnit).run state = (.ok ⟨⟩, change state) := rfl

/-- A step after another one runs on what the first has left, unless the first has failed. -/
theorem run_bind (step : ExceptT Error (StateM σ) α) (next : α → ExceptT Error (StateM σ) β)
    (state : σ) :
    (step >>= next).run state =
      match step.run state with
      | (.ok value, after) => (next value).run after
      | (.error error, after) => (.error error, after) := by
  change (ExceptT.bind step next) state = _
  simp only [ExceptT.bind, ExceptT.mk, ExceptT.run, bind, StateT.bind, ExceptT.bindCont]
  rcases step state with ⟨outcome, after⟩
  cases outcome <;> rfl

/-- A loop that changes the state for each item is a fold. -/
theorem run_forIn_modify (change : α → σ → σ) (items : List α) (state : σ) :
    (forIn items PUnit.unit fun item _ => do
      modify (change item)
      pure (ForInStep.yield PUnit.unit) : ExceptT Error (StateM σ) PUnit).run state =
      (.ok ⟨⟩, items.foldl (fun state item => change item state) state) := by
  induction items generalizing state with
  | nil => rfl
  | cons item items ih =>
    rw [List.forIn_cons, List.foldl_cons, ← ih]
    rfl

theorem keeps_pure (value : α) : Keeps kept (pure value : ExceptT Error (StateM σ) α) :=
  fun _ holds => holds

theorem keeps_throw (error : Error) : Keeps kept (throw error : ExceptT Error (StateM σ) α) :=
  fun _ holds => holds

theorem keeps_modify {change : σ → σ} (keeps : ∀ state, kept state → kept (change state)) :
    Keeps kept (modify change : ExceptT Error (StateM σ) PUnit) :=
  keeps

theorem Keeps.and {other : σ → Prop} {step : ExceptT Error (StateM σ) α} (first : Keeps kept step)
    (second : Keeps other step) : Keeps (fun state => kept state ∧ other state) step :=
  fun state holds => ⟨first state holds.1, second state holds.2⟩

/-- What the first step keeps can be used for what the second one brings about. -/
theorem Keeps.run_bind {post : σ → Prop} {step : ExceptT Error (StateM σ) α}
    {next : α → ExceptT Error (StateM σ) β} (first : Keeps kept step)
    (failed : ∀ state, kept state → post state)
    (second : ∀ value state, kept state → post ((next value).run state).2) {state : σ}
    (holds : kept state) : post ((step >>= next).run state).2 := by
  have after := first state holds
  rw [TensorIR.run_bind]
  rcases run : step.run state with ⟨outcome, left⟩
  rw [run] at after
  cases outcome with
  | error error => exact failed left after
  | ok value => exact second value left after

/-- What steps keep that come after another one, whatever the other has come to. -/
theorem Keeps.after {next : α → ExceptT Error (StateM σ) β} {before : Except Error α}
    {outcome : Except Error β} {state final : σ}
    (run : (match (before, state) with
      | (.ok value, after) => (next value).run after
      | (.error error, after) => (.error error, after)) = (outcome, final))
    (keeps : ∀ value, Keeps kept (next value)) (holds : kept state) : kept final := by
  cases before with
  | error error => cases run; exact holds
  | ok value =>
    have kept := keeps value state holds
    rwa [show (next value).run state = (outcome, final) from run] at kept

theorem Keeps.bind {step : ExceptT Error (StateM σ) α} {next : α → ExceptT Error (StateM σ) β}
    (first : Keeps kept step) (second : ∀ value, Keeps kept (next value)) :
    Keeps kept (step >>= next) :=
  fun _ holds => first.run_bind (fun _ holds => holds) second holds

theorem Keeps.ite {condition : Prop} [Decidable condition]
    {first second : ExceptT Error (StateM σ) α} (onTrue : Keeps kept first)
    (onFalse : Keeps kept second) : Keeps kept (if condition then first else second) := by
  split
  · exact onTrue
  · exact onFalse

theorem Keeps.forIn {step : α → β → ExceptT Error (StateM σ) (ForInStep β)} {items : List α}
    (each : ∀ item ∈ items, ∀ value, Keeps kept (step item value)) (start : β) :
    Keeps kept (forIn items start step) := by
  induction items generalizing start with
  | nil => exact keeps_pure _
  | cons item items ih =>
    rw [List.forIn_cons]
    refine (each item List.mem_cons_self start).bind fun outcome => ?_
    cases outcome with
    | done value => exact keeps_pure _
    | yield value => exact ih (fun other member => each other (List.mem_cons_of_mem _ member)) value

end Rules

section Reading

variable {kept : Program → Prop}

@[simp]
theorem Change.run_program (program : Program) :
    Change.program.run program = (.ok program, program) := rfl

@[simp]
theorem Change.run_ask (question : Program → α) (program : Program) :
    (Change.ask question).run program = (.ok (question program), program) := rfl

@[simp]
theorem Change.run_askFor (question : Program → Except Error α) (program : Program) :
    (Change.askFor question).run program = (question program, program) := by
  unfold Change.askFor
  rw [run_bind, run_get]
  simp only []
  cases question program <;> rfl

theorem keeps_ask (question : Program → α) : Keeps kept (Change.ask question) :=
  fun _ holds => holds

theorem keeps_program : Keeps kept Change.program :=
  fun _ holds => holds

theorem keeps_askFor (question : Program → Except Error α) : Keeps kept (Change.askFor question) := by
  intro program holds
  rw [Change.run_askFor]
  exact holds

end Reading

section Repetition

/-- A step that reports no change leaves the program alone. -/
def Idle (step : Change Bool) : Prop :=
  ∀ program, (step.run program).1 = .ok false → (step.run program).2 = program

theorem idle_pure (changed : Bool) : Idle (pure changed) :=
  fun _ _ => rfl

/-- A step that reports a change whenever it succeeds. -/
def Changing (step : Change Bool) : Prop :=
  ∀ program, (step.run program).1 ≠ .ok false

theorem Changing.idle {step : Change Bool} (changing : Changing step) : Idle step :=
  fun program unchanged => absurd unchanged (changing program)

theorem changing_true : Changing (pure true) :=
  fun _ same => by cases same

theorem Changing.bind (step : Change α) {next : α → Change Bool}
    (changing : ∀ value, Changing (next value)) : Changing (step >>= next) := by
  intro program
  rw [run_bind]
  rcases step.run program with ⟨error | value, after⟩
  · exact nofun
  · exact changing value after

theorem idle_bind_true (step : Change α) : Idle (step >>= fun _ => pure true) :=
  (Changing.bind step fun _ => changing_true).idle

theorem Idle.ask (question : Program → α) {next : α → Change Bool}
    (idle : ∀ answer, Idle (next answer)) : Idle (Change.ask question >>= next) :=
  fun program unchanged => idle (question program) program unchanged

theorem Idle.program {next : Program → Change Bool} (idle : ∀ now, Idle (next now)) :
    Idle (Change.program >>= next) :=
  fun program unchanged => idle program program unchanged

theorem Idle.askFor (question : Program → Except Error α) {next : α → Change Bool}
    (idle : ∀ answer, Idle (next answer)) : Idle (Change.askFor question >>= next) := by
  intro program unchanged
  rw [run_bind, Change.run_askFor] at unchanged ⊢
  cases answered : question program with
  | error error => rfl
  | ok answer =>
    rw [answered] at unchanged
    exact idle answer program unchanged

theorem Idle.ite {condition : Prop} [Decidable condition] {first second : Change Bool}
    (onTrue : Idle first) (onFalse : Idle second) :
    Idle (if condition then first else second) := by
  split
  · exact onTrue
  · exact onFalse

variable {kept : Program → Prop}

/-- A rewrite is tried on the operations of the tree as it is, since trying without a change leaves
the program alone. -/
theorem keeps_tryEach {rewrite : Rewrite} (idle : ∀ op, Idle (rewrite op))
    (each : ∀ op program, kept program → op ∈ program.tree.ops →
      kept ((rewrite op).run program).2)
    (ops : List OpId) (program : Program) (holds : kept program)
    (inTree : ∀ op ∈ ops, op ∈ program.tree.ops) :
    kept ((Rewrite.tryEach rewrite ops).run program).2 := by
  induction ops with
  | nil => exact holds
  | cons op ops ih =>
    have first := each op program holds (inTree op List.mem_cons_self)
    have unchanged := idle op program
    rw [Rewrite.tryEach, run_bind]
    rcases run : (rewrite op).run program with ⟨outcome, after⟩
    rw [run] at first unchanged
    rcases outcome with error | _ | _
    · exact first
    · rw [show after = program from unchanged rfl]
      exact ih fun other member => inTree other (List.mem_cons_of_mem _ member)
    · exact first

theorem keeps_tryAll {rewrites : List Rewrite} (idle : ∀ rewrite ∈ rewrites, ∀ op, Idle (rewrite op))
    (each : ∀ rewrite ∈ rewrites, ∀ op program, kept program → op ∈ program.tree.ops →
      kept ((rewrite op).run program).2) : Keeps kept (Rewrite.tryAll rewrites) := by
  induction rewrites with
  | nil => exact keeps_pure _
  | cons rewrite rewrites ih =>
    have later := ih (fun other member => idle other (List.mem_cons_of_mem _ member))
      fun other member => each other (List.mem_cons_of_mem _ member)
    have tried : Keeps kept (Change.ask (fun program => program.tree.ops) >>=
        Rewrite.tryEach rewrite) := fun program holds =>
      keeps_tryEach (idle rewrite List.mem_cons_self) (each rewrite List.mem_cons_self) _ program
        holds fun _ member => member
    exact tried.bind fun changed => Keeps.ite (keeps_pure _) later

theorem keeps_repeatWithin {step : Change Bool} (keeps : Keeps kept step) (fuel : Nat) :
    Keeps kept (Rewrite.repeatWithin step fuel) := by
  induction fuel with
  | zero => exact keeps_pure _
  | succ fuel ih =>
    refine keeps.bind fun changed => ?_
    exact Keeps.ite (ih.bind fun _ => keeps_pure _) (keeps_pure _)

/-- What every rewrite of a list keeps is kept by applying them as often as possible. -/
theorem keeps_exhaust {rewrites : List Rewrite} (idle : ∀ rewrite ∈ rewrites, ∀ op, Idle (rewrite op))
    (each : ∀ rewrite ∈ rewrites, ∀ op program, kept program → op ∈ program.tree.ops →
      kept ((rewrite op).run program).2) : Keeps kept (Rewrite.exhaust rewrites) :=
  keeps_repeatWithin (keeps_tryAll idle each) _

end Repetition

end TensorIR
