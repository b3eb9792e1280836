import TensorIR.Proofs.Building

/-!
# What successful changes keep, and changes that do not fail

Some properties of a program hold only between the steps of a change, not within them, so they may be
lost when a change fails on the way. This module has the rules by which such a property is carried
through changes that succeed. A property of the program may also guarantee that a change succeeds and holds
again afterwards. Then the change can be made again, so rewriting as often as possible does not fail either.

## Main definitions

* `Carries` — a change keeps a property of the program if it succeeds
* `Completes` — where the property holds, a change succeeds and the property holds again

## Main results

* `of_run_bind_eq_ok` — the intermediate program of two steps that succeed
* `carries_exhaust`, `completes_exhaust` — rewriting as often as possible
-/

namespace TensorIR

variable {α β σ : Type}

/-- Steps that succeed one after the other succeed one by one. -/
theorem of_run_bind_eq_ok {step : ExceptT Error (StateM σ) α} {next : α → ExceptT Error (StateM σ) β}
    {state after : σ} {value : β} (run : (step >>= next).run state = (.ok value, after)) :
    ∃ first middle, step.run state = (.ok first, middle) ∧
      (next first).run middle = (.ok value, after) := by
  rw [run_bind] at run
  rcases ran : step.run state with ⟨error | first, middle⟩
  · rw [ran] at run
    cases run
  · rw [ran] at run
    exact ⟨first, middle, rfl, run⟩

theorem run_map_ok (change : α → β) {step : ExceptT Error (StateM σ) α} {state after : σ} {value : α}
    (run : step.run state = (.ok value, after)) :
    (change <$> step).run state = (.ok (change value), after) := by
  rw [map_eq_pure_bind, run_bind, run]
  rfl

/-- A change that goes on with an answer about the program. -/
theorem of_askFor_bind_eq_ok {program after : Program} {question : Program → Except Error α}
    {next : α → Change β} {value : β}
    (run : (Change.askFor question >>= next).run program = (.ok value, after)) :
    ∃ answer, question program = .ok answer ∧ (next answer).run program = (.ok value, after) := by
  obtain ⟨answer, middle, asked, later⟩ := of_run_bind_eq_ok run
  rw [Change.run_askFor] at asked
  obtain ⟨isAnswer, rfl⟩ := Prod.mk.inj asked
  exact ⟨answer, isAnswer, later⟩

/-- A step of building that goes on with an answer about the program. -/
theorem Build.of_askFor_bind_eq_ok {start after : Draft} {question : Program → Except Error α}
    {next : α → Build β} {value : β}
    (run : (Build.askFor question >>= next).run start = (.ok value, after)) :
    ∃ answer, question start.program = .ok answer ∧ (next answer).run start = (.ok value, after) := by
  obtain ⟨answer, middle, asked, later⟩ := of_run_bind_eq_ok run
  rw [Build.run_askFor] at asked
  obtain ⟨isAnswer, rfl⟩ := Prod.mk.inj asked
  exact ⟨answer, isAnswer, later⟩

/-- A change that is reported as one. -/
theorem of_then_true_eq_ok {program after : Program} {step : Change Unit}
    (run : (step >>= fun _ => pure true : Change Bool).run program = (.ok true, after)) :
    step.run program = (.ok (), after) := by
  obtain ⟨⟨⟩, middle, ran, later⟩ := of_run_bind_eq_ok run
  cases later
  exact ran

/-- A change keeps a property of the program if it succeeds. -/
def Carries (kept : Program → Prop) (step : Change α) : Prop :=
  ∀ program value after, kept program → step.run program = (.ok value, after) → kept after

section Rules

variable {kept : Program → Prop}

theorem Keeps.carries {step : Change α} (keeps : Keeps kept step) : Carries kept step := by
  intro program value after holds run
  have kept := keeps program holds
  rwa [run] at kept

theorem Carries.bind {step : Change α} {next : α → Change β} (first : Carries kept step)
    (second : ∀ value, Carries kept (next value)) : Carries kept (step >>= next) := by
  intro program value after holds run
  obtain ⟨between, middle, ran, later⟩ := of_run_bind_eq_ok run
  exact second between middle value after (first program between middle holds ran) later

theorem carries_pure (value : α) : Carries kept (pure value) :=
  (keeps_pure value).carries

theorem Carries.ite {condition : Prop} [Decidable condition] {first second : Change α}
    (onTrue : Carries kept first) (onFalse : Carries kept second) :
    Carries kept (if condition then first else second) := by
  split
  · exact onTrue
  · exact onFalse

/-- A rewrite changes a program for another one that has the property. -/
def RewriteCarries (kept : Program → Prop) (rewrite : Rewrite) : Prop :=
  ∀ op program after, kept program → op ∈ program.tree.ops →
    (rewrite op).run program = (.ok true, after) → kept after

theorem carries_tryEach {rewrite : Rewrite} (idle : ∀ op, Idle (rewrite op))
    (each : RewriteCarries kept rewrite) (ops : List OpId) (program after : Program) (changed : Bool)
    (holds : kept program) (inTree : ∀ op ∈ ops, op ∈ program.tree.ops)
    (run : (Rewrite.tryEach rewrite ops).run program = (.ok changed, after)) : kept after := by
  induction ops with
  | nil =>
    cases run
    exact holds
  | cons op ops ih =>
    rw [Rewrite.tryEach] at run
    obtain ⟨first, middle, ran, later⟩ := of_run_bind_eq_ok run
    cases first with
    | true =>
      cases later
      exact each op program _ holds (inTree op List.mem_cons_self) ran
    | false =>
      have unchanged := idle op program
      rw [ran] at unchanged
      rw [show middle = program from unchanged rfl] at later
      exact ih (fun other member => inTree other (List.mem_cons_of_mem _ member)) later

theorem carries_tryAll {rewrites : List Rewrite} (idle : ∀ rewrite ∈ rewrites, ∀ op, Idle (rewrite op))
    (each : ∀ rewrite ∈ rewrites, RewriteCarries kept rewrite) :
    Carries kept (Rewrite.tryAll rewrites) := by
  induction rewrites with
  | nil => exact carries_pure _
  | cons rewrite rewrites ih =>
    have later := ih (fun other member => idle other (List.mem_cons_of_mem _ member))
      fun other member => each other (List.mem_cons_of_mem _ member)
    have tried : Carries kept (Change.ask (fun program => program.tree.ops) >>=
        Rewrite.tryEach rewrite) := fun program changed after holds run =>
      carries_tryEach (idle rewrite List.mem_cons_self) (each rewrite List.mem_cons_self) _ program
        after changed holds (fun _ member => member) run
    exact tried.bind fun changed => Carries.ite (carries_pure _) later

theorem carries_repeatWithin {step : Change Bool} (carries : Carries kept step) (fuel : Nat) :
    Carries kept (Rewrite.repeatWithin step fuel) := by
  induction fuel with
  | zero => exact carries_pure _
  | succ fuel ih =>
    refine carries.bind fun changed => ?_
    exact Carries.ite (ih.bind fun _ => carries_pure _) (carries_pure _)

/-- What every rewrite of a list carries on is carried on by applying them as often as possible. -/
theorem carries_exhaust {rewrites : List Rewrite}
    (idle : ∀ rewrite ∈ rewrites, ∀ op, Idle (rewrite op))
    (each : ∀ rewrite ∈ rewrites, RewriteCarries kept rewrite) :
    Carries kept (Rewrite.exhaust rewrites) :=
  carries_repeatWithin (carries_tryAll idle each) _

end Rules

/-! ### Changes that do not fail -/

section Completion

variable {kept : Program → Prop}

/-- Where the property holds, the change succeeds, and the property holds again. -/
def Completes (kept : Program → Prop) (step : Change α) : Prop :=
  ∀ program, kept program → ∃ value after, step.run program = (.ok value, after) ∧ kept after

theorem completes_pure (value : α) : Completes kept (pure value) :=
  fun program holds => ⟨value, program, rfl, holds⟩

theorem run_bind_of_ok {step : Change α} {next : α → Change β} {program middle : Program} {value : α}
    (run : step.run program = (.ok value, middle)) :
    (step >>= next).run program = (next value).run middle := by
  rw [run_bind, run]

theorem Completes.bind {step : Change α} {next : α → Change β} (first : Completes kept step)
    (second : ∀ value, Completes kept (next value)) : Completes kept (step >>= next) := by
  intro program holds
  obtain ⟨between, middle, ran, still⟩ := first program holds
  obtain ⟨value, after, later, finally'⟩ := second between middle still
  exact ⟨value, after, (run_bind_of_ok ran).trans later, finally'⟩

theorem Completes.ite {condition : Prop} [Decidable condition] {first second : Change α}
    (onTrue : Completes kept first) (onFalse : Completes kept second) :
    Completes kept (if condition then first else second) := by
  split
  · exact onTrue
  · exact onFalse

/-- A rewrite succeeds at the operations of a program that has the property, which holds again. -/
def RewriteCompletes (kept : Program → Prop) (rewrite : Rewrite) : Prop :=
  ∀ op program, kept program → op ∈ program.tree.ops →
    ∃ changed after, (rewrite op).run program = (.ok changed, after) ∧ kept after

theorem completes_tryEach {rewrite : Rewrite} (idle : ∀ op, Idle (rewrite op))
    (each : RewriteCompletes kept rewrite) (ops : List OpId) (program : Program) (holds : kept program)
    (inTree : ∀ op ∈ ops, op ∈ program.tree.ops) :
    ∃ changed after, (Rewrite.tryEach rewrite ops).run program = (.ok changed, after) ∧ kept after := by
  induction ops with
  | nil => exact ⟨false, program, rfl, holds⟩
  | cons op ops ih =>
    obtain ⟨changed, after, ran, still⟩ := each op program holds (inTree op List.mem_cons_self)
    rw [Rewrite.tryEach, run_bind_of_ok ran]
    cases changed with
    | true => exact ⟨true, after, rfl, still⟩
    | false =>
      have unchanged := idle op program
      rw [ran] at unchanged
      rw [show after = program from unchanged rfl]
      exact ih fun other member => inTree other (List.mem_cons_of_mem _ member)

theorem completes_tryAll {rewrites : List Rewrite} (idle : ∀ rewrite ∈ rewrites, ∀ op, Idle (rewrite op))
    (each : ∀ rewrite ∈ rewrites, RewriteCompletes kept rewrite) :
    Completes kept (Rewrite.tryAll rewrites) := by
  induction rewrites with
  | nil => exact completes_pure _
  | cons rewrite rewrites ih =>
    have later := ih (fun other member => idle other (List.mem_cons_of_mem _ member))
      fun other member => each other (List.mem_cons_of_mem _ member)
    have tried : Completes kept (Change.ask (fun program => program.tree.ops) >>=
        Rewrite.tryEach rewrite) := fun program holds =>
      completes_tryEach (idle rewrite List.mem_cons_self) (each rewrite List.mem_cons_self) _ program
        holds fun _ member => member
    exact tried.bind fun changed => Completes.ite (completes_pure _) later

theorem completes_repeatWithin {step : Change Bool} (completes : Completes kept step) (fuel : Nat) :
    Completes kept (Rewrite.repeatWithin step fuel) := by
  induction fuel with
  | zero => exact completes_pure _
  | succ fuel ih =>
    refine completes.bind fun changed => ?_
    exact Completes.ite (ih.bind fun _ => completes_pure _) (completes_pure _)

/-- If no rewrite of a list fails, applying them as often as possible does not fail. -/
theorem completes_exhaust {rewrites : List Rewrite}
    (idle : ∀ rewrite ∈ rewrites, ∀ op, Idle (rewrite op))
    (each : ∀ rewrite ∈ rewrites, RewriteCompletes kept rewrite) :
    Completes kept (Rewrite.exhaust rewrites) :=
  completes_repeatWithin (completes_tryAll idle each) _

end Completion

end TensorIR
