import TensorIR.Proofs.Invariant

/-!
# Runs of a lowering

A lowering always takes the first operation that is due, in program order, and nothing happens
between two operations. Its run is therefore a chain of single lowerings, also if it fails, in which
case the last of them is the one that has failed.

## Main definitions

* `Lowering.IsNext` — the first operation that is due
* `Lowering.Steps` — a chain of single lowerings

## Main results

* `Lowering.exhaust_cases` — the run of a lowering as a chain
-/

namespace TensorIR

namespace Lowering

variable {isDue : Program → OpId → TorchKind → Bool} {lower : OpId → TorchKind → Lowering Unit}

/-- The program and the table of parameters between two lowerings. -/
abbrev State := Program × QuantTable

/-- What a step of a lowering makes of a state. -/
def exec {α : Type} (step : Lowering α) (state : State) : Except Error (α × QuantTable) × Program :=
  (step.run state.2).run state.1

/-- An operation is the first one in program order that is due. -/
structure IsNext (isDue : Program → OpId → TorchKind → Bool) (program : Program) (op : OpId)
    (kind : TorchKind) : Prop where
  isKind : program.kind op = .torch kind
  due : isDue program op kind = true
  first : ∃ earlier later, program.tree.ops = earlier ++ op :: later ∧
    ∀ other ∈ earlier, ∀ otherKind, program.kind other = .torch otherKind →
      isDue program other otherKind = false

theorem IsNext.mem {program : Program} {op : OpId} {kind : TorchKind}
    (next : IsNext isDue program op kind) : op ∈ program.tree.ops := by
  obtain ⟨earlier, later, same, -⟩ := next.first
  rw [same]
  simp

/-- A chain of lowerings of single operations, each the first that is due at its turn. -/
inductive Steps (isDue : Program → OpId → TorchKind → Bool) (lower : OpId → TorchKind → Lowering Unit) :
    State → State → Prop where
  | refl (state : State) : Steps isDue lower state state
  | tail {start middle final : State} {op : OpId} {kind : TorchKind}
    (before : Steps isDue lower start middle) (next : IsNext isDue middle.1 op kind)
    (run : exec (lower op kind) middle = (.ok ((), final.2), final.1)) :
    Steps isDue lower start final

theorem Steps.trans {start middle final : State} (first : Steps isDue lower start middle)
    (second : Steps isDue lower middle final) : Steps isDue lower start final := by
  induction second with
  | refl => exact first
  | tail _ next run ih => exact .tail ih next run

theorem exec_modify (change : QuantTable → QuantTable) (state : State) :
    exec (modify change : Lowering PUnit) state = (.ok (⟨⟩, change state.2), state.1) := rfl

theorem exec_get (state : State) :
    exec (get : Lowering QuantTable) state = (.ok (state.2, state.2), state.1) := rfl

theorem exec_bind {α β : Type} (step : Lowering α) (next : α → Lowering β) (state : State) :
    exec (step >>= next) state =
      match exec step state with
      | (.ok (value, table), after) => exec (next value) (after, table)
      | (.error error, after) => (.error error, after) := by
  unfold exec
  rw [StateT.run_bind, run_bind]
  rcases (step.run state.2).run state.1 with ⟨_ | _, _⟩ <;> rfl

theorem exec_lift {α : Type} (change : Change α) (state : State) :
    exec (liftM change : Lowering α) state =
      match change.run state.1 with
      | (.ok value, after) => (.ok (value, state.2), after)
      | (.error error, after) => (.error error, after) := by
  change (change >>= fun value => pure (value, state.2)).run state.1 = _
  rw [run_bind]
  rcases change.run state.1 with ⟨_ | _, _⟩ <;> rfl

theorem exec_lift_snd {α : Type} (change : Change α) (state : State) :
    (exec (liftM change : Lowering α) state).2 = (change.run state.1).2 := by
  rw [exec_lift]
  rcases change.run state.1 with ⟨_ | _, _⟩ <;> rfl

/-- The table with the parameters of a value, if it has any. -/
def record (table : QuantTable) (value : ValueId) : Option QuantParams → QuantTable
  | some params => table.insert value params
  | none => table

/-- The value that is built comes in place of the operation, and its parameters into the table. -/
theorem exec_supersede (op : OpId) (build : Build (ValueId × Option QuantParams)) (state : State) :
    exec (supersede op build) state =
      match (Change.build op build).run state.1 with
      | (.error error, after) => (.error error, after)
      | (.ok (value, params), middle) =>
        match (Change.supersede op value).run middle with
        | (.error error, after) => (.error error, after)
        | (.ok _, after) => (.ok ((), record state.2 value params), after) := by
  unfold supersede
  rw [exec_bind, exec_lift]
  rcases (Change.build op build).run state.1 with ⟨error | ⟨value, params⟩, middle⟩
  · rfl
  · simp only []
    cases params with
    | none =>
      simp only []
      rw [exec_lift]
      rcases (Change.supersede op value).run middle with ⟨_ | _, _⟩ <;> rfl
    | some params =>
      simp only []
      rw [exec_bind, exec_modify]
      simp only []
      rw [exec_lift]
      rcases (Change.supersede op value).run middle with ⟨_ | _, _⟩ <;> rfl

theorem exec_attempt (op : OpId) (state : State) :
    exec (attempt isDue lower op) state =
      match state.1.kind op with
      | .torch kind =>
        if isDue state.1 op kind then
          match exec (lower op kind) state with
          | (.ok (_, table), after) => (.ok (true, table), after)
          | (.error error, after) => (.error error, after)
        else (.ok (false, state.2), state.1)
      | _ => (.ok (false, state.2), state.1) := by
  unfold attempt
  rw [exec_bind]
  change exec (match state.1.kind op with
    | .torch kind => if isDue state.1 op kind then do
        lower op kind
        return true
      else return false
    | _ => return false) state = _
  split
  · split
    · rw [exec_bind]
      rcases exec (lower op _) state with ⟨_ | _, _⟩ <;> rfl
    · rfl
  · rfl

/-- The first lowering of a pass is the next one, and what comes of it is what comes of the pass. -/
inductive Outcome (isDue : Program → OpId → TorchKind → Bool) (lower : OpId → TorchKind → Lowering Unit)
    (state : State) : Except Error (Bool × QuantTable) × Program → Prop where
  | idle : Outcome isDue lower state (.ok (false, state.2), state.1)
  | lowered {op : OpId} {kind : TorchKind} {final : State} (next : IsNext isDue state.1 op kind)
    (run : exec (lower op kind) state = (.ok ((), final.2), final.1)) :
    Outcome isDue lower state (.ok (true, final.2), final.1)
  | failed {op : OpId} {kind : TorchKind} {error : Error} {after : Program}
    (next : IsNext isDue state.1 op kind) (run : exec (lower op kind) state = (.error error, after)) :
    Outcome isDue lower state (.error error, after)

/-- Going over the operations of a program lowers the first that is due. -/
theorem outcome_tryEach (state : State) (earlier ops : List OpId)
    (inTree : state.1.tree.ops = earlier ++ ops)
    (notDue : ∀ other ∈ earlier, ∀ kind, state.1.kind other = .torch kind →
      isDue state.1 other kind = false) :
    Outcome isDue lower state (exec (Rewrite.tryEach (attempt isDue lower) ops) state) := by
  induction ops generalizing earlier with
  | nil => exact .idle
  | cons op ops ih =>
    have skip (idle : ∀ kind, state.1.kind op = .torch kind → isDue state.1 op kind = false) :
        Outcome isDue lower state (exec (Rewrite.tryEach (attempt isDue lower) ops) state) := by
      refine ih (earlier ++ [op]) (by simp [inTree]) fun other member => ?_
      rcases List.mem_append.mp member with before | here
      · exact notDue other before
      · exact List.mem_singleton.mp here ▸ idle
    rw [Rewrite.tryEach, exec_bind, exec_attempt]
    cases isKind : state.1.kind op with
    | torch kind =>
      cases due : isDue state.1 op kind with
      | false =>
        simp only [due]
        exact skip fun other same => by rw [← due]; cases isKind.symm.trans same; rfl
      | true =>
        have next : IsNext isDue state.1 op kind := ⟨isKind, due, earlier, ops, inTree, notDue⟩
        simp only [due, if_true]
        rcases run : exec (lower op kind) state with ⟨error | ⟨_, table⟩, after⟩
        · exact .failed next run
        · exact .lowered next run
    | module | func | arith | math | memref | scf | tosa =>
      exact skip fun kind same => by rw [isKind] at same; cases same

theorem outcome_lowerFirst (state : State) :
    Outcome isDue lower state (exec (lowerFirst isDue lower) state) :=
  outcome_tryEach state [] _ rfl fun _ member => absurd member List.not_mem_nil

/-- What the run of a lowering comes to: a chain of single lowerings, after which one may fail. -/
inductive Run (isDue : Program → OpId → TorchKind → Bool) (lower : OpId → TorchKind → Lowering Unit)
    (start : State) : Except Error (Bool × QuantTable) × Program → Prop where
  | done {final : State} (changed : Bool) (steps : Steps isDue lower start final) :
    Run isDue lower start (.ok (changed, final.2), final.1)
  | failed {middle : State} {op : OpId} {kind : TorchKind} {error : Error} {after : Program}
    (steps : Steps isDue lower start middle) (next : IsNext isDue middle.1 op kind)
    (run : exec (lower op kind) middle = (.error error, after)) :
    Run isDue lower start (.error error, after)

/-- The run of a lowering is a chain of single lowerings. -/
theorem run_exhaust (state : State) : Run isDue lower state (exec (exhaust isDue lower) state) := by
  unfold exhaust Rewrite.untilStable
  generalize Rewrite.limit = fuel
  induction fuel generalizing state with
  | zero => exact .done false (.refl state)
  | succ fuel ih =>
    have outcome : Outcome isDue lower state _ := outcome_lowerFirst state
    rw [Rewrite.repeatWithin, exec_bind]
    generalize exec (lowerFirst isDue lower) state = result at outcome
    cases outcome with
    | idle => exact .done false (.refl state)
    | failed next run => exact .failed (.refl state) next run
    | @lowered op kind final next run =>
      have later := ih final
      have first := Steps.tail (.refl state) next run
      simp only [if_true]
      rw [exec_bind]
      generalize exec (Rewrite.repeatWithin (lowerFirst isDue lower) fuel) final = result at later ⊢
      cases later with
      | done changed steps => exact .done true (first.trans steps)
      | failed steps next run => exact .failed (first.trans steps) next run

end Lowering

end TensorIR
