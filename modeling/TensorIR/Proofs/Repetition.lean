import TensorIR.Proofs.Success

/-!
# How often a program is rewritten

Rewriting stops where no rewrite changes anything, or after a fixed number of changes. Where it stops
by itself, every rewrite has been tried on every operation in vain, so rewriting once more changes
nothing. Where each change makes a program smaller in some measure, the measure of the program at the
start bounds the number of changes.

## Main definitions

* `Rewrite.changesWithin` — the number of changes before rewriting stops

## Main results

* `Rewrite.of_tryAll_eq_ok_true`, `Rewrite.of_tryAll_eq_ok_false` — what trying rewrites comes to
* `Rewrite.settled_of_exhaust`, `Rewrite.exhaust_eq_ok_false` — rewriting that stops by itself need
  not be done again
* `Rewrite.changesWithin_le` — a bound from a measure
-/

namespace TensorIR

namespace Rewrite

variable {step : Change Bool} {rewrite : Rewrite} {rewrites : List Rewrite}
  {program start after : Program} {changed : Bool} {fuel : Nat}

/-! ### One change -/

/-- What is changed is changed by the rewrite of one operation, in the program as it has been. -/
theorem of_tryEach_eq_ok_true (idle : ∀ op, Idle (rewrite op)) {ops : List OpId}
    (run : (tryEach rewrite ops).run program = (.ok true, after)) :
    ∃ op ∈ ops, (rewrite op).run program = (.ok true, after) := by
  induction ops with
  | nil => cases run
  | cons op ops ih =>
    rw [tryEach] at run
    obtain ⟨first, middle, ran, later⟩ := of_run_bind_eq_ok run
    cases first with
    | true =>
      cases later
      exact ⟨op, List.mem_cons_self, ran⟩
    | false =>
      have unchanged := idle op program
      rw [ran] at unchanged
      rw [show middle = program from unchanged rfl] at later
      obtain ⟨other, member, changed⟩ := ih later
      exact ⟨other, List.mem_cons_of_mem _ member, changed⟩

/-- A rewrite that changes nothing has been tried on all operations. -/
theorem of_tryEach_eq_ok_false (idle : ∀ op, Idle (rewrite op)) {ops : List OpId}
    (run : (tryEach rewrite ops).run program = (.ok false, after)) :
    after = program ∧ ∀ op ∈ ops, (rewrite op).run program = (.ok false, program) := by
  induction ops with
  | nil =>
    cases run
    simp
  | cons op ops ih =>
    rw [tryEach] at run
    obtain ⟨first, middle, ran, later⟩ := of_run_bind_eq_ok run
    cases first with
    | true => cases later
    | false =>
      have unchanged := idle op program
      rw [ran] at unchanged
      obtain rfl : middle = program := unchanged rfl
      exact ⟨(ih later).1, List.forall_mem_cons.mpr ⟨ran, (ih later).2⟩⟩

theorem tryEach_eq_ok_false {ops : List OpId}
    (settled : ∀ op ∈ ops, (rewrite op).run program = (.ok false, program)) :
    (tryEach rewrite ops).run program = (.ok false, program) := by
  induction ops with
  | nil => rfl
  | cons op ops ih =>
    obtain ⟨first, later⟩ := List.forall_mem_cons.mp settled
    rw [tryEach, run_bind, first]
    exact ih later

theorem of_tryAll_eq_ok_true (idle : ∀ rewrite ∈ rewrites, ∀ op, Idle (rewrite op))
    (run : (tryAll rewrites).run program = (.ok true, after)) :
    ∃ rewrite ∈ rewrites, ∃ op ∈ program.tree.ops, (rewrite op).run program = (.ok true, after) := by
  induction rewrites with
  | nil => cases run
  | cons rewrite rewrites ih =>
    rw [tryAll, run_bind, Change.run_ask] at run
    obtain ⟨changed, middle, ran, later⟩ := of_run_bind_eq_ok run
    have idleFirst := idle rewrite List.mem_cons_self
    cases changed with
    | true =>
      cases later
      exact ⟨rewrite, List.mem_cons_self, of_tryEach_eq_ok_true idleFirst ran⟩
    | false =>
      obtain ⟨rfl, -⟩ := of_tryEach_eq_ok_false idleFirst ran
      obtain ⟨other, member, changed⟩ :=
        ih (fun other among => idle other (List.mem_cons_of_mem _ among)) later
      exact ⟨other, List.mem_cons_of_mem _ member, changed⟩

/-- Rewrites that change nothing have all been tried on all operations. -/
theorem of_tryAll_eq_ok_false (idle : ∀ rewrite ∈ rewrites, ∀ op, Idle (rewrite op))
    (run : (tryAll rewrites).run program = (.ok false, after)) : after = program ∧
      ∀ rewrite ∈ rewrites, ∀ op ∈ program.tree.ops, (rewrite op).run program = (.ok false, program) := by
  induction rewrites with
  | nil =>
    cases run
    simp
  | cons rewrite rewrites ih =>
    rw [tryAll, run_bind, Change.run_ask] at run
    obtain ⟨changed, middle, ran, later⟩ := of_run_bind_eq_ok run
    cases changed with
    | true => cases later
    | false =>
      obtain ⟨rfl, first⟩ := of_tryEach_eq_ok_false (idle rewrite List.mem_cons_self) ran
      obtain ⟨same, others⟩ := ih (fun other among => idle other (List.mem_cons_of_mem _ among)) later
      exact ⟨same, List.forall_mem_cons.mpr ⟨first, others⟩⟩

theorem tryAll_eq_ok_false (settled : ∀ rewrite ∈ rewrites, ∀ op ∈ program.tree.ops,
    (rewrite op).run program = (.ok false, program)) :
    (tryAll rewrites).run program = (.ok false, program) := by
  induction rewrites with
  | nil => rfl
  | cons rewrite rewrites ih =>
    obtain ⟨first, later⟩ := List.forall_mem_cons.mp settled
    rw [tryAll, run_bind, Change.run_ask]
    simp only []
    rw [run_bind, tryEach_eq_ok_false first]
    exact ih later

theorem idle_tryAll (idle : ∀ rewrite ∈ rewrites, ∀ op, Idle (rewrite op)) :
    Idle (tryAll rewrites) :=
  fun _ unchanged => (of_tryAll_eq_ok_false idle (Prod.ext unchanged rfl)).1

/-! ### Changes one after the other -/

/-- The number of times that a step changes something before it changes nothing or fails, at most
`fuel`. -/
def changesWithin (step : Change Bool) : Nat → Program → Nat
  | 0, _ => 0
  | fuel + 1, program =>
    match step.run program with
    | (.ok true, after) => changesWithin step fuel after + 1
    | _ => 0

/-- A step that changes nothing is not repeated. -/
theorem repeatWithin_eq_ok_false (settled : step.run program = (.ok false, program)) (fuel : Nat) :
    (repeatWithin step fuel).run program = (.ok false, program) := by
  cases fuel with
  | zero => rfl
  | succ fuel =>
    rw [repeatWithin, run_bind, settled]
    rfl

/-- Repetition that stops before its limit stops where the step changes nothing. -/
theorem settled_of_repeatWithin (idle : Idle step) (below : changesWithin step fuel start < fuel)
    (run : (repeatWithin step fuel).run start = (.ok changed, after)) :
    step.run after = (.ok false, after) := by
  induction fuel generalizing start changed with
  | zero => exact absurd below (Nat.not_lt_zero _)
  | succ fuel ih =>
    rw [repeatWithin] at run
    obtain ⟨first, middle, ran, later⟩ := of_run_bind_eq_ok run
    cases first with
    | true =>
      simp only [changesWithin, ran, Nat.add_lt_add_iff_right] at below
      obtain ⟨again, final, repeated, ended⟩ := of_run_bind_eq_ok later
      cases ended
      exact ih below repeated
    | false =>
      cases later
      have unchanged := idle start
      rw [ran] at unchanged
      obtain rfl : after = start := unchanged rfl
      exact ran

/-- A limit that is not reached does not matter. -/
theorem repeatWithin_eq_of_lt {limit : Nat} (below : changesWithin step fuel start < fuel)
    (larger : fuel ≤ limit) :
    (repeatWithin step limit).run start = (repeatWithin step fuel).run start := by
  induction fuel generalizing start limit with
  | zero => exact absurd below (Nat.not_lt_zero _)
  | succ fuel ih =>
    obtain ⟨limit, rfl⟩ := Nat.exists_eq_add_of_lt larger
    rw [repeatWithin, repeatWithin, run_bind, run_bind]
    rcases ran : step.run start with ⟨error | changed, middle⟩
    · rfl
    cases changed with
    | true =>
      simp only [changesWithin, ran, Nat.add_lt_add_iff_right] at below
      simp only [if_true, run_bind, ih below (Nat.le_add_right fuel limit)]
    | false => rfl

/-- Rewriting that stops before its limit stops where no rewrite changes anything. -/
theorem settled_of_exhaust (idle : ∀ rewrite ∈ rewrites, ∀ op, Idle (rewrite op))
    (below : changesWithin (tryAll rewrites) limit start < limit)
    (run : (exhaust rewrites).run start = (.ok changed, after)) :
    ∀ rewrite ∈ rewrites, ∀ op ∈ after.tree.ops, (rewrite op).run after = (.ok false, after) :=
  (of_tryAll_eq_ok_false idle (settled_of_repeatWithin (idle_tryAll idle) below run)).2

/-- Where no rewrite changes anything, rewriting changes nothing. -/
theorem exhaust_eq_ok_false (settled : ∀ rewrite ∈ rewrites, ∀ op ∈ program.tree.ops,
    (rewrite op).run program = (.ok false, program)) :
    (exhaust rewrites).run program = (.ok false, program) :=
  repeatWithin_eq_ok_false (tryAll_eq_ok_false settled) limit

/-- If each change makes a program smaller, its measure bounds the number of changes. -/
theorem changesWithin_le {kept : Program → Prop} (measure : Program → Nat)
    (decreases : ∀ program after, kept program → step.run program = (.ok true, after) →
      kept after ∧ measure after < measure program) (fuel : Nat) (holds : kept start) :
    changesWithin step fuel start ≤ measure start := by
  induction fuel generalizing start with
  | zero => exact Nat.zero_le _
  | succ fuel ih =>
    rw [changesWithin]
    split
    case h_1 _ ran =>
      obtain ⟨keeps, smaller⟩ := decreases start _ holds ran
      exact (Nat.succ_le_succ (ih keeps)).trans smaller
    case h_2 => exact Nat.zero_le _

end Rewrite

end TensorIR
