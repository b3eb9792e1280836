import TensorIR.Proofs.Execution.Rewiring

/-!
# Runs of programs in which an operation has been replaced

If the new operations do what the replaced one did, every call of a function is followed by a call of the
same function in the changed program.

## Main definitions

* `Program.following` — how the values of a function are followed after the replacement

## Main results

* `Program.Replaces.repeats` — the rest of a function does what it did
* `Program.Replaces.refines` — calls have the same outcomes
-/

namespace TensorIR

/-- The values that a function introduces are followed where the ones that stand for them are. -/
def Program.following (start now : Program) (parts : List Part) (image : ValueId → ValueId)
    (dead : ValueId → Prop) (known : ValueId → Slot → Prop) : Tracking where
  inside := start.Inside parts
  dead := dead
  image := image
  known := known
  size := now.values.size

/-! ### Functions that are called -/

theorem Program.exists_entry_of_topLevel {program : Program} {op : OpId} (member : op ∈ program.topLevel) :
    ∃ inside, (op, inside) ∈ program.regions.entries := by
  rw [Program.topLevel, Regions.heads_eq] at member
  obtain ⟨⟨_, inside⟩, entry, rfl⟩ := List.mem_map.mp member
  exact ⟨inside, entry⟩

theorem Program.of_function? {program : Program} {name : String} {function : OpId}
    (found : program.function? name = some function) :
    function ∈ program.topLevel ∧ program.kind function = .func .func := by
  have named := List.find?_some found
  simp only [Bool.and_eq_true, decide_eq_true_eq] at named
  exact ⟨List.mem_reverse.mp (List.mem_of_find?_eq_some found), named.1⟩

theorem Program.entryBlock?_of_functionBody {program : Program} {function : OpId}
    {entry : BlockId × Body}
    (isBody : program.functionBody function = .ok entry) :
    (program.regionsOf function).entryBlock? = some entry := by
  unfold Program.functionBody Program.entryOf? at isBody
  split at isBody
  case h_1 same =>
    cases isBody
    exact same
  case h_2 => cases isBody

/-- A body that is run is the entry block of an operation at the top. -/
theorem Program.StartsWith.of_functionBody {program : Program} {function : OpId} {block : BlockId}
    {body : Body} (formed : program.WellFormed) (member : function ∈ program.topLevel)
    (isBody : program.functionBody function = .ok (block, body)) :
    program.StartsWith function block body := by
  obtain ⟨inside, entry⟩ := Program.exists_entry_of_topLevel member
  obtain ⟨-, found, visited, rfl, rfl⟩ := Program.visits_of_entries entry
  have starts := Program.entryBlock?_of_functionBody isBody
  rw [formed.regionsOf_eq visited] at starts
  exact ⟨found.regions, entry, starts⟩

/-! ### The rest of a function -/

namespace Program.Replaces

variable {start now : Program} {visit : Visit} {front : Body} {image : ValueId → ValueId}
  {dead : ValueId → Prop} {known : ValueId → Slot → Prop} {function : OpId} {block : BlockId}
  {body : Body} {part : Part}

/-- What the rest of a function gives is followed under its own name. -/
theorem assigns (replaces : start.Replaces now visit front image dead) (formed : start.WellFormed)
    (tabled : start.Tabled) (closed : start.Scoped) (starts : start.StartsWith function block body)
    (member : part ∈ .block block :: body.entered) (other : part ≠ .op visit.op) {value : ValueId}
    (isGiven : value ∈ start.given part) (introduces : start.Introduces part value) :
    (start.following now (.block block :: body.entered) image dead known).Assigns value where
  inside := ⟨part, member, introduces⟩
  image_eq := (replaces.mirrors formed tabled closed starts member other).fixed value isGiven
  only different _ _ same := by
    rcases replaces.image_cases different with fixed | ⟨-, isNew, -⟩
    · exact fixed.symm.trans same
    · exact absurd introduces.1 (Nat.not_lt.mpr (same ▸ isNew))
  below := introduces.1.trans_le replaces.grown.values_le

/-- What an operation of a function does can be done with the values that stand for its operands. -/
theorem copies (replaces : start.Replaces now visit front image dead) (formed : start.WellFormed)
    (tabled : start.Tabled) (closed : start.Scoped) (starts : start.StartsWith function block body)
    {op : OpId} (member : .op op ∈ body.entered) (notFunction : start.kind op ≠ .func .func) :
    start.Copies (start.following now (.block block :: body.entered) image dead known) now op where
  kind_eq := replaces.grown.kind_eq op (formed.knows _ (starts.entered_mem _ (.tail _ member))).1
  attributes_eq :=
    replaces.grown.attributes_eq op (formed.knows _ (starts.entered_mem _ (.tail _ member))).1
  results_eq := replaces.results_eq op (formed.knows _ (starts.entered_mem _ (.tail _ member))).1
  types_eq result isResult := by
    have owns := (formed.knows _ (starts.entered_mem _ (.tail _ member))).2 notFunction
    exact (replaces.types_eq result (owns.lt result isResult)).1
  operands := (replaces.standsIn formed tabled closed starts member).imp
    fun _ _ stands => ⟨stands.type_eq, stands.inside⟩

/-- The rest of a function does what it did. -/
theorem repeats (replaces : start.Replaces now visit front image dead) (formed : start.WellFormed)
    (tabled : start.Tabled) (closed : start.Scoped) (starts : start.StartsWith function block body)
    (tells : ∀ op, start.Tells known op)
    (free : ∀ block, ∀ argument ∈ (start.header block).arguments, ∀ slot, known argument slot)
    (member : part ∈ .block block :: body.entered) (other : part ≠ .op visit.op) :
    (start.following now (.block block :: body.entered) image dead known).Repeats start now part := by
  have knows := formed.knows part (starts.entered_mem part member)
  have mirror := replaces.mirrors formed tabled closed starts member other
  cases part with
  | op op =>
    intro runs
    have notFunction : start.kind op ≠ .func .func := fun isFunction => by
      rw [isFunction] at runs
      cases runs
    have owns := knows.2 notFunction
    have entered : Part.op op ∈ body.entered := by simpa using member
    refine ⟨replaces.copies formed tabled closed starts entered notFunction,
      fun result isResult => ?_, tells op⟩
    exact replaces.assigns formed tabled closed starts member other isResult
      ⟨owns.lt result isResult, owns.origin_eq result isResult⟩
  | block inner =>
    refine ⟨mirror.given_eq, fun argument isArgument => ⟨?_, free inner argument isArgument⟩⟩
    exact replaces.assigns formed tabled closed starts member other isArgument
      ⟨knows.2.lt argument isArgument, knows.2.origin_eq argument isArgument⟩

/-- A function is found under its name as before. -/
theorem function?_eq (replaces : start.Replaces now visit front image dead) (formed : start.WellFormed)
    (name : String) : now.function? name = start.function? name := by
  have isFunction (program : Program) (op : OpId) (other : program.kind op ≠ .func .func) :
      (program.kind op = .func .func && program.functionName? op == some name) = false := by
    simp [other]
  have below (op : OpId) (member : op ∈ start.topLevel) : op.index < start.operations.size := by
    obtain ⟨inside, entry⟩ := Program.exists_entry_of_topLevel member
    obtain ⟨-, found, visited, rfl, -⟩ := Program.visits_of_entries entry
    exact (formed.knows _ (Body.op_mem_parts.mpr (Program.mem_ops_of_visits visited))).1
  have visited := formed.knows _ (Body.op_mem_parts.mpr (Program.mem_ops_of_visits replaces.visited))
  have same : now.topLevel.filter (fun op =>
        now.kind op = .func .func && now.functionName? op == some name) =
      start.topLevel.filter fun op =>
        start.kind op = .func .func && start.functionName? op == some name := by
    rw [Program.topLevel, Regions.heads_eq, replaces.regions, Regions.map_filter_entries, ← Regions.heads_eq]
    · refine List.filter_congr fun op member => ?_
      rw [replaces.grown.kind_eq op (below op member), Program.functionName?,
        replaces.grown.attributes_eq op (below op member)]
      rfl
    · refine isFunction now visit.op ?_
      rw [replaces.grown.kind_eq _ visited.1]
      exact replaces.notFunction
    · exact fun new inside among => isFunction now new (replaces.front_entries new inside among).2.1
  unfold Program.function?
  rw [← List.head?_filter, ← List.head?_filter, List.filter_reverse, List.filter_reverse, same]

/-- If the new operations do what the replaced one did, calls have the same outcomes. -/
theorem refines (replaces : start.Replaces now visit front image dead)
    (known : ValueId → Slot → Prop) (formed : start.WellFormed) (tabled : start.Tabled)
    (closed : start.Scoped) (tells : ∀ op, start.Tells known op)
    (free : ∀ block, ∀ argument ∈ (start.header block).arguments, ∀ slot, known argument slot)
    (followsAt : ∀ function block body, start.StartsWith function block body →
      .op visit.op ∈ body.entered → ∀ call otherCall : Caller, call.Corresponds otherCall →
        (start.following now (.block block :: body.entered) image dead known).FollowsAt start now call
          otherCall visit.op front.inFront) : start.Refines now := by
  refine Program.FollowsFunctions.refines fun name function found => ?_
  refine ⟨(replaces.function?_eq formed name).trans found, fun block body isBody => ?_⟩
  obtain ⟨onTop, isFunction⟩ := Program.of_function? found
  have starts := Program.StartsWith.of_functionBody formed onTop isBody
  have moved := replaces.startsWith formed starts fun same => replaces.notFunction (same ▸ isFunction)
  refine ⟨start.following now (.block block :: body.entered) image dead known, _,
    moved.functionBody replaces.formed, rfl, ?_, fun call otherCall calls => ?_⟩
  · exact replaces.repeats formed tabled closed starts tells free List.mem_cons_self (by simp)
  · refine Body.simulates calls body (Body.nodup_ops (List.nodup_cons.mp (starts.nodup formed)).2)
      (fun part member => ?_) fun member => followsAt _ block body starts member call otherCall calls
    exact replaces.repeats formed tabled closed starts tells free (List.mem_cons_of_mem _ member)

end Program.Replaces

end TensorIR
