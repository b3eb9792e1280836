import TensorIR.Proofs.Ranges.Operations

/-!
# Runs of functions keep data in range

Loops, branches, functions and calls hand data on. The rules compare the types on both sides, so data that
belongs to its type on one side belongs to its type on the other. The position of a loop lies between its
bounds and therefore is of type `index`. With operations that keep data in range, whole blocks do, and with
calls that do, so do calls that are nested more deeply.

## Main definitions

* `Program.PassesOn` — the types of what a region passes on
* `Machine.FitsParameters` — data that a function can be called with
* `Caller.KeepsRange` — calls that keep data in range
* `Program.Clamped` — a valid program in which clampings meet the ranges of types

## Main results

* `Run.ensures_repeated` — the rule for loops
* `Body.ensures` — the operations of a block
* `Program.Clamped.ensures_callWithin` — calls
-/

namespace TensorIR

variable {program : Program} {symbols : SymbolTable} {op : OpId} {machine : Machine} {call : Caller}

/-! ### What the rules for control flow tell about types -/

namespace Program

/-- The operation that ends the entry block of a region, of a given kind, passes on values of given types, as
far as elements are concerned. -/
def PassesOn (program : Program) (region : Option Blocks) (kind : OpKind)
    (elements : List (Option ScalarType)) : Prop :=
  ∃ last, program.terminatorOf? region kind = some last ∧
    (program.operands last).map program.elementOf? = elements

theorem passesOn_of_yieldedTypes {region : Blocks} {what : String} {types expected : List Ty}
    (yielded : program.yieldedTypes region = .ok types) (same : checkSameTypes what types expected = .ok ()) :
    program.PassesOn (some region) (.scf .yield) (expected.map Ty.element?) := by
  obtain ⟨last, ends, typed⟩ := of_yieldedTypes yielded
  exact ⟨last, ends, (elements_of_typed typed).trans (elements_eq_of_checkSameTypes same)⟩

/-- What a loop hands on, from the start to its body, from one round to the next, and at last to its results,
keeps its types. -/
structure LoopFits (program : Program) (op : OpId) : Prop where
  bounds : ∀ value ∈ (program.operands op).take 3, program.elementOf? value = some .index
  initial : ((program.operands op).drop 3).map program.elementOf? =
    (program.results op).map program.elementOf?
  body : ∃ region block body, (program.regionsOf op).get? 0 = some region ∧
    region.entryBlock? = some (block, body) ∧ (program.header block).arguments.map program.elementOf? =
      some .index :: (program.results op).map program.elementOf?
  passes : program.PassesOn ((program.regionsOf op).get? 0) (.scf .yield)
    ((program.results op).map program.elementOf?)

theorem loopFits_of_verifyFor (kept : program.verifyFor op = .ok ()) : program.LoopFits op := by
  obtain ⟨operands, results, region, block, body, arguments, yielded, started, typed, bounds, initial, isRegion,
    isEntry, taken, first, others, passed, same⟩ := of_verifyFor kept
  have forOperands := elements_of_typed started
  have forResults := elements_of_typed typed
  constructor
  case bounds =>
    intro value member
    have isElement : program.elementOf? value ∈ (operands.take 3).map Ty.element? := by
      rw [List.map_take, ← forOperands, ← List.map_take]
      exact List.mem_map_of_mem member
    obtain ⟨type, among, isElement⟩ := List.mem_map.mp isElement
    rw [← isElement, bounds type among]
    rfl
  case initial =>
    rw [List.map_drop, forOperands, ← List.map_drop, forResults, elements_eq_of_checkSameTypes initial]
  case body =>
    refine ⟨region, block, body, isRegion, isEntry, ?_⟩
    obtain ⟨types, rfl⟩ := List.head?_eq_some_iff.mp first
    rw [elements_of_typed taken, forResults, ← elements_eq_of_checkSameTypes others]
    rfl
  case passes =>
    rw [isRegion, forResults]
    exact passesOn_of_yieldedTypes passed same

theorem passesOn_of_verifyChoice (kept : program.verifyChoice op = .ok ()) :
    program.results op = [] ∨ ∀ index < 2, program.PassesOn ((program.regionsOf op).get? index) (.scf .yield)
      ((program.results op).map program.elementOf?) := by
  refine (of_verifyChoice kept).imp_right ?_
  rintro ⟨results, typed, each⟩ index below
  obtain ⟨region, yielded, isRegion, passed, same⟩ := each index below
  rw [isRegion, elements_of_typed typed]
  exact passesOn_of_yieldedTypes passed same

theorem passesOn_of_verifyFunc (kept : program.verifyFunc symbols op .func = .ok ()) :
    program.PassesOn ((program.regionsOf op).get? 0) (.func .ret)
      ((program.results op).map program.elementOf?) := by
  obtain ⟨last, operands, results, ends, passed, typed, fits⟩ := of_verifyFunc kept
  refine ⟨last, ends, ?_⟩
  rw [elements_of_typed passed, elements_of_typed typed, elements_eq_of_checkAssignable fits]

/-- A call passes values of the types of the parameters of the function that a run finds, and its results have
the types of the results of the function. -/
theorem elements_of_call {function : OpId} {callee : String} (table : program.symbolTable = .ok symbols)
    (kept : program.verifyFunc symbols op .call = .ok ())
    (isCallee : (program.attributes op).symbol? "callee" = some callee)
    (found : program.function? callee = some function) :
    (program.results function).map program.elementOf? = (program.results op).map program.elementOf? ∧
      ∀ block body, program.functionBody function = .ok (block, body) →
        (program.header block).arguments.map program.elementOf? =
          (program.operands op).map program.elementOf? := by
  obtain ⟨other, signature, operands, results, isOther, known, passed, typed, arguments, returned⟩ :=
    of_verifyCall kept
  obtain rfl : callee = other := Option.some.inj (isCallee.symm.trans isOther)
  obtain ⟨block, body, isBody, taken, given⟩ := of_signature (signature_of_symbolTable table known found)
  constructor
  · rw [elements_of_typed given, elements_of_typed typed, elements_eq_of_checkAssignable returned]
  · intro entry inside isEntry
    obtain ⟨rfl, -⟩ := Prod.mk.inj (Except.ok.inj (isBody.symm.trans isEntry))
    rw [elements_of_typed taken, elements_of_typed passed, elements_eq_of_checkAssignable arguments]

end Program

/-! ### Loops and branches -/

namespace Run

/-- What holds before a loop and after every round holds after the loop. -/
theorem ensures_repeated {body : List Slot → Run (List Slot)} {width : Int}
    {holds : List Slot → Machine → Prop} {allowed : Int → Prop}
    (each : ∀ position carried machine, allowed position → holds carried machine →
      Ensures machine holds (body (.scalar (.int position) :: carried)))
    (count : Nat) {position : Int} {carried : List Slot}
    (positions : ∀ round < count, allowed (position + round * width)) (starts : holds carried machine) :
    Ensures machine holds (repeated body width count position carried) := by
  induction count generalizing position carried machine with
  | zero => exact ensures_pure starts
  | succ count ih =>
    have first : allowed position := by
      have start := positions 0 (Nat.zero_lt_succ count)
      simpa using start
    refine (each position carried machine first starts).bind fun next after holding => ?_
    -- The rounds that are left start one width further on.
    refine ih (fun round below => ?_) holding
    have later := positions (round + 1) (Nat.succ_lt_succ below)
    rwa [Nat.cast_succ, add_mul, one_mul, add_comm (round * width), ← add_assoc] at later

/-- Every round of a loop is at a position below the upper bound. -/
theorem position_lt {first last width : Int} (positive : 0 < width) {round : Nat}
    (below : round < rounds first last width) : first + round * width < last := by
  -- The number of rounds is the distance divided by the width and rounded up.
  have enough : (round : Int) + 1 ≤ (last - first + width - 1) / width := by
    simp only [rounds] at below
    omega
  have product := (Int.le_ediv_iff_mul_le positive).mp enough
  rw [add_mul, one_mul] at product
  omega

theorem holds_position {first last width : Int} (positive : 0 < width)
    (least : Number.minInt64 ≤ first) (most : last ≤ Number.maxInt64) {round : Nat}
    (below : round < rounds first last width) : ScalarType.index.Holds (.int (first + round * width)) := by
  have less := position_lt positive below
  have more : 0 ≤ round * width := by positivity
  exact ⟨by simp only [ScalarType.bounds, ScalarType.intRange?, Option.getD_some] at *; omega,
    by simp only [ScalarType.bounds, ScalarType.intRange?, Option.getD_some] at *; omega⟩

/-- All positions of a loop are of type `index`, and it starts with data of the types of its results. -/
theorem finds_bounds (inRange : machine.InRange program) (fits : program.LoopFits op) :
    Finds machine (fun found =>
      (∀ round < rounds found.1 found.2.1 found.2.2.1,
        ScalarType.index.Holds (.int (found.1 + round * found.2.2.1))) ∧
      machine.HoldsEach ((program.results op).map program.elementOf?) found.2.2.2) (bounds program op) := by
  obtain ⟨indices, initials, -, -⟩ := fits
  unfold bounds
  split
  case h_2 => exact ensures_throw _
  rename_i lower upper step initial areOperands
  rw [areOperands] at indices initials
  have isIndex (value : ValueId) (member : value ∈ [lower, upper, step]) :
      (program.elementOf? value).isSome := by
    rw [indices value member]
    rfl
  refine (inRange.readInt lower).bind fun first isFirst => ?_
  refine (inRange.readInt upper).bind fun last isLast => ?_
  refine (inRange.readInt step).bind fun width _ => ?_
  by_cases positive : width ≤ 0
  · simp only [positive, if_true]
    exact ensures_throw_bind _
  · simp only [positive, if_false]
    refine (inRange.readEach initial).bind fun slots holds => finds_pure ⟨fun round below => ?_, ?_⟩
    · exact holds_position (not_le.mp positive) (isFirst (isIndex lower (by simp))).1
        (isLast (isIndex upper (by simp))).2 below
    · rw [← initials]
      exact holds

theorem finds_side (inRange : machine.InRange program) :
    Finds machine (fun index => index < 2) (side program op) := by
  refine (finds_operand 0).bind fun condition _ => ?_
  refine (inRange.readInt condition).bind fun chosen _ => finds_pure ?_
  split
  · exact Nat.zero_lt_two
  · exact Nat.one_lt_two

end Run

/-! ### Calls -/

/-- The data belongs to the types of the parameters of a function. -/
def Machine.FitsParameters (machine : Machine) (program : Program) (name : String) (arguments : List Slot) :
    Prop :=
  ∀ function block body, program.function? name = some function →
    program.functionBody function = .ok (block, body) →
      machine.HoldsEach ((program.header block).arguments.map program.elementOf?) arguments

/-- Data of the types of the results of a function comes back. -/
def Program.Returns (program : Program) (name : String) (machine : Machine) (slots : List Slot)
    (after : Machine) : Prop :=
  machine.Advances program after ∧ ∃ function, program.function? name = some function ∧
    after.HoldsEach ((program.results function).map program.elementOf?) slots

/-- A call with data of the types of the parameters gives data of the types of the results. -/
def Caller.KeepsRange (program : Program) (call : Caller) : Prop :=
  ∀ name arguments machine, machine.InRange program → machine.FitsParameters program name arguments →
    Run.Ensures machine (program.Returns name machine) (call name arguments)

namespace Program.Callable

variable {visit : Visit}

/-- What is passed by a call fits the parameters of the function that is called. -/
theorem fitsParameters (callable : program.Callable symbols) (visited : visit ∈ program.visits)
    (isCall : program.kind visit.op = .func .call) {callee : String}
    (isCallee : (program.attributes visit.op).symbol? "callee" = some callee) {arguments : List Slot}
    (holds : machine.HoldsEach ((program.operands visit.op).map program.elementOf?) arguments) :
    machine.FitsParameters program callee arguments := by
  intro function block body found isBody
  have kept := (callable.keeps visit visited).2
  rw [Program.verifyOp, isCall] at kept
  rw [(elements_of_call callable.table kept isCallee found).2 block body isBody]
  exact holds

theorem ensures_callOp (callable : program.Callable symbols) (calls : call.KeepsRange program)
    (visited : visit ∈ program.visits) (isCall : program.kind visit.op = .func .call)
    (inRange : machine.InRange program) :
    Run.Ensures machine (program.Sets visit.op machine) (Run.callOp program call visit.op) := by
  have kept := (callable.keeps visit visited).2
  rw [Program.verifyOp, isCall] at kept
  unfold Run.callOp
  split
  case h_1 => exact Run.ensures_throw _
  rename_i callee isCallee
  refine (inRange.readEach _).bind fun arguments holds => ?_
  rw [callable.callee_eq visited isCallee]
  refine (calls callee arguments machine inRange
    (callable.fitsParameters visited isCall isCallee holds)).imp fun slots after returned => ?_
  obtain ⟨advances, function, found, results⟩ := returned
  rw [(elements_of_call callable.table kept isCallee found).1] at results
  exact ⟨advances, results⟩

end Program.Callable

/-! ### Operations -/

/-- The data belongs to the types of the arguments of the entry block of a region. -/
def Machine.FitsEntry (machine : Machine) (program : Program) (region : Option Blocks)
    (arguments : List Slot) : Prop :=
  ∀ blocks block body, region = some blocks → blocks.entryBlock? = some (block, body) →
    machine.HoldsEach ((program.header block).arguments.map program.elementOf?) arguments

/-- A region passes on data of the types of the values that it passes on. -/
def Program.Passed (program : Program) (region : Option Blocks) (machine : Machine) (slots : List Slot)
    (after : Machine) : Prop :=
  machine.Advances program after ∧ ∀ kind elements, kind.returns = true →
    program.PassesOn region kind elements → after.HoldsEach elements slots

/-- Regions that are entered with data of the types of their arguments keep data in range. -/
def Regions.KeepRange (regions : Regions) (program : Program) (call : Caller) (op : OpId) : Prop :=
  ∀ index arguments machine, machine.InRange program →
    machine.FitsEntry program (regions.get? index) arguments →
      Run.Ensures machine (program.Passed (regions.get? index) machine)
        (regions.run program call op index index arguments)

namespace Program.Callable

variable {visit : Visit}

theorem loopFits (callable : program.Callable symbols) (visited : visit ∈ program.visits)
    (isLoop : program.kind visit.op = .scf .forLoop) : program.LoopFits visit.op := by
  have kept := (callable.keeps visit visited).2
  rw [Program.verifyOp, isLoop] at kept
  exact loopFits_of_verifyFor kept

/-- The body of a loop is entered with a position and what is carried from one round to the next. -/
theorem fitsEntry_round (callable : program.Callable symbols) (visited : visit ∈ program.visits)
    (isLoop : program.kind visit.op = .scf .forLoop) {position : Int} {carried : List Slot}
    (index : ScalarType.index.Holds (.int position))
    (holds : machine.HoldsEach ((program.results visit.op).map program.elementOf?) carried) :
    machine.FitsEntry program (visit.regions.get? 0) (.scalar (.int position) :: carried) := by
  obtain ⟨region, block, body, isRegion, isEntry, elements⟩ := (callable.loopFits visited isLoop).body
  rw [callable.formed.regionsOf_eq visited] at isRegion
  rw [isRegion]
  rintro _ _ _ ⟨⟩ same
  obtain ⟨rfl, -⟩ := Prod.mk.inj (Option.some.inj (isEntry.symm.trans same))
  rw [elements]
  exact Machine.holdsEach_cons.mpr ⟨fun _ isType => by cases isType; exact index, holds⟩

/-- A number of rounds of a loop keeps data in range, and what is carried has the types of the results. -/
theorem ensures_rounds (callable : program.Callable symbols) (visited : visit ∈ program.visits)
    (isLoop : program.kind visit.op = .scf .forLoop) (inRange : machine.InRange program)
    (inside : visit.regions.KeepRange program call visit.op) (count : Nat) {first width : Int}
    {initial : List Slot}
    (positions : ∀ round < count, ScalarType.index.Holds (.int (first + round * width)))
    (holds : machine.HoldsEach ((program.results visit.op).map program.elementOf?) initial) :
    Run.Ensures machine (program.Sets visit.op machine) (Run.repeated
      (fun arguments => visit.regions.run program call visit.op 0 0 arguments) width count first initial) := by
  -- What is carried has the types of the results, before the first round and after each.
  have passes := (callable.loopFits visited isLoop).passes
  rw [callable.formed.regionsOf_eq visited] at passes
  have each (position : Int) (carried : List Slot) (middle : Machine)
      (index : ScalarType.index.Holds (.int position)) (before : program.Sets visit.op machine carried middle) :
      Run.Ensures middle (program.Sets visit.op machine)
        (visit.regions.run program call visit.op 0 0 (.scalar (.int position) :: carried)) := by
    have enters := callable.fitsEntry_round visited isLoop index before.2
    refine (inside 0 _ middle before.1.inRange enters).imp fun slots after passed => ?_
    exact ⟨before.1.trans passed.1, passed.2 _ _ rfl passes⟩
  exact Run.ensures_repeated each count positions ⟨inRange.refl, holds⟩

theorem ensures_forLoop (callable : program.Callable symbols) (visited : visit ∈ program.visits)
    (isLoop : program.kind visit.op = .scf .forLoop) (inRange : machine.InRange program)
    (inside : visit.regions.KeepRange program call visit.op) :
    Run.Ensures machine (program.Sets visit.op machine)
      (Run.inner program call visit.op visit.regions) := by
  unfold Run.inner
  rw [isLoop]
  refine (Run.finds_bounds inRange (callable.loopFits visited isLoop)).bind fun found fits => ?_
  exact callable.ensures_rounds visited isLoop inRange inside _ fits.1 fits.2

theorem ensures_ifElse (callable : program.Callable symbols) (visited : visit ∈ program.visits)
    (isBranch : program.kind visit.op = .scf .ifElse) (inRange : machine.InRange program)
    (inside : visit.regions.KeepRange program call visit.op) :
    Run.Ensures machine (program.Sets visit.op machine)
      (Run.inner program call visit.op visit.regions) := by
  have kept := (callable.keeps visit visited).2
  rw [Program.verifyOp, isBranch] at kept
  unfold Run.inner
  rw [isBranch]
  refine (Run.finds_side inRange).bind fun index below => ?_
  have enters : machine.FitsEntry program (visit.regions.get? index) [] := fun _ _ _ _ _ => Machine.holdsEach_nil
  refine (inside index [] machine inRange enters).imp fun slots after passed => ⟨passed.1, ?_⟩
  rcases passesOn_of_verifyChoice kept with none | passes
  · -- A branch without results may have regions that pass nothing on.
    simp [none, Machine.HoldsEach]
  · rw [callable.formed.regionsOf_eq visited] at passes
    exact passed.2 _ _ rfl (passes index below)

end Program.Callable

/-- A valid program in which the bounds of clampings meet the ranges of the types. -/
structure Program.Clamped (program : Program) (symbols : SymbolTable) : Prop
    extends program.Callable symbols where
  meets : ∀ op ∈ program.tree.ops, program.ClampMeets op

namespace Program.Clamped

variable {visit : Visit}

/-- An operation that does not end its block gives its results data of their types, if its regions and the
functions that it calls keep data in range. -/
theorem ensures_inner (clamped : program.Clamped symbols) (calls : call.KeepsRange program)
    (visited : visit ∈ program.visits) (inRange : machine.InRange program)
    (inside : visit.regions.KeepRange program call visit.op) :
    Run.Ensures machine (program.Sets visit.op machine)
      (Run.inner program call visit.op visit.regions) := by
  have plain := Run.ensures_plainOp inRange (clamped.keeps visit visited).2
    (clamped.meets visit.op (Program.mem_ops_of_visits visited))
  by_cases isLoop : program.kind visit.op = .scf .forLoop
  · exact clamped.ensures_forLoop visited isLoop inRange inside
  by_cases isBranch : program.kind visit.op = .scf .ifElse
  · exact clamped.ensures_ifElse visited isBranch inRange inside
  unfold Run.inner
  split
  · contradiction
  · contradiction
  · exact clamped.ensures_callOp calls visited ‹_› inRange
  · exact plain

/-- The results of an operation are set, and then the data is in range again. -/
theorem ensures_step (clamped : program.Clamped symbols) (calls : call.KeepsRange program)
    (visited : visit ∈ program.visits) (inRange : machine.InRange program)
    (inside : visit.regions.KeepRange program call visit.op) :
    Run.Ensures machine (fun _ after => machine.Advances program after) (do
      let slots ← Run.inner program call visit.op visit.regions
      Run.writeEach (program.results visit.op) slots) := by
  refine (clamped.ensures_inner calls visited inRange inside).bind fun slots middle sets => ?_
  exact (sets.1.inRange.writeEach sets.2).imp fun _ after written => sets.1.trans written

end Program.Clamped

/-! ### Blocks -/

section Blocks

mutual

/-- A block keeps data in range, and passes on data of the types of what it passes on. -/
theorem Body.ensures (clamped : program.Clamped symbols) (calls : call.KeepsRange program)
    (block : Option BlockId) (parent : Option OpId) (depth : Nat) {machine : Machine}
    (inRange : machine.InRange program) :
    (body : Body) → (∀ visit ∈ body.visits block parent depth, visit ∈ program.visits) →
      Run.Ensures machine (fun slots after => machine.Advances program after ∧
        ∀ last, body.last? = some last → (program.kind last).returns = true →
          after.HoldsEach ((program.operands last).map program.elementOf?) slots)
        (body.run program call)
  | .nil, _ => by
    refine Run.ensures_pure ⟨inRange.refl, fun last isLast => ?_⟩
    cases isLast
  | .cons op regions rest, visited => by
    have here := visited _ List.mem_cons_self
    rw [Body.run_eq]
    split
    case isTrue returns =>
      refine Run.Ensures.imp (inRange.readEach _) fun slots after read => ?_
      obtain ⟨rfl, holds⟩ := read
      refine ⟨inRange.refl, fun last isLast _ => ?_⟩
      -- Nothing stands behind an operation that ends its block.
      have alone := (clamped.keeps _ here).1 (OpKind.isTerminator_of_returns returns)
      cases rest with
      | cons => cases alone
      | nil =>
        cases isLast
        exact holds
    case isFalse goesOn =>
      have inside : regions.KeepRange program call op := fun index arguments machine inRange =>
        Regions.ensures clamped calls op (depth + 1) op index index arguments inRange regions
          fun visit member => visited visit (List.mem_cons_of_mem _ (List.mem_append_left _ member))
      rw [← bind_assoc]
      refine (clamped.ensures_step calls here inRange inside).bind fun _ middle written => ?_
      refine (Body.ensures clamped calls block parent depth written.inRange rest fun visit member =>
        visited visit (List.mem_cons_of_mem _ (List.mem_append_right _ member))).imp fun slots after ran => ?_
      refine ⟨written.trans ran.1, fun last isLast returns => ?_⟩
      cases rest with
      | cons => exact ran.2 last isLast returns
      | nil =>
        cases isLast
        exact absurd returns goesOn

theorem Blocks.ensures (clamped : program.Clamped symbols) (calls : call.KeepsRange program)
    (parent : OpId) (depth : Nat) (op : OpId) (index : Nat) (arguments : List Slot) {machine : Machine}
    (inRange : machine.InRange program) :
    (blocks : Blocks) → (∀ visit ∈ blocks.visits parent depth, visit ∈ program.visits) →
      machine.FitsEntry program (some blocks) arguments →
      Run.Ensures machine (program.Passed (some blocks) machine)
        (blocks.run program call op index arguments)
  | .nil, _, _ => Run.ensures_throw _
  | .cons block body rest, visited, fits => by
    rw [Blocks.run]
    refine (inRange.enter (fits _ block body rfl rfl)).bind fun _ middle entered => ?_
    refine (Body.ensures clamped calls (some block) (some parent) depth entered.inRange body fun visit member =>
      visited visit (List.mem_append_left _ member)).imp fun slots after ran => ?_
    refine ⟨entered.trans ran.1, ?_⟩
    rintro kind _ returns ⟨last, ends, rfl⟩
    obtain ⟨_, _, _, isRegion, isEntry, isLast, rfl⟩ := Program.of_terminatorOf? ends
    cases isRegion
    cases isEntry
    exact ran.2 last isLast returns

theorem Regions.ensures (clamped : program.Clamped symbols) (calls : call.KeepsRange program)
    (parent : OpId) (depth : Nat) (op : OpId) (index skipped : Nat) (arguments : List Slot)
    {machine : Machine} (inRange : machine.InRange program) :
    (regions : Regions) → (∀ visit ∈ regions.visits parent depth, visit ∈ program.visits) →
      machine.FitsEntry program (regions.get? skipped) arguments →
      Run.Ensures machine (program.Passed (regions.get? skipped) machine)
        (regions.run program call op index skipped arguments)
  | .nil, _, _ => by
    rw [Regions.run]
    exact Run.ensures_throw _
  | .cons blocks rest, visited, fits => by
    cases skipped with
    | zero =>
      rw [Regions.run]
      exact Blocks.ensures clamped calls parent depth op index arguments inRange blocks
        (fun visit member => visited visit (List.mem_append_left _ member)) fits
    | succ skipped =>
      rw [Regions.run]
      exact Regions.ensures clamped calls parent depth op index skipped arguments inRange rest
        (fun visit member => visited visit (List.mem_append_right _ member)) fits

end

theorem Regions.keepRange (clamped : program.Clamped symbols) (calls : call.KeepsRange program) {depth : Nat}
    {regions : Regions} (visited : ∀ visit ∈ regions.visits op depth, visit ∈ program.visits) :
    regions.KeepRange program call op := fun index arguments _ inRange =>
  Regions.ensures clamped calls op depth op index index arguments inRange regions visited

end Blocks

/-! ### Functions -/

/-- In an empty frame nothing is out of range. -/
theorem Machine.InRange.empty {memory : Array Grid} (stored : ∀ grid ∈ memory, grid.Holds grid.element)
    (program : Program) (size : Nat) : Machine.InRange ⟨Array.replicate size none, memory⟩ program := by
  refine ⟨stored, fun value slot type isKnown _ => ?_⟩
  have unknown : (Array.replicate size (none : Option Slot)).getD value.index none = none := by
    rw [Array.getD_eq_getD_getElem?, Array.getElem?_replicate]
    split <;> rfl
  cases unknown.symm.trans isKnown

/-- What a call changes in memory is seen afterwards in the frame of the caller. -/
theorem Machine.Advances.withFrame {start after : Machine} (inRange : machine.InRange program)
    (same : start.memory = machine.memory) (advances : start.Advances program after) :
    machine.Advances program { after with frame := machine.frame } := by
  have grows : machine.Grows { machine with memory := after.memory } :=
    (Machine.Grows.of_memory_eq same).trans advances.grows
  exact inRange.changeMemory grows advances.inRange.stored

namespace Program.Callable

/-- The body of a function that is found by its name lies in the program. -/
theorem visits_of_functionBody (callable : program.Callable symbols) {name : String} {function : OpId}
    {block : BlockId} {body : Body} (found : program.function? name = some function)
    (isBody : program.functionBody function = .ok (block, body)) :
    ∀ visit ∈ body.visits (some block) (some function) 2, visit ∈ program.visits := by
  obtain ⟨inside, -, -, within, rfl, -⟩ := callable.of_function? found
  obtain ⟨others, rest, regions⟩ := Regions.of_entryBlock? (Program.entryBlock?_of_functionBody isBody)
  intro visit member
  refine within visit ?_
  rw [regions]
  exact List.mem_append_left _ (List.mem_append_left _ member)

/-- What ends the body of a function returns values of the types of its results. -/
theorem elements_of_return (callable : program.Callable symbols) {name : String} {function : OpId}
    {block : BlockId} {body : Body} (found : program.function? name = some function)
    (isBody : program.functionBody function = .ok (block, body)) :
    ∃ last, body.last? = some last ∧ program.kind last = .func .ret ∧
      (program.operands last).map program.elementOf? = (program.results function).map program.elementOf? := by
  obtain ⟨inside, -, -, -, rfl, kept⟩ := callable.of_function? found
  obtain ⟨others, rest, regions⟩ := Regions.of_entryBlock? (Program.entryBlock?_of_functionBody isBody)
  obtain ⟨last, ends, elements⟩ := passesOn_of_verifyFunc kept
  rw [regions] at ends
  obtain ⟨_, _, _, isRegion, isEntry, isLast, isReturn⟩ := Program.of_terminatorOf? ends
  cases isRegion
  cases isEntry
  exact ⟨last, isLast, isReturn, elements⟩

end Program.Callable

/-- Calls keep data in range, however deep they are nested. -/
theorem Program.Clamped.ensures_callWithin (clamped : program.Clamped symbols) (depth : Nat) :
    Caller.KeepsRange program (program.callWithin depth) := by
  induction depth with
  | zero => exact fun name arguments machine _ _ => Run.ensures_throw _
  | succ depth ih =>
    intro name arguments machine inRange fits
    rw [Program.callWithin]
    split
    case h_1 => exact Run.ensures_throw _
    rename_i function found
    refine (Run.finds_lift fun entry isBody => isBody).bind fun entry isBody => ?_
    obtain ⟨block, body⟩ := entry
    obtain ⟨last, isLast, isReturn, elements⟩ := clamped.elements_of_return found isBody
    refine Run.finds_get.bind fun before isBefore => ?_
    rw [isBefore]
    -- The function starts in a frame in which nothing is known, so its arguments are all that matters.
    refine (Run.ensures_modify _).bind fun _ start same => ?_
    have inEmpty : start.InRange program := same ▸ Machine.InRange.empty inRange.stored program _
    have alike : machine.Grows start := .of_memory_eq (by rw [same])
    refine (inEmpty.enter ((fits function block body found isBody).grow alike)).bind fun _ entered advances => ?_
    refine (Body.ensures clamped ih _ _ 2 advances.inRange body
      (clamped.visits_of_functionBody found isBody)).bind fun slots final ran => ?_
    -- Afterwards the frame of the caller comes back, while memory stays as the function has left it.
    refine (Run.ensures_modify _).bind fun _ _ restored => ?_
    subst restored
    refine Run.ensures_pure ⟨(advances.trans ran.1).withFrame inRange (by rw [same]), function, found, ?_⟩
    rw [← elements]
    exact (ran.2 last isLast (by rw [isReturn]; rfl)).grow (.of_memory_eq rfl)

end TensorIR
