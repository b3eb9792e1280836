import Mathlib.Logic.Relation
import TensorIR.Proofs.Ranges.Running

/-!
# Integers in range at every step of a call

A call goes from point to point. At a point it is between two operations of some block: of the function that
is called, of a region of a loop or branch, or of a function that is called from there. At every point, what
is known of a value with an integer type is in the range of the type, and so is what is known of the elements
of a tensor or buffer with an integer type.

## Main definitions

* `Point`, `Program.Step` — from one operation to the next, into a region, and into a function
* `Program.Reaches` — the points of a call

## Main results

* `Program.reaches_end` — a block that is run to its end goes through all of its operations
* `Program.Clamped.inRange_of_step` — what one step preserves
* `Program.inRange_of_reaches` — the integers at every point of a call
-/

namespace TensorIR

/-! ### Points of a call -/

/-- A point of a call between two operations. The operations of the body are still to be run, with calls that
are nested to the given depth. -/
structure Point where
  depth : Nat
  body : Body
  machine : Machine

/-- The entry block of a region is entered with data. -/
def Regions.Enters (regions : Regions) (program : Program) (index : Nat) (arguments : List Slot)
    (machine : Machine) (body : Body) (entered : Machine) : Prop :=
  ∃ blocks block, regions.get? index = some blocks ∧ blocks.entryBlock? = some (block, body) ∧
    (Run.enter program block arguments).run machine = .ok ((), entered)

namespace Program

/-- A function is entered with data, in a frame of its own. -/
def Enters (program : Program) (name : String) (arguments : List Slot) (machine : Machine) (body : Body)
    (entered : Machine) : Prop :=
  ∃ function block, program.function? name = some function ∧
    program.functionBody function = .ok (block, body) ∧
      (Run.enter program block arguments).run
        { machine with frame := Array.replicate program.values.size none } = .ok ((), entered)

/-- How a call goes on from a point. An operation is run and its results are set; or a branch enters one of
its regions, a loop the next round, a call the function that it names. -/
inductive Step (program : Program) : Point → Point → Prop
  | operation {depth : Nat} {op : OpId} {regions : Regions} {rest : Body} {machine middle after : Machine}
      {slots : List Slot} (goesOn : (program.kind op).returns = false)
      (ran : (Run.inner program (program.callWithin depth) op regions).run machine = .ok (slots, middle))
      (set : (Run.writeEach (program.results op) slots).run middle = .ok ((), after)) :
      program.Step ⟨depth, .cons op regions rest, machine⟩ ⟨depth, rest, after⟩
  | branch {depth index : Nat} {op : OpId} {regions : Regions} {rest body : Body}
      {machine middle entered : Machine} (isBranch : program.kind op = .scf .ifElse)
      (taken : (Run.side program op).run machine = .ok (index, middle))
      (enters : regions.Enters program index [] middle body entered) :
      program.Step ⟨depth, .cons op regions rest, machine⟩ ⟨depth, body, entered⟩
  | round {depth round : Nat} {op : OpId} {regions : Regions} {rest body : Body}
      {machine middle later entered : Machine} {first last width : Int} {initial carried : List Slot}
      (isLoop : program.kind op = .scf .forLoop)
      (starts : (Run.bounds program op).run machine = .ok ((first, last, width, initial), middle))
      (below : round < Run.rounds first last width)
      (ran : (Run.repeated (fun arguments => regions.run program (program.callWithin depth) op 0 0 arguments)
        width round first initial).run middle = .ok (carried, later))
      (enters : regions.Enters program 0 (.scalar (.int (first + round * width)) :: carried) later body
        entered) :
      program.Step ⟨depth, .cons op regions rest, machine⟩ ⟨depth, body, entered⟩
  | call {depth : Nat} {op : OpId} {regions : Regions} {rest body : Body} {callee : String}
      {machine middle entered : Machine} {arguments : List Slot} (isCall : program.kind op = .func .call)
      (isCallee : (program.attributes op).symbol? "callee" = some callee)
      (passed : ((program.operands op).mapM (Run.read program)).run machine = .ok (arguments, middle))
      (enters : program.Enters (String.ofList (callee.toList.dropWhile (· = '@'))) arguments middle body
        entered) :
      program.Step ⟨depth + 1, .cons op regions rest, machine⟩ ⟨depth, body, entered⟩

/-- A call of a function, with calls nested to a given depth, comes to the point. -/
def Reaches (program : Program) (depth : Nat) (name : String) (arguments : List Slot) (machine : Machine)
    (point : Point) : Prop :=
  ∃ inner body entered, depth = inner + 1 ∧ program.Enters name arguments machine body entered ∧
    Relation.ReflTransGen program.Step ⟨inner, body, entered⟩ point

/-- A block that is run to its end goes through points to the operation that ends it. -/
theorem reaches_end (program : Program) (depth : Nat) {machine after : Machine} {slots : List Slot} :
    (body : Body) → (body.run program (program.callWithin depth)).run machine = .ok (slots, after) →
      ∃ last, Relation.ReflTransGen program.Step ⟨depth, body, machine⟩ ⟨depth, last, after⟩ ∧
        (∀ op ∈ last.heads.head?, (program.kind op).returns = true) ∧
          (last.run program (program.callWithin depth)).run after = .ok (slots, after)
  | .nil, ran => by
    cases ran
    exact ⟨.nil, .refl, by simp [Body.heads], rfl⟩
  | .cons op regions rest, ran => by
    rw [Body.run_eq] at ran
    split at ran
    case isTrue returns =>
      have reads : Run.Finds machine (List.Forall₂ (fun value slot =>
          machine.frame.getD value.index none = some slot) (program.operands op))
          ((program.operands op).mapM (Run.read program)) :=
        Run.finds_mapM fun value _ => Run.finds_read value
      obtain ⟨rfl, -⟩ := reads slots after ran
      refine ⟨.cons op regions rest, .refl, by simpa [Body.heads] using returns, ?_⟩
      rw [Body.run_eq, if_pos returns]
      exact ran
    case isFalse goesOn =>
      obtain ⟨results, middle, computed, ran⟩ := Run.run_bind_eq_ok ran
      obtain ⟨_, written, set, ran⟩ := Run.run_bind_eq_ok ran
      obtain ⟨last, reached, ends⟩ := reaches_end program depth rest ran
      exact ⟨last, .head (.operation (by simpa using goesOn) computed set) reached, ends⟩

end Program

/-! ### What points preserve -/

/-- The data at a point is in range, and the operations that are still to be run lie in the program. -/
structure Point.InRange (point : Point) (program : Program) : Prop where
  machine : point.machine.InRange program
  visited : ∃ block parent depth, ∀ visit ∈ point.body.visits block parent depth, visit ∈ program.visits

section Preserved

variable {program : Program} {symbols : SymbolTable} {machine entered : Machine} {body : Body}
  {arguments : List Slot}

theorem Regions.visits_of_get? {blocks : Blocks} (parent : OpId) (depth : Nat) :
    (regions : Regions) → (index : Nat) → regions.get? index = some blocks →
      ∀ visit ∈ blocks.visits parent depth, visit ∈ regions.visits parent depth
  | .nil, _, found, _, _ => by simp [Regions.get?, Regions.toList] at found
  | .cons first rest, 0, found, _, member => by
    obtain rfl : first = blocks := by simpa [Regions.get?, Regions.toList] using found
    exact List.mem_append_left _ member
  | .cons first rest, index + 1, found, visit, member =>
    List.mem_append_right _ (Regions.visits_of_get? parent depth rest index found visit member)

/-- The point at which the entry block of a region is entered. -/
theorem Regions.Enters.inRange {regions : Regions} {index : Nat} {op : OpId} {depth : Nat}
    (enters : regions.Enters program index arguments machine body entered) (inRange : machine.InRange program)
    (fits : machine.FitsEntry program (regions.get? index) arguments)
    (visited : ∀ visit ∈ regions.visits op depth, visit ∈ program.visits) (inner : Nat) :
    Point.InRange ⟨inner, body, entered⟩ program := by
  obtain ⟨blocks, block, isRegion, isEntry, ran⟩ := enters
  refine ⟨(inRange.enter (fits blocks block body isRegion isEntry) () entered ran).inRange,
    some block, some op, depth, fun visit member => visited visit ?_⟩
  cases blocks with
  | nil => cases isEntry
  | cons entry inside others =>
    cases isEntry
    exact Regions.visits_of_get? op depth regions index isRegion visit (List.mem_append_left _ member)

namespace Program.Clamped

/-- The point at which a function is entered. -/
theorem inRange_of_enters (clamped : program.Clamped symbols) {name : String}
    (enters : program.Enters name arguments machine body entered)
    (stored : ∀ grid ∈ machine.memory, grid.Holds grid.element)
    (fits : machine.FitsParameters program name arguments) (inner : Nat) :
    Point.InRange ⟨inner, body, entered⟩ program := by
  obtain ⟨function, block, found, isBody, ran⟩ := enters
  have empty := Machine.InRange.empty stored program program.values.size
  have holds := (fits function block body found isBody).grow (.of_memory_eq rfl)
  exact ⟨(empty.enter holds () entered ran).inRange, some block, some function, 2,
    clamped.visits_of_functionBody found isBody⟩

/-- Whatever a call does next, the data stays in range. -/
theorem inRange_of_step (clamped : program.Clamped symbols) {point next : Point}
    (inRange : point.InRange program) (step : program.Step point next) : next.InRange program := by
  obtain ⟨inMachine, block, parent, outside, visited⟩ := inRange
  cases step with
  | @operation depth op regions rest machine middle after slots goesOn ran set =>
    -- The operation has been run with all that is inside, so it is a run that keeps data in range.
    have inside := Regions.keepRange clamped (clamped.ensures_callWithin depth) fun visit member =>
      visited visit (List.mem_cons_of_mem _ (List.mem_append_left _ member))
    have sets := clamped.ensures_inner (clamped.ensures_callWithin depth) (visited _ List.mem_cons_self)
      inMachine inside slots middle ran
    refine ⟨(sets.1.inRange.writeEach sets.2 () after set).inRange, block, parent, outside, ?_⟩
    exact fun visit member => visited visit (List.mem_cons_of_mem _ (List.mem_append_right _ member))
  | @branch depth index op regions rest body machine middle entered isBranch taken enters =>
    obtain ⟨rfl, -⟩ := Run.finds_side inMachine index middle taken
    have within : ∀ visit ∈ regions.visits op (outside + 1), visit ∈ program.visits := fun visit member =>
      visited visit (List.mem_cons_of_mem _ (List.mem_append_left _ member))
    exact enters.inRange inMachine (fun _ _ _ _ _ => Machine.holdsEach_nil) within depth
  | @round depth round op regions rest body machine middle later entered first last width initial carried isLoop
      starts below ran enters =>
    have here := visited _ List.mem_cons_self
    have within : ∀ visit ∈ regions.visits op (outside + 1), visit ∈ program.visits := fun visit member =>
      visited visit (List.mem_cons_of_mem _ (List.mem_append_left _ member))
    obtain ⟨rfl, positions, holds⟩ := Run.finds_bounds inMachine (clamped.loopFits here isLoop) _ _ starts
    have inside := Regions.keepRange clamped (clamped.ensures_callWithin depth) within
    -- The rounds before this one have been run, and are fewer than the loop has.
    have sets := clamped.ensures_rounds here isLoop inMachine inside round
      (fun earlier before => positions earlier (before.trans below)) holds carried later ran
    exact enters.inRange sets.1.inRange (clamped.fitsEntry_round here isLoop (positions round below) sets.2)
      within depth
  | @call depth op regions rest body callee machine middle entered arguments isCall isCallee passed enters =>
    have here := visited _ List.mem_cons_self
    obtain ⟨rfl, holds⟩ := inMachine.readEach _ arguments middle passed
    -- Of the frame of the caller only what is passed is known in the function.
    rw [clamped.callee_eq here isCallee] at enters
    exact clamped.inRange_of_enters enters inMachine.stored
      (clamped.fitsParameters here isCall isCallee holds) depth

/-- All points of a call have their data in range. -/
theorem point_inRange (clamped : program.Clamped symbols) {depth : Nat} {name : String} {point : Point}
    (stored : ∀ grid ∈ machine.memory, grid.Holds grid.element)
    (fits : machine.FitsParameters program name arguments)
    (reaches : program.Reaches depth name arguments machine point) : point.InRange program := by
  obtain ⟨inner, body, entered, -, enters, reached⟩ := reaches
  induction reached with
  | refl => exact clamped.inRange_of_enters enters stored fits inner
  | tail _ step ih => exact clamped.inRange_of_step ih step

end Program.Clamped

end Preserved

/-! ### Integers -/

/-- The numbers that the data of a value consists of: a number itself, or the elements of a tensor or
buffer. -/
def Machine.numbers (machine : Machine) : Slot → List Scalar
  | .scalar value => [value]
  | .tensor grid => grid.data.toList
  | .buffer place => (machine.memory.getD place default).data.toList

/-- All numbers that the data of a value consists of are integers in a range. -/
def Machine.IsWithin (machine : Machine) (slot : Slot) (range : Int × Int) : Prop :=
  ∀ number ∈ machine.numbers slot, ∃ value, number = .int value ∧ range.1 ≤ value ∧ value ≤ range.2

theorem Machine.InRange.isWithin {machine : Machine} {program : Program} {type : ScalarType} {slot : Slot}
    {range : Int × Int} (inRange : machine.InRange program) (holds : machine.Holds type slot)
    (isRange : type.intRange? = some range) : machine.IsWithin slot range := by
  intro number member
  apply (ScalarType.holds_iff isRange).mp
  cases slot with
  | scalar value =>
    obtain rfl := List.mem_singleton.mp member
    exact holds
  | tensor grid => exact holds number (Array.mem_toList_iff.mp member)
  | buffer place => exact inRange.holds_buffer holds number (Array.mem_toList_iff.mp member)

/-- In a valid program in which the bounds of clampings meet the ranges of the types, a call with data of the
types of the parameters has, at every point, integers in the range of their type: of an integer type itself, or
of the type of the elements of a tensor or buffer. So are the integers that come back. -/
theorem Program.inRange_of_reaches {program : Program} (formed : program.Formed)
    (valid : program.verify = .ok ()) (bare : program.HasBareCallees)
    (meets : ∀ op ∈ program.tree.ops, program.ClampMeets op) (depth : Nat) {name : String}
    {arguments : List Slot} {memory : Array Grid} (stored : ∀ grid ∈ memory, grid.Holds grid.element)
    (fits : Machine.FitsParameters { memory } program name arguments) :
    (∀ point, program.Reaches depth name arguments { memory } point →
      ∀ (value : ValueId) type range slot, program.elementOf? value = some type →
        type.intRange? = some range → point.machine.frame.getD value.index none = some slot →
          point.machine.IsWithin slot range) ∧
    ∀ slots after, (program.callWithin depth name arguments).run { memory } = .ok (slots, after) →
      ∃ function, program.function? name = some function ∧
        ∀ pair ∈ (program.results function).zip slots, ∀ type range, program.elementOf? pair.1 = some type →
          type.intRange? = some range → after.IsWithin pair.2 range := by
  obtain ⟨symbols, table, nothing⟩ := Program.diagnostics_of_verify valid
  have clamped : program.Clamped symbols := ⟨⟨formed, table, nothing, bare⟩, meets⟩
  constructor
  · intro point reaches value type range slot isType isRange isKnown
    have inRange := (clamped.point_inRange stored fits reaches).machine
    exact inRange.isWithin (inRange.known value slot type isKnown isType) isRange
  · intro slots after ran
    have empty := Machine.InRange.empty stored program 0
    obtain ⟨advances, function, found, holds⟩ :=
      clamped.ensures_callWithin depth name arguments _ empty fits slots after ran
    refine ⟨function, found, fun pair among type range isType isRange => ?_⟩
    refine advances.inRange.isWithin (holds (program.elementOf? pair.1, pair.2) ?_ type isType) isRange
    rw [List.zip_map_left]
    exact List.mem_map_of_mem among

/-- A function adds a tensor of small integers to itself and clamps the sums. -/
def doubling : Program where
  values := #[⟨some "%x", some (.shaped (.tensor [2] .i8)), .argument (some ⟨1⟩)⟩,
    ⟨some "%0", some (.shaped (.tensor [2] .i8)), .result ⟨2⟩⟩,
    ⟨some "%1", some (.shaped (.tensor [2] .i8)), .result ⟨3⟩⟩,
    ⟨none, some (.shaped (.tensor [2] .i8)), .signature⟩]
  operations := #[
    { kind := .module },
    { kind := .func .func, results := [⟨3⟩],
      attributes := Attributes.empty.insert "sym_name" (.ofSymbol "f") },
    { kind := .tosa .add, operands := [⟨0⟩, ⟨0⟩], results := [⟨1⟩] },
    { kind := .tosa .clamp, operands := [⟨1⟩], results := [⟨2⟩],
      attributes := (((Attributes.empty.insert "max_fp" (.float 300)).insert "max_int" (.int 300)).insert
        "min_fp" (.float 0)).insert "min_int" (.int 0) },
    { kind := .func .ret, operands := [⟨2⟩] }]
  headers := #[{}, { arguments := [⟨0⟩] }]
  root := ⟨0⟩
  regions := .single ⟨0⟩ (.single ⟨1⟩ (.single ⟨1⟩ (.cons ⟨2⟩ .nil (.cons ⟨3⟩ .nil (.single ⟨4⟩ .nil)))))

theorem doubling_formed : doubling.Formed :=
  { (show doubling.WellFormed by decide +kernel), (show doubling.Tabled by decide +kernel) with
    isModule := rfl }

/-- The arguments of a call, two small integers. -/
def doublingArguments : List Slot :=
  [.tensor ⟨[2], .i8, #[.int 100, .int 27]⟩]

theorem doubling_fitsParameters : Machine.FitsParameters {} doubling "f" doublingArguments := by
  intro function block body found isBody
  cases found
  cases isBody
  refine Machine.holdsEach_cons.mpr ⟨fun type isType => ?_, Machine.holdsEach_nil⟩
  cases isType
  show Grid.Holds _ .i8
  decide

/-- The sums wrap, so that they are in range between the two operations, and clamping leaves them there. -/
theorem inRange_of_reaches_doubling :
    (∃ point slot, doubling.Reaches 1 "f" doublingArguments {} point ∧
      point.machine.frame.getD 1 none = some slot ∧ slot = .tensor ⟨[2], .i8, #[.int (-56), .int 54]⟩ ∧
        point.machine.IsWithin slot (-128, 127)) ∧
    ∃ slot after, (doubling.callWithin 1 "f" doublingArguments).run {} = .ok ([slot], after) ∧
      slot = .tensor ⟨[2], .i8, #[.int 0, .int 54]⟩ ∧ after.IsWithin slot (-128, 127) := by
  have bare : doubling.HasBareCallees := by
    unfold Program.HasBareCallees
    decide +kernel
  have meets : ∀ op ∈ doubling.tree.ops, doubling.ClampMeets op := by decide +kernel
  have stored : ∀ grid ∈ (#[] : Array Grid), grid.Holds grid.element := by simp
  obtain ⟨inside, returned⟩ := Program.inRange_of_reaches doubling_formed rfl bare meets 1 stored
    doubling_fitsParameters
  have starts : doubling.Enters "f" doublingArguments {} _ _ := ⟨⟨1⟩, ⟨1⟩, rfl, rfl, rfl⟩
  have reaches : doubling.Reaches 1 "f" doublingArguments {} _ :=
    ⟨0, _, _, rfl, starts, .single (.operation rfl rfl rfl)⟩
  have ran : (doubling.callWithin 1 "f" doublingArguments).run {} = .ok ([_], _) := rfl
  obtain ⟨function, found, within⟩ := returned _ _ ran
  cases found
  exact ⟨⟨_, _, reaches, rfl, rfl, inside _ reaches ⟨1⟩ .i8 _ _ rfl rfl rfl⟩, _, _, ran, rfl,
    within _ List.mem_cons_self .i8 _ rfl rfl⟩

end TensorIR
