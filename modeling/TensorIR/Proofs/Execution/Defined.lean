import TensorIR.Proofs.Execution.Counting
import TensorIR.Proofs.Execution.Following

/-!
# Values without data in runs

A run of a function knows the values that its blocks and operations have set before. In a valid program
these are all values that the function itself introduces and that are visible, so a run that reports a
value without data reports one that nothing in the function sets. Values from outside of the function
are of this sort: they are visible inside, but no run of the function comes to what sets them.

## Main definitions

* `Program.sets` — the values that a run sets when it comes to an operation or a block
* `Program.Unset` — a function uses a value that nothing in it sets

## Main results

* `Body.proceeds` — a block of a function
* `Program.unset_of_callWithin` — a call reports only unset values
-/

namespace TensorIR

/-- The values that a run sets when it comes to a part of a program. -/
def Program.sets (program : Program) : Part → List ValueId
  | .op op => (program.results op).take (program.setCount op)
  | .block block => (program.header block).arguments

/-- An operation inside a function uses the value, and nothing inside the function sets it. -/
def Program.Unset (program : Program) (value : ValueId) : Prop :=
  ∃ function inside, (function, inside) ∈ program.regions.entries ∧
    program.kind function = .func .func ∧ (∃ op ∈ inside.ops, value ∈ program.operands op) ∧
      ∀ part ∈ inside.parts, value ∉ program.sets part

/-! ### Frames that grow -/

/-- Nothing is lost from the frame. -/
structure Machine.Retains (machine after : Machine) : Prop where
  size_eq : after.frame.size = machine.frame.size
  has : ∀ value, machine.Has value → after.Has value

namespace Machine.Retains

variable {machine middle final : Machine}

theorem refl (machine : Machine) : machine.Retains machine :=
  ⟨rfl, fun _ => id⟩

theorem trans (first : machine.Retains middle) (second : middle.Retains final) : machine.Retains final :=
  ⟨second.size_eq.trans first.size_eq, fun value has => second.has value (first.has value has)⟩

theorem of_frame_eq (same : final.frame = machine.frame) : machine.Retains final := by
  constructor
  · rw [same]
  · intro value has
    rwa [Machine.Has, same]

end Machine.Retains

namespace Run

variable {names : String → Prop} {machine : Machine}

/-- Values that are written have data. -/
theorem proceeds_write {value : ValueId} (below : value.index < machine.frame.size) (slot : Slot) :
    Proceeds names machine (fun _ after => machine.Retains after ∧ after.Has value) (write value slot) := by
  constructor
  · rintro _ _ ⟨⟩
    refine ⟨⟨Array.size_setIfInBounds, fun other has => ?_⟩, ?_⟩
    · by_cases same : value.index = other.index
      · simp [Machine.Has, Array.getD_eq_getD_getElem?, ← same, below]
      · simpa [Machine.Has, Array.getD_eq_getD_getElem?, Array.getElem?_setIfInBounds_ne same] using has
    · simp [Machine.Has, Array.getD_eq_getD_getElem?, below]
  · rintro name ⟨⟩

theorem writeEach_cons (value : ValueId) (slot : Slot) (values : List ValueId) (slots : List Slot) :
    writeEach (value :: values) (slot :: slots) = (write value slot >>= fun _ => writeEach values slots) := by
  simp [writeEach]

theorem proceeds_writeEach {values : List ValueId} (slots : List Slot)
    (below : ∀ value ∈ values, value.index < machine.frame.size) :
    Proceeds names machine
      (fun _ after => machine.Retains after ∧ ∀ value ∈ values.take slots.length, after.Has value)
      (writeEach values slots) := by
  induction values generalizing slots machine with
  | nil =>
    refine proceeds_pure ⟨.refl machine, fun value member => ?_⟩
    rw [List.take_nil] at member
    cases member
  | cons value values ih =>
    cases slots with
    | nil => exact proceeds_pure ⟨.refl machine, fun value member => by cases member⟩
    | cons slot slots =>
      rw [writeEach_cons]
      refine (proceeds_write (below value List.mem_cons_self) slot).bind fun _ middle written => ?_
      obtain ⟨retains, has⟩ := written
      have rest : Proceeds names middle
          (fun _ after => middle.Retains after ∧ ∀ value ∈ values.take slots.length, after.Has value)
          (writeEach values slots) := by
        refine ih slots fun other member => ?_
        rw [retains.size_eq]
        exact below other (List.mem_cons_of_mem value member)
      refine rest.imp fun _ after grown => ⟨retains.trans grown.1, fun other member => ?_⟩
      rw [List.length_cons, List.take_succ_cons] at member
      rcases List.mem_cons.mp member with same | behind
      · exact same ▸ grown.1.has value has
      · exact grown.2 other behind

variable {program : Program}

theorem proceeds_enter {block : BlockId} (arguments : List Slot)
    (below : ∀ value ∈ (program.header block).arguments, value.index < machine.frame.size) :
    Proceeds names machine
      (fun _ after => machine.Retains after ∧ ∀ value ∈ (program.header block).arguments, after.Has value)
      (enter program block arguments) := by
  by_cases lengths : (program.header block).arguments.length = arguments.length
  · have writes : enter program block arguments =
        writeEach (program.header block).arguments arguments := by
      simp [enter, writeEach, lengths]
    rw [writes]
    refine (proceeds_writeEach arguments below).imp fun _ after written => ⟨written.1, ?_⟩
    rw [← lengths, List.take_length] at written
    exact written.2
  · have fails : enter program block arguments = (throw (.failure
        s!"expected {(program.header block).arguments.length} arguments, but got {arguments.length}") >>=
          fun _ : Unit => writeEach (program.header block).arguments arguments) := by
      simp [enter, writeEach, lengths]
    rw [fails]
    exact proceeds_throw_bind (by simp [toString])

/-- Rounds that keep the number of values are run one after the other. -/
theorem proceeds_repeated {body : List Slot → Run (List Slot)} {length : Nat} {width : Int}
    (each : ∀ arguments after, machine.Retains after → Proceeds names after
      (fun slots final => after.Retains final ∧ slots.length = length) (body arguments))
    (count : Nat) {position : Int} {carried : List Slot} {after : Machine} (retains : machine.Retains after)
    (starts : carried.length = length) :
    Proceeds names after (fun slots final => after.Retains final ∧ slots.length = length)
      (repeated body width count position carried) := by
  induction count generalizing position carried after with
  | zero => exact proceeds_pure ⟨.refl after, starts⟩
  | succ count ih =>
    refine (each _ after retains).bind fun slots middle passed => ?_
    obtain ⟨grown, length_eq⟩ := passed
    refine (ih (retains.trans grown) length_eq).imp fun _ final later => ?_
    exact ⟨grown.trans later.1, later.2⟩

/-- The bounds of a loop are read, and as many values to start with as there are operands behind them. -/
theorem inspects_bounds {op : OpId}
    (covers : ∀ operand ∈ program.operands op, machine.Covers program names operand) :
    Inspects names machine
      (fun found => found.2.2.2.length = ((program.operands op).drop 3).length) (bounds program op) := by
  unfold bounds
  split
  case h_2 => exact proceeds_throw (by decide)
  rename_i lower upper step initial areOperands
  rw [areOperands] at covers ⊢
  refine (inspects_readInt (covers lower (by simp))).bind fun first _ => ?_
  refine (inspects_readInt (covers upper (by simp))).bind fun last _ => ?_
  refine (inspects_readInt (covers step (by simp))).bind fun width _ => ?_
  have reads : Inspects names machine (fun values => values.length = initial.length)
      (initial.mapM (read program)) :=
    inspects_mapM fun value member => inspects_read (covers value (by simp [member]))
  by_cases positive : width ≤ 0
  · simp only [positive, if_true]
    exact proceeds_throw_bind (by decide)
  · simp only [positive, if_false]
    exact reads.bind fun values length_eq => inspects_pure length_eq

theorem inspects_side {op : OpId}
    (covers : ∀ operand ∈ program.operands op, machine.Covers program names operand) :
    Inspects names machine (fun index => index < 2) (side program op) := by
  refine (inspects_operand 0).bind fun condition isOperand => ?_
  refine (inspects_readInt (covers condition isOperand)).bind fun chosen _ => ?_
  refine inspects_pure ?_
  split
  · exact Nat.zero_lt_two
  · exact Nat.one_lt_two

end Run

/-! ### Operations of a valid program -/

/-- The operation ends the run of its block. -/
def OpKind.returns : OpKind → Bool
  | .func .ret | .scf .yield => true
  | _ => false

/-- The functions that are called are named without the sign of a symbol. -/
def Program.HasBareCallees (program : Program) : Prop :=
  ∀ op ∈ program.tree.ops, ∀ callee ∈ (program.attributes op).symbol? "callee",
    callee.toList.head? ≠ some '@'

/-- A program is valid, and functions are called by their names. -/
structure Program.Callable (program : Program) (symbols : SymbolTable) : Prop where
  formed : program.Formed
  table : program.symbolTable = .ok symbols
  valid : (program.tree.diagnostics program symbols []).1 = []
  bare : program.HasBareCallees

theorem Program.Callable.keeps {program : Program} {symbols : SymbolTable}
    (callable : program.Callable symbols) : ∀ visit ∈ program.visits,
      program.Keeps symbols visit.op visit.rest :=
  ((Body.diagnostics_eq_nil none none 0 program.tree).mp callable.valid).2

/-- A call reports only values with the given names. If it succeeds, the frame of the caller is as before,
and as many values come back as the function has results. -/
def Caller.Proceeds (program : Program) (names : String → Prop) (call : Caller) : Prop :=
  ∀ name arguments machine, Run.Proceeds names machine
    (fun slots after => after.frame = machine.frame ∧ ∃ function,
      program.function? name = some function ∧ slots.length = (program.results function).length)
    (call name arguments)

section Inner

variable {program : Program} {symbols : SymbolTable} {names : String → Prop} {machine : Machine}
  {call : Caller} {visit : Visit}

theorem dropWhile_sign {letters : List Char} (bare : letters.head? ≠ some '@') :
    letters.dropWhile (· = '@') = letters := by
  cases letters with
  | nil => rfl
  | cons letter letters =>
    rw [List.head?_cons, ne_eq, Option.some.injEq] at bare
    rw [List.dropWhile_cons_of_neg (by simpa using bare)]

/-- A function is called by the name that the call states. -/
theorem Program.Callable.callee_eq (callable : program.Callable symbols) (visited : visit ∈ program.visits)
    {callee : String} (isCallee : (program.attributes visit.op).symbol? "callee" = some callee) :
    String.ofList (callee.toList.dropWhile (· = '@')) = callee := by
  rw [dropWhile_sign (callable.bare visit.op (Program.mem_ops_of_visits visited) callee isCallee),
    String.ofList_toList]

/-- A call sets all results of the operation. -/
theorem Program.Callable.proceeds_callOp (callable : program.Callable symbols)
    (calls : call.Proceeds program names) (visited : visit ∈ program.visits)
    (isCall : program.kind visit.op = .func .call)
    (covers : ∀ operand ∈ program.operands visit.op, machine.Covers program names operand) :
    Run.Proceeds names machine
      (fun slots after => machine.Retains after ∧ program.setCount visit.op ≤ slots.length)
      (Run.callOp program call visit.op) := by
  have kept : program.verifyFunc symbols visit.op .call = .ok () := by
    have rule := (callable.keeps visit visited).2
    rwa [Program.verifyOp, isCall] at rule
  obtain ⟨callee, signature, isCallee, known, -⟩ := Program.length_of_verifyCall kept
  unfold Run.callOp
  rw [isCallee]
  have reads : Run.Inspects names machine (fun _ => True)
      ((program.operands visit.op).mapM (Run.read program)) :=
    (Run.inspects_mapM fun value member => Run.inspects_read (covers value member)).imp
      fun _ _ holds => ⟨holds.1, trivial⟩
  refine reads.bind fun arguments _ => ?_
  rw [callable.callee_eq visited isCallee]
  refine (calls callee arguments machine).imp fun slots after called => ?_
  obtain ⟨same, function, found, length_eq⟩ := called
  refine ⟨.of_frame_eq same, ?_⟩
  rw [length_eq, Program.length_results_of_call callable.table kept isCallee found, Program.setCount, isCall]

/-- What an operation leaves that sets the results that count. -/
def Program.SetsResults (program : Program) (op : OpId) (machine : Machine) (slots : List Slot)
    (after : Machine) : Prop :=
  machine.Retains after ∧ program.setCount op ≤ slots.length ∧ program.kind op ≠ .func .func

/-- Regions of an operation pass on as many values as they should. -/
def Program.RegionsProceed (program : Program) (names : String → Prop) (call : Caller) (visit : Visit)
    (machine : Machine) : Prop :=
  ∀ index arguments after, machine.Retains after → Run.Proceeds names after
    (fun slots final => after.Retains final ∧ ∀ count,
      program.Passes (visit.regions.get? index) (.scf .yield) count → slots.length = count)
    (visit.regions.run program call visit.op index index arguments)

/-- An operation without control flow sets the results that count. -/
theorem Program.Callable.proceeds_plainOp (callable : program.Callable symbols)
    (visited : visit ∈ program.visits)
    (covers : ∀ operand ∈ program.operands visit.op, machine.Covers program names operand)
    (isPlain : ∀ kind, program.kind visit.op ≠ .scf kind)
    (noCall : ∀ kind, program.kind visit.op = .func kind → kind = .func) :
    Run.Proceeds names machine (program.SetsResults visit.op machine) (Run.plainOp program visit.op) := by
  have proceeds := Run.proceeds_plainOp covers
  by_cases stuck : (program.kind visit.op).isStuck = true
  · exact ⟨fun slots after run => absurd run (Run.plainOp_ne_ok stuck), proceeds.reports⟩
  · -- A function inside of another one is stuck, and other operations on functions are not plain.
    have noFunction (kind : FuncKind) : program.kind visit.op ≠ .func kind := by
      intro isKind
      rw [noCall kind isKind] at isKind
      rw [isKind] at stuck
      exact stuck rfl
    refine proceeds.imp fun slots after plain => ⟨.of_frame_eq plain.1, ?_, noFunction .func⟩
    rw [plain.2]
    exact Program.setCount_le_plainCount (callable.keeps visit visited).2 (by simpa using stuck) isPlain
      noFunction

/-- A loop sets what its body passes on in the last round. -/
theorem Program.Callable.proceeds_forLoop (callable : program.Callable symbols)
    (visited : visit ∈ program.visits) (isLoop : program.kind visit.op = .scf .forLoop)
    (covers : ∀ operand ∈ program.operands visit.op, machine.Covers program names operand)
    (inside : program.RegionsProceed names call visit machine) :
    Run.Proceeds names machine (program.SetsResults visit.op machine)
      (Run.inner program call visit.op visit.regions) := by
  have kept := (callable.keeps visit visited).2
  rw [Program.verifyOp, isLoop] at kept
  obtain ⟨starts, passes⟩ := Program.passes_of_verifyFor kept
  rw [callable.formed.regionsOf_eq visited] at passes
  unfold Run.inner
  rw [isLoop]
  refine (Run.inspects_bounds covers).bind fun found length_eq => ?_
  obtain ⟨first, last, width, initial⟩ := found
  refine (Run.proceeds_repeated (fun arguments after retains => ?_) _ (.refl machine)
    (length_eq.trans starts)).imp fun slots after ran => ⟨ran.1, ?_, by simp [isLoop]⟩
  · refine (inside 0 arguments after retains).imp fun slots final ran => ?_
    exact ⟨ran.1, ran.2 _ passes⟩
  · rw [ran.2, Program.setCount, isLoop]

/-- A branch sets what the side that is taken passes on. -/
theorem Program.Callable.proceeds_ifElse (callable : program.Callable symbols)
    (visited : visit ∈ program.visits) (isBranch : program.kind visit.op = .scf .ifElse)
    (covers : ∀ operand ∈ program.operands visit.op, machine.Covers program names operand)
    (inside : program.RegionsProceed names call visit machine) :
    Run.Proceeds names machine (program.SetsResults visit.op machine)
      (Run.inner program call visit.op visit.regions) := by
  have kept := (callable.keeps visit visited).2
  rw [Program.verifyOp, isBranch] at kept
  unfold Run.inner
  rw [isBranch]
  refine (Run.inspects_side covers).bind fun index below => ?_
  refine (inside index [] machine (.refl machine)).imp fun slots after ran =>
    ⟨ran.1, ?_, by simp [isBranch]⟩
  rw [Program.setCount, isBranch]
  rcases Program.passes_of_verifyChoice kept with none | passes
  · rw [none]
    exact Nat.zero_le _
  · rw [callable.formed.regionsOf_eq visited] at passes
    exact (ran.2 _ (passes index below)).ge

/-- An operation that does not end its block sets the results that count, if its regions pass on as many
values as they should. -/
theorem Program.Callable.proceeds_inner (callable : program.Callable symbols)
    (calls : call.Proceeds program names) (visited : visit ∈ program.visits)
    (goesOn : (program.kind visit.op).returns = false)
    (covers : ∀ operand ∈ program.operands visit.op, machine.Covers program names operand)
    (inside : program.RegionsProceed names call visit machine) :
    Run.Proceeds names machine (program.SetsResults visit.op machine)
      (Run.inner program call visit.op visit.regions) := by
  have plain := callable.proceeds_plainOp visited covers
  cases isKind : program.kind visit.op with
  | scf kind =>
    cases kind with
    | forLoop => exact callable.proceeds_forLoop visited isKind covers inside
    | ifElse => exact callable.proceeds_ifElse visited isKind covers inside
    | yield => rw [isKind] at goesOn; cases goesOn
  | func kind =>
    unfold Run.inner
    cases kind with
    | call =>
      rw [isKind]
      exact (callable.proceeds_callOp calls visited isKind covers).imp fun slots after ran =>
        ⟨ran.1, ran.2, by simp [isKind]⟩
    | ret => rw [isKind] at goesOn; cases goesOn
    | func =>
      rw [isKind] at plain ⊢
      refine plain ?_ ?_
      · rintro kind ⟨⟩
      · rintro kind ⟨⟩
        rfl
  | _ =>
    unfold Run.inner
    rw [isKind] at plain ⊢
    refine plain ?_ ?_
    · rintro kind ⟨⟩
    · rintro kind ⟨⟩

end Inner

/-! ### Blocks -/

/-- The values that a part gives are set there or missing, and those missing values that it uses have one
of the names. A function inside a function is never passed, so it may give anything. -/
def Program.Accounts (program : Program) (missing : ValueId → Prop) (names : String → Prop) : Part → Prop
  | .block block => ∀ value ∈ (program.header block).arguments, value.index < program.values.size
  | .op op => (program.kind op ≠ .func .func → ∀ value ∈ program.results op,
      value.index < program.values.size ∧ (value ∈ program.sets (.op op) ∨ missing value)) ∧
    ∀ operand ∈ program.operands op, missing operand → names (program.nameOf operand)

theorem Body.run_eq (program : Program) (call : Caller) (op : OpId) (regions : Regions) (rest : Body) :
    (Body.cons op regions rest).run program call =
      if (program.kind op).returns then (program.operands op).mapM (Run.read program)
      else (do
        let slots ← Run.inner program call op regions
        Run.writeEach (program.results op) slots
        rest.run program call) := by
  rw [Body.run, Run.inner]
  cases program.kind op with
  | func kind => cases kind <;> simp [Run.writeEach, OpKind.returns]
  | scf kind => cases kind <;> simp [Run.writeEach, OpKind.returns]
  | _ => simp [Run.writeEach, OpKind.returns]

theorem OpKind.isTerminator_of_returns {kind : OpKind} (returns : kind.returns = true) :
    kind.isTerminator = true := by
  cases kind with
  | func kind => cases kind <;> first | rfl | cases returns
  | scf kind => cases kind <;> first | rfl | cases returns
  | _ => cases returns

section Blocks

variable {program : Program} {symbols : SymbolTable} {names : String → Prop} {missing : ValueId → Prop}
  {call : Caller}

mutual

/-- A block in which the visible values have data or are missing reports missing values only. If it is run
to its end, it passes on the operands of the operation that ends it. -/
theorem Body.proceeds (callable : program.Callable symbols) (calls : call.Proceeds program names)
    (block : Option BlockId) (parent : Option OpId) (depth : Nat) {visible : ValueId → Prop}
    {machine : Machine} (size : program.values.size ≤ machine.frame.size)
    (known : ∀ value, visible value → machine.Has value ∨ missing value) :
    (body : Body) → body.Closed program visible →
      (∀ visit ∈ body.visits block parent depth, visit ∈ program.visits) →
      (∀ part ∈ body.parts, program.Accounts missing names part) →
      Run.Proceeds names machine
        (fun slots after => machine.Retains after ∧ ∀ last, body.last? = some last →
          (program.kind last).returns = true → slots.length = (program.operands last).length)
        (body.run program call)
  | .nil, _, _, _ => by
    refine Run.proceeds_pure ⟨.refl machine, fun last isLast => ?_⟩
    cases isLast
  | .cons op regions rest, closed, visited, accounts => by
    obtain ⟨operands, inside, later⟩ := closed
    have here := visited _ List.mem_cons_self
    have own : program.Accounts missing names (.op op) := accounts _ List.mem_cons_self
    have covers : ∀ operand ∈ program.operands op, machine.Covers program names operand :=
      fun operand isOperand => (known operand (operands operand isOperand)).imp_right
        (own.2 operand isOperand)
    rw [Body.run_eq]
    split
    case isTrue returns =>
      refine (Run.inspects_mapM fun operand isOperand =>
        Run.inspects_read (covers operand isOperand)).imp fun slots after read => ?_
      obtain ⟨rfl, length_eq⟩ := read
      refine ⟨.refl _, fun last isLast _ => ?_⟩
      -- Nothing stands behind an operation that ends its block.
      have alone := (callable.keeps _ here).1 (OpKind.isTerminator_of_returns returns)
      cases rest with
      | cons => cases alone
      | nil =>
        cases isLast
        exact length_eq
    case isFalse goesOn =>
      have regionsProceed (index : Nat) (arguments : List Slot) (after : Machine)
          (retains : machine.Retains after) := Regions.proceeds callable calls op (depth + 1) op index
            index arguments (retains.size_eq ▸ size)
            (fun value isVisible => (known value isVisible).imp_left (retains.has value)) regions inside
            (fun visit member => visited visit (List.mem_cons_of_mem _ (List.mem_append_left _ member)))
            (fun part member => accounts part (List.mem_cons_of_mem _ (List.mem_append_left _ member)))
      have inner := callable.proceeds_inner calls here (by simpa using goesOn) covers
        fun index arguments after retains => (regionsProceed index arguments after retains).imp
          fun slots final ran => ⟨ran.1, fun count => ran.2 _ count rfl⟩
      refine inner.bind fun slots middle ran => ?_
      obtain ⟨retains, enough, noFunction⟩ := ran
      have results := own.1 noFunction
      refine (Run.proceeds_writeEach slots fun value isResult => ?_).bind fun _ written stored => ?_
      · exact (results value isResult).1.trans_le (retains.size_eq ▸ size)
      obtain ⟨grown, has⟩ := stored
      have grows := retains.trans grown
      refine (Body.proceeds callable calls block parent depth (grows.size_eq ▸ size) ?_ rest later
        (fun visit member => visited visit (List.mem_cons_of_mem _ (List.mem_append_right _ member)))
        (fun part member => accounts part (List.mem_cons_of_mem _ (List.mem_append_right _ member)))).imp
        fun slots after ran => ⟨grows.trans ran.1, fun last isLast returns => ?_⟩
      · rintro value (isResult | isVisible)
        · refine (results value isResult).2.imp_left fun isSet => has value ?_
          exact List.take_subset_take_left _ enough isSet
        · exact (known value isVisible).imp_left (grows.has value)
      · cases rest with
        | cons => exact ran.2 last isLast returns
        | nil =>
          cases isLast
          exact absurd returns goesOn

theorem Blocks.proceeds (callable : program.Callable symbols) (calls : call.Proceeds program names)
    (parent : OpId) (depth : Nat) (op : OpId) (index : Nat) (arguments : List Slot)
    {visible : ValueId → Prop} {machine : Machine} (size : program.values.size ≤ machine.frame.size)
    (known : ∀ value, visible value → machine.Has value ∨ missing value) :
    (blocks : Blocks) → blocks.Closed program visible →
      (∀ visit ∈ blocks.visits parent depth, visit ∈ program.visits) →
      (∀ part ∈ blocks.parts, program.Accounts missing names part) →
      Run.Proceeds names machine
        (fun slots after => machine.Retains after ∧ ∀ kind count, kind.returns = true →
          program.Passes (some blocks) kind count → slots.length = count)
        (blocks.run program call op index arguments)
  | .nil, _, _, _ => by
    rw [Blocks.run]
    exact Run.proceeds_throw (by simp [toString, program.head_opName])
  | .cons block body rest, closed, visited, accounts => by
    rw [Blocks.run]
    have own : program.Accounts missing names (.block block) := accounts _ List.mem_cons_self
    refine (Run.proceeds_enter arguments fun value isArgument =>
      (own value isArgument).trans_le size).bind fun _ middle entered => ?_
    obtain ⟨retains, has⟩ := entered
    refine (Body.proceeds callable calls (some block) (some parent) depth (retains.size_eq ▸ size) ?_ body
      closed (fun visit member => visited visit (List.mem_append_left _ member))
      (fun part member => accounts part (List.mem_cons_of_mem _ (List.mem_append_left _ member)))).imp
      fun slots after ran => ⟨retains.trans ran.1, ?_⟩
    · rintro value (isArgument | isVisible)
      · exact .inl (has value isArgument)
      · exact (known value isVisible).imp_left (retains.has value)
    · rintro kind count returns ⟨last, ends, rfl⟩
      obtain ⟨_, _, _, isRegion, isEntry, isLast, rfl⟩ := Program.of_terminatorOf? ends
      cases isRegion
      cases isEntry
      exact ran.2 last isLast returns

theorem Regions.proceeds (callable : program.Callable symbols) (calls : call.Proceeds program names)
    (parent : OpId) (depth : Nat) (op : OpId) (index skipped : Nat) (arguments : List Slot)
    {visible : ValueId → Prop} {machine : Machine} (size : program.values.size ≤ machine.frame.size)
    (known : ∀ value, visible value → machine.Has value ∨ missing value) :
    (regions : Regions) → regions.Closed program visible →
      (∀ visit ∈ regions.visits parent depth, visit ∈ program.visits) →
      (∀ part ∈ regions.parts, program.Accounts missing names part) →
      Run.Proceeds names machine
        (fun slots after => machine.Retains after ∧ ∀ kind count, kind.returns = true →
          program.Passes (regions.get? skipped) kind count → slots.length = count)
        (regions.run program call op index skipped arguments)
  | .nil, _, _, _ => by
    rw [Regions.run]
    exact Run.proceeds_throw (by simp [toString, program.head_opName])
  | .cons blocks rest, closed, visited, accounts => by
    cases skipped with
    | zero =>
      rw [Regions.run]
      exact Blocks.proceeds callable calls parent depth op index arguments size known blocks closed.1
        (fun visit member => visited visit (List.mem_append_left _ member))
        (fun part member => accounts part (List.mem_append_left _ member))
    | succ skipped =>
      rw [Regions.run]
      exact Regions.proceeds callable calls parent depth op index skipped arguments size known rest
        closed.2 (fun visit member => visited visit (List.mem_append_right _ member))
        (fun part member => accounts part (List.mem_append_right _ member))

end

end Blocks

/-! ### Functions -/

/-- The name is that of a value that is used in a function and set nowhere in it. -/
def Program.NamesUnset (program : Program) (name : String) : Prop :=
  ∃ value, program.Unset value ∧ program.nameOf value = name

section Functions

variable {program : Program} {symbols : SymbolTable} {function : OpId} {inside : Regions}

/-- Nothing inside the regions sets the value. -/
def Program.MissingIn (program : Program) (inside : Regions) (value : ValueId) : Prop :=
  ∀ part ∈ inside.parts, value ∉ program.sets part

/-- A value that is set in a part is introduced there. -/
theorem Program.origin_of_mem_sets {part : Part} {value : ValueId} (knows : program.Knows part)
    (isSet : value ∈ program.sets part) : (program.value value).origin = part.origin := by
  cases part with
  | block block => exact knows.2.origin_eq value isSet
  | op op =>
    by_cases isFunction : program.kind op = .func .func
    · rw [Program.sets, Program.setCount, isFunction] at isSet
      cases isSet
    · exact (knows.2 isFunction).origin_eq value (List.mem_of_mem_take isSet)

/-- What is in a function accounts for its values. -/
theorem Program.WellFormed.accounts (formed : program.WellFormed)
    (member : (function, inside) ∈ program.regions.entries) (isFunction : program.kind function = .func .func)
    {part : Part} (among : part ∈ inside.parts) :
    program.Accounts (program.MissingIn inside) program.NamesUnset part := by
  have knows {part : Part} (among : part ∈ inside.parts) : program.Knows part :=
    formed.knows part (List.mem_cons_of_mem _ (List.mem_append_left _
      (Regions.parts_of_entries _ member part among)))
  cases part with
  | block block => exact (knows among).2.lt
  | op op =>
    refine ⟨fun notFunction value isResult => ?_, fun operand isOperand missing => ?_⟩
    · have owns := (knows among).2 notFunction
      refine ⟨owns.lt value isResult, or_iff_not_imp_left.mpr fun notSet other isOther isSet => ?_⟩
      -- Another part cannot set what the operation introduces.
      have origin := Program.origin_of_mem_sets (knows isOther) isSet
      rw [owns.origin_eq value isResult] at origin
      cases other with
      | block => cases origin
      | op other =>
        cases origin
        exact notSet isSet
    · exact ⟨operand, ⟨function, inside, member, isFunction, ⟨op, Regions.op_mem_parts.mp among, isOperand⟩,
        missing⟩, rfl⟩

/-- In a function of a valid program the arguments are visible, and else only what nothing inside sets. -/
theorem Program.Formed.closed_of_entries (formed : program.Formed)
    (none : (program.tree.diagnostics program symbols []).1 = []) {block : BlockId} {body : Body}
    {others : Blocks} {rest : Regions}
    (member : (function, .cons (.cons block body others) rest) ∈ program.regions.entries) :
    body.Closed program fun value => value ∈ (program.header block).arguments ∨
      program.MissingIn (.cons (.cons block body others) rest) value := by
  obtain ⟨seen, apart, nothing⟩ :=
    Program.diagnostics_of_entries formed.toWellFormed formed.toTabled none member
  refine (Regions.closed_of_diagnostics (fun value isSeen part among isSet => ?_) _ nothing).1
  have knows := formed.knows part (List.mem_cons_of_mem _ (List.mem_append_left _
    (Regions.parts_of_entries _ member part among)))
  exact apart value isSeen part among (Program.origin_of_mem_sets knows isSet)

/-- A function that is found by its name stands at the top and keeps the rule for functions. -/
theorem Program.Callable.of_function? {name : String} (callable : program.Callable symbols)
    (found : program.function? name = some function) : ∃ inside,
      (function, inside) ∈ program.regions.entries ∧ program.kind function = .func .func ∧
        (∀ visit ∈ inside.visits function 2, visit ∈ program.visits) ∧
          program.regionsOf function = inside ∧ program.verifyFunc symbols function .func = .ok () := by
  obtain ⟨onTop, isFunction⟩ := Program.of_function? found
  obtain ⟨inside, member⟩ := Program.exists_entry_of_topLevel onTop
  obtain ⟨within, visit, visited, isVisit, isInside⟩ := Program.visits_of_entries member
  have regions : program.regionsOf function = inside := by
    rw [← isVisit, callable.formed.regionsOf_eq visited, isInside]
  have kept := (callable.keeps visit visited).2
  rw [Program.verifyOp, isVisit, isFunction] at kept
  exact ⟨inside, member, isFunction, within, regions, kept⟩

/-- The entry block of a function is run in an empty frame. -/
theorem Program.Callable.proceeds_function {call : Caller} {block : BlockId} {body : Body} {others : Blocks}
    {rest : Regions} {machine : Machine} (callable : program.Callable symbols)
    (calls : call.Proceeds program program.NamesUnset)
    (member : (function, .cons (.cons block body others) rest) ∈ program.regions.entries)
    (isFunction : program.kind function = .func .func) (arguments : List Slot)
    (empty : machine.frame = Array.replicate program.values.size none) :
    Run.Proceeds program.NamesUnset machine
      (fun slots _ => ∀ last, body.last? = some last → (program.kind last).returns = true →
        slots.length = (program.operands last).length)
      (Run.enter program block arguments >>= fun _ => body.run program call) := by
  obtain ⟨within, -⟩ := Program.visits_of_entries member
  have accounts (part : Part) (among : part ∈ (Regions.cons (.cons block body others) rest).parts) :=
    callable.formed.accounts member isFunction among
  have below : ∀ value ∈ (program.header block).arguments, value.index < program.values.size :=
    accounts (.block block) List.mem_cons_self
  have size : machine.frame.size = program.values.size := by rw [empty, Array.size_replicate]
  refine (Run.proceeds_enter arguments (size ▸ below)).bind fun _ entered ran => ?_
  obtain ⟨retains, has⟩ := ran
  refine (Body.proceeds callable calls (some block) (some function) 2 ?_ ?_ body
    (callable.formed.closed_of_entries callable.valid member)
    (fun visit among => within visit ?_) (fun part among => accounts part ?_)).imp
      fun slots final returned => returned.2
  · rw [retains.size_eq, size]
  · rintro value (isArgument | missing)
    · exact .inl (has value isArgument)
    · exact .inr missing
  · exact List.mem_append_left _ (List.mem_append_left _ among)
  · exact List.mem_append_left _ (List.mem_cons_of_mem _ (List.mem_append_left _ among))

/-- Calls report only values that nothing in a function sets, however deep they are nested. -/
theorem Program.Callable.proceeds_callWithin (callable : program.Callable symbols) (depth : Nat) :
    Caller.Proceeds program program.NamesUnset (program.callWithin depth) := by
  induction depth with
  | zero =>
    intro name arguments machine
    exact Run.proceeds_throw (by simp [toString])
  | succ depth ih =>
    intro name arguments machine
    rw [Program.callWithin]
    cases found : program.function? name with
    | none => exact Run.proceeds_throw (by simp [toString])
    | some function =>
      obtain ⟨inside, member, isFunction, -, regions, kept⟩ := callable.of_function? found
      -- A function that is found has a body, which ends with as many values as it promises.
      have passes := Program.passes_of_verifyFunc kept
      rw [regions] at passes
      obtain ⟨last, ends, count⟩ := passes
      have looks : Run.Inspects program.NamesUnset machine
          (fun entry => inside.entryBlock? = some entry) (monadLift (program.functionBody function)) :=
        Run.inspects_lift (Run.blameless_functionBody function) fun entry isBody => by
          rw [← regions]
          exact Program.entryBlock?_of_functionBody isBody
      refine looks.bind fun entry starts => ?_
      obtain ⟨block, body⟩ := entry
      obtain ⟨others, rest, rfl⟩ := Regions.of_entryBlock? starts
      obtain ⟨_, _, _, isRegion, isEntry, isLast, isReturn⟩ := Program.of_terminatorOf? ends
      cases isRegion
      cases isEntry
      refine Run.proceeds_get.bind fun _ _ same => ?_
      obtain ⟨rfl, rfl⟩ := same
      refine (Run.proceeds_modify _).bind fun _ _ same => ?_
      subst same
      rw [← bind_assoc]
      refine (callable.proceeds_function ih member isFunction arguments rfl).bind fun slots _ returned => ?_
      refine (Run.proceeds_modify _).bind fun _ _ same => ?_
      subst same
      refine Run.proceeds_pure ⟨rfl, function, rfl, ?_⟩
      rw [returned last isLast (by rw [isReturn]; rfl), count]

end Functions

theorem eq_error_of_bind_pure {α β : Type} {answer : Except Error α} {change : α → β} {error : Error}
    (failed : (answer >>= fun value => pure (change value)) = .error error) : answer = .error error := by
  cases answer with
  | error other =>
    injection failed with same
    rw [same]
  | ok value => cases failed

theorem Run.inspects_snapshot {names : String → Prop} {machine : Machine} (slot : Slot) :
    Run.Inspects names machine (fun _ => True) (Run.snapshot slot) := by
  cases slot with
  | scalar | tensor => exact Run.inspects_pure trivial
  | buffer place => exact (Run.inspects_contents place).bind fun _ _ => Run.inspects_pure trivial

/-- Running a function on data reports only values that nothing in a function sets. -/
theorem Program.Callable.unset_of_run {program : Program} {symbols : SymbolTable}
    (callable : program.Callable symbols) {name text : String} {arguments : List Data}
    (failed : program.run name arguments = .error (undefinedValue text)) : program.NamesUnset text := by
  obtain ⟨memory, slots, -, same⟩ := Program.exists_run_eq_call arguments
  rw [same] at failed
  have snapshots (machine : Machine) (slots : List Slot) : Run.Inspects program.NamesUnset machine
      (fun data => data.length = slots.length) (slots.mapM Run.snapshot) :=
    Run.inspects_mapM fun slot _ => Run.inspects_snapshot slot
  have proceeds : Run.Proceeds program.NamesUnset { memory } (fun _ _ => True) (do
      let results ← program.callWithin Program.callDepth name slots
      return (← results.mapM Run.snapshot, ← slots.mapM Run.snapshot)) := by
    refine (callable.proceeds_callWithin _ name slots _).bind fun results after _ => ?_
    refine (snapshots after results).bind fun outputs _ => ?_
    exact (snapshots after slots).bind fun inputs _ => Run.proceeds_pure trivial
  exact proceeds.reports text (eq_error_of_bind_pure failed)

/-- If a call in a valid program reports that a value has no data, an operation of a function uses a value
of that name, and nothing in that function sets the value. -/
theorem Program.unset_of_callWithin {program : Program} (formed : program.Formed)
    (valid : program.verify = .ok ()) (bare : program.HasBareCallees) {depth : Nat} {name text : String}
    {arguments : List Slot} {machine : Machine}
    (failed : (program.callWithin depth name arguments).run machine =
      .error (.failure s!"value {text} is not defined")) :
    ∃ value, program.Unset value ∧ program.nameOf value = text := by
  obtain ⟨symbols, table, nothing⟩ := Program.diagnostics_of_verify valid
  have callable : program.Callable symbols := ⟨formed, table, nothing, bare⟩
  exact (callable.proceeds_callWithin depth name arguments machine).reports text failed

/-- A constant stands beside a function that returns it. -/
def returningOutside : Program where
  values := #[⟨some "%c", some (.scalar .i64), .result ⟨0⟩⟩, ⟨none, some (.scalar .i64), .signature⟩]
  operations := #[
    { kind := .arith .constant, results := [⟨0⟩], attributes := Attributes.empty.insert "value" (.int 1) },
    { kind := .func .func, results := [⟨1⟩],
      attributes := Attributes.empty.insert "sym_name" (.ofSymbol "f") },
    { kind := .func .ret, operands := [⟨0⟩] },
    { kind := .module }]
  headers := #[{}, {}]
  root := ⟨3⟩
  regions := .single ⟨1⟩ (.cons ⟨0⟩ .nil (.single ⟨1⟩ (.single ⟨0⟩ (.single ⟨2⟩ .nil))))

/-- A function returns the second result of an allocation. -/
def returningSecond : Program where
  values := #[⟨some "%a", some (.shaped ⟨.memref, [2], .f32⟩), .result ⟨1⟩⟩,
    ⟨some "%b", some (.shaped ⟨.memref, [2], .f32⟩), .result ⟨1⟩⟩,
    ⟨none, some (.shaped ⟨.memref, [2], .f32⟩), .signature⟩]
  operations := #[
    { kind := .func .func, results := [⟨2⟩],
      attributes := Attributes.empty.insert "sym_name" (.ofSymbol "f") },
    { kind := .memref .alloc, results := [⟨0⟩, ⟨1⟩] },
    { kind := .func .ret, operands := [⟨1⟩] },
    { kind := .module }]
  headers := #[{}, {}]
  root := ⟨3⟩
  regions := .single ⟨1⟩ (.single ⟨0⟩ (.single ⟨0⟩ (.cons ⟨1⟩ .nil (.single ⟨2⟩ .nil))))

theorem returningOutside_formed : returningOutside.Formed :=
  { (show returningOutside.WellFormed by decide +kernel), (show returningOutside.Tabled by decide +kernel)
    with isModule := rfl }

/-- The constant beside the function is such a value. -/
theorem unset_returningOutside : ∃ value, returningOutside.Unset value ∧
    returningOutside.nameOf value = "%c" := by
  have bare : returningOutside.HasBareCallees := by
    unfold Program.HasBareCallees
    decide +kernel
  have failed : (returningOutside.callWithin 1 "f" []).run {} =
    .error (undefinedValue "%c") := rfl
  exact Program.unset_of_callWithin returningOutside_formed rfl bare failed

/-- Valid programs without operations from before lowering can read values without data: those from
outside of the function, and those that an operation has beyond the results that it computes. -/
theorem run_returning_undefined :
    (returningOutside.Formed ∧ (∀ op ∈ returningOutside.tree.ops, (returningOutside.kind op).isTorch = false) ∧
      returningOutside.verify = .ok () ∧
        returningOutside.run "f" [] = .error (.failure "value %c is not defined")) ∧
    (returningSecond.WellFormed ∧ (∀ op ∈ returningSecond.tree.ops, (returningSecond.kind op).isTorch = false) ∧
      returningSecond.verify = .ok () ∧
        returningSecond.run "f" [] = .error (.failure "value %b is not defined")) := by
  refine ⟨⟨returningOutside_formed, by decide +kernel, rfl, rfl⟩, by decide +kernel, by decide +kernel, rfl, rfl⟩

end TensorIR
