import TensorIR.Proofs.Rewriting
import TensorIR.Proofs.Scalar.Calling
import TensorIR.Proofs.Scalar.Converting
import TensorIR.Proofs.Scalar.Meaningful

/-!
# Lowering functions on scalars is correct

A function on integers and truth values of a program that is lowered to loops has a meaning, and running
the lowered function returns it. Integers of a lowered program are constants of double precision, so
they must be exact there.

## Main definitions

* `Program.Takes` — a function can be called with given values
* `Program.HasExactConstants` — the integers of a program are exact

## Main results

* `Program.exists_means` — a function on integers and truth values has a meaning
* `run_lower` — the lowered function returns what the function means
-/

namespace TensorIR

namespace Program

variable (program : Program)

/-- The values are of the types of the arguments of a function. -/
def Takes (function : OpId) (arguments : List Atom) : Prop :=
  ∃ block body, program.entryOf? function = some (block, body) ∧
    List.Forall₂ program.Fits (program.header block).arguments arguments

/-- The integers that operations are constants of are exact in double precision. -/
def HasExactConstants : Prop :=
  ∀ op ∈ program.tree.ops, program.kind op = .arith .constant →
    ((program.constantValue? op).bind Literal.integer?).all (·.natAbs ≤ 2 ^ 53) = true

instance : Decidable program.HasExactConstants :=
  inferInstanceAs (Decidable (∀ op ∈ program.tree.ops, _ → _))

end Program

variable {program after : Program} {function : OpId} {arguments : List Atom} {options : LowerOptions}
  {info : Lowered}

/-! ### Functions have a meaning -/

/-- In a valid program, a function on integers and truth values has a meaning. -/
theorem Program.exists_means (formed : program.WellFormed)
    (isModule : program.kind program.root = .module) (valid : program.verify = .ok ())
    (scalar : program.IsScalarFunction function) (takes : program.Takes function arguments) :
    ∃ results, program.Means function arguments results := by
  obtain ⟨block, body, isEntry, fits⟩ := takes
  have onTop := scalar.onTop
  rw [Program.topLevel, Regions.heads_eq, List.mem_map] at onTop
  obtain ⟨⟨_, inside⟩, member, rfl⟩ := onTop
  obtain ⟨within, visit, visited, rfl, isInside⟩ := Program.visits_of_entries member
  have regions : program.regionsOf visit.op = inside := isInside ▸ formed.regionsOf_eq visited
  have parts := scalar.scalar
  obtain ⟨symbols, closed⟩ := scalar.exists_diagnostics
  rw [regions] at closed parts
  rw [Program.entryOf?, regions] at isEntry
  obtain ⟨_, -, rules⟩ := keepsRule_of_verify valid
  have rule := rules visit.op (Program.mem_ops_of_visits visited)
  rw [Program.verifyOp, scalar.isFunction] at rule
  obtain ⟨_, -, checked⟩ := of_bind_eq_ok rule
  rw [regions] at checked
  split at checked
  case h_2 => cases checked
  case h_1 last isLast =>
    obtain ⟨blocks, otherBlock, otherBody, isRegion, isOther, isFinal, ends⟩ :=
      Program.of_terminatorOf? isLast
    rw [Regions.entryBlock?, isRegion, Option.bind_some, isOther] at isEntry
    cases isEntry
    have canEnd : program.CanEnd last := by
      rw [Program.CanEnd, ends]
      exact ⟨rfl, fun inputs _ => ⟨_, rfl⟩⟩
    obtain ⟨-, exit, -, -, ended⟩ := Regions.exists_eval formed visit.op 2 inside within parts closed
      (Program.Supplies.empty program) 0 arguments blocks block body last isRegion isOther isFinal canEnd
      fits
    exact ⟨exit.atoms, formed, isModule, scalar.isFunction, inside, member,
      congrArg (Option.map Exit.atoms) ended⟩

/-! ### What a successful lowering tells -/

/-- What has been finished is lowered and valid, and it is what rewriting has ended with. -/
theorem of_finish_eq_ok (run : (Change.finish options).run program = (.ok (), after)) :
    ∃ changed, (if options.canonicalize then Change.canonicalize else Change.dropDead).run program =
        (.ok changed, after) ∧
      after.ensureLowered options.target = .ok () ∧ after.verify = .ok () := by
  rw [Change.finish_eq] at run
  obtain ⟨changed, cleaned, cleaning, checks⟩ := of_run_bind_eq_ok run
  obtain ⟨⟨⟩, lowered, verifies⟩ := of_askFor_bind_eq_ok checks
  unfold Change.verify at verifies
  rw [Change.run_askFor] at verifies
  obtain ⟨valid, rfl⟩ := Prod.mk.inj verifies
  exact ⟨changed, cleaning, lowered, valid⟩

/-- The stages of a lowering that succeeds. -/
theorem exists_stages_of_lower_eq_ok (run : (Change.lower options).run program = (.ok info, after)) :
    ∃ ready result converted, (Change.prepare options).run program = (.ok (), ready) ∧
      (Change.convert options.target).run ready = (.ok result, converted) ∧
      (Change.finish options).run converted = (.ok (), after) := by
  unfold Change.lower at run
  rw [run_bind, Change.run_ask] at run
  obtain ⟨⟨⟩, ready, prepared, converting⟩ := of_run_bind_eq_ok run
  obtain ⟨result, converted, isConverted, finishing⟩ := of_run_bind_eq_ok converting
  obtain ⟨⟨⟩, finished, isFinished, telling⟩ := of_run_bind_eq_ok finishing
  rw [run_bind, Change.run_ask] at telling
  cases telling
  exact ⟨ready, result, converted, prepared, isConverted, isFinished⟩

/-- A lowering that succeeds starts from a valid program, and ends with a valid one in which everything
has been lowered. -/
theorem of_lower_eq_ok (run : (Change.lower options).run program = (.ok info, after)) :
    program.verify = .ok () ∧ after.ensureLowered options.target = .ok () ∧ after.verify = .ok () := by
  obtain ⟨_, _, _, prepared, -, finished⟩ := exists_stages_of_lower_eq_ok run
  obtain ⟨⟨⟩, valid, -⟩ := of_askFor_bind_eq_ok prepared
  obtain ⟨_, -, done⟩ := of_finish_eq_ok finished
  exact ⟨valid, done⟩

theorem evolving_prepare (options : LowerOptions) :
    Evolving (fun _ => True) (Change.prepare options) := by
  refine .of_keeps fun start => keeps_prepare ?canonicalize ?refineTypes ?signatures
  case canonicalize => exact (evolving_canonicalize trivial fun _ _ => trivial).keeps start
  case refineTypes =>
    exact keeps_refineTypes fun op now holds _ => (evolving_refine trivial op).keeps start now holds
  case signatures => exact (evolving_convertSignatures options.target).keeps start

/-- A lowered program has evolved. -/
theorem evolving_lower (options : LowerOptions) : Evolving (fun _ => True) (Change.lower options) := by
  have converting : Evolving (fun _ => True) (Change.convert options.target) :=
    fun program formed => (evolving_convert options.target program formed).mono fun _ _ => trivial
  refine (evolving_ask _).bind fun _ => (evolving_prepare options).bind fun _ => ?_
  refine converting.bind fun _ => (evolving_finish trivial (fun _ _ => trivial) options).bind fun _ => ?_
  exact (evolving_ask _).bind fun _ => evolving_pure _

/-- In a lowered program nothing is of torch. -/
theorem Program.noTorch_of_ensureLowered {target : Target} (lowered : program.ensureLowered target = .ok ()) :
    ∀ op ∈ program.tree.ops, (program.kind op).isTorch = false := by
  intro op member
  unfold Program.ensureLowered at lowered
  split at lowered
  case h_1 => cases lowered
  case h_2 none => simpa using List.find?_eq_none.mp none op member

/-- Every operation of a lowered program can be run. -/
theorem Program.isRunnable {target : Target} (lowered : program.ensureLowered target = .ok ())
    (valid : program.verify = .ok ()) (exact : program.HasExactConstants) {op : OpId}
    (member : op ∈ program.tree.ops) : program.IsRunnable op where
  lowered := Program.noTorch_of_ensureLowered lowered op member
  kept kind isKind := by
    obtain ⟨symbols, -, rules⟩ := keepsRule_of_verify valid
    have rule := rules op member
    rwa [Program.verifyOp, isKind] at rule
  small value isConstant isValue := by
    have exactly := exact op member isConstant
    rw [isValue] at exactly
    simpa [Literal.integer?] using exactly

/-! ### Correctness -/

/-- A function on integers and truth values means the same after its program has been lowered to loops:
it has a meaning for all arguments of its types, and a run of the lowered function returns what it
means. -/
theorem run_lower {name : String} (formed : program.WellFormed)
    (isModule : program.kind program.root = .module) (scalar : program.IsScalarFunction function)
    (named : program.functionName? function = some name) (takes : program.Takes function arguments)
    (loops : options.target = .loops)
    (lowered : (Change.lower options).run program = (.ok info, after))
    (exact : after.HasExactConstants) :
    ∃ results, program.meaning? function arguments = some results ∧
      after.run name (arguments.map Atom.data) = .ok (results.map Atom.data, arguments.map Atom.data) := by
  obtain ⟨valid, allLowered, afterValid⟩ := of_lower_eq_ok lowered
  obtain ⟨results, means⟩ := Program.exists_means formed isModule valid scalar takes
  have meansAfter := carries_lower loops program info after means lowered
  obtain ⟨symbols, table, -⟩ := Program.keepsRule_of_verify afterValid
  have evolved := (evolving_lower options).of_run formed lowered
  have below : function.index < program.operations.size := by
    obtain ⟨inside, member, -⟩ := means.returns
    obtain ⟨-, visit, visited, rfl, -⟩ := Program.visits_of_entries member
    exact (formed.knows _ (Body.op_mem_parts.mpr (Program.mem_ops_of_visits visited))).1
  have stillNamed : after.functionName? function = some name := by
    rw [Program.functionName?, evolved.attributes_eq function below]
    exact named
  exact ⟨results, means.meaning?_eq, Program.run_of_means meansAfter table stillNamed
    fun op member => Program.isRunnable allLowered afterValid exact member⟩

/-- A function that adds the numbers below its first argument to it, if its second argument says so. -/
def summing : Program where
  values := #[⟨some "%n", some (.torch .int), .argument (some ⟨0⟩)⟩,
    ⟨some "%c", some (.torch .bool), .argument (some ⟨0⟩)⟩,
    ⟨none, some (.torch .int), .signature⟩,
    ⟨some "%true", some (.torch .bool), .result ⟨1⟩⟩,
    ⟨some "%i", some (.torch .int), .argument (some ⟨1⟩)⟩,
    ⟨some "%s", some (.torch .int), .argument (some ⟨1⟩)⟩,
    ⟨some "%0", some (.torch .int), .result ⟨4⟩⟩,
    ⟨some "%1", some (.torch .int), .result ⟨3⟩⟩,
    ⟨some "%2", some (.torch .int), .result ⟨2⟩⟩]
  operations := #[
    { kind := .func .func, results := [⟨2⟩],
      attributes := Attributes.empty.insert "sym_name" (.ofSymbol "f") },
    { kind := .torch .constantBool, results := [⟨3⟩],
      attributes := Attributes.empty.insert "value" (.bool true) },
    { kind := .torch .primLoop, operands := [⟨0⟩, ⟨3⟩, ⟨0⟩], results := [⟨8⟩] },
    { kind := .torch .primIf, operands := [⟨1⟩], results := [⟨7⟩] },
    { kind := .torch .addInt, operands := [⟨5⟩, ⟨4⟩], results := [⟨6⟩] },
    { kind := .torch .primIfYield, operands := [⟨6⟩] },
    { kind := .torch .primIfYield, operands := [⟨5⟩] },
    { kind := .torch .primLoopCondition, operands := [⟨3⟩, ⟨7⟩] },
    { kind := .func .ret, operands := [⟨8⟩] },
    { kind := .module }]
  headers := #[{ arguments := [⟨0⟩, ⟨1⟩] }, { label := some "^bb0", arguments := [⟨4⟩, ⟨5⟩] },
    {}, {}, {}]
  root := ⟨9⟩
  regions := .single ⟨4⟩ (.single ⟨0⟩ (.single ⟨0⟩
    (.cons ⟨1⟩ .nil (.cons ⟨2⟩ (.single ⟨1⟩
      (.cons ⟨3⟩ (.cons (.cons ⟨2⟩ (.cons ⟨4⟩ .nil (.single ⟨5⟩ .nil)) .nil)
        (.single ⟨3⟩ (.single ⟨6⟩ .nil))) (.single ⟨7⟩ .nil))) (.single ⟨8⟩ .nil)))))

/-- The lowered function adds up the numbers. -/
theorem run_lowered_summing : ∃ info after, (Change.lower {}).run summing = (.ok info, after) ∧
    after.run "f" [.scalar (.int 3), .scalar (.int 1)] =
      .ok ([.scalar (.int 6)], [.scalar (.int 3), .scalar (.int 1)]) := by
  have succeeds : ((Change.lower {}).run summing).1.isOk = true := by decide +kernel
  have exact : ((Change.lower {}).run summing).2.HasExactConstants := by decide +kernel
  have formed : summing.WellFormed := by decide +kernel
  have scalar : summing.IsScalarFunction ⟨0⟩ := by decide +kernel
  have takes : summing.Takes ⟨0⟩ [.int 3, .bool true] :=
    ⟨_, _, rfl, .cons (by decide) (.cons (by decide) .nil)⟩
  rcases lowered : (Change.lower {}).run summing with ⟨_ | info, after⟩
  case error => rw [lowered] at succeeds; cases succeeds
  rw [lowered] at exact
  obtain ⟨results, means, runs⟩ := run_lower formed rfl scalar rfl takes rfl lowered exact
  have sum : summing.meaning? ⟨0⟩ [.int 3, .bool true] = some [.int 6] := by decide +kernel
  cases means.symm.trans sum
  exact ⟨info, after, rfl, runs⟩

end TensorIR
