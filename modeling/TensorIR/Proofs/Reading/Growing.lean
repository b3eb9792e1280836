import TensorIR.Proofs.Reading.Stages
import TensorIR.Proofs.Reading.Words

/-!
# How the program grows while it is read

A step of reading adds to the tables of the program that is being built, and never takes anything back: what
it has read means in the finished program what it means now. This module says so for the steps that build,
and follows what the visible names stand for while values are defined and regions are opened and closed.

## Main definitions

* `Reader.Advances` — a reader further on, in the same scopes, with a program that has grown
* `Reader.Knows` — values that have entries

## Main results

* `Leads.frame` — what lasts while a program grows may be left out of the description of a step
* `names_defineEach` — defined values are declared
* `advances_addBlock`, `advances_blockArguments`, `advances_setResultTypes` — steps that build
-/

namespace TensorIR

open Reading

variable {α β : Type} {reader left : Reader}

/-! ### Tables -/

namespace Program

theorem continues_addValue (program : Program) (added : Value) : program.Continues (program.addValue added).2 where
  operations _ below := ⟨below, rfl⟩
  headers _ below := ⟨below, rfl⟩
  names value below := by
    rw [value_addValue, if_neg below.ne]
    exact ⟨by simpa [addValue] using below.le, rfl⟩

theorem continues_addOperation (program : Program) (added : Operation) :
    program.Continues (program.addOperation added).2 where
  operations op below := by
    rw [operation_addOperation, if_neg below.ne]
    exact ⟨by simpa [addOperation] using below.le, rfl⟩
  headers _ below := ⟨below, rfl⟩
  names _ below := ⟨below, rfl⟩

theorem continues_setType (program : Program) (value : ValueId) (type : Ty) :
    program.Continues (program.setType value type) where
  operations _ below := ⟨below, rfl⟩
  headers _ below := ⟨below, rfl⟩
  names other below := by
    refine ⟨by simpa [setType, modifyValue] using below, ?_⟩
    rw [setType, value_modifyValue]
    split <;> rfl

theorem name_claim (program : Program) (block : BlockId) (arguments : List ValueId) (value : ValueId) :
    ((program.claim block arguments).value value).name = (program.value value).name := by
  induction arguments generalizing program with
  | nil => rfl
  | cons argument arguments ih =>
    refine (ih _).trans ?_
    rw [value_modifyValue]
    split <;> rfl

theorem header_withArguments (program : Program) (label : Option String) (arguments : List ValueId)
    (block : BlockId) : (program.withArguments label arguments).header block =
      if block.index = program.headers.size then ⟨label, arguments⟩ else program.header block := by
  rw [← header_addBlock]
  exact congrArg (·.getD block.index default) headers_claim

theorem continues_withArguments (program : Program) (label : Option String) (arguments : List ValueId) :
    program.Continues (program.withArguments label arguments) where
  operations op below := by
    rw [operation_withArguments]
    exact ⟨by simpa [withArguments, addBlock] using below, rfl⟩
  headers block below := by
    rw [header_withArguments, if_neg below.ne]
    exact ⟨by simpa [withArguments, addBlock] using below.le, rfl⟩
  names value below := by
    rw [withArguments, name_claim]
    exact ⟨by simpa [addBlock] using below, rfl⟩

/-- An operation that has been added since may still change. -/
theorem Continues.modifyOperation {start now : Program} (continues : start.Continues now) {op : OpId}
    (new : start.operations.size ≤ op.index) (change : Operation → Operation) :
    start.Continues (now.modifyOperation op change) where
  operations other below := by
    obtain ⟨there, same⟩ := continues.operations other below
    rw [operation_modifyOperation, if_neg, same]
    · exact ⟨by simpa [Program.modifyOperation] using there, rfl⟩
    · rintro ⟨rfl, -⟩
      exact absurd below new.not_gt
  headers := continues.headers
  names := continues.names

end Program

/-! ### Readers -/

/-- The reader is further on, its scopes are the same, and its program has grown. -/
structure Reader.Advances (start left : Reader) : Prop where
  scopes : left.scopes = start.scopes
  rest : left.rest <:+ start.rest
  continues : start.program.Continues left.program

namespace Reader.Advances

theorem refl (reader : Reader) : reader.Advances reader :=
  ⟨rfl, List.suffix_rfl, .refl _⟩

theorem trans {start : Reader} (first : start.Advances reader) (second : reader.Advances left) :
    start.Advances left :=
  ⟨second.scopes.trans first.scopes, second.rest.trans first.rest, first.continues.trans second.continues⟩

theorem names (advances : reader.Advances left) : left.names = reader.names := by
  unfold Reader.names
  rw [advances.scopes]

end Reader.Advances

theorem Reader.MovesTo.advances (moved : reader.MovesTo left) : reader.Advances left :=
  ⟨moved.scopes, moved.rest, moved.program ▸ .refl _⟩

/-- The values have entries in the program that is being built. -/
def Reader.Knows (reader : Reader) (values : List ValueId) : Prop :=
  ∀ value ∈ values, value.index < reader.program.values.size

theorem Reader.Knows.mono {values : List ValueId} (knows : reader.Knows values)
    (continues : reader.program.Continues left.program) : left.Knows values :=
  fun value member => (continues.names value (knows value member)).1

/-- What holds of a reader keeps holding while the program grows. -/
def Lasts (holds : Reader → Prop) : Prop :=
  ∀ reader left, holds reader → reader.Advances left → holds left

theorem Lasts.and {first second : Reader → Prop} (lasts : Lasts first) (also : Lasts second) :
    Lasts fun reader => first reader ∧ second reader :=
  fun reader left holds advances => ⟨lasts reader left holds.1 advances, also reader left holds.2 advances⟩

theorem lasts_advances (start : Reader) : Lasts start.Advances :=
  fun _ _ => .trans

theorem lasts_knows (values : List ValueId) : Lasts (·.Knows values) :=
  fun _ _ knows advances => knows.mono advances.continues

/-- The step lets the program grow, and then something holds of what it gives. -/
def Grows (step : Reading α) (gives : α → Reader → Prop) : Prop :=
  ∀ start : Reader, Leads start.Advances step fun value left => start.Advances left ∧ gives value left

section Frame

variable {holds : Reader → Prop} {step : Reading α} {gives : α → Reader → Prop}

theorem Leads.frame (lasts : Lasts holds) (grows : Grows step gives) :
    Leads holds step fun value left => holds left ∧ gives value left := by
  intro reader value left start run
  obtain ⟨advances, given⟩ := grows reader reader value left (.refl reader) run
  exact ⟨lasts reader left start advances, given⟩

/-- What lasts is not touched while the program only grows. -/
theorem Along.frame (along : Along Reader.Advances step) (lasts : Lasts holds) : Leads holds step fun _ => holds :=
  fun reader value left start run => lasts reader left start (along reader reader value left (.refl reader) run)

end Frame

/-- A quiet step lets nothing grow. -/
theorem Along.advances {step : Reading α} (quiet : Quiet step) : Along Reader.Advances step :=
  fun _ _ _ _ advances run => advances.trans (quiet.movesTo run).advances

theorem advances_build {change : Program → α × Program}
    (continues : ∀ program : Program, program.Continues (change program).2) :
    Along Reader.Advances (build change) :=
  fun _ => .build fun _ advances => advances.trans ⟨rfl, List.suffix_rfl, continues _⟩

theorem advances_addBlock (label : Option String) (arguments : List ValueId) :
    Along Reader.Advances (addBlock label arguments) := by
  intro start reader block left advances run
  rw [run_addBlock] at run
  cases run
  exact advances.trans ⟨rfl, List.suffix_rfl, Program.continues_withArguments _ _ _⟩

theorem advances_setResultTypes (op : OpId) (types : List Ty) : Along Reader.Advances (setResultTypes op types) := by
  refine (along_ask _).bind fun results => ?_
  have goesOn : Along Reader.Advances (forIn (results.zip types) PUnit.unit fun item _ => do
      build fun program => ((), program.setType item.1 item.2)
      return ForInStep.yield PUnit.unit) :=
    .forIn (fun item _ => (advances_build fun program => program.continues_setType _ _).bind fun _ => .pure _) _ _
  exact .ite ((Along.throw _).bind fun _ => goesOn.bind fun _ => .pure _) (goesOn.bind fun _ => .pure _)

theorem advances_loopTypes (op : OpId) : Along Reader.Advances (loopTypes op) :=
  (quiet_expect _).advances.bind fun _ => quiet_typesInParens.advances.bind fun _ => (along_ask _).bind fun _ =>
    (along_checkTypes _ _).bind fun _ => (quiet_expect _).advances.bind fun _ =>
      quiet_typesInParens.advances.bind fun _ => advances_setResultTypes _ _

/-! ### Values that are added -/

/-- The step adds a value. -/
abbrev AddsValue (step : Reading ValueId) : Prop :=
  Grows step fun value left => left.Knows [value]

theorem addsValue_build (added : Value) : AddsValue (build fun program => program.addValue added) := by
  refine fun start => .build fun _ advances => ⟨advances.trans ?_, ?_⟩
  · exact ⟨rfl, List.suffix_rfl, Program.continues_addValue _ _⟩
  · simp [Reader.Knows, Program.addValue]

theorem addsValue_blockArgument : AddsValue blockArgument :=
  fun start => ((quiet_expect _).advances start).bind fun _ => ((quiet_expect _).advances start).bind fun _ =>
    (quiet_type.advances start).bind fun _ => addsValue_build _ start

/-- Another value behind some that are known. -/
theorem AddsValue.leads {step : Reading ValueId} (adds : AddsValue step) (start : Reader) (known : List ValueId) :
    Leads (fun reader => start.Advances reader ∧ reader.Knows known) step
      fun value left => start.Advances left ∧ left.Knows (known ++ [value]) := by
  refine (Leads.frame ((lasts_advances start).and (lasts_knows known)) adds).weaken ?_
  rintro value left ⟨⟨advances, knows⟩, also⟩
  exact ⟨advances, fun other member => (List.mem_append.mp member).elim (knows other) (also other)⟩

theorem grows_mapM {change : α → Reading ValueId} (each : ∀ item, AddsValue (change item)) (items : List α) :
    Grows (items.mapM change) fun values left => left.Knows values :=
  fun start => (Leads.mapM items fun item known => (each item).leads start known).strengthen
    fun _ advances => ⟨advances, List.forall_mem_nil _⟩

theorem grows_commaList {more : Reading Bool} {item : Reading ValueId} (quiet : Quiet more)
    (each : AddsValue item) : Grows (commaList more item) fun values left => left.Knows values := by
  intro start
  have lasts (known : List ValueId) := (lasts_advances start).and (lasts_knows known)
  have list := Leads.commaList
    (fun known => (quiet.advances.frame (lasts known)).weaken fun _ _ holds => ⟨holds, fun _ => trivial⟩)
    (fun known => (each.leads start known).strengthen fun _ => And.left)
    fun known => (quiet_accept _).advances.frame (lasts known)
  exact list.strengthen fun _ advances => ⟨advances, List.forall_mem_nil _⟩

theorem grows_blockArguments : Grows blockArguments fun values left => left.Knows values := by
  refine fun start => ((quiet_expect _).advances start).bind fun _ => ?_
  have closes : Quiet (return !(← check .rightParen)) := (along_check _).bind fun _ => .pure _
  refine (grows_commaList closes addsValue_blockArgument start).bind fun values => ?_
  have lasts := (lasts_advances start).and (lasts_knows values)
  exact ((quiet_expect _).advances.frame lasts).bind fun _ => .pure fun _ => id

/-! ### Names -/

/-- A value that is defined is declared, in the innermost scope. -/
theorem names_define {value : ValueId} (run : (define value).run reader = .ok ((), left)) :
    left = { reader with scopes := left.scopes } ∧ left.scopes.drop 1 = reader.scopes.drop 1 ∧
      left.names = reader.program.declare reader.names [value] := by
  unfold define at run
  obtain ⟨_, _, ⟨⟩, run⟩ := run_bind_eq_ok run
  split at run
  case h_1 unnamed =>
    cases run
    refine ⟨rfl, rfl, funext fun other => ?_⟩
    rw [Program.declare, List.foldl_cons, List.foldl_nil, unnamed]
    rfl
  case h_2 => cases run
  case h_3 name scope scopes named inside =>
    have adds : left = { reader with scopes := ((name, value) :: scope) :: scopes } := by
      split at run
      · obtain ⟨_, _, fails, -⟩ := run_bind_eq_ok run
        cases fails
      · cases run
        rfl
    subst adds
    refine ⟨rfl, by rw [inside]; rfl, funext fun other => ?_⟩
    rw [Program.declare, List.foldl_cons, List.foldl_nil, named]
    simp only [Reader.names, inside, List.findSome?_cons, List.lookup_cons, Option.some.injEq]
    by_cases same : other = name
    · simp [same]
    · simp [beq_false_of_ne same, Ne.symm same]

theorem names_defineEach {values : List ValueId} {done : PUnit}
    (run : (forIn values PUnit.unit fun value _ => do
      define value
      return ForInStep.yield PUnit.unit : Reading PUnit).run reader = .ok (done, left)) :
    left = { reader with scopes := left.scopes } ∧ left.scopes.drop 1 = reader.scopes.drop 1 ∧
      left.names = reader.program.declare reader.names values := by
  induction values generalizing reader with
  | nil =>
    cases run
    exact ⟨rfl, rfl, rfl⟩
  | cons value values ih =>
    rw [List.forIn_cons] at run
    obtain ⟨_, middle, defines, run⟩ := run_bind_eq_ok run
    obtain ⟨_, _, defines, ⟨⟩⟩ := run_bind_eq_ok defines
    obtain ⟨isMiddle, outer, names⟩ := names_define defines
    obtain ⟨isLeft, outer', names'⟩ := ih run
    refine ⟨?_, outer'.trans outer, ?_⟩
    · rw [isLeft, isMiddle]
    · rw [names', names, isMiddle]
      rfl

/-- What is named in a region is seen from inside only. -/
theorem names_openScope (reader : Reader) :
    Reader.names { reader with scopes := [] :: reader.scopes } = reader.names :=
  rfl

end TensorIR
