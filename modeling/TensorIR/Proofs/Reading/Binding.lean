import TensorIR.Proofs.Reading.Growing
import TensorIR.Proofs.Reading.Programs

/-!
# Operands are bound to their names

Each form of an operation hears the names of its operands and adds an operation with what they stand for. The
forms differ in what stands between the names, and in which of the names are those of operands.

## Main definitions

* `Reader.Heard` — names that stand for given values stand behind the word of an operation
* `Reader.Adds` — an operation has been added, with operands that are bound to their names

## Main results

* `adds_addOperation` — an operation that takes what has been heard
* `binds_flatOperation` — an operation without regions
* `bindsHead_forHead`, `bindsHead_functionHead` — heads that name the arguments of a region
-/

namespace TensorIR

open Reading

variable {α β : Type} {reader left : Reader} {start : Reader} {location : Location} {heard : List (Option ValueId)}

/-! ### Adding an operation -/

/-- The names behind the word at the given place begin with ones that stand for the given values, and the program
may have grown since. -/
structure Reader.Heard (start : Reader) (location : Location) (heard : List (Option ValueId)) (left : Reader) :
    Prop extends start.Advances left where
  behind : ∃ before word after, start.rest = before ++ word :: after ∧ word.location = location ∧
    heard <+: (Token.names after).map start.names

theorem lasts_heard : Lasts (start.Heard location heard) :=
  fun _ _ holds advances => ⟨holds.toAdvances.trans advances, holds.behind⟩

/-- All names of operands have been heard. -/
theorem Leads.fromHears {step : Reading α} {later : α → Reader → Prop}
    (leads : Leads (start.Heard location heard) step later) : Leads (start.Hears location heard) step later := by
  refine leads.strengthen fun reader hears => ⟨hears.toMovesTo.advances, ?_⟩
  obtain ⟨before, word, after, isRest, located, names⟩ := hears.behind
  exact ⟨before, word, after, isRest, located, _, names.symm⟩

/-- What follows a quiet step starts from the same. -/
theorem Along.thenHeard {step : Reading α} {next : α → Reading β} {later : β → Reader → Prop} (quiet : Quiet step)
    (rest : ∀ value, Leads (start.Heard location heard) (next value) later) :
    Leads (start.Heard location heard) (step >>= next) later :=
  (quiet.advances.frame lasts_heard).bind rest

/-- The operation has been added, with operands that are bound to their names and results that have entries. -/
structure Reader.Adds (start : Reader) (op : OpId) (left : Reader) : Prop extends start.Advances left where
  known : op.index < left.program.operations.size
  results : left.Knows (left.program.results op)
  binds : left.program.BindsAt start.rest start.names op

theorem lasts_adds {op : OpId} : Lasts (start.Adds op) := by
  intro reader left adds advances
  obtain ⟨known, same⟩ := advances.continues.operations op adds.known
  refine ⟨adds.toAdvances.trans advances, known, ?_, advances.continues.bindsAt adds.known List.suffix_rfl adds.binds⟩
  rw [Program.results, same]
  exact adds.results.mono advances.continues

/-- The operands are the values that have been heard, as the kind of the operation takes them. -/
def Operation.Takes (operation : Operation) (location : Location) (heard : List (Option ValueId)) : Prop :=
  operation.location = some location ∧
    ∀ more, operation.operands.map some <+: operation.kind.operandWords (heard ++ more)

theorem Operation.Takes.of_isEmpty {operation : Operation} (located : operation.location = some location)
    (none : operation.operands = []) : operation.Takes location heard :=
  ⟨located, fun more => by simp [none]⟩

/-- All operations but counted loops take what they hear. -/
theorem Operation.Takes.of_eq {operation : Operation} (located : operation.location = some location)
    (other : operation.kind ≠ .scf .forLoop) (same : heard = operation.operands.map some) :
    operation.Takes location heard := by
  refine ⟨located, fun more => ?_⟩
  rw [OpKind.operandWords, same]
  · exact List.prefix_append _ _
  · exact other

/-- The entry of the operation is what has been added, and its results have entries. -/
structure Reader.Has (reader : Reader) (operation : Operation) (op : OpId) : Prop where
  known : op.index < reader.program.operations.size
  isOperation : ∃ results, reader.program.operation op = { operation with results }
  results : reader.Knows (reader.program.results op)

theorem Reader.has_addOperation (operation : Operation) (given : reader.Knows operation.results) :
    reader.Advances { reader with program := (reader.program.addOperation operation).2 } ∧
      Reader.Has { reader with program := (reader.program.addOperation operation).2 } operation
        (reader.program.addOperation operation).1 := by
  have isOperation : (reader.program.addOperation operation).2.operation (reader.program.addOperation operation).1 =
      operation := by
    rw [Program.operation_addOperation]
    exact if_pos rfl
  refine ⟨⟨rfl, List.suffix_rfl, Program.continues_addOperation _ _⟩, ?_, ⟨_, isOperation⟩, ?_⟩
  · simp [Program.addOperation]
  · rw [Program.results, isOperation]
    exact given

theorem grows_addOperation (operation : Operation) (names : List String) (types : Option (List Ty)) :
    Grows (addOperation operation names types) fun op left => left.Has operation op := by
  intro start
  -- until its results are known, the operation is new to the tables
  let stands (op : OpId) (results : List ValueId) (reader : Reader) : Prop :=
    start.Advances reader ∧ start.program.operations.size ≤ op.index ∧
      op.index < reader.program.operations.size ∧ reader.program.operation op = operation ∧ reader.Knows results
  have allocates : Leads start.Advances (build fun program => program.addOperation operation)
      fun op => stands op [] := by
    refine .build fun reader advances => ⟨?_, ?_, ?_, ?_, List.forall_mem_nil _⟩
    · exact advances.trans ⟨rfl, List.suffix_rfl, Program.continues_addOperation _ _⟩
    · exact advances.continues.size_operations_le
    · simp [Program.addOperation]
    · rw [Program.operation_addOperation]
      exact if_pos rfl
  have each (op : OpId) (name : String) (type : Option Ty) (results : List ValueId) :
      Leads (stands op results) (build fun program => program.addValue ⟨some name, type, .result op⟩)
        fun value => stands op (results ++ [value]) := by
    rintro reader value left ⟨before, new, below, same, knows⟩ run
    obtain ⟨advances, known⟩ := (addsValue_build _).leads reader results reader value left ⟨.refl reader, knows⟩ run
    obtain ⟨there, unchanged⟩ := advances.continues.operations op below
    exact ⟨before.trans advances, new, there, unchanged.trans same, known⟩
  have settles (op : OpId) (results : List ValueId) : Leads (stands op results)
      (build fun program =>
        ((), program.modifyOperation op fun operation => { operation with results }))
      fun _ left => start.Advances left ∧ left.Has operation op := by
    refine .build fun reader stood => ?_
    obtain ⟨before, new, below, same, knows⟩ := stood
    have changed : (reader.program.modifyOperation op fun operation => { operation with results }).operation op =
        { operation with results } := by
      rw [Program.operation_modifyOperation, if_pos ⟨rfl, below⟩, same]
    refine ⟨⟨before.scopes, before.rest, before.continues.modifyOperation new _⟩, ?_, ⟨results, changed⟩, ?_⟩
    · simpa [Program.modifyOperation] using below
    · rw [Program.results, changed]
      exact knows
  have gives (op : OpId) : Leads (fun left => start.Advances left ∧ left.Has operation op) (pure op)
      fun op left => start.Advances left ∧ left.Has operation op :=
    .pure fun _ => id
  have goesOn := allocates.bind fun op => (Leads.forIn names.zipIdx (fun item results =>
    (each op item.1 (types.bind fun types => types[item.2]?) results).bind fun _ =>
      .pure fun _ stage => ⟨_, rfl, stage⟩) []).bind fun results => (settles op results).bind fun _ => gives op
  cases types with
  | none => exact goesOn
  | some types => exact .ite ((Leads.throw _).bind fun _ => goesOn) goesOn

theorem Operation.Takes.adds {operation : Operation} {op : OpId} (takes : operation.Takes location heard)
    (holds : start.Heard location heard left) (has : left.Has operation op) : start.Adds op left := by
  refine ⟨holds.toAdvances, has.known, has.results, .inr ?_⟩
  obtain ⟨before, word, after, isRest, located, more, names⟩ := holds.behind
  obtain ⟨_, isOperation⟩ := has.isOperation
  refine ⟨before, word, after, isRest, ?_, ?_⟩
  · rw [isOperation, located]
    exact takes.1
  · rw [Program.operands, Program.kind, isOperation, ← names]
    exact takes.2 more

theorem adds_addOperation {operation : Operation} (names : List String) (types : Option (List Ty))
    (takes : operation.Takes location heard) :
    Leads (start.Heard location heard) (addOperation operation names types) start.Adds :=
  (Leads.frame lasts_heard (grows_addOperation operation names types)).weaken fun _ _ ⟨holds, has⟩ =>
    takes.adds holds has

/-! ### Operations without regions -/

/-- The step adds one operation, with operands that are bound to their names. -/
def Binds (step : Reading OpId) : Prop :=
  ∀ start : Reader, Leads start.MovesTo step start.Adds

theorem hears_heading {next : List String → Location → Reading α} {later : α → Reader → Prop}
    (rest : ∀ names location, Leads (start.Hears location []) (next names location) later) :
    Leads start.MovesTo (do let names ← resultNames; let location ← operationName; next names location) later :=
  (quiet_resultNames start).bind fun names => hears_operationName.bind fun location => rest names location

theorem hears_operandGroup (word : String) : Leads (start.Hears location heard) (operandGroup word)
    fun values => start.Hears location (heard ++ values.map some) := by
  refine (nameless_keyword _).thenHears fun _ => (nameless_expect (by decide)).thenHears fun _ =>
    hears_operands.bind fun values => ?_
  have closes : Leads (start.Hears location (heard ++ values.map some)) (do let _ ← expect .rightParen; return values)
      fun values => start.Hears location (heard ++ values.map some) :=
    (nameless_expect (by decide)).thenHears fun _ => .pure fun _ => id
  refine .ite closes ?_
  exact (nameless_expect (by decide)).thenHears fun _ => nameless_types.thenHears fun _ =>
    (along_checkTypes _ _).thenHears fun _ => closes

theorem hears_member : Leads (start.Hears location heard) member
    fun found => start.Hears location (heard ++ [some found.1]) :=
  hears_operand.bind fun _ => (nameless_expect (by decide)).thenHears fun _ => nameless_string.thenHears fun _ =>
    (nameless_expect (by decide)).thenHears fun _ => .pure fun _ => id

theorem hears_access : Leads (start.Hears location heard) access
    fun values => start.Heard location (heard ++ values.map some) := by
  refine hears_operand.bind fun buffer => (nameless_expect (by decide)).thenHears fun _ =>
    hears_operands.bind fun indices => .fromHears ?_
  have gives : Leads (start.Heard location (heard ++ [some buffer] ++ indices.map some)) (pure (buffer :: indices))
      fun values => start.Heard location (heard ++ values.map some) :=
    .pure fun _ holds => by simpa using holds
  refine (quiet_expect _).thenHeard fun _ => (quiet_expect _).thenHeard fun _ => quiet_type.thenHeard fun _ => ?_
  refine Along.get.thenHeard fun _ => (along_liftExcept _).thenHeard fun _ => .ite gives ?_
  exact (along_failBefore _).thenHeard fun _ => gives

/-- An operation of a form without operands. -/
theorem adds_withoutOperands {operation : Operation} (names : List String) (types : Option (List Ty))
    (located : operation.location = some location) (none : operation.operands = []) :
    Leads (start.Heard location heard) (addOperation operation names types) start.Adds :=
  adds_addOperation names types (.of_isEmpty located none)

/-- An operation whose operands are what has been heard. -/
theorem adds_withOperands {operation : Operation} (names : List String) (types : Option (List Ty))
    (located : operation.location = some location) (other : operation.kind ≠ .scf .forLoop)
    (same : heard = operation.operands.map some) :
    Leads (start.Heard location heard) (addOperation operation names types) start.Adds :=
  adds_addOperation names types (.of_eq located other same)

theorem binds_scalarConstant : Binds scalarConstant := by
  refine fun start => hears_heading fun names location => .fromHears <| along_peek.thenHeard fun token => ?_
  extract_lets typed literal
  have adds (literal : Literal) : Leads (start.Heard location []) (typed literal) start.Adds := by
    refine (quiet_expect _).thenHeard fun _ => quiet_type.thenHeard fun type => ?_
    extract_lets attributed
    have adds (value : Attribute) : Leads (start.Heard location []) (attributed value) start.Adds :=
      adds_withoutOperands _ _ rfl rfl
    split
    · refine .ite ((Along.pure _).thenHeard adds) ?_
      split
      · exact (Along.pure _).thenHeard adds
      · exact (along_failBefore _).thenHeard adds
    · exact (along_failBefore _).thenHeard adds
  have reads (isInteger : Bool) : Leads (start.Heard location []) (literal isInteger) start.Adds :=
    .ite ((quiet_integer.map _).thenHeard adds) ((quiet_float.map _).thenHeard adds)
  exact .ite (along_kindAfterNext.thenHeard fun _ => (Along.pure _).thenHeard reads)
    ((Along.pure _).thenHeard reads)

theorem binds_torchConstant (kind : TorchKind) : Binds (torchConstant kind) :=
  fun _ => hears_heading fun _ _ => .fromHears <| (quiet_torchLiteral kind).thenHeard fun _ =>
    adds_withoutOperands _ _ rfl rfl

theorem binds_tensorConstant : Binds tensorConstant := by
  refine fun start => hears_heading fun names location => .fromHears <| (along_checkKeyword _).thenHeard fun _ => ?_
  extract_lets valued
  have adds (given : Unit) : Leads (start.Heard location []) (valued given) start.Adds :=
    quiet_attributeValue.thenHeard fun _ => (quiet_expect _).thenHeard fun _ => quiet_type.thenHeard fun _ =>
      adds_withoutOperands _ _ rfl rfl
  exact .ite (adds ()) ((along_failHere _).thenHeard adds)

theorem binds_dictConstruct : Binds dictConstruct :=
  fun _ => hears_heading fun _ _ => (hears_operandGroup _).bind fun _ => (hears_operandGroup _).bind fun _ =>
    .fromHears <| (quiet_expect _).thenHeard fun _ => quiet_resultTypes.thenHeard fun _ =>
      adds_withOperands _ _ rfl (by simp) (by simp)

theorem binds_loopCondition : Binds loopCondition :=
  fun _ => hears_heading fun _ _ => hears_operand.bind fun _ => (nameless_expect (by decide)).thenHears fun _ =>
    (hears_operandGroup _).bind fun _ => .fromHears <| adds_withOperands _ _ rfl (by simp) (by simp)

theorem binds_attributeDeclaration : Binds attributeDeclaration :=
  fun _ => hears_operationName.bind fun _ => .fromHears <| (quiet_privateMark _).thenHeard fun _ =>
    quiet_string.thenHeard fun _ => (quiet_expect _).thenHeard fun _ => quiet_type.thenHeard fun _ =>
      adds_withoutOperands _ _ rfl rfl

theorem binds_methodDeclaration : Binds methodDeclaration :=
  fun _ => hears_operationName.bind fun _ => .fromHears <| (quiet_privateMark _).thenHeard fun _ =>
    quiet_string.thenHeard fun _ => (quiet_expect _).thenHeard fun _ => quiet_symbol.thenHeard fun _ =>
      adds_withoutOperands _ _ rfl rfl

theorem binds_slot : Binds slot :=
  fun _ => hears_operationName.bind fun _ => nameless_string.thenHears fun _ =>
    (nameless_expect (by decide)).thenHears fun _ => hears_operand.bind fun _ => .fromHears <|
      (quiet_expect _).thenHeard fun _ => quiet_types.thenHeard fun _ => (along_checkTypes _ _).thenHeard fun _ =>
        adds_withOperands _ _ rfl (by simp) (by simp)

theorem binds_globalSlotGet : Binds globalSlotGet :=
  fun _ => hears_heading fun _ _ => .fromHears <| quiet_symbol.thenHeard fun _ => (quiet_expect _).thenHeard fun _ =>
    quiet_type.thenHeard fun _ => adds_withoutOperands _ _ rfl rfl

theorem binds_globalSlotSet : Binds globalSlotSet :=
  fun _ => hears_operationName.bind fun _ => nameless_symbol.thenHears fun _ =>
    (nameless_expect (by decide)).thenHears fun _ => hears_operand.bind fun _ => .fromHears <|
      (quiet_expect _).thenHeard fun _ => quiet_types.thenHeard fun _ => (along_checkTypes _ _).thenHeard fun _ =>
        adds_withOperands _ _ rfl (by simp) (by simp)

theorem binds_getAttr : Binds getAttr :=
  fun _ => hears_heading fun _ _ => hears_member.bind fun _ => .fromHears <| (quiet_expect _).thenHeard fun _ =>
    quiet_type.thenHeard fun _ => (along_checkTypes _ _).thenHeard fun _ => (quiet_expect _).thenHeard fun _ =>
      quiet_type.thenHeard fun _ => adds_withOperands _ _ rfl (by simp) (by simp)

theorem binds_setAttr : Binds setAttr :=
  fun _ => hears_operationName.bind fun _ => hears_member.bind fun _ => (nameless_expect (by decide)).thenHears fun _ =>
    hears_operand.bind fun _ => .fromHears <| (quiet_expect _).thenHeard fun _ => quiet_types.thenHeard fun _ =>
      (along_checkTypes _ _).thenHeard fun _ => adds_withOperands _ _ rfl (by simp) (by simp)

theorem binds_callMethod : Binds callMethod :=
  fun _ => hears_heading fun _ _ => hears_member.bind fun _ => (nameless_expect (by decide)).thenHears fun _ =>
    hears_operands.bind fun _ => .fromHears <| (quiet_expect _).thenHeard fun _ => (quiet_expect _).thenHeard fun _ =>
      quiet_type.thenHeard fun _ => (quiet_expect _).thenHeard fun _ => quiet_typesInParens.thenHeard fun _ =>
        (along_checkTypes _ _).thenHeard fun _ => (quiet_expect _).thenHeard fun _ =>
          quiet_resultTypes.thenHeard fun _ => adds_withOperands _ _ rfl (by simp) (by simp)

theorem binds_call : Binds call :=
  fun _ => hears_heading fun _ _ => nameless_symbol.thenHears fun _ => (nameless_expect (by decide)).thenHears fun _ =>
    hears_operands.bind fun _ => .fromHears <| (quiet_expect _).thenHeard fun _ => (quiet_expect _).thenHeard fun _ =>
      quiet_typesInParens.thenHeard fun _ => (along_checkTypes _ _).thenHeard fun _ =>
        (quiet_expect _).thenHeard fun _ => quiet_resultTypes.thenHeard fun _ =>
          adds_withOperands _ _ rfl (by simp) (by simp)

theorem binds_alloc : Binds alloc :=
  fun _ => hears_heading fun _ _ => .fromHears <| (quiet_expect _).thenHeard fun _ => (quiet_expect _).thenHeard fun _ =>
    (quiet_expect _).thenHeard fun _ => quiet_type.thenHeard fun _ => adds_withoutOperands _ _ rfl rfl

theorem binds_load : Binds load := by
  refine fun start => hears_heading fun names location => hears_access.bind fun operands => ?_
  refine (Along.mapM (fun _ => .asks fun _ => along_liftExcept _) _).thenHeard fun _ => ?_
  split
  · exact adds_withOperands _ _ rfl (by simp) (by simp)
  · exact .throw _

theorem binds_store : Binds store :=
  fun _ => hears_heading fun _ _ => hears_operand.bind fun _ => (nameless_expect (by decide)).thenHears fun _ =>
    hears_access.bind fun _ => adds_withOperands _ _ rfl (by simp) (by simp)

theorem binds_genericOperation {kind : OpKind} (other : kind ≠ .scf .forLoop) : Binds (genericOperation kind) := by
  refine fun start => hears_heading fun names location => hears_operands.bind fun operands => .fromHears ?_
  refine (along_check _).thenHeard fun _ => ?_
  extract_lets types attributed
  have adds (attributes : Attributes) :
      Leads (start.Heard location ([] ++ operands.map some)) (attributed attributes) start.Adds := by
    refine (quiet_accept _).thenHeard fun _ => ?_
    extract_lets typed given
    have adds (types : Option (List Ty)) :
        Leads (start.Heard location ([] ++ operands.map some)) (typed () types) start.Adds := by
      have adds : Leads (start.Heard location ([] ++ operands.map some))
          (addOperation { kind, operands, attributes, location } names types) start.Adds :=
        adds_withOperands _ _ rfl other (by simp)
      exact .ite ((along_failHere _).thenHeard fun _ => adds) adds
    have typed : Leads (start.Heard location ([] ++ operands.map some)) (given ()) start.Adds :=
      (quiet_accept _).thenHeard fun _ => .ite
        (quiet_resultTypes.thenHeard fun _ => .ite ((Leads.throw _).bind fun _ => adds _) (adds _)) (adds _)
    refine .ite ?_ (.ite ((along_failHere _).thenHeard fun _ => adds _) (adds _))
    refine (along_check _).thenHeard fun _ => .ite typed ?_
    exact quiet_types.thenHeard fun _ => (along_checkTypes _ _).thenHeard fun _ => typed
  exact .ite (quiet_attributes.thenHeard adds) ((Along.pure _).thenHeard adds)

theorem binds_flatOperation {kind : OpKind} (other : kind ≠ .scf .forLoop) : Binds (flatOperation kind) := by
  unfold flatOperation
  split
  case h_1 => exact binds_scalarConstant
  case h_2 => exact binds_tensorConstant
  case h_3 => exact binds_call
  case h_4 => exact binds_alloc
  case h_5 => exact binds_load
  case h_6 => exact binds_store
  case h_7 => exact binds_dictConstruct
  case h_8 => exact binds_loopCondition
  case h_9 => exact binds_attributeDeclaration
  case h_10 => exact binds_methodDeclaration
  case h_11 => exact binds_slot
  case h_12 => exact binds_globalSlotGet
  case h_13 => exact binds_globalSlotSet
  case h_14 => exact binds_getAttr
  case h_15 => exact binds_setAttr
  case h_16 => exact binds_callMethod
  case h_17 =>
    split
    · exact binds_torchConstant _
    · exact binds_genericOperation other
  case h_18 => exact binds_genericOperation other

/-! ### Heads of operations with regions -/

/-- The step adds one operation, with operands that are bound to their names, and knows the arguments of its
region. -/
def BindsHead (step : Reading (OpId × List ValueId)) : Prop :=
  ∀ start : Reader, Leads start.MovesTo step fun head left => start.Adds head.1 left ∧ left.Knows head.2

theorem binds_choiceHead : Binds choiceHead := by
  refine fun start => hears_heading fun names location => hears_operand.bind fun condition => .fromHears ?_
  have adds (types : Option (List Ty)) : Leads (start.Heard location ([] ++ [some condition]))
      (addOperation { kind := .scf .ifElse, operands := [condition], location } names types) start.Adds :=
    adds_withOperands _ _ rfl (by simp) (by simp)
  exact (quiet_accept _).thenHeard fun _ =>
    .ite ((quiet_typesInParens.map _).thenHeard adds) ((Along.pure _).thenHeard adds)

theorem binds_branchHead : Binds branchHead :=
  fun _ => hears_heading fun _ _ => hears_operand.bind fun _ => .fromHears <| (quiet_expect _).thenHeard fun _ =>
    quiet_typesInParens.thenHeard fun _ => adds_withOperands _ _ rfl (by simp) (by simp)

theorem binds_loopHead : Binds loopHead :=
  fun _ => hears_heading fun _ _ => hears_operand.bind fun _ => (nameless_expect (by decide)).thenHears fun _ =>
    hears_operand.bind fun _ => (nameless_expect (by decide)).thenHears fun _ =>
      (nameless_keyword _).thenHears fun _ => (nameless_expect (by decide)).thenHears fun _ =>
        hears_operands.bind fun _ => .fromHears <| (quiet_expect _).thenHeard fun _ =>
          adds_withOperands _ _ rfl (by simp) (by simp)

theorem binds_classHead : Binds classHead :=
  fun _ => hears_operationName.bind fun _ => .fromHears <| quiet_symbol.thenHeard fun _ =>
    adds_withoutOperands _ _ rfl rfl

theorem binds_globalSlotHead : Binds globalSlotHead :=
  fun _ => hears_operationName.bind fun _ => .fromHears <| (quiet_privateMark _).thenHeard fun _ =>
    quiet_symbol.thenHeard fun _ => (quiet_expect _).thenHeard fun _ => quiet_type.thenHeard fun _ =>
      adds_withoutOperands _ _ rfl rfl

/-- Of a value that a loop carries, the argument is heard first and then the value to begin with. -/
def hearCarried (start : Reader) (pair : String × ValueId) : List (Option ValueId) :=
  [start.names pair.1, some pair.2]

theorem seconds_hearCarried (pairs : List (String × ValueId)) (more : List (Option ValueId)) :
    seconds (pairs.flatMap (hearCarried start) ++ more) = pairs.map (some ∘ Prod.snd) ++ seconds more := by
  induction pairs with
  | nil => rfl
  | cons pair pairs ih =>
    rw [List.flatMap_cons, hearCarried, List.append_assoc, List.cons_append, List.cons_append, List.nil_append,
      seconds, ih]
    rfl

theorem hears_carriedValue : Leads
    (fun reader => start.Hears location heard reader ∧ reader.Faces .percentIdentifier) carriedValue
    fun pair => start.Hears location (heard ++ hearCarried start pair) := by
  have names : Leads (fun reader => start.Hears location heard reader ∧ reader.Faces .percentIdentifier) advance
      fun token => start.Hears location (heard ++ [start.names token.lexeme]) := by
    rintro reader token left ⟨hears, faces⟩ run
    obtain ⟨rest, isRest, isName, rfl⟩ := rest_of_advance faces run
    exact hears.name isRest isName
  refine names.bind fun token => (nameless_expect (by decide)).thenHears fun _ => hears_operand.bind fun value => ?_
  exact .pure fun reader hears => by simpa [hearCarried] using hears

theorem hears_carriedValues : Leads (start.Hears location heard) carriedValues
    fun found => start.Heard location (heard ++ found.1.flatMap (hearCarried start)) := by
  have gives (pairs : List (String × ValueId)) (types : Option (List Ty)) :
      Leads (start.Heard location (heard ++ pairs.flatMap (hearCarried start))) (pure (pairs, types))
        fun found => start.Heard location (heard ++ found.1.flatMap (hearCarried start)) :=
    .pure fun _ => id
  refine (leads_checkKeyword _).bind fun found => ?_
  cases found with
  | false =>
    refine (gives [] none).fromHears.strengthen fun reader holds => ?_
    rw [List.flatMap_nil, List.append_nil]
    exact holds.1
  | true =>
    refine Leads.strengthen (hears_advance (by decide)) (fun _ holds => ⟨holds.1, holds.2 rfl⟩) |>.bind fun _ => ?_
    refine (nameless_expect (by decide)).thenHears fun _ =>
      (hears_commaList (hearCarried start) fun _ => hears_carriedValue).bind fun pairs => .fromHears ?_
    refine (quiet_expect _).thenHeard fun _ => (quiet_expect _).thenHeard fun _ => quiet_resultTypes.thenHeard fun _ => ?_
    exact .ite ((along_failBefore _).thenHeard fun _ => gives _ _) (gives _ _)

theorem bindsHead_forHead : BindsHead forHead := by
  intro start
  refine hears_heading fun names location => hears_name.bind fun counter => (nameless_expect (by decide)).thenHears fun _ =>
    hears_operand.bind fun lower => (nameless_keyword _).thenHears fun _ => hears_operand.bind fun upper =>
      (nameless_keyword _).thenHears fun _ => hears_operand.bind fun step => hears_carriedValues.bind fun (pairs, types) => ?_
  dsimp -zeta only
  extract_lets operands declared typed checked
  -- The names are heard in the order of the text: the counter, the bounds, the step, what is carried.
  have takes : Operation.Takes { kind := .scf .forLoop, operands, location } location
      ([] ++ [start.names counter.lexeme] ++ [some lower] ++ [some upper] ++ [some step] ++
        pairs.flatMap (hearCarried start)) := by
    refine ⟨rfl, fun more => ⟨seconds more, ?_⟩⟩
    simp [operands, OpKind.operandWords, seconds_hearCarried]
  generalize [] ++ [start.names counter.lexeme] ++ [some lower] ++ [some upper] ++ [some step] ++
    pairs.flatMap (hearCarried start) = heard at takes ⊢
  have adds : Leads (start.Heard location heard) (typed ())
      fun head left => start.Adds head.1 left ∧ left.Knows head.2 := by
    refine (Leads.frame lasts_heard (addsValue_build _)).bind fun counterId => ?_
    refine (Leads.frame (lasts_heard.and (lasts_knows [counterId]))
      (grows_mapM (fun (item : (String × ValueId) × Ty) => addsValue_build ⟨some item.1.1, some item.2, _⟩) _)).bind
        fun carried => ?_
    refine (Leads.frame ((lasts_heard.and (lasts_knows [counterId])).and (lasts_knows carried))
      (grows_addOperation _ _ _)).bind fun op => .pure ?_
    rintro reader ⟨⟨⟨holds, knows⟩, others⟩, has⟩
    exact ⟨takes.adds holds has, List.forall_mem_cons.mpr ⟨knows counterId List.mem_cons_self, others⟩⟩
  have adds : Leads (start.Heard location heard) (checked ())
      fun head left => start.Adds head.1 left ∧ left.Knows head.2 :=
    (Along.mapM (fun _ => .asks fun _ => along_liftExcept _) _).thenHeard fun actual =>
      .ite adds ((Leads.throw _).bind fun _ => adds)
  split
  · exact .ite ((Leads.throw _).bind fun _ => adds) adds
  · exact adds

theorem bindsHead_functionHead : BindsHead functionHead := by
  refine fun start => hears_operationName.bind fun location => .fromHears <|
    (along_checkKeyword _).thenHeard fun _ => ?_
  extract_lets named
  have adds (attributes : Attributes) : Leads (start.Heard location []) (named attributes)
      fun head left => start.Adds head.1 left ∧ left.Knows head.2 := by
    refine quiet_symbol.thenHeard fun name => (Leads.frame lasts_heard grows_blockArguments).bind fun arguments => ?_
    have lasts : Lasts fun reader => start.Heard location [] reader ∧ reader.Knows arguments :=
      lasts_heard.and (lasts_knows arguments)
    refine ((quiet_accept _).advances.frame lasts).bind fun _ => ?_
    extract_lets typed
    have adds (types : List Ty) : Leads (fun reader => start.Heard location [] reader ∧ reader.Knows arguments)
        (typed types) fun head left => start.Adds head.1 left ∧ left.Knows head.2 := by
      refine (Leads.frame lasts (grows_mapM (fun type => addsValue_build ⟨none, some type, .signature⟩) _)).bind
        fun results => ?_
      refine Leads.bind (Leads.build fun reader ⟨⟨holds, knows⟩, given⟩ => ?_) fun op => .pure fun _ => id
      have adds (attributes : Attributes) := Reader.has_addOperation ⟨.func .func, [], attributes, results, location⟩ given
      exact ⟨(Operation.Takes.of_isEmpty rfl rfl).adds (lasts_heard _ _ holds (adds _).1) (adds _).2,
        knows.mono (adds _).1.continues⟩
    exact .ite ((quiet_resultTypes.advances.frame lasts).bind adds) (.given (adds _))
  exact .ite (quiet_advance.thenHeard fun _ => .given (adds _)) (.given (adds _))

end TensorIR
