import TensorIR.Proofs.Reading.Stages

/-!
# Programs that are read

Each form of an operation reads its words, its types and the values that it refers to, and adds one
operation to the program. Around this, reading follows the nesting of the text: regions and blocks add
what stands in them. So everything in the tree of a program that has been read is there once and has an
entry, and the tables are in order.

## Main results

* `reads_flatOperation` — an operation without regions
* `reads_operation`, `reads_region`, `reads_blocks`, `reads_body` — what is nested
* `Program.formed_of_read` — the program that a text stands for
-/

namespace TensorIR

open Reading

variable {parts : List Part} {waiting mentioned : List ValueId}

/-! ### Operations without regions -/

/-- The step adds one operation and nothing else. -/
def ReadsFlat (step : Reading OpId) : Prop :=
  ∀ parts, Reads (·.Stage parts [] []) step fun op program => program.Stage (parts ++ [.op op]) [] []

/-- In front of most operations stand their results, and then their name. -/
theorem reads_heading {α : Type} {before : Program → Prop} {after : α → Program → Prop}
    {next : List String → Location → Reading α}
    (rest : ∀ names location, Reads before (next names location) after) :
    Reads before (do let names ← resultNames; let location ← operationName; next names location) after :=
  quiet_resultNames.andThen fun names => quiet_operationName.andThen fun location => rest names location

theorem reads_operandGroup (word : String) : Reads (·.Stage parts waiting mentioned) (operandGroup word)
    fun values program => program.Stage parts waiting (mentioned ++ values) := by
  have closes (values : List ValueId) : Reads (·.Stage parts waiting (mentioned ++ values))
      (do let _ ← expect .rightParen; return values)
      fun values program => program.Stage parts waiting (mentioned ++ values) :=
    (quiet_expect _).andThen fun _ => .pure fun _ => id
  refine (quiet_keyword _).andThen fun _ => (quiet_expect _).andThen fun _ => reads_operands.bind fun values => ?_
  refine .ite (closes values) ?_
  exact (quiet_expect _).andThen fun _ => quiet_types.andThen fun _ => (along_checkTypes _ _).andThen fun _ =>
    closes values

theorem reads_member : Reads (·.Stage parts waiting mentioned) member
    fun found program => program.Stage parts waiting (mentioned ++ [found.1]) :=
  reads_operand.bind fun _ => (quiet_expect _).andThen fun _ => quiet_string.andThen fun _ =>
    (quiet_expect _).andThen fun _ => .pure fun _ => id

theorem reads_access : Reads (·.Stage parts waiting mentioned) access
    fun values program => program.Stage parts waiting (mentioned ++ values) := by
  have gives (buffer : ValueId) (indices : List ValueId) :
      Reads (·.Stage parts waiting (mentioned ++ [buffer] ++ indices)) (pure (buffer :: indices))
        fun values program => program.Stage parts waiting (mentioned ++ values) :=
    .pure fun _ stage => by rwa [List.append_assoc] at stage
  refine reads_operand.bind fun buffer => (quiet_expect _).andThen fun _ => reads_operands.bind fun indices => ?_
  refine (quiet_expect _).andThen fun _ => (quiet_expect _).andThen fun _ => quiet_type.andThen fun _ => ?_
  refine Along.get.andThen fun _ => (along_liftExcept _).andThen fun _ => .ite (gives buffer indices) ?_
  exact (along_failBefore _).andThen fun _ => gives buffer indices

theorem quiet_torchLiteral (kind : TorchKind) : Quiet (torchLiteral kind) := by
  unfold torchLiteral
  split
  · exact quiet_boolean.bind fun _ => .pure _
  · exact quiet_integer.bind fun _ => .pure _
  · exact quiet_float.bind fun _ => .pure _
  · exact quiet_string.bind fun _ => .pure _
  · exact quiet_string.bind fun _ => .pure _
  · exact .pure _

theorem quiet_privateMark (attributes : Attributes) : Quiet (privateMark attributes) :=
  (along_checkKeyword _).bind fun _ => .ite (quiet_advance.bind fun _ => .pure _) (.pure _)

theorem readsFlat_scalarConstant : ReadsFlat scalarConstant := by
  intro parts
  refine reads_heading fun names location =>
    along_peek.andThen fun token => ?_
  extract_lets typed literal
  have adds (literal : Literal) : Reads (·.Stage parts [] []) (typed literal) fun op program =>
      program.Stage (parts ++ [.op op]) [] [] := by
    refine (quiet_expect _).andThen fun _ => quiet_type.andThen fun type => ?_
    extract_lets attributed
    have adds (value : Attribute) : Reads (·.Stage parts [] []) (attributed value) fun op program =>
        program.Stage (parts ++ [.op op]) [] [] :=
      reads_addOperation _ _ nofun rfl nofun
    split
    · refine .ite ((Along.pure _).andThen adds) ?_
      split
      · exact (Along.pure _).andThen adds
      · exact (along_failBefore _).andThen adds
    · exact (along_failBefore _).andThen adds
  have reads (isInteger : Bool) : Reads (·.Stage parts [] []) (literal isInteger) fun op program =>
      program.Stage (parts ++ [.op op]) [] [] :=
    .ite ((quiet_integer.map _).andThen adds) ((quiet_float.map _).andThen adds)
  exact .ite (along_kindAfterNext.andThen fun _ => (Along.pure _).andThen reads) ((Along.pure _).andThen reads)

theorem readsFlat_torchConstant (kind : TorchKind) : ReadsFlat (torchConstant kind) :=
  fun _ => reads_heading fun _ _ =>
    (quiet_torchLiteral kind).andThen fun _ => reads_addOperation _ _ nofun rfl nofun

theorem readsFlat_tensorConstant : ReadsFlat tensorConstant := by
  intro parts
  refine reads_heading fun names location =>
    (along_checkKeyword _).andThen fun _ => ?_
  extract_lets valued
  have adds (given : Unit) : Reads (·.Stage parts [] []) (valued given) fun op program =>
      program.Stage (parts ++ [.op op]) [] [] :=
    quiet_attributeValue.andThen fun _ => (quiet_expect _).andThen fun _ => quiet_type.andThen fun _ =>
      reads_addOperation _ _ nofun rfl nofun
  exact .ite (adds ()) ((along_failHere _).andThen adds)

theorem readsFlat_dictConstruct : ReadsFlat dictConstruct :=
  fun _ => reads_heading fun _ _ =>
    (reads_operandGroup _).bind fun _ => (reads_operandGroup _).bind fun _ => (quiet_expect _).andThen fun _ =>
      quiet_resultTypes.andThen fun _ => reads_addOperation _ _ nofun rfl fun _ => id

theorem readsFlat_loopCondition : ReadsFlat loopCondition :=
  fun _ => reads_heading fun _ _ => reads_operand.bind fun _ =>
    (quiet_expect _).andThen fun _ => (reads_operandGroup _).bind fun _ =>
      reads_addOperation _ _ nofun rfl fun _ => id

theorem readsFlat_attributeDeclaration : ReadsFlat attributeDeclaration :=
  fun _ => quiet_operationName.andThen fun _ => (quiet_privateMark _).andThen fun _ => quiet_string.andThen fun _ =>
    (quiet_expect _).andThen fun _ => quiet_type.andThen fun _ => reads_addOperation _ _ nofun rfl nofun

theorem readsFlat_methodDeclaration : ReadsFlat methodDeclaration :=
  fun _ => quiet_operationName.andThen fun _ => (quiet_privateMark _).andThen fun _ => quiet_string.andThen fun _ =>
    (quiet_expect _).andThen fun _ => quiet_symbol.andThen fun _ => reads_addOperation _ _ nofun rfl nofun

theorem readsFlat_slot : ReadsFlat slot :=
  fun _ => quiet_operationName.andThen fun _ => quiet_string.andThen fun _ => (quiet_expect _).andThen fun _ =>
    reads_operand.bind fun _ => (quiet_expect _).andThen fun _ => quiet_types.andThen fun _ =>
      (along_checkTypes _ _).andThen fun _ => reads_addOperation _ _ nofun rfl fun _ => id

theorem readsFlat_globalSlotGet : ReadsFlat globalSlotGet :=
  fun _ => reads_heading fun _ _ => quiet_symbol.andThen fun _ =>
    (quiet_expect _).andThen fun _ => quiet_type.andThen fun _ => reads_addOperation _ _ nofun rfl nofun

theorem readsFlat_globalSlotSet : ReadsFlat globalSlotSet :=
  fun _ => quiet_operationName.andThen fun _ => quiet_symbol.andThen fun _ => (quiet_expect _).andThen fun _ =>
    reads_operand.bind fun _ => (quiet_expect _).andThen fun _ => quiet_types.andThen fun _ =>
      (along_checkTypes _ _).andThen fun _ => reads_addOperation _ _ nofun rfl fun _ => id

theorem readsFlat_getAttr : ReadsFlat getAttr :=
  fun _ => reads_heading fun _ _ => reads_member.bind fun _ =>
    (quiet_expect _).andThen fun _ => quiet_type.andThen fun _ => (along_checkTypes _ _).andThen fun _ =>
      (quiet_expect _).andThen fun _ => quiet_type.andThen fun _ => reads_addOperation _ _ nofun rfl fun _ => id

theorem readsFlat_setAttr : ReadsFlat setAttr :=
  fun _ => quiet_operationName.andThen fun _ => reads_member.bind fun _ => (quiet_expect _).andThen fun _ =>
    reads_operand.bind fun _ => (quiet_expect _).andThen fun _ => quiet_types.andThen fun _ =>
      (along_checkTypes _ _).andThen fun _ => reads_addOperation _ _ nofun rfl fun _ => id

theorem readsFlat_callMethod : ReadsFlat callMethod :=
  fun _ => reads_heading fun _ _ => reads_member.bind fun _ =>
    (quiet_expect _).andThen fun _ => reads_operands.bind fun _ => (quiet_expect _).andThen fun _ =>
      (quiet_expect _).andThen fun _ => quiet_type.andThen fun _ => (quiet_expect _).andThen fun _ =>
        quiet_typesInParens.andThen fun _ => (along_checkTypes _ _).andThen fun _ =>
          (quiet_expect _).andThen fun _ => quiet_resultTypes.andThen fun _ =>
            reads_addOperation _ _ nofun rfl fun _ => id

theorem readsFlat_call : ReadsFlat call :=
  fun _ => reads_heading fun _ _ => quiet_symbol.andThen fun _ =>
    (quiet_expect _).andThen fun _ => reads_operands.bind fun _ => (quiet_expect _).andThen fun _ =>
      (quiet_expect _).andThen fun _ => quiet_typesInParens.andThen fun _ => (along_checkTypes _ _).andThen fun _ =>
        (quiet_expect _).andThen fun _ => quiet_resultTypes.andThen fun _ =>
          reads_addOperation _ _ nofun rfl fun _ => id

theorem readsFlat_alloc : ReadsFlat alloc :=
  fun _ => reads_heading fun _ _ => (quiet_expect _).andThen fun _ =>
    (quiet_expect _).andThen fun _ => (quiet_expect _).andThen fun _ => quiet_type.andThen fun _ =>
      reads_addOperation _ _ nofun rfl nofun

theorem readsFlat_load : ReadsFlat load := by
  intro parts
  refine reads_heading fun names location => reads_access.bind fun operands => ?_
  refine (Along.mapM (fun _ => .asks fun _ => along_liftExcept _) _).andThen fun _ => ?_
  split
  · exact reads_addOperation _ _ nofun rfl fun _ => id
  · exact .throw _

theorem readsFlat_store : ReadsFlat store :=
  fun _ => reads_heading fun _ _ => reads_operand.bind fun _ =>
    (quiet_expect _).andThen fun _ => reads_access.bind fun _ => reads_addOperation _ _ nofun rfl fun _ => id

theorem readsFlat_genericOperation {kind : OpKind} (other : kind ≠ .func .func) :
    ReadsFlat (genericOperation kind) := by
  intro parts
  refine reads_heading fun names location =>
    reads_operands.bind fun operands => (along_check _).andThen fun _ => ?_
  extract_lets types attributed
  have adds (attributes : Attributes) : Reads (·.Stage parts [] operands) (attributed attributes) fun op program =>
      program.Stage (parts ++ [.op op]) [] [] := by
    refine (quiet_accept _).andThen fun _ => ?_
    extract_lets typed given
    have adds (types : Option (List Ty)) : Reads (·.Stage parts [] operands) (typed () types) fun op program =>
        program.Stage (parts ++ [.op op]) [] [] := by
      have adds : Reads (·.Stage parts [] operands) (addOperation { kind, operands, attributes, location } names types)
          fun op program => program.Stage (parts ++ [.op op]) [] [] :=
        reads_addOperation _ _ other rfl fun _ => id
      exact .ite ((along_failHere _).andThen fun _ => adds) adds
    have typed : Reads (·.Stage parts [] operands) (given ()) fun op program =>
        program.Stage (parts ++ [.op op]) [] [] :=
      (quiet_accept _).andThen fun _ => .ite
        (quiet_resultTypes.andThen fun _ => .ite ((Reads.throw _).bind fun _ => adds _) (adds _)) (adds _)
    refine .ite ?_ (.ite ((along_failHere _).andThen fun _ => adds _) (adds _))
    refine (along_check _).andThen fun _ => .ite typed ?_
    exact quiet_types.andThen fun _ => (along_checkTypes _ _).andThen fun _ => typed
  exact .ite (quiet_attributes.andThen adds) ((Along.pure _).andThen adds)

theorem readsFlat_flatOperation {kind : OpKind} (other : kind ≠ .func .func) : ReadsFlat (flatOperation kind) := by
  unfold flatOperation
  split
  case h_1 => exact readsFlat_scalarConstant
  case h_2 => exact readsFlat_tensorConstant
  case h_3 => exact readsFlat_call
  case h_4 => exact readsFlat_alloc
  case h_5 => exact readsFlat_load
  case h_6 => exact readsFlat_store
  case h_7 => exact readsFlat_dictConstruct
  case h_8 => exact readsFlat_loopCondition
  case h_9 => exact readsFlat_attributeDeclaration
  case h_10 => exact readsFlat_methodDeclaration
  case h_11 => exact readsFlat_slot
  case h_12 => exact readsFlat_globalSlotGet
  case h_13 => exact readsFlat_globalSlotSet
  case h_14 => exact readsFlat_getAttr
  case h_15 => exact readsFlat_setAttr
  case h_16 => exact readsFlat_callMethod
  case h_17 =>
    split
    · exact readsFlat_torchConstant _
    · exact readsFlat_genericOperation other
  case h_18 => exact readsFlat_genericOperation other

/-! ### Heads of operations with regions -/

/-- The step adds one operation and arguments for the first block of its region. -/
def ReadsHead (step : Reading (OpId × List ValueId)) : Prop :=
  ∀ parts, Reads (·.Stage parts [] []) step fun head program =>
    program.Stage (parts ++ [.op head.1]) head.2 []

theorem readsFlat_choiceHead : ReadsFlat choiceHead := by
  intro parts
  refine reads_heading fun names location =>
    reads_operand.bind fun condition => (quiet_accept _).andThen fun _ => ?_
  have adds (types : Option (List Ty)) : Reads (·.Stage parts [] [condition])
      (addOperation { kind := .scf .ifElse, operands := [condition], location } names types)
      fun op program => program.Stage (parts ++ [.op op]) [] [] :=
    reads_addOperation _ _ nofun rfl fun _ => id
  exact .ite ((quiet_typesInParens.map _).andThen adds) ((Along.pure _).andThen adds)

theorem readsFlat_branchHead : ReadsFlat branchHead :=
  fun _ => reads_heading fun _ _ => reads_operand.bind fun _ =>
    (quiet_expect _).andThen fun _ => quiet_typesInParens.andThen fun _ =>
      reads_addOperation _ _ nofun rfl fun _ => id

theorem readsFlat_loopHead : ReadsFlat loopHead :=
  fun _ => reads_heading fun _ _ => reads_operand.bind fun _ =>
    (quiet_expect _).andThen fun _ => reads_operand.bind fun _ => (quiet_expect _).andThen fun _ =>
      (quiet_keyword _).andThen fun _ => (quiet_expect _).andThen fun _ => reads_operands.bind fun _ =>
        (quiet_expect _).andThen fun _ => reads_addOperation _ _ nofun rfl fun _ => id

theorem reads_loopTypes (op : OpId) : Reads (·.Stage parts waiting mentioned) (loopTypes op)
    fun _ program => program.Stage parts waiting mentioned :=
  (quiet_expect _).andThen fun _ => quiet_typesInParens.andThen fun _ => (along_ask _).andThen fun _ =>
    (along_checkTypes _ _).andThen fun _ => (quiet_expect _).andThen fun _ => quiet_typesInParens.andThen fun _ =>
      reads_setResultTypes _ _

theorem readsFlat_classHead : ReadsFlat classHead :=
  fun _ => quiet_operationName.andThen fun _ => quiet_symbol.andThen fun _ => reads_addOperation _ _ nofun rfl nofun

theorem readsFlat_globalSlotHead : ReadsFlat globalSlotHead :=
  fun _ => quiet_operationName.andThen fun _ => (quiet_privateMark _).andThen fun _ => quiet_symbol.andThen fun _ =>
    (quiet_expect _).andThen fun _ => quiet_type.andThen fun _ => reads_addOperation _ _ nofun rfl nofun

theorem reads_carriedValue : Reads (·.Stage parts waiting mentioned) carriedValue
    fun pair program => program.Stage parts waiting (mentioned ++ [pair.2]) :=
  quiet_advance.andThen fun _ => (quiet_expect _).andThen fun _ => reads_operand.bind fun _ => .pure fun _ => id

theorem reads_carriedValues : Reads (·.Stage parts waiting mentioned) carriedValues
    fun found program => program.Stage parts waiting (mentioned ++ found.1.map Prod.snd) := by
  have each (read : List (String × ValueId)) :
      Reads (·.Stage parts waiting (mentioned ++ read.map Prod.snd)) carriedValue
        fun pair program => program.Stage parts waiting (mentioned ++ (read ++ [pair]).map Prod.snd) :=
    reads_carriedValue.weaken fun _ _ stage => by rwa [List.map_append, ← List.append_assoc]
  have gives (pairs : List (String × ValueId)) (types : Option (List Ty)) :
      Reads (·.Stage parts waiting (mentioned ++ pairs.map Prod.snd)) (pure (pairs, types))
        fun found program => program.Stage parts waiting (mentioned ++ found.1.map Prod.snd) :=
    .pure fun _ => id
  have none := (gives [] none).strengthen fun program (stage : program.Stage parts waiting mentioned) =>
    (List.append_nil mentioned).symm ▸ stage
  have list := (Reads.commaList (along_check .percentIdentifier) each).strengthen
    fun program (stage : program.Stage parts waiting mentioned) => (List.append_nil mentioned).symm ▸ stage
  refine (along_checkKeyword _).andThen fun _ => .ite ?_ none
  refine quiet_advance.andThen fun _ => (quiet_expect _).andThen fun _ => list.bind fun pairs => ?_
  refine (quiet_expect _).andThen fun _ => (quiet_expect _).andThen fun _ => quiet_resultTypes.andThen fun _ => ?_
  exact .ite ((along_failBefore _).andThen fun _ => gives _ _) (gives _ _)

/-- A value of the tables that waits for a block. -/
theorem reads_waiting (name : String) (type : Ty) : Reads (·.Stage parts waiting mentioned)
    (build fun program => program.addValue ⟨some name, some type, .argument none⟩)
    fun value program => program.Stage parts (waiting ++ [value]) mentioned :=
  .build fun program ordered stage => ⟨ordered.addValue nofun, by simp [Program.addValue], stage.wait _ _⟩

theorem readsHead_forHead : ReadsHead forHead := by
  intro parts
  refine reads_heading fun names location =>
    (quiet_expect _).andThen fun counter => (quiet_expect _).andThen fun _ => reads_operand.bind fun lower =>
      (quiet_keyword _).andThen fun _ => reads_operand.bind fun upper => (quiet_keyword _).andThen fun _ =>
        reads_operand.bind fun step => reads_carriedValues.bind fun (pairs, types) => ?_
  dsimp -zeta only
  extract_lets operands declared typed checked
  have adds : Reads (·.Stage parts [] operands) (typed ())
      fun head program => program.Stage (parts ++ [.op head.1]) head.2 [] := by
    refine (reads_waiting _ _).bind fun counterId => ?_
    have each (item : (String × ValueId) × Ty) (carried : List ValueId) :
        Reads (·.Stage parts ([] ++ [counterId] ++ carried) operands)
          (build fun program => program.addValue ⟨some item.1.1, some item.2, .argument none⟩)
          fun value program => program.Stage parts ([] ++ [counterId] ++ (carried ++ [value])) operands :=
      (reads_waiting _ _).weaken fun _ _ stage => by rwa [List.append_assoc] at stage
    have list := (Reads.mapM (pairs.zip declared) each).strengthen
      fun program (stage : program.Stage parts ([] ++ [counterId]) operands) => by rwa [List.append_nil]
    have adds (carried : List ValueId) : Reads (·.Stage parts ([] ++ [counterId] ++ carried) operands)
        (addOperation { kind := .scf .forLoop, operands, location } names types)
        fun op program => program.Stage (parts ++ [.op op]) (counterId :: carried) [] :=
      reads_addOperation _ _ nofun rfl fun _ => id
    exact list.bind fun carried => (adds carried).bind fun op => .pure fun _ => id
  have adds : Reads (·.Stage parts [] operands) (checked ())
      fun head program => program.Stage (parts ++ [.op head.1]) head.2 [] :=
    (Along.mapM (fun _ => .asks fun _ => along_liftExcept _) _).andThen fun actual =>
      .ite adds ((Reads.throw _).bind fun _ => adds)
  split
  · exact .ite ((Reads.throw _).bind fun _ => adds) adds
  · exact adds

/-- A value that states the type of a result of a function. -/
theorem reads_signature (type : Ty) (results : List ValueId) :
    Reads (fun program => program.Stage parts waiting [] ∧ program.Owns .signature results)
      (build fun program => program.addValue ⟨none, some type, .signature⟩)
      fun result program => program.Stage parts waiting [] ∧ program.Owns .signature (results ++ [result]) := by
  refine Reads.build ?_
  rintro program ordered ⟨stage, owns⟩
  refine ⟨ordered.addValue ?_, ?_, stage.addValue _, Program.Owns.addValue ⟨none, some type, .signature⟩ owns⟩
  · simp
  · simp [Program.addValue]

theorem reads_addFunction (attributes : Attributes) (results : List ValueId) (location : Location) :
    Reads (fun program => program.Stage parts waiting [] ∧ program.Owns .signature results)
      (build fun program => program.addOperation { kind := .func .func, attributes, results, location })
      fun op program => program.Stage (parts ++ [.op op]) waiting [] := by
  refine Reads.build ?_
  rintro program ordered ⟨stage, owns⟩
  exact ⟨ordered.addOperation (List.forall_mem_nil _) owns, le_rfl, stage.addOperation _⟩

theorem readsHead_functionHead : ReadsHead functionHead := by
  intro parts
  refine quiet_operationName.andThen fun location => (along_checkKeyword _).andThen fun _ => ?_
  extract_lets named
  have adds (attributes : Attributes) : Reads (·.Stage parts [] []) (named attributes)
      fun head program => program.Stage (parts ++ [.op head.1]) head.2 [] := by
    refine quiet_symbol.andThen fun name => reads_blockArguments.bind fun arguments => (quiet_accept _).andThen fun _ => ?_
    extract_lets typed
    have adds (types : List Ty) : Reads (·.Stage parts arguments []) (typed types)
        fun head program => program.Stage (parts ++ [.op head.1]) head.2 [] := by
      have list := (Reads.mapM types fun type results => reads_signature type results).strengthen
        fun program (stage : program.Stage parts arguments []) => ⟨stage, .nil⟩
      exact list.bind fun results => (reads_addFunction _ results location).bind fun op => .pure fun _ => id
    exact .ite (quiet_resultTypes.andThen adds) ((Along.pure _).andThen adds)
  exact .ite (quiet_advance.andThen fun _ => (Along.pure _).andThen adds) ((Along.pure _).andThen adds)

/-! ### Nested operations -/

section Nested

theorem reads_failAt {α : Type} {before : Program → Prop} {after : α → Program → Prop} (token : Token)
    (cause : ParseCause) : Reads before (failAt token cause) after :=
  Along.get.andThen fun _ => .throw _

theorem reads_failHere {α : Type} {before : Program → Prop} {after : α → Program → Prop}
    (cause : ParseCause) : Reads before (failHere cause) after :=
  along_peek.andThen fun _ => reads_failAt _ _

/-- Values become visible one after the other. -/
theorem reads_defineEach {before : Program → Prop} (values : List ValueId) : Reads before
    (forIn values PUnit.unit fun value _ => do define value; return ForInStep.yield PUnit.unit)
    fun _ => before := by
  have each (value : ValueId) (now : PUnit) : Reads before
      (do define value; return ForInStep.yield PUnit.unit)
      fun next program => ∃ state : PUnit, next = .yield state ∧ before program :=
    (reads_define value).bind fun _ => .pure fun _ holds => ⟨PUnit.unit, rfl, holds⟩
  exact Reads.forIn values each PUnit.unit

/-- An operation with one region. -/
theorem Reads.oneRegion {op : OpId} {arguments : List ValueId} {region : Reading Blocks}
    (reads : Reads (·.Stage (parts ++ [.op op]) arguments []) region
      fun blocks program => program.Stage (parts ++ [.op op] ++ blocks.parts) [] []) :
    Reads (·.Stage (parts ++ [.op op]) arguments []) (do return (op, .cons (← region) .nil))
      fun read program => program.Stage (parts ++ .op read.1 :: Regions.parts read.2) [] [] :=
  reads.bind fun blocks => .pure fun program stage => by simpa [Regions.parts] using stage

/-- What has been read of an operation with two regions. -/
theorem reads_twoRegions (op : OpId) (first second : Blocks) :
    Reads (·.Stage (parts ++ [.op op] ++ first.parts ++ second.parts) [] [])
      (pure (op, .cons first (.cons second .nil)))
      fun read program => program.Stage (parts ++ .op read.1 :: Regions.parts read.2) [] [] :=
  .pure fun program stage => by simpa [Regions.parts] using stage

mutual

/-- An operation adds itself and what is inside its regions. -/
theorem reads_operation (parts : List Part) : (fuel : Nat) → Reads (·.Stage parts [] []) (operation fuel)
    fun read program => program.Stage (parts ++ .op read.1 :: read.2.parts) [] []
  | 0 => .throw _
  | fuel + 1 => by
    unfold operation
    refine Along.get.andThen fun _ => ?_
    split
    case h_2 => exact reads_failHere _
    -- One case for each form of text. The regions inside are read with less fuel.
    split
    case h_1 => exact reads_failAt _ _
    case h_2 =>
      have adds (location : Location) : Reads (·.Stage parts [] [])
          (addOperation { kind := .module, location } [] none)
          fun op program => program.Stage (parts ++ [.op op]) [] [] :=
        reads_addOperation _ _ nofun rfl nofun
      exact quiet_operationName.andThen fun location => (adds location).bind fun op =>
        .oneRegion (reads_region _ _ fuel)
    case h_3 => exact (readsHead_functionHead parts).bind fun head => .oneRegion (reads_region _ _ fuel)
    case h_4 => exact (readsHead_forHead parts).bind fun head => .oneRegion (reads_region _ _ fuel)
    case h_5 =>
      refine (readsFlat_choiceHead parts).bind fun op => (reads_region _ _ fuel).bind fun first =>
        (along_checkKeyword _).andThen fun _ => ?_
      refine .ite (quiet_advance.andThen fun _ => (reads_region _ _ fuel).bind fun second => ?_) ?_
      · exact reads_twoRegions op first second
      · refine (reads_addBlock none).bind fun block => ?_
        exact reads_twoRegions op first (.cons block .nil .nil)
    case h_6 =>
      exact (readsFlat_branchHead parts).bind fun op => (reads_region _ _ fuel).bind fun first =>
        (quiet_keyword _).andThen fun _ => (reads_region _ _ fuel).bind fun second =>
          reads_twoRegions op first second
    case h_7 =>
      refine (readsFlat_loopHead parts).bind fun op => (reads_region _ _ fuel).bind fun body =>
        (reads_loopTypes op).bind fun _ => .pure fun program stage => ?_
      simpa [Regions.parts] using stage
    case h_8 => exact (readsFlat_classHead parts).bind fun op => .oneRegion (reads_region _ _ fuel)
    case h_9 => exact (readsFlat_globalSlotHead parts).bind fun op => .oneRegion (reads_region _ _ fuel)
    case h_10 =>
      have adds (names : List String) (location : Location) : Reads (·.Stage parts [] [])
          (addOperation { kind := .torch .nnModule, location } names none)
          fun op program => program.Stage (parts ++ [.op op]) [] [] :=
        reads_addOperation _ _ nofun rfl nofun
      refine reads_heading fun names location =>
        (adds names location).bind fun op => (reads_region _ _ fuel).bind fun body =>
          (quiet_expect _).andThen fun _ => quiet_type.andThen fun _ => (reads_setResultTypes op _).bind fun _ =>
            .pure fun program stage => ?_
      simpa [Regions.parts] using stage
    case h_11 kind _ isFunction _ _ _ _ _ _ _ _ =>
      have other : kind ≠ .func .func := isFunction
      exact (readsFlat_flatOperation other parts).bind fun op => .pure fun _ => id

/-- A region adds its blocks, the first of which takes the arguments that have been waiting. -/
theorem reads_region (parts : List Part) (arguments : List ValueId) :
    (fuel : Nat) → Reads (·.Stage parts arguments []) (region fuel arguments)
      fun read program => program.Stage (parts ++ read.parts) [] []
  | 0 => .throw _
  | fuel + 1 => by
    unfold region
    refine (quiet_expect _).andThen fun _ => reads_openScope.bind fun _ => (along_check _).andThen fun _ => ?_
    extract_lets closes
    have closes (read : Blocks) : Reads (·.Stage (parts ++ read.parts) [] []) (closes read)
        fun read program => program.Stage (parts ++ read.parts) [] [] :=
      (quiet_expect _).andThen fun _ => reads_closeScope.bind fun _ => .pure fun _ => id
    refine .ite ((reads_addBlock none).bind fun block => ?_) ((reads_blocks parts arguments fuel).bind closes)
    exact closes (.cons block .nil .nil)

/-- Blocks with arguments of their own leave those that have been waiting to nobody. -/
theorem reads_blocks (parts : List Part) (arguments : List ValueId) :
    (fuel : Nat) → Reads (·.Stage parts arguments []) (blocks fuel arguments)
      fun read program => program.Stage (parts ++ read.parts) [] []
  | 0 => .throw _
  | fuel + 1 => by
    unfold blocks
    refine (along_check _).andThen fun _ => .ite (.pure fun _ stage => ?_) ?_
    · simpa [Blocks.parts] using stage.drop
    refine along_atEnd.andThen fun _ => ?_
    extract_lets begins labelled
    have begins (label : Option String) (arguments : List ValueId) :
        Reads (·.Stage parts arguments []) (begins (label, arguments))
          fun read program => program.Stage (parts ++ read.parts) [] [] := by
      refine (reads_addBlock label).bind fun block => (reads_defineEach _).bind fun _ =>
        (reads_body _ fuel).bind fun body => (reads_blocks _ [] fuel).bind fun rest => .pure fun program stage => ?_
      simpa [Blocks.parts] using stage
    have labelled : Reads (·.Stage parts arguments []) (labelled ())
        fun read program => program.Stage (parts ++ read.parts) [] [] := by
      refine (along_check _).andThen fun _ => .ite ?_ (.given (begins none arguments))
      refine quiet_advance.andThen fun label => (along_check _).andThen fun _ => ?_
      extract_lets closes
      have closes (arguments : List ValueId) : Reads (·.Stage parts arguments []) (closes arguments)
          fun read program => program.Stage (parts ++ read.parts) [] [] :=
        (quiet_expect _).andThen fun _ => .given (begins (some label.lexeme) arguments)
      refine .ite ?_ (.given (closes arguments))
      exact (reads_blockArguments.strengthen fun _ stage => stage.drop).bind closes
    exact .ite ((along_failHere _).andThen fun _ => labelled) labelled

/-- The operations of a block stand one after the other. -/
theorem reads_body (parts : List Part) : (fuel : Nat) → Reads (·.Stage parts [] []) (body fuel)
    fun read program => program.Stage (parts ++ read.parts) [] []
  | 0 => .throw _
  | fuel + 1 => by
    unfold body
    refine (along_check _).andThen fun _ => (along_check _).andThen fun _ => .ite (.pure fun _ stage => ?_) ?_
    · simpa [Body.parts] using stage
    refine along_atEnd.andThen fun _ => ?_
    extract_lets goesOn
    have goesOn : Reads (·.Stage parts [] []) (goesOn ())
        fun read program => program.Stage (parts ++ read.parts) [] [] := by
      refine (reads_operation parts fuel).bind fun ⟨op, regions⟩ => (along_ask _).andThen fun results =>
        (reads_defineEach results).bind fun _ => (reads_body _ fuel).bind fun rest => .pure fun program stage => ?_
      rwa [List.append_assoc] at stage
    exact .ite ((along_failHere _).andThen fun _ => goesOn) goesOn

end

theorem reads_topLevel (parts : List Part) (fuel : Nat) : Reads (·.Stage parts [] []) (topLevel fuel)
    fun read program => program.Stage (parts ++ read.parts) [] [] := by
  induction fuel generalizing parts with
  | zero => exact .throw _
  | succ fuel ih =>
    refine along_atEnd.andThen fun _ => .ite (.pure fun _ stage => ?_) ?_
    · simpa [Body.parts] using stage
    refine (reads_operation parts fuel).bind fun ⟨op, regions⟩ => (along_ask _).andThen fun results =>
      (reads_defineEach results).bind fun _ => (ih _).bind fun rest => .pure fun program stage => ?_
    rwa [List.append_assoc] at stage

end Nested

/-! ### Whole programs -/

/-- Everything that has been read makes up the tree. -/
theorem Program.Ordered.formed {program : Program} (ordered : program.Ordered)
    (stage : program.Stage parts waiting mentioned) {root : OpId} {regions : Regions}
    (all : (.op root :: regions.parts).Perm parts) (isModule : program.kind root = .module) :
    Program.Formed { program with root, regions } where
  nodup := by
    rw [Program.tree, Body.parts, Body.parts, List.append_nil]
    exact all.nodup_iff.mpr stage.nodup
  knows part member := by
    rw [Program.tree, Body.parts, Body.parts, List.append_nil] at member
    have known := ordered.knows (stage.has part (all.mem_iff.mp member))
    cases part with
    | op op => exact known.imp_right fun owns other => (owns other).of_values rfl
    | block block => exact known.imp_right fun owns => owns.of_values rfl
  operands := ordered.operands
  origins := ordered.origins
  outputs := ordered.tabled.outputs
  isModule := isModule

/-- Operations that stand alone are put into a module. -/
theorem reads_wrap (body : Body) : Reads (·.Stage body.parts [] []) (do
    let root ← addOperation { kind := .module } [] none
    let block ← addBlock none []
    return { (← get).program with root, regions := .single block body }) fun program _ => program.Formed := by
  have around (root : OpId) : Reads
      (fun program => program.Stage (body.parts ++ [.op root]) [] [] ∧ program.kind root = .module)
      (addBlock none []) fun block program =>
        program.Stage (body.parts ++ [.op root] ++ [.block block]) [] [] ∧ program.kind root = .module := by
    intro reader block left sound ⟨stage, kind⟩ run
    obtain ⟨soundLeft, stageLeft⟩ := reads_addBlock none reader block left sound stage run
    rw [run_addBlock] at run
    cases run
    exact ⟨soundLeft, stageLeft, by rwa [Program.kind, Program.operation_withArguments]⟩
  have adds : Reads (·.Stage body.parts [] []) (addOperation { kind := .module } [] none) fun root program =>
      program.Stage (body.parts ++ [.op root]) [] [] ∧ program.kind root = .module :=
    reads_addOperation_kind _ _ (by simp) rfl (List.forall_mem_nil _)
  refine adds.bind fun root => (around root).bind fun block => Reads.get.bind fun reader => .pure ?_
  rintro program ⟨ordered, ⟨stage, isModule⟩, -⟩
  refine ordered.formed stage ?_ isModule
  rw [List.append_assoc, Regions.single, Regions.parts, Blocks.parts, Blocks.parts, Regions.parts,
    List.append_nil, List.append_nil]
  exact (List.perm_append_comm : (body.parts ++ [Part.op root, Part.block block]).Perm _).symm

theorem reads_program : Reads (·.Stage [] [] []) Reading.program fun program _ => program.Formed := by
  refine Along.get.andThen fun _ => ?_
  extract_lets fuel wrap
  refine along_atEnd.andThen fun _ => .ite (reads_wrap .nil) ?_
  refine (reads_operation [] fuel).bind fun ⟨op, regions⟩ => (Reads.ask _).bind fun kind => ?_
  extract_lets alone
  split
  case isTrue isModule =>
    have alone : Reads (fun program => program.kind op = kind ∧ program.Stage ([] ++ .op op :: regions.parts) [] [])
        (alone ()) fun program _ => program.Formed := by
      refine Reads.get.bind fun reader => .pure ?_
      rintro program ⟨ordered, ⟨same, stage⟩, -⟩
      exact ordered.formed stage (.refl _) (same.trans isModule)
    exact along_atEnd.andThen fun _ => .ite alone ((along_failHere _).andThen fun _ => alone)
  case isFalse =>
    refine Reads.strengthen ?_ fun program (holds : program.kind op = kind ∧
      program.Stage ([] ++ .op op :: regions.parts) [] []) => holds.2
    refine (along_ask _).andThen fun results => (reads_defineEach results).bind fun _ =>
      (reads_topLevel _ fuel).bind fun rest => ?_
    exact (reads_wrap (.cons op regions rest)).strengthen fun _ stage => by rwa [List.append_assoc] at stage

/-- Nothing is out of order in an empty program. -/
theorem Program.ordered_empty : Program.Ordered {} where
  operands _ _ isOperand := absurd isOperand List.not_mem_nil
  origins _ below := absurd below (Nat.not_lt_zero _)
  results _ below := absurd below (Nat.not_lt_zero _)
  arguments _ below := absurd below (Nat.not_lt_zero _)

/-- The tree and the tables of a program that has been read fit together, and it is a module. -/
theorem Program.formed_of_read {source : String} {program : Program} (run : Program.read source = .ok program) :
    program.Formed := by
  unfold Program.read at run
  split at run
  case h_1 => cases run
  case h_2 tokens _ =>
    cases ran : Reading.program.run ⟨source, tokens.head?.getD default, tokens, [[]], {}⟩ with
    | error => 
      rw [ran] at run
      cases run
    | ok found =>
      rw [ran] at run
      cases run
      refine (reads_program _ _ found.2 ⟨Program.ordered_empty, ?_⟩ ?_ ran).2
      · rintro scope (_ | ⟨_, ⟨⟩⟩) entry ⟨⟩
      · exact ⟨List.nodup_nil, nofun, .nil, nofun⟩

end TensorIR
