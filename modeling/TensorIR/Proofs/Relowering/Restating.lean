import TensorIR.Proofs.Canonicalization
import TensorIR.Proofs.Refinement.Narrowing

/-!
# Stating again what functions return

In a lowered program functions and calls have types of lowered programs already. When they are given the
counterparts of their types once more, nothing changes but the values that state what functions return:
new ones of the same types come in their place. Nothing uses such values, so the program stays valid, reads
the same, and a rewrite that finds nothing to do still finds nothing.

## Main definitions

* `Program.IsLowered` — a valid program without torch operations and torch types of functions and calls
* `Program.Restates` — a program in which other values state what functions return

## Main results

* `Program.Restates.verify_eq_ok` — a lowered program stays valid
* `Program.Restates.text_eq` — its text stays the same
* `Program.Restates.fold?_eq`, `Program.Restates.usesOf_eq` — what rewrites ask about it
-/

namespace TensorIR

/-- The value has a type, and that is no torch type. -/
def Program.Plain (program : Program) (value : ValueId) : Prop :=
  ∃ type, program.typeOf? value = some type ∧ type.torch? = none

/-- The value states what a function of the program returns. -/
def Program.IsOutput (program : Program) (value : ValueId) : Prop :=
  ∃ function ∈ program.tree.ops, program.kind function = .func .func ∧ value ∈ program.results function

/-- A valid program in which no operation is of torch, and neither are the types of functions and calls. What
functions return is only stated: nothing uses these values. -/
structure Program.IsLowered (program : Program) : Prop where
  formed : program.WellFormed
  valid : program.verify = .ok ()
  noTorch : ∀ op ∈ program.tree.ops, (program.kind op).isTorch = false
  inputs : ∀ op ∈ program.tree.ops, program.kind op = .func .func → ∃ block body,
    program.entryOf? op = some (block, body) ∧
      ∀ argument ∈ (program.header block).arguments, program.Plain argument
  outputs : ∀ value, program.IsOutput value → program.Plain value
  calls : ∀ op ∈ program.tree.ops, program.kind op = .func .call → ∀ result ∈ program.results op,
    program.Plain result
  unused : ∀ op ∈ program.tree.ops, ∀ operand ∈ program.operands op, ¬program.IsOutput operand

/-- A program in which other values of the same types state what functions return. -/
structure Program.Restates (start now : Program) : Prop where
  same : now = { start with values := now.values, operations := now.operations }
  operations : now.operations.size = start.operations.size
  operation_eq : ∀ op, now.operation op = { start.operation op with results := now.results op }
  results_eq : ∀ op, start.kind op ≠ .func .func → now.results op = start.results op
  outputs : ∀ op ∈ start.tree.ops, start.kind op = .func .func →
    (now.results op).map now.typed = (start.results op).map start.typed
  values_le : start.values.size ≤ now.values.size
  value_eq : ∀ value : ValueId, value.index < start.values.size → now.value value = start.value value

theorem Program.Plain.lt {program : Program} {value : ValueId} (plain : program.Plain value) :
    value.index < program.values.size :=
  have ⟨_, typed, _⟩ := plain
  Program.lt_of_typeOf? typed

/-- What an operation of a program in which all operands are visible uses has been introduced. -/
theorem Program.exists_given {program : Program} (visible : program.tree.Visible program fun _ => False)
    {op : OpId} (member : op ∈ program.tree.ops) {operand : ValueId} (isOperand : operand ∈ program.operands op) :
    ∃ part ∈ program.tree.parts, operand ∈ program.given part := by
  by_contra elsewhere
  have unused : program.allUses operand = [] :=
    program.tree.uses_eq_nil id (fun part among isGiven => elsewhere ⟨part, among, isGiven⟩) visible
  obtain ⟨index, found⟩ := List.getElem?_of_mem isOperand
  have isUse : (⟨op, index⟩ : Use) ∈ program.allUses operand := Program.mem_allUses.mpr ⟨member, found⟩
  rw [unused] at isUse
  cases isUse

/-! ### Lowered programs -/

namespace Program.IsLowered

variable {program : Program} {op : OpId} {value : ValueId} (lowered : program.IsLowered)
include lowered

theorem tight (member : op ∈ program.tree.ops) : ¬program.Loose op := by
  intro isLoose
  have noTorch := lowered.noTorch op member
  unfold Program.Loose at isLoose
  cases kind : program.kind op with
  | torch => simp [kind, OpKind.isTorch] at noTorch
  | _ =>
    rw [kind] at isLoose
    cases isLoose

theorem visible : program.tree.Visible program fun _ => False :=
  have ⟨_, _, visible, _⟩ := Program.verify_iff.mp lowered.valid
  visible

/-- What the parts of the program introduce has an entry in the table. -/
theorem lt_of_given {part : Part} (member : part ∈ program.tree.parts) (among : value ∈ program.given part) :
    value.index < program.values.size := by
  have knows := lowered.formed.knows part member
  cases part with
  | block block => exact knows.2.lt value among
  | op op =>
    by_cases isFunction : program.kind op = .func .func
    · exact (lowered.outputs value ⟨op, Body.op_mem_parts.mp member, isFunction, among⟩).lt
    · exact (knows.2 isFunction).lt value among

theorem lt_of_operand (member : op ∈ program.tree.ops) (isOperand : value ∈ program.operands op) :
    value.index < program.values.size :=
  have ⟨_, inTree, among⟩ := Program.exists_given lowered.visible member isOperand
  lowered.lt_of_given inTree among

/-- An operand is computed by an operation of the program, or it is an argument. -/
theorem definingOp?_operand (member : op ∈ program.tree.ops) (isOperand : value ∈ program.operands op) :
    ∀ other ∈ program.definingOp? value, other ∈ program.tree.ops := by
  intro other isOther
  obtain ⟨part, inTree, among⟩ := Program.exists_given lowered.visible member isOperand
  have knows := lowered.formed.knows part inTree
  unfold Program.definingOp? at isOther
  cases part with
  | block block =>
    rw [knows.2.origin_eq value among] at isOther
    cases isOther
  | op definer =>
    have inOps := Body.op_mem_parts.mp inTree
    have notFunction : program.kind definer ≠ .func .func := fun isFunction =>
      lowered.unused op member value isOperand ⟨definer, inOps, isFunction, among⟩
    rw [(knows.2 notFunction).origin_eq value among] at isOther
    cases isOther
    exact inOps

/-- The arguments of the entry block have entries as well. -/
theorem lt_of_entryArguments {regions : Regions} (inside : ∀ part ∈ regions.parts, part ∈ program.tree.parts) :
    ∀ value ∈ program.entryArguments regions, value.index < program.values.size := by
  intro value among
  unfold Program.entryArguments at among
  split at among
  case h_1 block body entry =>
    obtain ⟨others, rest, rfl⟩ := Regions.of_entryBlock? entry
    exact lowered.lt_of_given (inside (.block block) List.mem_cons_self) among
  case h_2 => cases among

end Program.IsLowered

namespace Program.Restates

variable {start now : Program} {op : OpId}

theorem refl (program : Program) : program.Restates program where
  same := rfl
  operations := rfl
  operation_eq _ := rfl
  results_eq _ _ := rfl
  outputs _ _ _ := rfl
  values_le := le_rfl
  value_eq _ _ := rfl

section Restates

variable (restates : start.Restates now)
include restates

theorem root_eq : now.root = start.root := by rw [restates.same]

theorem regions_eq : now.regions = start.regions := by rw [restates.same]

theorem headers_eq : now.headers = start.headers := by rw [restates.same]

theorem tree_eq : now.tree = start.tree := by rw [restates.same, Program.tree, Program.tree]

theorem visit?_eq (op : OpId) : now.visit? op = start.visit? op := by rw [restates.same]; rfl

theorem regionsOf_eq (op : OpId) : now.regionsOf op = start.regionsOf op := by rw [restates.same]; rfl

theorem entryOf?_eq (op : OpId) : now.entryOf? op = start.entryOf? op := by
  rw [Program.entryOf?, restates.regionsOf_eq, Program.entryOf?]

theorem header_eq (block : BlockId) : now.header block = start.header block := by
  rw [Program.header, restates.headers_eq, Program.header]

theorem kind_eq (op : OpId) : now.kind op = start.kind op := by
  rw [Program.kind, restates.operation_eq, Program.kind]

theorem opName_eq (op : OpId) : now.opName op = start.opName op := by
  rw [Program.opName, restates.kind_eq, Program.opName]

theorem attributes_eq (op : OpId) : now.attributes op = start.attributes op := by
  rw [Program.attributes, restates.operation_eq, Program.attributes]

theorem operands_eq (op : OpId) : now.operands op = start.operands op := by
  rw [Program.operands, restates.operation_eq, Program.operands]

theorem typed_eq {value : ValueId} (below : value.index < start.values.size) :
    now.typed value = start.typed value :=
  Program.typed_congr (restates.value_eq value below)

theorem plain {value : ValueId} (plain : start.Plain value) : now.Plain value := by
  obtain ⟨type, typed, noTorch⟩ := id plain
  refine ⟨type, ?_, noTorch⟩
  rw [Program.typeOf?, restates.value_eq value plain.lt, ← Program.typeOf?, typed]

end Restates

section Lowered

variable (restates : start.Restates now) (lowered : start.IsLowered)
include restates lowered

theorem wellFormed : now.WellFormed where
  nodup := by
    rw [restates.tree_eq]
    exact lowered.formed.nodup
  knows part member := by
    rw [restates.tree_eq] at member
    have knows := lowered.formed.knows part member
    have origins (value : ValueId) (below : value.index < start.values.size) :
        (now.value value).origin = (start.value value).origin := by
      rw [restates.value_eq value below]
    cases part with
    | op op =>
      refine ⟨restates.operations ▸ knows.1, fun notFunction => ?_⟩
      rw [restates.kind_eq] at notFunction
      rw [restates.results_eq op notFunction]
      exact (knows.2 notFunction).grow restates.values_le origins
    | block block =>
      refine ⟨restates.headers_eq ▸ knows.1, ?_⟩
      rw [restates.header_eq]
      exact knows.2.grow restates.values_le origins

omit lowered in
theorem map_typed {values : List ValueId} (below : ∀ value ∈ values, value.index < start.values.size) :
    values.map now.typed = values.map start.typed :=
  List.map_congr_left fun value among => restates.typed_eq (below value among)

theorem narrowsTo : start.NarrowsTo now where
  formed := lowered.formed
  formed_now := restates.wellFormed lowered
  operations_le := restates.operations.ge
  operation_eq op _ := by
    rw [restates.operation_eq op, restates.operands_eq]
    rfl
  header_eq block _ := restates.header_eq block
  tree := restates.tree_eq ▸ .refl _
  operands op member _ := by
    rw [restates.operands_eq]
    exact restates.map_typed fun value => lowered.lt_of_operand member
  results op member _ := by
    by_cases isFunction : start.kind op = .func .func
    · exact restates.outputs op member isFunction
    · rw [restates.results_eq op isFunction]
      exact restates.map_typed fun value => lowered.lt_of_given (Body.op_mem_parts.mpr member)
  arguments block member := restates.map_typed fun value => lowered.lt_of_given member

/-- No operand is a value that only states what a function returns, so all operands stay visible. -/
theorem visible : now.tree.Visible now fun _ => False := by
  have reveals : start.Reveals now start.IsOutput (fun _ => False) start.tree.parts := by
    refine ⟨fun part member value among => ?given, fun op member operand isOperand => ?uses⟩
    case given =>
      cases part with
      | block block => exact .inr (by rwa [Program.given, restates.header_eq])
      | op op =>
        by_cases isFunction : start.kind op = .func .func
        · exact .inl ⟨op, Body.op_mem_parts.mp member, isFunction, among⟩
        · exact .inr (by rwa [Program.given, restates.results_eq op isFunction])
    case uses =>
      rw [restates.operands_eq] at isOperand
      exact .inl ⟨isOperand, lowered.unused op (Body.op_mem_parts.mp member) operand isOperand⟩
  rw [restates.tree_eq]
  exact Body.visible_mono (fun _ => .inr) _ reveals lowered.visible

/-- The program is still valid. -/
theorem verify_eq_ok : now.verify = .ok () := by
  have narrows := restates.narrowsTo lowered
  obtain ⟨symbols, table, -, keeps⟩ := Program.verify_iff.mp lowered.valid
  refine Program.verify_iff.mpr ⟨symbols, narrows.symbolTable_eq.trans table, restates.visible lowered, ?_⟩
  intro visit visited
  refine narrows.keeps (fun visit visited _ => keeps visit visited) visit visited fun isLoose => ?_
  have member : visit.op ∈ start.tree.ops := by
    rw [← restates.tree_eq]
    exact Program.mem_ops_of_visits visited
  refine lowered.tight member ?_
  rwa [Program.Loose, ← restates.kind_eq]

/-! ### What rewrites ask -/

omit lowered in
theorem definingOp?_eq {value : ValueId} (below : value.index < start.values.size) :
    now.definingOp? value = start.definingOp? value := by
  rw [Program.definingOp?, restates.value_eq value below, Program.definingOp?]

theorem alike (member : op ∈ start.tree.ops) : start.Alike now op :=
  (restates.narrowsTo lowered).alike member (lowered.tight member)

theorem foldWithin_eq (fuel : Nat) (member : op ∈ start.tree.ops) :
    now.foldWithin fuel op = start.foldWithin fuel op := by
  induction fuel generalizing op with
  | zero => rfl
  | succ fuel ih =>
    have known (index : Nat) :
        ((now.operands op)[index]?).bind (fun value => (now.definingOp? value).bind (now.foldWithin fuel)) =
          ((start.operands op)[index]?).bind fun value =>
            (start.definingOp? value).bind (start.foldWithin fuel) := by
      rw [restates.operands_eq]
      refine Option.bind_congr fun value found => ?_
      have isOperand := List.mem_of_getElem? found
      rw [restates.definingOp?_eq (lowered.lt_of_operand member isOperand)]
      exact Option.bind_congr fun other isOther => ih (lowered.definingOp?_operand member isOperand other isOther)
    have noTorch := lowered.noTorch op member
    unfold Program.foldWithin
    simp only [known, restates.kind_eq, (restates.alike lowered member).constantValue?_eq]
    generalize start.kind op = kind at noTorch ⊢
    cases kind with
    | torch => cases noTorch
    | arith kind => cases kind <;> rfl
    | _ => rfl

theorem fold?_eq (member : op ∈ start.tree.ops) : now.fold? op = start.fold? op := by
  rw [Program.fold?, restates.operations, restates.foldWithin_eq lowered _ member, Program.fold?]

omit lowered in
theorem usesOf_eq {value : ValueId} (below : value.index < start.values.size) :
    now.usesOf value = start.usesOf value := by
  have scope : now.scopeOf value = start.scopeOf value := by
    unfold Program.scopeOf
    rw [restates.value_eq value below]
    split
    · rw [restates.visit?_eq]
    · rw [Program.bodyOf?, restates.same, Program.bodyOf?]
    · rfl
    · rfl
  unfold Program.usesOf Program.usesIn
  rw [scope]
  simp only [restates.operands_eq]

theorem knownResult?_eq (member : op ∈ start.tree.ops) :
    Rewrite.knownResult? now op = Rewrite.knownResult? start op := by
  rw [Rewrite.knownResult?, (restates.alike lowered member).length_results, restates.kind_eq,
    restates.fold?_eq lowered member, Rewrite.knownResult?]

theorem isDead_eq (member : op ∈ start.tree.ops) : Rewrite.isDead now op = Rewrite.isDead start op := by
  rw [Rewrite.isDead, restates.kind_eq, Rewrite.isDead]
  by_cases isFunction : start.kind op = .func .func
  · rw [isFunction]
    rfl
  · have uses : (start.results op).flatMap now.usesOf = (start.results op).flatMap start.usesOf :=
      List.flatMap_congr fun result among =>
        restates.usesOf_eq (lowered.lt_of_given (Body.op_mem_parts.mpr member) among)
    rw [Program.usersOf?, restates.results_eq op isFunction, uses, Program.usersOf?]

/-- A rewrite that finds nothing to do still finds nothing. -/
theorem settled {rewrite : Rewrite} (among : rewrite ∈ Rewrite.canonical) (member : op ∈ start.tree.ops)
    (unchanged : (rewrite op).run start = (.ok false, start)) : (rewrite op).run now = (.ok false, now) := by
  simp only [Rewrite.canonical, List.mem_cons, List.not_mem_nil, or_false] at among
  rcases among with rfl | rfl | rfl
  · have noTorch := lowered.noTorch op member
    unfold Rewrite.simplify
    rw [run_bind, Change.run_ask, restates.kind_eq]
    generalize start.kind op = kind at noTorch ⊢
    cases kind with
    | torch => cases noTorch
    | _ => rfl
  · refine Rewrite.foldConstant_eq_ok_false_iff.mpr fun literal known => ?_
    rw [restates.knownResult?_eq lowered member] at known
    obtain ⟨result, type, isResult, typed, nothing⟩ :=
      Rewrite.foldConstant_eq_ok_false_iff.mp unchanged literal known
    have notFunction : start.kind op ≠ .func .func := by
      intro isFunction
      rw [Rewrite.knownResult?, isFunction] at known
      cases known
    have result_eq : now.result op 0 = start.result op 0 := by
      rw [Program.result, restates.results_eq op notFunction, restates.opName_eq, Program.result]
    refine ⟨result, type, result_eq.trans isResult, ?_, nothing⟩
    have isGiven : result ∈ start.given (.op op) := List.mem_of_getElem? (Program.result_eq_ok_iff.mp isResult)
    rw [restates.typed_eq (lowered.lt_of_given (Body.op_mem_parts.mpr member) isGiven), typed]
  · rw [Rewrite.dropDead_eq_ok_false_iff] at unchanged ⊢
    rw [restates.isDead_eq lowered member, unchanged]

end Lowered

/-! ### Text -/

section Values

variable (restates : start.Restates now)
include restates

theorem typeOf_eq {value : ValueId} (below : value.index < start.values.size) :
    now.typeOf value = start.typeOf value := by
  rw [Program.typeOf, Program.typeOf?, restates.value_eq value below, ← Program.typeOf?, ← Program.typeOf]

theorem nameOf_eq {value : ValueId} (below : value.index < start.values.size) :
    now.nameOf value = start.nameOf value := by
  rw [Program.nameOf, restates.value_eq value below, Program.nameOf]

theorem valueText_eq {value : ValueId} (below : value.index < start.values.size) :
    now.valueText value = start.valueText value := by
  rw [Program.valueText, restates.value_eq value below, restates.typeOf_eq below, Program.valueText]

theorem headerArgumentText_eq {value : ValueId} (below : value.index < start.values.size) :
    now.headerArgumentText value = start.headerArgumentText value := by
  rw [Program.headerArgumentText, restates.value_eq value below, restates.typeOf_eq below,
    restates.nameOf_eq below, restates.valueText_eq below, Program.headerArgumentText]

theorem operandsText_eq {values : List ValueId} (below : ∀ value ∈ values, value.index < start.values.size) :
    now.operandsText values = start.operandsText values := by
  have each : values.map now.operandText = values.map start.operandText := by
    refine List.map_congr_left fun value among => ?_
    rw [Program.operandText, restates.value_eq value (below value among), Program.operandText]
  rw [Program.operandsText, each, Program.operandsText]

theorem map_nameOf_eq {values : List ValueId} (below : ∀ value ∈ values, value.index < start.values.size) :
    values.map now.nameOf = values.map start.nameOf :=
  List.map_congr_left fun value among => restates.nameOf_eq (below value among)

theorem accessText_eq {values : List ValueId} (below : ∀ value ∈ values, value.index < start.values.size) :
    now.accessText values = start.accessText values := by
  cases values with
  | nil => rfl
  | cons buffer indices =>
    obtain ⟨first, later⟩ := List.forall_mem_cons.mp below
    rw [Program.accessText, restates.nameOf_eq first, restates.map_nameOf_eq later, restates.typeOf_eq first,
      Program.accessText]

theorem entryArguments_eq (regions : Regions) : now.entryArguments regions = start.entryArguments regions := by
  unfold Program.entryArguments
  split
  · exact congrArg BlockHeader.arguments (restates.header_eq _)
  · rfl

end Values

section Texts

variable (restates : start.Restates now) (lowered : start.IsLowered)
include restates lowered

theorem resultsText_eq (member : op ∈ start.tree.ops) (notFunction : start.kind op ≠ .func .func) :
    now.resultsText op = start.resultsText op := by
  have each : (start.results op).map now.valueText = (start.results op).map start.valueText :=
    List.map_congr_left fun value among =>
      restates.valueText_eq (lowered.lt_of_given (Body.op_mem_parts.mpr member) among)
  rw [Program.resultsText, restates.results_eq op notFunction, each, Program.resultsText]

theorem genericText_eq (member : op ∈ start.tree.ops) (notFunction : start.kind op ≠ .func .func)
    (texts : List String) : now.genericText op texts = start.genericText op texts := by
  have alike := restates.alike lowered member
  rw [Program.genericText, restates.resultsText_eq lowered member notFunction, restates.opName_eq,
    restates.operands_eq, restates.operandsText_eq fun value => lowered.lt_of_operand member,
    restates.attributes_eq, Program.signatureText, alike.operandTypes_eq, alike.resultTypes_eq]
  rfl

theorem forText_eq (member : op ∈ start.tree.ops) (notFunction : start.kind op ≠ .func .func)
    {regions : Regions} (below : ∀ value ∈ start.entryArguments regions, value.index < start.values.size) :
    now.forText op regions = start.forText op regions := by
  have operand (value : ValueId) (among : value ∈ start.operands op) := lowered.lt_of_operand member among
  have names (index : Nat) : ((start.operands op)[index]?).map now.nameOf =
      ((start.operands op)[index]?).map start.nameOf :=
    Option.map_congr fun value found => restates.nameOf_eq (operand value (List.mem_of_getElem? found))
  have first : ((start.entryArguments regions).head?).map now.nameOf =
      ((start.entryArguments regions).head?).map start.nameOf :=
    Option.map_congr fun value found => restates.nameOf_eq (below value (List.mem_of_head? found))
  have pairs : (((start.entryArguments regions).drop 1).zip ((start.operands op).drop 3)).map
        (fun pair => now.nameOf pair.1 ++ " = " ++ now.nameOf pair.2) =
      (((start.entryArguments regions).drop 1).zip ((start.operands op).drop 3)).map fun pair =>
        start.nameOf pair.1 ++ " = " ++ start.nameOf pair.2 := by
    refine List.map_congr_left fun pair among => ?_
    obtain ⟨argument, initial⟩ := List.of_mem_zip among
    rw [restates.nameOf_eq (below _ (List.mem_of_mem_drop argument)),
      restates.nameOf_eq (operand _ (List.mem_of_mem_drop initial))]
  simp only [Program.forText, restates.entryArguments_eq, restates.operands_eq, names, first, pairs,
    restates.resultsText_eq lowered member notFunction, restates.opName_eq,
    (restates.alike lowered member).resultTypes_eq]

/-- An operation reads the same, given the texts of its regions. -/
theorem opText_eq (member : op ∈ start.tree.ops) {regions : Regions}
    (below : ∀ value ∈ start.entryArguments regions, value.index < start.values.size) (texts : List String) :
    now.opText op regions texts = start.opText op regions texts := by
  have alike := restates.alike lowered member
  have operands (value : ValueId) (isOperand : value ∈ start.operands op) := lowered.lt_of_operand member isOperand
  have noTorch := lowered.noTorch op member
  unfold Program.opText
  rw [restates.kind_eq]
  by_cases isFunction : start.kind op = .func .func
  case pos =>
    have each : (start.entryArguments regions).map now.valueText =
        (start.entryArguments regions).map start.valueText :=
      List.map_congr_left fun value among => restates.valueText_eq (below value among)
    rw [isFunction]
    simp only [Program.functionText, Program.functionName?, restates.opName_eq, alike.resultTypes_eq,
      restates.attributes_eq, restates.entryArguments_eq, each]
  case neg =>
    have generic := restates.genericText_eq lowered member isFunction texts
    have results := restates.resultsText_eq lowered member isFunction
    have loop := restates.forText_eq lowered member isFunction below
    have buffer := restates.accessText_eq fun value among => operands value (List.mem_of_mem_drop (i := 1) among)
    have first : ((start.operands op).head?).map now.nameOf = ((start.operands op).head?).map start.nameOf :=
      Option.map_congr fun value found => restates.nameOf_eq (operands value (List.mem_of_head? found))
    split
    case h_1 => rfl
    case h_2 isFunc => exact absurd isFunc isFunction
    case h_11 isTorch => simp [isTorch, OpKind.isTorch] at noTorch
    all_goals
      simp only [Program.constantText, Program.choiceText, Program.symbolOf, results, generic, loop, buffer, first,
        restates.opName_eq, restates.attributes_eq, restates.operands_eq, restates.operandsText_eq operands,
        restates.accessText_eq operands, alike.operandTypes_eq, alike.resultTypes_eq, alike.constantValue?_eq]

end Texts

mutual

theorem bodyText_eq (restates : start.Restates now) (lowered : start.IsLowered) (indent : Nat) :
    (body : Body) → (∀ part ∈ body.parts, part ∈ start.tree.parts) →
      body.text now indent = body.text start indent
  | .nil, _ => rfl
  | .cons op regions rest, inside => by
    obtain ⟨here, within⟩ := List.forall_mem_cons.mp inside
    obtain ⟨first, later⟩ := List.forall_mem_append.mp within
    rw [Body.text, regionsTexts_eq restates lowered indent regions first,
      bodyText_eq restates lowered indent rest later,
      restates.opText_eq lowered (Body.op_mem_parts.mp here) (lowered.lt_of_entryArguments first), Body.text]

theorem blocksText_eq (restates : start.Restates now) (lowered : start.IsLowered) (indent : Nat) :
    (blocks : Blocks) → (∀ part ∈ blocks.parts, part ∈ start.tree.parts) →
      blocks.text now indent = blocks.text start indent
  | .nil, _ => rfl
  | .cons block body rest, inside => by
    obtain ⟨here, within⟩ := List.forall_mem_cons.mp inside
    obtain ⟨first, later⟩ := List.forall_mem_append.mp within
    have arguments : (start.header block).arguments.map now.headerArgumentText =
        (start.header block).arguments.map start.headerArgumentText :=
      List.map_congr_left fun value among => restates.headerArgumentText_eq (lowered.lt_of_given here among)
    rw [Blocks.text, bodyText_eq restates lowered indent body first,
      blocksText_eq restates lowered indent rest later, Program.headerText, restates.header_eq, arguments,
      ← Program.headerText, Blocks.text]

theorem regionsTexts_eq (restates : start.Restates now) (lowered : start.IsLowered) (indent : Nat) :
    (regions : Regions) → (∀ part ∈ regions.parts, part ∈ start.tree.parts) →
      regions.texts now indent = regions.texts start indent
  | .nil, _ => rfl
  | .cons blocks rest, inside => by
    obtain ⟨first, later⟩ := List.forall_mem_append.mp inside
    rw [Regions.texts, blocksText_eq restates lowered (indent + 1) blocks first,
      regionsTexts_eq restates lowered indent rest later, Regions.texts]

end

/-- The text of the program is the same. -/
theorem text_eq (restates : start.Restates now) (lowered : start.IsLowered) : now.text = start.text := by
  have inside (part : Part) (member : part ∈ start.regions.parts) : part ∈ start.tree.parts :=
    List.mem_cons_of_mem _ (List.mem_append_left _ member)
  rw [Program.text, restates.root_eq, restates.regions_eq, regionsTexts_eq restates lowered 0 _ inside,
    restates.opText_eq lowered List.mem_cons_self (lowered.lt_of_entryArguments inside), Program.text]

end Program.Restates

end TensorIR
