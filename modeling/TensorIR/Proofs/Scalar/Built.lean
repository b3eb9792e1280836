import TensorIR.Proofs.Scalar.Replacing

/-!
# What exactly is built

For the operations on scalars it matters which operations have been built, not only of which kinds they
are: each of them is described by its entry in the table and by its place in the body.

## Main definitions

* `Draft.Adds` — a draft with one more operation at the end of its body
* `Literal.IsConstant` — a constant stands for a literal
* `Program.Defines` — what an operation of a program computes from what

## Main results

* `adds_create`, `adds_constant`, `adds_value` — the ways of building one operation
* `realizes_literal` — a literal becomes a constant if it can have the type
* `Draft.Adds.defines` — the operation that has been built
-/

namespace TensorIR

variable {program : Program} {start middle after : Draft}

/-- A draft with one more operation at the end of its body. -/
structure Draft.Adds (start : Draft) (kind : OpKind) (operands : List ValueId)
    (attributes : Attributes) (types : List Ty) (after : Draft) : Prop where
  program : ∃ (location : Option Location) (names : List String), names.length = types.length ∧ after.program =
    start.program.withDefinition { kind, operands, attributes, location } (names.zip types)
  anchor : after.anchor = start.anchor
  placement : after.placement = start.placement
  hoisted : after.hoisted = start.hoisted
  lead : after.lead = start.lead
  indices : after.indices = start.indices
  code : after.code = start.code.append (.single ⟨start.program.operations.size⟩ .nil)
  started : start.started = true → after.started = true

/-- The draft with another operation at the end of its body. -/
def Draft.adding (draft : Draft) (operation : Operation) (results : List (String × Ty)) : Draft :=
  { draft.defining operation results with
    started := draft.started || draft.placement == .before
    code := draft.code.append (.single ⟨draft.program.operations.size⟩ .nil) }

namespace Build

theorem run_freshNames (types : List Ty) (draft : Draft) :
    ∃ (names : List String) (namer : Namer), names.length = types.length ∧
      (types.mapM (m := Build) fun type => return (← fresh, type)).run draft =
        (.ok (names.zip types), { draft with namer }) := by
  induction types generalizing draft with
  | nil => exact ⟨[], draft.namer, rfl, rfl⟩
  | cons type types ih =>
    obtain ⟨names, namer, length_eq, run⟩ := ih { draft with namer := draft.namer.fresh.2 }
    refine ⟨draft.namer.fresh.1 :: names, namer, by simp [length_eq], ?_⟩
    rw [List.mapM_cons, run_bind, run_bind]
    simp only [run_fresh, run_pure]
    rw [run_bind, run]
    rfl

end Build

/-- A new operation with results of the given types. -/
theorem adds_create (kind : OpKind) (operands : List ValueId) (types : List Ty)
    (attributes : Attributes) (placed : start.anchor ≠ start.program.root) :
    ∃ after, (Build.create kind operands types attributes).run start =
        (.ok ⟨start.program.operations.size⟩, after) ∧
      start.Adds kind operands attributes types after := by
  obtain ⟨names, namer, length_eq, run⟩ := Build.run_freshNames types start
  refine ⟨Draft.adding { start with namer } { kind, operands, attributes } (names.zip types),
    ?run, ?adds⟩
  case run =>
    unfold Build.create Build.allocate
    rw [run_bind, run_bind, run]
    simp only []
    rw [run_bind, Build.run_define]
    · rfl
    · exact placed
  case adds =>
    exact ⟨⟨(start.program.operation start.anchor).location, names, length_eq, rfl⟩, rfl, rfl, rfl,
      rfl, rfl, rfl, fun started => by simp [Draft.adding, started]⟩

/-- The result of a new operation. -/
theorem Program.result_withDefinition (program : Program) (operation : Operation)
    (results : List (String × Ty)) (index : Nat) (below : index < results.length) :
    (program.withDefinition operation results).result ⟨program.operations.size⟩ index =
      .ok ⟨program.values.size + index⟩ := by
  rw [Program.result, Program.results, Program.operation_last]
  simp [Program.freshValues, below]

/-- A new operation with one result. -/
theorem adds_value (kind : OpKind) (operands : List ValueId) (type : Ty) (attributes : Attributes)
    (placed : start.anchor ≠ start.program.root) :
    ∃ after, (Build.value kind operands type attributes).run start =
        (.ok ⟨start.program.values.size⟩, after) ∧
      start.Adds kind operands attributes [type] after := by
  obtain ⟨after, run, adds⟩ := adds_create kind operands [type] attributes placed
  refine ⟨after, ?_, adds⟩
  obtain ⟨location, names, length_eq, defined⟩ := adds.program
  unfold Build.value
  rw [run_bind, run]
  simp only []
  rw [Build.run_askFor, defined, Program.result_withDefinition]
  · rfl
  · simp [length_eq]

/-- A new constant. -/
theorem adds_constant (kind : OpKind) (name : String) (value : Option Attribute) (type : Ty)
    (placed : start.anchor ≠ start.program.root) :
    ∃ after, (Build.constant kind name value type).run start =
        (.ok ⟨start.program.values.size⟩, after) ∧
      start.Adds kind [] (Build.constantAttributes value) [type] after := by
  refine ⟨start.adding { kind, operands := [], attributes := Build.constantAttributes value }
    [(name, type)], ?run, ?adds⟩
  case run =>
    unfold Build.constant
    rw [run_bind, Build.run_define]
    case placed => exact placed
    simp only []
    rw [run_bind, run_modify]
    simp only []
    rw [run_bind, Build.append, run_modify]
    simp only []
    rw [Build.run_askFor, Draft.defining, Program.result_withDefinition]
    · rfl
    · simp
  case adds =>
    exact ⟨⟨(start.program.operation start.anchor).location, [name], rfl, rfl⟩, rfl, rfl, rfl, rfl,
      rfl, rfl, fun started => by simp [Draft.adding, started]⟩

/-! ### Constants for literals -/

/-- A new constant under a name from the supply. -/
theorem adds_namedConstant (supply : Namer → String × Namer) (kind : OpKind)
    (value : Option Attribute) (type : Ty) (placed : start.anchor ≠ start.program.root) :
    ∃ after, (Build.named supply >>= fun name => Build.constant kind name value type).run start =
        (.ok ⟨start.program.values.size⟩, after) ∧
      start.Adds kind [] (Build.constantAttributes value) [type] after := by
  let named : Draft := { start with namer := (supply start.namer).2 }
  have place : named.anchor ≠ named.program.root := placed
  obtain ⟨after, run, adds⟩ := adds_constant kind (supply start.namer).1 value type place
  refine ⟨after, ?_, ⟨adds.program, adds.anchor, adds.placement, adds.hoisted, adds.lead,
    adds.indices, adds.code, adds.started⟩⟩
  rw [run_bind, Build.run_named]
  exact run

/-- A constant of a kind with a given value stands for a literal of a type. -/
structure Literal.IsConstant (literal : Literal) (type : Ty) (kind : OpKind)
    (value : Option Attribute) : Prop where
  notFunction : kind ≠ .func .func
  suits : kind.suits type = true
  computes : ∀ atom, literal.atom? type = some atom → ∃ other : Literal,
    other.atom? type = some atom ∧ ∀ (now : Program) (id : OpId), now.kind id = kind →
      now.attributes id = Build.constantAttributes value → now.resultType? id 0 = some type →
      now.literal? id [] = some other

theorem int?_constantAttributes (value : Int) :
    (Build.constantAttributes (some (.int value))).int? "value" = some value := rfl

theorem Literal.isConstant_int (value : Int) (type : ScalarType) :
    (Literal.int value).IsConstant (.scalar type) (.arith .constant) (some (.int value)) where
  notFunction := nofun
  suits := rfl
  computes atom isAtom := by
    refine ⟨.int value, isAtom, fun now id kind attributes isType => ?_⟩
    have other : type ≠ .i1 := by
      rintro rfl
      cases isAtom
    simp [Program.literal?, kind, Program.constantValue?, attributes, isType, other,
      int?_constantAttributes]

theorem Literal.isConstant_bool (value : Bool) (type : ScalarType) :
    (Literal.bool value).IsConstant (.scalar type) (.arith .constant)
      (some (.int (if value then 1 else 0))) where
  notFunction := nofun
  suits := rfl
  computes atom isAtom := by
    refine ⟨.bool value, isAtom, fun now id kind attributes isType => ?_⟩
    obtain rfl : type = .i1 := by
      cases type <;> first | rfl | cases isAtom
    cases value <;>
      simp [Program.literal?, kind, Program.constantValue?, attributes, isType,
        int?_constantAttributes]


theorem Literal.isConstant_torch {literal : Literal} {type : TorchType} {kind : TorchKind}
    {value : Option Attribute}
    (computes : ∀ (now : Program) (id : OpId), now.attributes id = Build.constantAttributes value →
      now.torchConstant? id kind = some literal) :
    literal.IsConstant (.torch type) (.torch kind) value where
  notFunction := nofun
  suits := rfl
  computes atom isAtom := by
    refine ⟨literal, isAtom, fun now id isKind attributes _ => ?_⟩
    simp [Program.literal?, isKind, computes now id attributes]

/-- A literal that is no value of a type may be any constant of it. -/
theorem Literal.isConstant_of_atom? {literal : Literal} {type : Ty} {kind : OpKind}
    {value : Option Attribute} (notFunction : kind ≠ .func .func) (suits : kind.suits type = true)
    (noAtom : literal.atom? type = Option.none) : literal.IsConstant type kind value where
  notFunction := notFunction
  suits := suits
  computes atom isAtom := by
    rw [noAtom] at isAtom
    cases isAtom

/-- A step builds a constant of a type for a literal, or it builds nothing. -/
def Build.Realizes (literal : Literal) (type : Ty) (start : Draft) (step : Build (Option ValueId)) :
    Prop :=
  (∃ after, step.run start = (.ok none, after)) ∨
    ∃ kind value after, step.run start = (.ok (some ⟨start.program.values.size⟩), after) ∧
      start.Adds kind [] (Build.constantAttributes value) [type] after ∧
      literal.IsConstant type kind value

theorem realizes_none (literal : Literal) (type : Ty) :
    Build.Realizes literal type start (pure none) :=
  .inl ⟨start, rfl⟩

theorem realizes_named {literal : Literal} {type : Ty} {kind : OpKind} {value : Option Attribute}
    (supply : Namer → String × Namer) (placed : start.anchor ≠ start.program.root)
    (isConstant : literal.IsConstant type kind value) :
    Build.Realizes literal type start
      (some <$> (Build.named supply >>= fun name => Build.constant kind name value type)) := by
  obtain ⟨after, run, adds⟩ := adds_namedConstant supply kind value type placed
  exact .inr ⟨kind, value, after, run_map_ok some run, adds, isConstant⟩

theorem realizes_scalarLiteral (literal : Literal) (type : ScalarType)
    (placed : start.anchor ≠ start.program.root) :
    Build.Realizes literal (.scalar type) start (Build.scalarLiteral literal type) := by
  have isFloat (isFloat : type.isFloat = true) (literal : Literal) (value : Option Attribute) :
      literal.IsConstant (.scalar type) (.arith .constant) value := by
    refine Literal.isConstant_of_atom? nofun rfl ?_
    cases type <;> cases isFloat <;> cases literal <;> rfl
  unfold Build.scalarLiteral
  split
  case h_1 floats => exact realizes_named _ placed (isFloat floats _ _)
  case h_2 floats => exact realizes_named _ placed (isFloat floats _ _)
  case h_3 => exact realizes_named _ placed (Literal.isConstant_int _ type)
  case h_4 => exact realizes_named _ placed (Literal.isConstant_bool _ type)
  case h_5 => exact realizes_none _ _

theorem realizes_torchLiteral (literal : Literal) (type : TorchType)
    (placed : start.anchor ≠ start.program.root) :
    Build.Realizes literal (.torch type) start (Build.torchLiteral literal type) := by
  unfold Build.torchLiteral
  have named {literal : Literal} {type : TorchType} {kind : TorchKind} {value : Option Attribute} (word : String)
      (computes : ∀ (now : Program) (id : OpId),
        now.attributes id = Build.constantAttributes value →
          now.torchConstant? id kind = some literal) :
      Build.Realizes literal (.torch type) start (do
        some <$> Build.constant (.torch kind) (← Build.freshNamed word) value (.torch type)) := by
    have isConstant : literal.IsConstant (.torch type) (.torch kind) value :=
      Literal.isConstant_torch computes
    have realized := realizes_named (fun namer => namer.freshNamed word) placed isConstant
    rwa [map_bind] at realized
  split
  case h_1 | h_2 | h_3 | h_4 =>
    refine named _ fun now id attributes => ?_
    simp only [Program.torchConstant?, attributes]
    rfl
  case h_5 => exact named _ fun _ _ _ => rfl
  case h_6 => exact realizes_none _ _

/-- A literal becomes a constant if it can have the type. -/
theorem realizes_literal (literal : Literal) (type : Ty) (placed : start.anchor ≠ start.program.root) :
    Build.Realizes literal type start (Build.literal literal type) := by
  cases type with
  | scalar type => exact realizes_scalarLiteral literal type placed
  | torch type => exact realizes_torchLiteral literal type placed
  | shaped => exact realizes_none _ _

/-! ### The operation that has been built -/

/-- An operation of a program with what it computes from what. -/
structure Program.Defines (program : Program) (op : OpId) (kind : OpKind) (operands : List ValueId)
    (attributes : Attributes) (results : List ValueId) (types : List Ty) : Prop where
  below : op.index < program.operations.size
  kind_eq : program.kind op = kind
  operands_eq : program.operands op = operands
  attributes_eq : program.attributes op = attributes
  results_eq : program.results op = results
  types_eq : results.map program.typeOf? = types.map some

/-- The operation that is defined last, with results of the given types. -/
theorem Program.defines_withDefinition (program : Program) (operation : Operation)
    {names : List String} {types : List Ty} (length_eq : names.length = types.length) :
    (program.withDefinition operation (names.zip types)).Defines ⟨program.operations.size⟩
      operation.kind operation.operands operation.attributes (program.freshValues types.length)
      types := by
  have last := program.operation_last operation (names.zip types)
  have count : (names.zip types).length = types.length := by simp [length_eq]
  rw [count] at last
  refine ⟨?_, by rw [Program.kind, last], by rw [Program.operands, last],
    by rw [Program.attributes, last], by rw [Program.results, last], ?_⟩
  · simp [Program.withDefinition]
  · apply List.ext_getElem?
    intro index
    simp only [Program.freshValues, List.map_map, List.getElem?_map]
    by_cases below : index < types.length
    case pos =>
      rw [List.getElem?_range' below, List.getElem?_eq_getElem below]
      have isNamed : index < names.length := length_eq ▸ below
      simp [Program.typeOf?, Program.value, Program.withDefinition, Program.namedResults,
        Array.getD_eq_getD_getElem?, below, isNamed]
    case neg =>
      have above := Nat.le_of_not_lt below
      rw [List.getElem?_eq_none above, List.getElem?_eq_none (by simpa using above)]
      rfl

theorem Draft.Adds.defines {kind : OpKind} {operands : List ValueId} {attributes : Attributes}
    {types : List Ty} (adds : start.Adds kind operands attributes types after) :
    after.program.Defines ⟨start.program.operations.size⟩ kind operands attributes
      (start.program.freshValues types.length) types := by
  obtain ⟨location, names, length_eq, defined⟩ := adds.program
  rw [defined]
  exact start.program.defines_withDefinition _ length_eq

theorem Draft.Adds.reached {allowed : OpKind → Prop} {kind : OpKind} {operands : List ValueId}
    {attributes : Attributes} {types : List Ty} (adds : start.Adds kind operands attributes types after)
    (allows : allowed kind) : start.program.Extends allowed after.program := by
  obtain ⟨location, names, -, defined⟩ := adds.program
  rw [defined]
  exact .withDefinition _ _ _ allows

/-- The operation is the only one that has been put in a body. -/
theorem Draft.Adds.extended {allowed : OpKind → Prop} {kind : OpKind} {operands : List ValueId}
    {attributes : Attributes} {types : List Ty} (adds : start.Adds kind operands attributes types after)
    (allows : allowed kind) : start.Extends allowed [] after where
  program := adds.reached allows
  anchor := adds.anchor
  placement := adds.placement
  count_le part := by
    have below := adds.defines.below
    rw [Draft.built, Draft.built, adds.hoisted, adds.lead, adds.code, Body.parts_append]
    simp only [Body.single, Body.parts, Regions.parts, List.count_append, List.count_cons,
      List.count_nil, List.append_nil]
    by_cases isNew : part.IsNew start.program after.program
    case pos =>
      rw [if_pos isNew]
      split <;> omega
    case neg =>
      have other : (Part.op ⟨start.program.operations.size⟩ == part) = false := by
        refine beq_eq_false_iff_ne.mpr ?_
        rintro rfl
        exact isNew ⟨le_rfl, below⟩
      rw [other, if_neg isNew]
      simp

/-- What has been built is the same when it has been put in the tree. -/
theorem Program.Defines.placed {draft : Draft} {op : OpId} {kind : OpKind} {operands values : List ValueId}
    {attributes : Attributes} {types : List Ty}
    (defines : draft.program.Defines op kind operands attributes values types) :
    draft.finished.Defines op kind operands attributes values types :=
  ⟨defines.below, defines.kind_eq, defines.operands_eq, defines.attributes_eq, defines.results_eq,
    defines.types_eq⟩

/-- What an operation is does not change in a program that has grown, if it works on the same. -/
theorem Program.Defines.grown {after : Program} {allowed : OpKind → Prop} {id : OpId} {kind : OpKind}
    {operands values : List ValueId} {attributes : Attributes} {types : List Ty}
    (defines : program.Defines id kind operands attributes values types)
    (grown : program.Grows allowed after) (notFunction : kind ≠ .func .func)
    (same : after.operands id = program.operands id)
    (typed : ∀ value ∈ values, after.typeOf? value = program.typeOf? value) :
    after.Defines id kind operands attributes values types where
  below := defines.below.trans_le grown.operations_le
  kind_eq := (grown.kind_eq id defines.below).trans defines.kind_eq
  operands_eq := same.trans defines.operands_eq
  attributes_eq := (grown.attributes_eq id defines.below).trans defines.attributes_eq
  results_eq :=
    (grown.results_eq id defines.below (by rwa [defines.kind_eq])).trans defines.results_eq
  types_eq := by
    rw [← defines.types_eq]
    exact List.map_congr_left typed

theorem Program.Defines.resultType?_eq {op : OpId} {kind : OpKind} {operands : List ValueId}
    {attributes : Attributes} {results : List ValueId} {type : Ty}
    (defines : program.Defines op kind operands attributes results [type]) :
    program.resultType? op 0 = some type := by
  have types := defines.types_eq
  rw [Program.resultType?, defines.results_eq]
  cases results with
  | nil => cases types
  | cons result results => simpa using (List.cons.inj types).1

/-- What computes a literal computes the value of its type that the literal stands for. -/
theorem Program.outputs?_of_literal? {op : OpId} {inputs : List Atom}
    (enter : Nat → List Atom → Option Exit) {type : Ty} {literal : Literal} {atom : Atom}
    (isType : program.resultType? op 0 = some type)
    (isLiteral : program.literal? op inputs = some literal)
    (isAtom : literal.atom? type = some atom) (suits : (program.kind op).suits type = true) :
    (program.kind op).isExit = false ∧ program.outputs? op inputs enter = some [atom] := by
  have found : program.kind op ≠ .torch .primIf ∧ program.kind op ≠ .scf .ifElse ∧
      program.kind op ≠ .torch .primLoop ∧ program.kind op ≠ .scf .forLoop ∧
      (program.kind op).isExit = false := by
    unfold Program.literal? at isLiteral
    split at isLiteral
    case h_6 kind isKind =>
      cases kind <;> simp_all [Program.torchConstant?, OpKind.isExit]
    case h_7 kind a b isKind =>
      cases kind <;> simp_all [TorchKind.onInts?, OpKind.isExit]
    all_goals simp_all [OpKind.isExit]
  obtain ⟨notIf, notElse, notLoop, notFor, notExit⟩ := found
  refine ⟨notExit, ?_⟩
  unfold Program.outputs?
  split
  case h_5 => simp [isType, isLiteral, isAtom, suits]
  all_goals simp_all

/-- An operation that computes a literal puts its value in place of what it defines, and the block goes
on. -/
theorem Program.Defines.eval_cons {op : OpId} {kind : OpKind} {operands : List ValueId}
    {attributes : Attributes} {value : ValueId} {type : Ty} {environment : Environment}
    {inputs : List Atom} {literal : Literal} {atom : Atom} {rest : Body} {exit : Exit}
    (defines : program.Defines op kind operands attributes [value] [type])
    (suits : kind.suits type = true) (isInputs : operands.mapM environment = some inputs)
    (isLiteral : program.literal? op inputs = some literal) (isAtom : literal.atom? type = some atom)
    (later : rest.eval program (environment.set value atom) = some exit) :
    (Body.cons op .nil rest).eval program environment = some exit := by
  have isType : program.typeOf? value = some type := by simpa using defines.types_eq
  have fits : (program.typeOf? value).any atom.fits = true := by
    rw [isType]
    exact Literal.fits_of_atom? isAtom
  obtain ⟨notExit, isOutput⟩ := Program.outputs?_of_literal?
    (fun index arguments => Regions.nil.eval program index arguments environment)
    defines.resultType?_eq isLiteral isAtom (defines.kind_eq.symm ▸ suits)
  refine Body.eval_cons_iff.mpr ⟨inputs, defines.operands_eq ▸ isInputs, .inr ⟨notExit, [atom],
    environment.set value atom, isOutput, ?_, later⟩⟩
  rw [defines.results_eq, Program.assign?, if_pos fits, Program.assign?]

end TensorIR
