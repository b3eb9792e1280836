import TensorIR.Proofs.Scalar.Rounds
import TensorIR.Proofs.Verified

/-!
# Verified functions on scalars have a meaning

A function on integers and truth values that is valid on its own can be evaluated on all arguments of
its types: every operand is known where it is used, every operation is given values of the types that
its rule asks for, and every block ends with an operation that passes on values of the types of the
results around it.

## Main definitions

* `OpKind.isScalarOp` — the kinds of operation that functions on scalars consist of
* `Program.Fits` — a value can be an integer or a truth value
* `Program.IsScalarFunction` — the functions on integers and truth values
* `Program.Supplies` — what is visible is known

## Main results

* `Body.exists_eval` — a valid block can be evaluated
* `Program.exists_meaning` — a valid function has a meaning
-/

namespace TensorIR

/-- The operation is one that functions on integers and truth values consist of. -/
def OpKind.isScalarOp : OpKind → Bool
  | .func .ret => true
  | .torch kind =>
    kind.isIntBinary ||
      match kind with
      | .constantInt | .constantBool | .primIf | .primIfYield | .primLoop | .primLoopCondition => true
      | _ => false
  | _ => false

/-- The type of integers or of truth values before lowering. -/
def Ty.isPlain : Ty → Bool
  | .torch .int | .torch .bool => true
  | _ => false

namespace Program

variable (program : Program)

/-- The value can be the given integer or truth value. -/
def Fits (value : ValueId) (atom : Atom) : Prop :=
  (program.typeOf? value).any (fun type => type.isPlain && atom.fits type) = true

/-- The value is an integer or a truth value. -/
def IsPlain (value : ValueId) : Prop :=
  (program.typeOf? value).any Ty.isPlain = true

/-- A branch takes nothing but its condition, and its regions take nothing. -/
def IsPlainBranch (op : OpId) : Prop :=
  (program.operands op).length = 1 ∧ ∀ region ∈ (program.regionsOf op).toList,
    region.entryBlock?.all (fun entry => (program.header entry.1).arguments.isEmpty) = true

/-- A part of a tree is about integers and truth values. -/
def IsScalarPart : Part → Prop
  | .op op => (program.kind op).isScalarOp = true ∧ (∀ result ∈ program.results op, program.IsPlain result) ∧
    (program.kind op = .torch .primIf → program.IsPlainBranch op)
  | .block block => ∀ argument ∈ (program.header block).arguments, program.IsPlain argument

/-- A function on integers and truth values, which is valid also where nothing is visible from
outside. -/
structure IsScalarFunction (function : OpId) : Prop where
  onTop : function ∈ program.topLevel
  isFunction : program.kind function = .func .func
  scalar : ∀ part ∈ (program.regionsOf function).parts, program.IsScalarPart part
  closed : program.symbolTable.toOption.any (fun symbols =>
    ((program.regionsOf function).diagnostics program symbols []).isEmpty) = true

/-- What is visible is known, and what is known is an integer or truth value. -/
structure Supplies (visible : List ValueId) (environment : Environment) : Prop where
  known : ∀ value ∈ visible, ∃ atom, environment value = some atom
  fits : ∀ value atom, environment value = some atom → program.Fits value atom

end Program

section Decisions

variable (program : Program)

instance (value : ValueId) (atom : Atom) : Decidable (program.Fits value atom) :=
  inferInstanceAs (Decidable (_ = true))

instance (value : ValueId) : Decidable (program.IsPlain value) :=
  inferInstanceAs (Decidable (_ = true))

instance (op : OpId) : Decidable (program.IsPlainBranch op) :=
  inferInstanceAs (Decidable (_ ∧ _))

instance : (part : Part) → Decidable (program.IsScalarPart part)
  | .op _ => inferInstanceAs (Decidable (_ ∧ _ ∧ (_ → _)))
  | .block block => inferInstanceAs (Decidable (∀ argument ∈ (program.header block).arguments, _))

instance (function : OpId) : Decidable (program.IsScalarFunction function) :=
  decidable_of_iff
    (function ∈ program.topLevel ∧ program.kind function = .func .func ∧
      (∀ part ∈ (program.regionsOf function).parts, program.IsScalarPart part) ∧
      program.symbolTable.toOption.any (fun symbols =>
        ((program.regionsOf function).diagnostics program symbols []).isEmpty) = true)
    ⟨fun ⟨onTop, isFunction, scalar, closed⟩ => ⟨onTop, isFunction, scalar, closed⟩,
      fun ⟨onTop, isFunction, scalar, closed⟩ => ⟨onTop, isFunction, scalar, closed⟩⟩

end Decisions

variable {program : Program} {symbols : SymbolTable} {op last : OpId} {environment : Environment}
  {visible : List ValueId}

/-- A function on integers and truth values has no violations where nothing is visible. -/
theorem Program.IsScalarFunction.exists_diagnostics {function : OpId}
    (scalar : program.IsScalarFunction function) :
    ∃ symbols, (program.regionsOf function).diagnostics program symbols [] = [] := by
  have closed := scalar.closed
  cases table : program.symbolTable with
  | error =>
    rw [table] at closed
    cases closed
  | ok symbols =>
    rw [table] at closed
    exact ⟨symbols, List.isEmpty_iff.mp closed⟩

/-! ### Values -/

namespace Program.Fits

variable {value result : ValueId} {atom : Atom}

theorem exists_type (fits : program.Fits value atom) :
    ∃ type, program.typeOf? value = some type ∧ type.isPlain = true ∧ atom.fits type = true := by
  unfold Program.Fits at fits
  cases isType : program.typeOf? value with
  | none =>
    rw [isType] at fits
    cases fits
  | some type =>
    rw [isType, Option.any_some, Bool.and_eq_true] at fits
    exact ⟨type, rfl, fits⟩

theorem of_type {type : Ty} (isType : program.typeOf? value = some type) (plain : type.isPlain = true)
    (isFit : atom.fits type = true) : program.Fits value atom := by
  rw [Program.Fits, isType, Option.any_some, plain, isFit]
  rfl

theorem any_fits (fits : program.Fits value atom) :
    (program.typeOf? value).any atom.fits = true := by
  obtain ⟨type, isType, -, isFit⟩ := fits.exists_type
  rw [isType]
  exact isFit

theorem torchTypeOf? (fits : program.Fits value atom) :
    (∃ number, atom = .int number) ∧ program.torchTypeOf? value = some .int ∨
      (∃ holds, atom = .bool holds) ∧ program.torchTypeOf? value = some .bool := by
  obtain ⟨type, isType, plain, isFit⟩ := fits.exists_type
  rw [Program.torchTypeOf?, isType]
  unfold Ty.isPlain at plain
  split at plain
  · cases atom <;> first | exact .inl ⟨⟨_, rfl⟩, rfl⟩ | cases isFit
  · cases atom <;> first | exact .inr ⟨⟨_, rfl⟩, rfl⟩ | cases isFit
  · cases plain

theorem of_torchTypeOf? {type : TorchType} (isType : program.torchTypeOf? value = some type)
    (plain : (Ty.torch type).isPlain = true) (isFit : atom.fits (.torch type) = true) :
    program.Fits value atom := by
  obtain ⟨found, typed, isTorch⟩ := Option.bind_eq_some_iff.mp isType
  cases found <;> cases isTorch
  exact .of_type typed plain isFit

/-- A value that can stand where another one is expected can be handed on to it. -/
theorem assign {actual wanted : Ty} (fits : program.Fits value atom)
    (typed : program.typed value = .ok actual) (isResult : program.typed result = .ok wanted)
    (plain : program.IsPlain result)
    (assignable : actual.isAssignable wanted = true ∨ actual.same wanted = true) :
    program.Fits result atom := by
  rw [Program.IsPlain, Program.typeOf?_of_typed isResult] at plain
  refine .of_type (Program.typeOf?_of_typed isResult) plain ?_
  obtain ⟨type, isType, isPlain, isFit⟩ := fits.exists_type
  rw [Program.typeOf?_of_typed typed] at isType
  cases isType
  have same : actual = wanted := by
    unfold Ty.isPlain at isPlain
    replace plain : wanted.isPlain = true := plain
    unfold Ty.isPlain at plain
    split at isPlain <;> split at plain <;> first | rfl | contradiction
  rwa [← same]

end Program.Fits

namespace Program.Supplies

theorem empty (program : Program) : program.Supplies [] .empty where
  known _ member := absurd member List.not_mem_nil
  fits _ _ known := by cases known

/-- The operands of an operation are known where they are visible. -/
theorem operands (supplies : program.Supplies visible environment)
    (valid : program.invisibleOperands visible op = []) :
    ∃ inputs, (program.operands op).mapM environment = some inputs ∧
      List.Forall₂ program.Fits (program.operands op) inputs := by
  have each : ∀ value ∈ program.operands op, ∃ atom, environment value = some atom := by
    intro value member
    obtain ⟨index, isOperand⟩ := List.mem_iff_getElem?.mp member
    have none := List.filterMap_eq_nil_iff.mp valid (value, index)
      (List.mk_mem_zipIdx_iff_getElem?.mpr isOperand)
    refine supplies.known value ?_
    by_contra absent
    simp [absent] at none
  generalize program.operands op = values at each
  induction values with
  | nil => exact ⟨[], rfl, .nil⟩
  | cons value values ih =>
    obtain ⟨atom, isAtom⟩ := each value List.mem_cons_self
    obtain ⟨atoms, areAtoms, fits⟩ := ih fun other member => each other (List.mem_cons_of_mem _ member)
    refine ⟨atom :: atoms, ?_, .cons (supplies.fits value atom isAtom) fits⟩
    rw [List.mapM_cons, isAtom, areAtoms]
    rfl

/-- Values that are introduced are known from then on. -/
theorem assign {values : List ValueId} {atoms : List Atom}
    (supplies : program.Supplies visible environment) (fits : List.Forall₂ program.Fits values atoms) :
    ∃ after, program.assign? environment values atoms = some after ∧
      program.Supplies (values ++ visible) after := by
  induction fits generalizing environment visible with
  | nil => exact ⟨environment, rfl, supplies⟩
  | @cons value atom values atoms first _ ih =>
    have next : program.Supplies (value :: visible) (environment.set value atom) := by
      constructor
      case known =>
        intro other member
        by_cases same : other = value
        · subst same
          exact ⟨atom, Environment.set_self ..⟩
        · rw [Environment.set_other _ _ same]
          exact supplies.known other ((List.mem_cons.mp member).resolve_left same)
      case fits =>
        intro other found known
        by_cases same : other = value
        · subst same
          rw [Environment.set_self] at known
          cases known
          exact first
        · rw [Environment.set_other _ _ same] at known
          exact supplies.fits other found known
    obtain ⟨after, assigned, supplied⟩ := ih next
    refine ⟨after, by rw [Program.assign?, if_pos first.any_fits, assigned], ?_⟩
    exact ⟨fun other member => supplied.known other (by
      simp only [List.cons_append, List.mem_cons, List.mem_append] at member ⊢
      tauto), supplied.fits⟩

end Program.Supplies

theorem Program.fitResults_of_fits {outputs : List Atom}
    (fits : List.Forall₂ program.Fits (program.results op) outputs) :
    program.fitResults op outputs = true := by
  obtain ⟨after, assigned, -⟩ := (Program.Supplies.empty program).assign fits
  rw [Program.fitResults, assigned]
  rfl

/-! ### What the rules say -/

/-- A value may be handed on to another one, which has the same type or one that is less precise. -/
def Program.IsHandedTo (program : Program) (value result : ValueId) : Prop :=
  ∃ actual wanted, program.typed value = .ok actual ∧ program.typed result = .ok wanted ∧
    (actual.isAssignable wanted = true ∨ actual.same wanted = true)

/-- What values are handed on to is what they are. -/
theorem Program.fits_of_isHandedTo {values results : List ValueId} {atoms : List Atom}
    (handed : List.Forall₂ program.IsHandedTo values results)
    (plain : ∀ result ∈ results, program.IsPlain result)
    (fits : List.Forall₂ program.Fits values atoms) : List.Forall₂ program.Fits results atoms := by
  have both := (List.forall₂_and_left _ _).mpr ⟨plain, forall₂_comp handed.flip fits⟩
  refine both.imp ?_
  rintro result atom ⟨isPlain, value, ⟨actual, wanted, typed, isResult, assignable⟩, isFit⟩
  exact isFit.assign typed isResult isPlain assignable

/-- A loop over two lists of equal length checks the items at the same position together. -/
theorem forall₂_of_forIn {α β : Type} {items : List α} {others : List β}
    {check : (α × β) × Nat → PUnit.{1} → Except Error (ForInStep PUnit)} {value : PUnit.{1}}
    (same : items.length = others.length)
    (run : forIn (items.zip others).zipIdx PUnit.unit check = .ok value)
    (continues : ∀ item, check item ⟨⟩ ≠ .ok (.done ⟨⟩)) :
    List.Forall₂ (fun item other => ∃ index, check ((item, other), index) ⟨⟩ = .ok (.yield ⟨⟩)) items
      others := by
  refine List.forall₂_iff_zip.mpr ⟨same, fun {item other} member => ?_⟩
  obtain ⟨index, found⟩ := List.mem_iff_getElem?.mp member
  exact ⟨index, each_of_forIn_eq_ok run continues _ (List.mk_mem_zipIdx_iff_getElem?.mpr found)⟩

theorem Program.of_checkForwarded {what : String} {values : List ValueId} {types : List Ty}
    (typed : program.typedResults op = .ok types)
    (kept : program.checkForwarded what values types = .ok ()) :
    List.Forall₂ program.IsHandedTo values (program.results op) := by
  unfold Program.checkForwarded at kept
  obtain ⟨same, kept⟩ := of_check_eq_ok kept
  obtain ⟨_, run, -⟩ := of_bind_eq_ok kept
  have each := forall₂_of_forIn (not_not.mp same) run fun item done => by
    obtain ⟨actual, -, checked⟩ := of_bind_eq_ok done
    cases (of_unless_eq_ok checked).2
  refine (forall₂_comp each (forall₂_of_mapM_eq_ok typed).flip).imp ?_
  rintro value result ⟨wanted, ⟨index, checked⟩, isResult⟩
  obtain ⟨actual, isActual, checked⟩ := of_bind_eq_ok checked
  exact ⟨actual, wanted, isActual, isResult, .inl (of_unless_eq_ok checked).1⟩

/-- What the rule for branches says. -/
theorem Program.of_verifyBranch (kept : program.verifyBranch op = .ok ()) :
    program.operandType op 0 = .ok .bool ∧ (program.regionsOf op).toList.length = 2 ∧
      ∀ region ∈ (program.regionsOf op).toList, ∃ last,
        program.terminatorOf? (some region) (.torch .primIfYield) = some last ∧
          List.Forall₂ program.IsHandedTo (program.operands last) (program.results op) := by
  unfold Program.verifyBranch at kept
  obtain ⟨condition, isCondition, checked⟩ := of_bind_eq_ok kept
  obtain ⟨isBool, checked⟩ := of_check_eq_ok checked
  obtain ⟨two, checked⟩ := of_check_eq_ok checked
  obtain ⟨types, typed, checked⟩ := of_bind_eq_ok checked
  obtain ⟨_, run, -⟩ := of_bind_eq_ok checked
  rw [ne_eq, not_not] at isBool two
  refine ⟨isBool ▸ isCondition, two, ?_⟩
  have each := each_of_forIn_eq_ok run fun item done => by
    simp only [] at done
    split at done
    · obtain ⟨_, -, done⟩ := of_bind_eq_ok done
      cases done
    · cases done
  have side {what : String} {region : Blocks}
      (member : (what, region) ∈ ["then", "else"].zip (program.regionsOf op).toList) :
      ∃ last, program.terminatorOf? (some region) (.torch .primIfYield) = some last ∧
        List.Forall₂ program.IsHandedTo (program.operands last) (program.results op) := by
    have checked := each _ member
    simp only [] at checked
    split at checked
    case h_1 last isLast =>
      obtain ⟨_, forwarded, -⟩ := of_bind_eq_ok checked
      exact ⟨last, isLast, Program.of_checkForwarded typed forwarded⟩
    case h_2 => cases checked
  intro region member
  obtain ⟨first, second, isPair⟩ := List.length_eq_two.mp two
  rw [isPair] at side member
  rcases List.mem_pair.mp member with rfl | rfl
  · exact side List.mem_cons_self
  · exact side (List.mem_cons_of_mem _ List.mem_cons_self)

theorem of_head?_bind {α β : Type} {items : List α} {find : α → Option β} {found : β}
    (isFound : items.head?.bind find = some found) :
    ∃ first rest, items = first :: rest ∧ find first = some found := by
  cases items with
  | nil => cases isFound
  | cons first rest => exact ⟨first, rest, rfl, isFound⟩

/-- What the rule for loops says. -/
theorem Program.of_verifyLoop (kept : program.verifyLoop op = .ok ()) :
    program.operandType op 0 = .ok .int ∧ program.operandType op 1 = .ok .bool ∧
      List.Forall₂ program.IsHandedTo ((program.operands op).drop 2) (program.results op) ∧
      ∃ region block body position arguments last flag carried,
        (program.regionsOf op).get? 0 = some region ∧ region.entryBlock? = some (block, body) ∧
        (program.header block).arguments = position :: arguments ∧
        program.torchTypeOf? position = some .int ∧
        List.Forall₂ program.IsHandedTo (program.results op) arguments ∧
        body.last? = some last ∧ program.kind last = .torch .primLoopCondition ∧
        program.operands last = flag :: carried ∧ program.torchTypeOf? flag = some .bool ∧
        List.Forall₂ program.IsHandedTo carried (program.results op) := by
  unfold Program.verifyLoop at kept
  obtain ⟨trips, isTrips, kept1⟩ := of_bind_eq_ok kept
  obtain ⟨initial, isInitial, kept2⟩ := of_bind_eq_ok kept1
  obtain ⟨types, kept3⟩ := of_check_eq_ok kept2
  obtain ⟨results, typed, kept4⟩ := of_bind_eq_ok kept3
  obtain ⟨_, forwarded, kept5⟩ := of_bind_eq_ok kept4
  rw [not_or, ne_eq, ne_eq, not_not, not_not] at types
  refine ⟨types.1 ▸ isTrips, types.2 ▸ isInitial, Program.of_checkForwarded typed forwarded, ?_⟩
  split at kept5
  case h_2 => cases kept5
  case h_1 region isRegion =>
  split at kept5
  case h_2 => cases kept5
  case h_1 block body isEntry =>
  obtain ⟨count, kept6⟩ := of_check_eq_ok kept5
  obtain ⟨isPosition, kept7⟩ := of_check_eq_ok kept6
  obtain ⟨_, run, kept8⟩ := of_bind_eq_ok kept7
  split at kept8
  case h_2 => cases kept8
  case h_1 last isLast =>
  obtain ⟨isFlag, kept9⟩ := of_check_eq_ok kept8
  rw [ne_eq, not_not] at count isPosition isFlag
  obtain ⟨position, arguments, areArguments, isInt⟩ := of_head?_bind isPosition
  obtain ⟨flag, carried, areOperands, isBool⟩ := of_head?_bind isFlag
  rw [areArguments] at run count
  rw [areOperands] at kept9
  -- The arguments behind the position have the types of the results, one by one.
  have sameTypes := forall₂_of_forIn (Nat.succ.inj count) run fun item done => by
    obtain ⟨actual, -, checked⟩ := of_bind_eq_ok done
    cases (of_unless_eq_ok checked).2
  have onArguments : List.Forall₂ program.IsHandedTo (program.results op) arguments := by
    refine (forall₂_comp (forall₂_of_mapM_eq_ok typed) sameTypes.flip).imp ?_
    rintro result argument ⟨wanted, isResult, index, checked⟩
    obtain ⟨actual, isActual, checked⟩ := of_bind_eq_ok checked
    have same : actual.text = wanted.text := beq_iff_eq.mp (of_unless_eq_ok checked).1
    exact ⟨wanted, actual, isResult, isActual, .inr (beq_iff_eq.mpr same.symm)⟩
  obtain ⟨_, otherBlock, otherBody, isSame, isOther, isFinal, isKind⟩ := Program.of_terminatorOf? isLast
  cases isSame
  cases isEntry.symm.trans isOther
  exact ⟨region, block, body, position, arguments, last, flag, carried, isRegion, isEntry,
    areArguments, isInt, onArguments, isFinal, isKind, areOperands, isBool,
    Program.of_checkForwarded typed kept9⟩

/-! ### Single operations -/

theorem TorchType.eq_of_isSubtype {type expected : TorchType}
    (plain : (Ty.torch expected).isPlain = true) (fits : type.isSubtype expected = true) :
    type = expected := by
  cases expected <;> first | exact (TorchType.same_iff _ _).mp fits | cases plain

/-- The value of an operand whose type a rule asks for. -/
theorem Program.exists_input {inputs : List Atom} {index : Nat} {type : TorchType}
    (typed : program.operandType op index = .ok type)
    (fits : List.Forall₂ program.Fits (program.operands op) inputs) :
    ∃ atom, inputs[index]? = some atom ∧
      ((∃ number, atom = .int number) ∧ type = .int ∨ (∃ holds, atom = .bool holds) ∧ type = .bool) := by
  unfold Program.operandType at typed
  obtain ⟨value, isOperand, typed⟩ := of_bind_eq_ok typed
  split at typed
  case h_2 => cases typed
  case h_1 found isTorch =>
    cases typed
    obtain ⟨atom, isInput, isFit⟩ := forall₂_getElem? fits (Program.getElem?_of_operand isOperand)
    refine ⟨atom, isInput, ?_⟩
    have sorts := isFit.torchTypeOf?
    rw [isTorch] at sorts
    simpa using sorts

/-- An operation that computes a literal of the type that its rule asks for. -/
theorem Program.exists_outputs_of_literal? {kind : TorchKind} {operands : List TorchType}
    {type : TorchType} {inputs : List Atom} {literal : Literal} {atom : Atom}
    (enter : Nat → List Atom → Option Exit) (isKind : program.kind op = .torch kind)
    (kept : program.expectSignature op operands [type] = .ok ())
    (plain : (Ty.torch type).isPlain = true) (isLiteral : program.literal? op inputs = some literal)
    (isAtom : literal.atom? (.torch type) = some atom) :
    ∃ outputs, program.outputs? op inputs enter = some outputs ∧
      List.Forall₂ program.Fits (program.results op) outputs := by
  obtain ⟨-, single, -, results⟩ := Program.of_expectSignature kept
  obtain ⟨actual, isActual, fits⟩ := results 0 type rfl
  obtain rfl := TorchType.eq_of_isSubtype plain fits
  obtain ⟨result, isResult, isTorch⟩ := Program.torchTypeOf?_of_resultType isActual
  obtain ⟨only, areResults⟩ := List.length_eq_one_iff.mp single
  obtain ⟨found, typed, isFound⟩ := Option.bind_eq_some_iff.mp isTorch
  cases found <;> cases isFound
  have same : result = only := by
    rw [Program.result_eq_ok_iff, areResults] at isResult
    cases isResult
    rfl
  subst same
  have isType : program.resultType? op 0 = some (.torch actual) := by
    rw [Program.resultType?, areResults]
    exact typed
  refine ⟨[atom], (Program.outputs?_of_literal? enter isType isLiteral isAtom ?_).2, ?_⟩
  · rw [isKind]
    rfl
  · rw [areResults]
    exact .cons (.of_type typed plain (Literal.fits_of_atom? isAtom)) .nil

/-- A constant. -/
theorem Program.exists_outputs_const {kind : TorchKind} {type : TorchType} {inputs : List Atom}
    (enter : Nat → List Atom → Option Exit) (isKind : program.kind op = .torch kind)
    (isConst : kind = .constantInt ∧ type = .int ∨ kind = .constantBool ∧ type = .bool)
    (kept : program.verifyTorchValue op kind = .ok ())
    (fits : List.Forall₂ program.Fits (program.operands op) inputs) :
    ∃ outputs, program.outputs? op inputs enter = some outputs ∧
      List.Forall₂ program.Fits (program.results op) outputs := by
  have rule : (do
      program.expectSignature op [] [type]
      if (program.fold? op).isNone then failing "requires a literal value" : Except Error Unit) =
        .ok () := by
    rcases isConst with ⟨rfl, rfl⟩ | ⟨rfl, rfl⟩ <;> exact kept
  obtain ⟨⟨⟩, signature, known⟩ := of_bind_eq_ok rule
  obtain ⟨none, -⟩ := Program.of_expectSignature signature
  rw [List.length_nil, List.length_eq_zero_iff] at none
  rw [none] at fits
  cases fits
  obtain ⟨literal, folded⟩ : ∃ literal, program.fold? op = some literal := by
    cases folded : program.fold? op with
    | some literal => exact ⟨literal, rfl⟩
    | none =>
      rw [folded] at known
      cases known
  rw [Program.fold?, Program.foldWithin_succ_eq, Program.foldFrom, isKind] at folded
  rcases isConst with ⟨rfl, rfl⟩ | ⟨rfl, rfl⟩
  all_goals
    have isLiteral : program.literal? op [] = some literal := by
      unfold Program.literal?
      rw [isKind]
      exact folded
    obtain ⟨value, -, rfl⟩ := Option.map_eq_some_iff.mp folded
    exact Program.exists_outputs_of_literal? enter isKind signature rfl isLiteral rfl

/-- An operation on two integers. -/
theorem Program.exists_outputs_binary {kind : TorchKind} {inputs : List Atom}
    (enter : Nat → List Atom → Option Exit) (isKind : program.kind op = .torch kind)
    (binary : kind.isIntBinary = true) (kept : program.verifyTorchValue op kind = .ok ())
    (fits : List.Forall₂ program.Fits (program.operands op) inputs) :
    ∃ outputs, program.outputs? op inputs enter = some outputs ∧
      List.Forall₂ program.Fits (program.results op) outputs := by
  obtain ⟨type, compute, signature, isCompute, computes⟩ :
      ∃ type compute, program.expectSignature op [.int, .int] [type] = .ok () ∧
        kind.onInts? = some compute ∧
        ∀ a b, ∃ atom, (compute a b).atom? (.torch type) = some atom ∧
          (Ty.torch type).isPlain = true := by
    cases kind <;> first
      | exact ⟨_, _, kept, rfl, fun _ _ => ⟨_, rfl, rfl⟩⟩
      | cases binary
  obtain ⟨two, -, operands, -⟩ := Program.of_expectSignature signature
  have integer {index : Nat} (isInt : [TorchType.int, .int][index]? = some .int) :
      ∃ number, inputs[index]? = some (.int number) := by
    obtain ⟨actual, isActual, isSubtype⟩ := operands index .int isInt
    obtain rfl := TorchType.eq_of_isSubtype rfl isSubtype
    obtain ⟨atom, isInput, ⟨⟨number, rfl⟩, -⟩ | ⟨-, none⟩⟩ := Program.exists_input isActual fits
    · exact ⟨number, isInput⟩
    · cases none
  obtain ⟨a, isFirst⟩ := integer (rfl : [TorchType.int, .int][0]? = some .int)
  obtain ⟨b, isSecond⟩ := integer (rfl : [TorchType.int, .int][1]? = some .int)
  obtain ⟨x, y, rfl⟩ := List.length_eq_two.mp (fits.length_eq.symm.trans two)
  cases isFirst
  cases isSecond
  obtain ⟨atom, isAtom, plain⟩ := computes a b
  have isLiteral : program.literal? op [.int a, .int b] = some (compute a b) := by
    simp [Program.literal?, isKind, isCompute]
  exact Program.exists_outputs_of_literal? enter isKind signature plain isLiteral isAtom

/-- A block that ends with a given operation can be evaluated. -/
def Program.Ends (program : Program) (last : OpId) (ended : Option Exit) : Prop :=
  ∃ inputs exit, List.Forall₂ program.Fits (program.operands last) inputs ∧
    exit? (program.kind last) inputs = some exit ∧ ended = some exit

/-- An operation can end a block with whatever its operands are. -/
def Program.CanEnd (program : Program) (last : OpId) : Prop :=
  (program.kind last).isExit = true ∧
    ∀ inputs, List.Forall₂ program.Fits (program.operands last) inputs →
      ∃ exit, exit? (program.kind last) inputs = some exit

/-- The regions of an operation can be evaluated where they end well. -/
def Program.CanEnter (program : Program) (regions : Regions)
    (enter : Nat → List Atom → Option Exit) : Prop :=
  ∀ index given blocks block body last, regions.get? index = some blocks →
    blocks.entryBlock? = some (block, body) → body.last? = some last → program.CanEnd last →
    List.Forall₂ program.Fits (program.header block).arguments given →
    program.Ends last (enter index given)

/-- A branch. -/
theorem Program.exists_outputs_branch {inputs : List Atom} {enter : Nat → List Atom → Option Exit}
    (isKind : program.kind op = .torch .primIf) (kept : program.verifyBranch op = .ok ())
    (results : ∀ result ∈ program.results op, program.IsPlain result)
    (plain : program.IsPlainBranch op)
    (fits : List.Forall₂ program.Fits (program.operands op) inputs)
    (inside : program.CanEnter (program.regionsOf op) enter) :
    ∃ outputs, program.outputs? op inputs enter = some outputs ∧
      List.Forall₂ program.Fits (program.results op) outputs := by
  obtain ⟨isCondition, two, sides⟩ := Program.of_verifyBranch kept
  obtain ⟨single, without⟩ := plain
  obtain ⟨atom, rfl⟩ := List.length_eq_one_iff.mp (fits.length_eq.symm.trans single)
  obtain ⟨_, isInput, ⟨-, none⟩ | ⟨⟨condition, rfl⟩, -⟩⟩ := Program.exists_input isCondition fits
  · cases none
  cases isInput
  obtain ⟨region, isRegion⟩ : ∃ region,
      (program.regionsOf op).get? (if condition then 0 else 1) = some region := by
    refine ⟨_, List.getElem?_eq_getElem ?_⟩
    rw [two]
    split <;> omega
  obtain ⟨last, isLast, handed⟩ := sides region (List.mem_of_getElem? isRegion)
  obtain ⟨_, block, body, isSame, isEntry, isFinal, ends⟩ := Program.of_terminatorOf? isLast
  cases isSame
  have noArguments := without region (List.mem_of_getElem? isRegion)
  rw [isEntry, Option.all_some, List.isEmpty_iff] at noArguments
  have canEnd : program.CanEnd last := by
    rw [Program.CanEnd, ends]
    exact ⟨rfl, fun inputs _ => ⟨_, rfl⟩⟩
  obtain ⟨yielded, exit, fitting, isExit, entered⟩ :=
    inside _ [] region block body last isRegion isEntry isFinal canEnd (noArguments ▸ .nil)
  rw [ends] at isExit
  cases isExit
  refine ⟨yielded, ?_, Program.fits_of_isHandedTo handed results fitting⟩
  rw [Program.outputs?_branch_iff (.inl isKind)]
  exact ⟨condition, rfl, by rw [entered]; rfl⟩

/-- A round of a loop that hands on what the loop carries. -/
theorem iterate?_of_rounds {round : Int → List Atom → Option Exit} {goesOn : Exit → Bool} {width : Int}
    {carries : List Atom → Prop}
    (each : ∀ position carried, carries carried →
      ∃ exit, round position carried = some exit ∧ carries exit.atoms)
    {count : Nat} {position : Int} {carried : List Atom} (start : carries carried) :
    ∃ outputs, iterate? round goesOn width count position carried = some outputs ∧ carries outputs := by
  induction count generalizing position carried with
  | zero => exact ⟨carried, rfl, start⟩
  | succ count ih =>
    obtain ⟨exit, isRound, holds⟩ := each position carried start
    rw [iterate?, isRound]
    change ∃ outputs, (if goesOn exit then _ else _) = some outputs ∧ carries outputs
    split
    · exact ih holds
    · exact ⟨exit.atoms, rfl, holds⟩

/-- A round ends with a truth value and with values that the loop carries. -/
theorem Program.exists_flag {last : OpId} {flag : ValueId} {values : List ValueId} {given : List Atom}
    (areOperands : program.operands last = flag :: values) (isBool : program.torchTypeOf? flag = some .bool)
    (fits : List.Forall₂ program.Fits (program.operands last) given) :
    ∃ holds others, given = .bool holds :: others ∧ List.Forall₂ program.Fits values others := by
  rw [areOperands] at fits
  obtain _ | ⟨isFlag, fits⟩ := fits
  rcases isFlag.torchTypeOf? with ⟨-, other⟩ | ⟨⟨holds, rfl⟩, -⟩
  · rw [isBool] at other
    cases other
  · exact ⟨holds, _, rfl, fits⟩

/-- A loop. -/
theorem Program.exists_outputs_loop {inputs : List Atom} {enter : Nat → List Atom → Option Exit}
    (isKind : program.kind op = .torch .primLoop) (kept : program.verifyLoop op = .ok ())
    (results : ∀ result ∈ program.results op, program.IsPlain result)
    (inner : ∀ block body, (program.regionsOf op).entryBlock? = some (block, body) →
      ∀ argument ∈ (program.header block).arguments,
        program.IsPlain argument)
    (fits : List.Forall₂ program.Fits (program.operands op) inputs)
    (inside : program.CanEnter (program.regionsOf op) enter) :
    ∃ outputs, program.outputs? op inputs enter = some outputs ∧
      List.Forall₂ program.Fits (program.results op) outputs := by
  obtain ⟨isCount, isStart, initial, region, block, body, position, arguments, last, flag, values,
    isRegion, isEntry, areArguments, isInt, onArguments, isLast, ends, areOperands, isBool, passed⟩ :=
    Program.of_verifyLoop kept
  obtain ⟨_, isFirst, ⟨⟨count, rfl⟩, -⟩ | ⟨-, none⟩⟩ := Program.exists_input isCount fits
  case inr => cases none
  obtain ⟨_, isSecond, ⟨-, none⟩ | ⟨⟨start, rfl⟩, -⟩⟩ := Program.exists_input isStart fits
  case inl => cases none
  obtain ⟨carried, rfl⟩ : ∃ carried, inputs = .int count :: .bool start :: carried := by
    rcases inputs with _ | ⟨first, _ | ⟨second, carried⟩⟩
    · cases isFirst
    · cases isSecond
    · cases isFirst
      cases isSecond
      exact ⟨carried, rfl⟩
  have plain := inner block body (by rw [Regions.entryBlock?, isRegion]; exact isEntry)
  rw [areArguments] at plain
  have starting : List.Forall₂ program.Fits (program.results op) carried :=
    Program.fits_of_isHandedTo initial results (List.forall₂_drop 2 fits)
  have canEnd : program.CanEnd last := by
    rw [Program.CanEnd, ends]
    refine ⟨rfl, fun given fitting => ?_⟩
    obtain ⟨holds, others, rfl, -⟩ := Program.exists_flag areOperands isBool fitting
    exact ⟨_, rfl⟩
  -- One round hands on what the loop carries, so every number of rounds does.
  have each (place : Int) (given : List Atom)
      (fitting : List.Forall₂ program.Fits (program.results op) given) :
      ∃ exit, program.round? op enter (.int place) given = some exit ∧
        List.Forall₂ program.Fits (program.results op) exit.atoms := by
    have entering : List.Forall₂ program.Fits (program.header block).arguments (.int place :: given) := by
      rw [areArguments]
      refine .cons (.of_torchTypeOf? isInt rfl rfl) ?_
      exact Program.fits_of_isHandedTo onArguments
        (fun argument member => plain argument (List.mem_cons_of_mem _ member)) fitting
    obtain ⟨_, exit, yielded, isExit, entered⟩ :=
      inside 0 _ region block body last isRegion isEntry isLast canEnd entering
    obtain ⟨holds, others, rfl, passing⟩ := Program.exists_flag areOperands isBool yielded
    rw [ends] at isExit
    cases isExit
    refine ⟨_, by rw [Program.round?, if_pos (Program.fitResults_of_fits fitting), entered], ?_⟩
    exact Program.fits_of_isHandedTo passed results passing
  cases start with
  | false =>
    exact ⟨carried, (Program.outputs?_loop_iff isKind).mpr ⟨count, false, carried, rfl, rfl⟩, starting⟩
  | true =>
    obtain ⟨outputs, iterated, fitting⟩ := iterate?_of_rounds each starting
    exact ⟨outputs, (Program.outputs?_loop_iff isKind).mpr ⟨count, true, carried, rfl, iterated⟩, fitting⟩

/-- An operation that does not end its block computes values of the types of its results. -/
theorem Program.exists_outputs {inputs : List Atom} {enter : Nat → List Atom → Option Exit}
    (scalar : ∀ part ∈ (Body.cons op (program.regionsOf op) .nil).parts, program.IsScalarPart part)
    (goesOn : (program.kind op).isExit = false) (kept : program.verifyOp symbols op = .ok ())
    (fits : List.Forall₂ program.Fits (program.operands op) inputs)
    (inside : program.CanEnter (program.regionsOf op) enter) :
    ∃ outputs, program.outputs? op inputs enter = some outputs ∧
      List.Forall₂ program.Fits (program.results op) outputs := by
  obtain ⟨isScalar, results, branches⟩ := scalar (.op op) List.mem_cons_self
  unfold Program.verifyOp at kept
  cases isKind : program.kind op with
  | torch kind =>
    rw [isKind] at isScalar goesOn kept
    by_cases binary : kind.isIntBinary = true
    case pos =>
      have rule : program.verifyTorchValue op kind = .ok () := by
        cases kind <;> first
          | exact kept
          | cases binary
      exact Program.exists_outputs_binary enter isKind binary rule fits
    case neg =>
      -- An operation on scalars that is no arithmetic is a constant, a branch or a loop.
      have sorts : kind = .constantInt ∨ kind = .constantBool ∨ kind = .primIf ∨ kind = .primLoop := by
        cases kind <;> simp_all [OpKind.isScalarOp, OpKind.isExit, TorchKind.isIntBinary]
      rcases sorts with rfl | rfl | rfl | rfl
      · exact Program.exists_outputs_const enter isKind (.inl ⟨rfl, rfl⟩) kept fits
      · exact Program.exists_outputs_const enter isKind (.inr ⟨rfl, rfl⟩) kept fits
      · exact Program.exists_outputs_branch isKind kept results (branches isKind) fits inside
      · exact Program.exists_outputs_loop isKind kept results
          (fun block body entry => scalar (.block block) (List.mem_cons_of_mem _
            (List.mem_append_left _ (Regions.parts_of_entryBlock? entry).1))) fits inside
  | func kind =>
    rw [isKind] at isScalar goesOn
    cases kind with
    | ret => cases goesOn
    | func | call => cases isScalar
  | _ =>
    rw [isKind] at isScalar
    cases isScalar

/-! ### Blocks -/

theorem OpKind.isTerminator_of_isExit {kind : OpKind} (isExit : kind.isExit = true) :
    kind.isTerminator = true := by
  unfold OpKind.isExit at isExit
  split at isExit
  case h_5 => cases isExit
  all_goals rfl

mutual

/-- A valid block can be evaluated where what is visible is known. -/
theorem Body.exists_eval (formed : program.WellFormed) (block : Option BlockId) (parent : Option OpId)
    (depth : Nat) : (body : Body) → {visible : List ValueId} → {environment : Environment} →
    {last : OpId} → (∀ visit ∈ body.visits block parent depth, visit ∈ program.visits) →
    (∀ part ∈ body.parts, program.IsScalarPart part) → (body.diagnostics program symbols visible).1 = [] →
    program.Supplies visible environment → body.last? = some last → program.CanEnd last →
    program.Ends last (body.eval program environment)
  | .nil, _, _, _, _, _, _, _, isLast, _ => by cases isLast
  | .cons op regions rest, visible, environment, last, visited, scalar, valid, supplies, isLast,
      canEnd => by
    simp only [Body.diagnostics, List.append_eq_nil_iff] at valid
    obtain ⟨⟨⟨⟨operands, placed⟩, inner⟩, rule⟩, later⟩ := valid
    obtain ⟨inputs, isInputs, fits⟩ := supplies.operands operands
    have self : ⟨op, regions, rest, block, parent, depth⟩ ∈ program.visits :=
      visited _ List.mem_cons_self
    have isInside : program.regionsOf op = regions := formed.regionsOf_eq self
    cases goesOn : (program.kind op).isExit with
    | true =>
      have ends := OpKind.isTerminator_of_isExit goesOn
      unfold Program.misplacedTerminator at placed
      cases rest with
      | cons => simp [ends, Body.isEmpty] at placed
      | nil =>
        cases isLast
        obtain ⟨exit, isExit⟩ := canEnd.2 inputs fits
        exact ⟨inputs, exit, fits, isExit,
          Body.eval_cons_iff.mpr ⟨inputs, isInputs, .inl ⟨goesOn, rfl, isExit⟩⟩⟩
    | false =>
      have entering : program.CanEnter (program.regionsOf op) fun index given =>
          regions.eval program index given environment := by
        rw [isInside]
        exact Regions.exists_eval formed op (depth + 1) regions
          (fun visit member => visited visit (List.mem_cons_of_mem _ (List.mem_append_left _ member)))
          (fun part member => scalar part <| List.mem_cons_of_mem _ (List.mem_append_left _ member)) inner
          supplies
      obtain ⟨outputs, isOutputs, fitting⟩ :=
        Program.exists_outputs (isInside ▸ fun part member => scalar part <| by
          simp only [Body.parts, List.append_nil, List.mem_cons, List.mem_append] at member ⊢
          tauto) goesOn
          (Program.verifyOp_eq_ok rule) fits entering
      obtain ⟨after, assigned, supplied⟩ := supplies.assign fitting
      cases rest with
      | nil =>
        cases isLast
        rw [canEnd.1] at goesOn
        cases goesOn
      | cons next within behind =>
        obtain ⟨final, exit, fits, isExit, ended⟩ := Body.exists_eval formed block parent depth
          (.cons next within behind)
          (fun visit member => visited visit (List.mem_cons_of_mem _ (List.mem_append_right _ member)))
          (fun part member => scalar part <| List.mem_cons_of_mem _ (List.mem_append_right _ member)) later
          supplied isLast canEnd
        exact ⟨final, exit, fits, isExit, Body.eval_cons_iff.mpr
          ⟨inputs, isInputs, .inr ⟨goesOn, outputs, after, isOutputs, assigned, ended⟩⟩⟩

theorem Blocks.exists_eval (formed : program.WellFormed) (parent : OpId) (depth : Nat) :
    (blocks : Blocks) → {visible : List ValueId} → {environment : Environment} →
    (∀ visit ∈ blocks.visits parent depth, visit ∈ program.visits) →
    (∀ part ∈ blocks.parts, program.IsScalarPart part) → blocks.diagnostics program symbols visible = [] →
    program.Supplies visible environment → {given : List Atom} → {block : BlockId} → {body : Body} →
    {last : OpId} → blocks.entryBlock? = some (block, body) → body.last? = some last →
    program.CanEnd last → List.Forall₂ program.Fits (program.header block).arguments given →
    program.Ends last (blocks.eval program given environment)
  | .nil, _, _, _, _, _, _, _, _, _, _, isEntry, _, _, _ => by cases isEntry
  | .cons block body rest, _, environment, visited, scalar, valid, supplies, given, _, _, last, isEntry,
      isLast, canEnd, fits => by
    cases isEntry
    obtain ⟨after, assigned, supplied⟩ := supplies.assign fits
    simp only [Blocks.diagnostics, List.append_eq_nil_iff] at valid
    obtain ⟨inputs, exit, fitting, isExit, ended⟩ := Body.exists_eval formed (some block) (some parent)
      depth body (fun visit member => visited visit (List.mem_append_left _ member))
      (fun part member => scalar part <| List.mem_cons_of_mem _ (List.mem_append_left _ member)) valid.1
      supplied isLast canEnd
    exact ⟨inputs, exit, fitting, isExit, Blocks.eval_cons_iff.mpr ⟨after, assigned, ended⟩⟩

theorem Regions.exists_eval (formed : program.WellFormed) (parent : OpId) (depth : Nat) :
    (regions : Regions) → {visible : List ValueId} → {environment : Environment} →
    (∀ visit ∈ regions.visits parent depth, visit ∈ program.visits) →
    (∀ part ∈ regions.parts, program.IsScalarPart part) → regions.diagnostics program symbols visible = [] →
    program.Supplies visible environment →
    program.CanEnter regions fun index given => regions.eval program index given environment
  | .nil, _, _, _, _, _, _, _, _, _, _, _, _, isRegion, _, _, _, _ => by cases isRegion
  | .cons blocks rest, _, environment, visited, scalar, valid, supplies, index, given, _, _, _, _,
      isRegion, isEntry, isLast, canEnd, fits => by
    simp only [Regions.diagnostics, List.append_eq_nil_iff] at valid
    cases index with
    | zero =>
      cases isRegion
      exact Blocks.exists_eval formed parent depth blocks
        (fun visit member => visited visit (List.mem_append_left _ member))
        (fun part member => scalar part <| List.mem_append_left _ member) valid.1 supplies isEntry isLast
        canEnd fits
    | succ index =>
      exact Regions.exists_eval formed parent depth rest
        (fun visit member => visited visit (List.mem_append_right _ member))
        (fun part member => scalar part <| List.mem_append_right _ member) valid.2 supplies index given _ _ _ _
        isRegion isEntry isLast canEnd fits

end

end TensorIR
