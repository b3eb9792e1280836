import TensorIR.Proofs.Scalar.Preparing

/-!
# Lowering arithmetic keeps what functions return

An operation on integers is superseded by a constant if its result is known, and otherwise by an
operation that computes the same. Operations that are not about scalars have no meaning, so that it
does not matter what comes in their place.

## Main results

* `Program.Means.supersedeBuilt` — what is built for an operation that is not about scalars
* `Program.Means.lowerScalar` — the lowering of an operation on scalars
-/

namespace TensorIR

variable {program after : Program} {op function : OpId} {arguments results : List Atom}
  {start final : Draft}

/-! ### What is built -/

namespace Loops

/-- The result is known, or it is computed from two operands. -/
theorem of_scalarOp_eq_ok {kind : TorchKind} {value : ValueId} (notSize : kind ≠ .sizeInt)
    (run : (scalarOp op kind).run start = (.ok value, final)) :
    ∃ result type lowered, start.program.result op 0 = .ok result ∧
      start.program.typed result = .ok type ∧ Target.loops.lowered? type = .ok (some lowered) ∧
      ((∃ literal, start.program.fold? op = some literal ∧
          (Build.literal literal lowered).run start = (.ok (some value), final)) ∨
        ∃ lhs rhs, start.program.operand op 0 = .ok lhs ∧ start.program.operand op 1 = .ok rhs ∧
          (intOp op kind lhs rhs).run start = (.ok value, final)) := by
  unfold scalarOp at run
  obtain ⟨result, isResult, rest⟩ := Build.of_askFor_bind_eq_ok run
  obtain ⟨type, typed, others⟩ := Build.of_askFor_bind_eq_ok rest
  obtain ⟨lowered, middle, found, known⟩ := of_run_bind_eq_ok others
  clear run rest others
  obtain ⟨isLowered, rfl⟩ := of_counterpart_eq_ok found
  refine ⟨result, type, lowered, isResult, typed, isLowered, ?_⟩
  simp only [if_neg notSize] at known
  rw [run_bind, Build.run_ask] at known
  simp only [] at known
  cases isKnown : middle.program.fold? op with
  | some literal =>
    rw [isKnown] at known
    simp only [] at known
    obtain ⟨constant, between, built, last⟩ := of_run_bind_eq_ok known
    cases constant with
    | none => cases last
    | some constant =>
      cases last
      exact .inl ⟨literal, rfl, built⟩
  | none =>
    rw [isKnown] at known
    simp only [] at known
    obtain ⟨lhs, isLhs, last⟩ := Build.of_askFor_bind_eq_ok known
    obtain ⟨rhs, isRhs, last⟩ := Build.of_askFor_bind_eq_ok last
    exact .inr ⟨lhs, rhs, isLhs, isRhs, last⟩

theorem of_scalarType_eq_ok {value : ValueId} {type : ScalarType}
    (run : (scalarType value).run start = (.ok type, final)) :
    start.program.typeOf? value = some (.scalar type) ∧ final = start := by
  unfold scalarType at run
  rw [Build.run_askFor] at run
  obtain ⟨found, rfl⟩ := Prod.mk.inj run
  refine ⟨?_, rfl⟩
  obtain ⟨other, typed, found⟩ := of_bind_eq_ok found
  split at found
  case h_1 =>
    cases found
    exact Program.typeOf?_of_typed typed
  case h_2 => cases found

end Loops

/-- An operation of a lowered program on two integers computes what an operation before lowering
does. -/
def TorchKind.IsComputedBy (kind : TorchKind) (arith : ArithKind) (attributes : Attributes)
    (type : ScalarType) : Prop :=
  ∀ compute a b (source : TorchType) atom, kind.onInts? = some compute →
    (compute a b).atom? (.torch source) = some atom →
    ∃ literal : Literal, literal.atom? (.scalar type) = some atom ∧ ∀ (now : Program) (id : OpId),
      now.kind id = .arith arith → now.attributes id = attributes →
      now.literal? id [.int a, .int b] = some literal

/-- Sums, differences and products. -/
theorem isComputedBy_onInts {kind : TorchKind} {arith : ArithKind} (change : Int → Int → Int)
    (isKind : kind.onInts? = some fun a b => .int (change a b))
    (isArith : arith.onInts? = some fun a b => some (change a b)) :
    kind.IsComputedBy arith .empty .i64 := by
  intro compute a b source atom isCompute isAtom
  rw [isKind, Option.some.injEq] at isCompute
  subst isCompute
  refine ⟨.int (change a b), ?_, fun now id isKind _ => ?_⟩
  · cases source <;> cases isAtom
    rfl
  · cases arith <;> simp_all [Program.literal?, ArithKind.onInts?]

/-- Comparisons. -/
theorem isComputedBy_compare {kind : TorchKind} {predicate : String} (holds : Int → Int → Bool)
    (isKind : kind.onInts? = some fun a b => .bool (holds a b))
    (isPredicate : ∀ a b, compareInts predicate .i64 a b = .ok (holds a b)) :
    kind.IsComputedBy .cmpi (Attributes.empty.insert "predicate" (.str predicate)) .i1 := by
  intro compute a b source atom isCompute isAtom
  rw [isKind, Option.some.injEq] at isCompute
  subst isCompute
  refine ⟨.bool (holds a b), ?_, fun now id isKind attributes => ?_⟩
  · cases source <;> cases isAtom
    rfl
  · have named : now.stringOf id "predicate" = predicate := by
      rw [Program.stringOf, attributes]
      rfl
    simp [Program.literal?, isKind, named, isPredicate, Except.toOption]

/-- One operation is built on two values. On two integers it computes what an operation before lowering
does. -/
def Loops.AddsFor (kind : TorchKind) (lhs rhs value : ValueId) (start final : Draft) : Prop :=
  ∃ source arith attributes type, start.program.typeOf? lhs = some (.scalar source) ∧
    value = ⟨start.program.values.size⟩ ∧
    start.Adds (.arith arith) [lhs, rhs] attributes [.scalar type] final ∧
    (source = .i64 → kind.IsComputedBy arith attributes type)

/-- The kind and the type of what is built follow from the type of the first value. -/
theorem Loops.addsFor_of_typed {kind : TorchKind} {lhs rhs value : ValueId} {attributes : Attributes}
    (arith : ScalarType → ArithKind) (type : ScalarType → ScalarType)
    (computes : kind.IsComputedBy (arith .i64) attributes (type .i64))
    (placed : start.anchor ≠ start.program.root)
    (run : (Loops.scalarType lhs >>= fun source =>
      Build.value (.arith (arith source)) [lhs, rhs] (.scalar (type source)) attributes).run start =
        (.ok value, final)) : Loops.AddsFor kind lhs rhs value start final := by
  obtain ⟨source, middle, found, last⟩ := of_run_bind_eq_ok run
  obtain ⟨typed, rfl⟩ := Loops.of_scalarType_eq_ok found
  obtain ⟨after, built, adds⟩ := adds_value (.arith (arith source)) [lhs, rhs] (.scalar (type source))
    attributes placed
  obtain ⟨isValue, rfl⟩ := Prod.mk.inj (built.symm.trans last)
  cases isValue
  refine ⟨source, _, _, _, typed, rfl, adds, ?_⟩
  rintro rfl
  exact computes

/-- The operation on two integers that is built. -/
theorem Loops.addsFor_intOp {kind : TorchKind} {lhs rhs value : ValueId} (binary : kind.isIntBinary = true)
    (placed : start.anchor ≠ start.program.root)
    (run : (Loops.intOp op kind lhs rhs).run start = (.ok value, final)) :
    Loops.AddsFor kind lhs rhs value start final := by
  -- Arithmetic keeps the type of its operands, and a comparison gives a truth value.
  have plain (operation : Loops.Binary) (computes : kind.IsComputedBy (operation.kind false) .empty .i64)
      (made : (Loops.binary operation lhs rhs).run start = (.ok value, final)) :
      Loops.AddsFor kind lhs rhs value start final :=
    Loops.addsFor_of_typed (operation.kind ·.isFloat) id computes placed made
  have compared (predicate : String)
      (computes : kind.IsComputedBy .cmpi (Attributes.empty.insert "predicate" (.str predicate)) .i1)
      (made : (Loops.compare predicate lhs rhs).run start = (.ok value, final)) :
      Loops.AddsFor kind lhs rhs value start final :=
    Loops.addsFor_of_typed (if ·.isFloat then .cmpf else .cmpi) (fun _ => .i1) computes placed made
  unfold Loops.intOp at run
  split at run
  case h_1 => exact plain .add (isComputedBy_onInts _ rfl rfl) run
  case h_2 => exact plain .sub (isComputedBy_onInts _ rfl rfl) run
  case h_3 => exact plain .mul (isComputedBy_onInts _ rfl rfl) run
  case h_4 => exact compared "slt" (isComputedBy_compare _ rfl fun a b => by simp [compareInts]) run
  case h_5 => exact compared "sgt" (isComputedBy_compare _ rfl fun a b => by simp [compareInts]) run
  case h_6 => exact compared "eq" (isComputedBy_compare _ rfl fun a b => by simp [compareInts]) run
  case h_7 => exact compared "ne" (isComputedBy_compare _ rfl fun a b => by simp [compareInts]) run
  case h_8 => unfold TorchKind.isIntBinary at binary; split at binary <;> simp_all

/-! ### One operation in place of another -/

/-- An operation of a program before lowering is a constant, or it computes from two integers. -/
theorem Program.of_literal?_torch {kind : TorchKind} {inputs : List Atom} {literal : Literal}
    (isKind : program.kind op = .torch kind) (found : program.literal? op inputs = some literal) :
    (inputs = [] ∧ program.torchConstant? op kind = some literal) ∨
      ∃ a b compute, inputs = [.int a, .int b] ∧ kind.onInts? = some compute ∧
        literal = compute a b := by
  unfold Program.literal? at found
  rw [isKind] at found
  split at found
  case h_6 other isOther =>
    cases isOther
    exact .inl ⟨rfl, found⟩
  case h_7 other a b isOther =>
    cases isOther
    simp only [Option.bind_eq_bind, Option.bind_eq_some_iff, Option.pure_def, Option.some.injEq]
      at found
    obtain ⟨compute, isCompute, rfl⟩ := found
    exact .inr ⟨a, b, compute, rfl, isCompute, rfl⟩
  case h_8 => cases found
  all_goals contradiction

/-- What an operation on two integers computes. -/
theorem Program.of_intBinary {kind : TorchKind} {inputs outputs : List Atom}
    {enter : Nat → List Atom → Option Exit} (isKind : program.kind op = .torch kind)
    (binary : kind.isIntBinary = true) (computed : program.outputs? op inputs enter = some outputs) :
    ∃ a b compute type atom, inputs = [.int a, .int b] ∧ kind.onInts? = some compute ∧
      (compute a b).atom? (.torch type) = some atom ∧ outputs = [atom] := by
  unfold Program.outputs? at computed
  split at computed
  case h_5 =>
    simp only [Option.bind_eq_bind, Option.bind_eq_some_iff, Option.ite_none_right_eq_some,
      Option.some.injEq] at computed
    obtain ⟨type, -, literal, isLiteral, atom, isAtom, suits, rfl⟩ := computed
    rw [isKind] at suits
    obtain ⟨source, rfl⟩ : ∃ source, type = .torch source := by
      cases type with
      | torch source => exact ⟨source, rfl⟩
      | scalar | shaped => cases suits
    rcases Program.of_literal?_torch isKind isLiteral with ⟨-, isConstant⟩ | ⟨a, b, compute, rfl, isCompute, rfl⟩
    · cases kind <;> first | (simp [Program.torchConstant?] at isConstant; done) | cases binary
    · exact ⟨a, b, compute, source, atom, rfl, isCompute, isAtom, rfl⟩
  all_goals
    rename_i same
    rw [isKind] at same
    cases same
  all_goals cases binary

/-- An operation on two integers may be superseded by its counterpart. -/
theorem Program.computedBy_intOp {kind : TorchKind} {lhs rhs : ValueId} {source type : ScalarType}
    {arith : ArithKind} {attributes : Attributes} (isKind : program.kind op = .torch kind)
    (binary : kind.isIntBinary = true) (isLhs : program.operand op 0 = .ok lhs)
    (isRhs : program.operand op 1 = .ok rhs) (typed : program.typeOf? lhs = some (.scalar source))
    (computes : source = .i64 → kind.IsComputedBy arith attributes type) :
    program.ComputedBy op (.arith arith) [lhs, rhs] attributes (.scalar type) := by
  intro parts environment inputs outputs enter admits isInputs isOutputs
  obtain ⟨a, b, compute, origin, atom, rfl, isCompute, isAtom, rfl⟩ :=
    Program.of_intBinary isKind binary isOutputs
  have same : program.operands op = [lhs, rhs] := by
    have first := Program.getElem?_of_operand isLhs
    have second := Program.getElem?_of_operand isRhs
    have length_eq := length_of_mapM isInputs
    cases operands : program.operands op with
    | nil => simp [operands] at first
    | cons one others =>
      cases others with
      | nil => simp [operands] at second
      | cons two more => simp_all
  rw [same] at isInputs
  have isFirst : environment lhs = some (.int a) := by
    obtain ⟨known, isKnown, isInput⟩ := known_of_mapM isInputs (show [lhs, rhs][0]? = some lhs from rfl)
    rw [isKnown, ← isInput]
    rfl
  have isSource : source = .i64 := by
    have fits := admits.fits lhs _ isFirst
    rw [typed] at fits
    cases source <;> first | rfl | cases fits
  obtain ⟨literal, isLiteral, each⟩ := computes isSource compute a b origin atom isCompute isAtom
  exact ⟨atom, _, literal, rfl, isInputs, isLiteral, fun now id isArith attributes _ =>
    each now id isArith attributes⟩

/-- The counterpart of a type has the values of the type. -/
theorem atom?_lowered {literal : Literal} {type lowered : Ty} {atom : Atom}
    (isLowered : Target.loops.lowered? type = .ok (some lowered))
    (isAtom : literal.atom? type = some atom) : literal.atom? lowered = some atom := by
  unfold Literal.atom? at isAtom
  split at isAtom
  all_goals first
    | cases isAtom
      cases isLowered
      rfl
    | cases isAtom

/-- Whatever is built may come in the place of an operation that is not about scalars. -/
theorem Program.Means.supersedeBuilt {allowed : OpKind → Prop}
    (means : program.Means function arguments results) (present : op ∈ program.tree.ops)
    (silent : (program.kind op).hasMeaning = false) (notModule : program.kind op ≠ .module)
    (notFunction : program.kind op ≠ .func .func)
    (built : (program.draft op .before).Extends allowed [] final) {value : ValueId} {done : Unit}
    (run : (Change.supersede op value).run final.finished = (.ok done, after)) :
    after.Means function arguments results := by
  have formed := means.formed
  obtain ⟨visit, visited, rfl⟩ := Program.exists_visit present
  have owns := formed.owns_results present notFunction
  have below := (formed.knows _ (Body.op_mem_parts.mpr present)).1
  have evolved : program.Evolves allowed final.finished := built.evolves formed
  have later : final.finished.Evolves allowed after :=
    (evolving_supersede visit.op value).of_run (evolved.wellFormed formed) run
  have sameKind := evolved.kind_eq visit.op below
  have discards := discards_supersede (evolved.wellFormed formed)
    (built.visited formed (means.ne_root notModule) visited rfl) (sameKind ▸ notFunction) run
  have alters : program.Alters (program.Owned visit.op) visit.op _ after :=
    (alters_build built).trans (discards.alters _ fun result isResult => by
      rw [evolved.results_eq visit.op below notFunction] at isResult
      exact Program.owned_results (owns.origin_eq result isResult))
  exact means.alter_silent (later.wellFormed (evolved.wellFormed formed))
    (evolved.toGrows.trans later.toGrows) alters present silent notModule notFunction

/-- The lowering of an operation on scalars. -/
theorem Program.Means.lowerScalar {kind : TorchKind} {value : ValueId}
    (means : program.Means function arguments results) (present : op ∈ program.tree.ops)
    (isKind : program.kind op = .torch kind) (meaningful : (program.kind op).hasMeaning = true)
    (isScalar : kind.isScalar = true)
    (built : (Loops.scalarOp op kind).run (program.draft op .before) = (.ok value, final))
    (run : (Change.supersede op value).run final.finished = (.ok (), after)) :
    after.Means function arguments results := by
  have notExit : (program.kind op).isExit = false := by
    rw [isKind]
    cases kind <;> first | rfl | cases isScalar
  have notModule : program.kind op ≠ .module := by rw [isKind]; nofun
  have notFunction : program.kind op ≠ .func .func := by rw [isKind]; nofun
  have extended : (program.draft op .before).Extends OpKind.IsTarget [] final := by
    have builds : BuildsTarget (Loops.scalarOp op kind) := Loops.builds_scalarOp
    have extends_ := builds (program.draft op .before)
    rwa [built] at extends_
  have placed : (program.draft op .before).anchor ≠ (program.draft op .before).program.root :=
    means.ne_root notModule
  have notSize : kind ≠ .sizeInt := by
    rintro rfl
    rw [isKind] at meaningful
    cases meaningful
  obtain ⟨result, type, lowered, isResult, typed, isLowered, ⟨literal, folded, constant⟩ |
    ⟨lhs, rhs, isLhs, isRhs, computed⟩⟩ := Loops.of_scalarOp_eq_ok notSize built
  · have realized : Build.Realizes literal lowered (program.draft op .before) _ :=
      realizes_literal literal lowered placed
    rcases realized with ⟨draft, none⟩ | ⟨constantKind, data, draft, some, adds, stands⟩
    · rw [none] at constant
      cases constant
    · obtain ⟨isValue, rfl⟩ := Prod.mk.inj (some.symm.trans constant)
      cases isValue
      exact means.supersede present notExit notModule notFunction stands.notFunction stands.suits
        extended adds
        (Program.computedBy_constant folded (Program.resultType?_of_typed isResult typed)
          (fun _ => atom?_lowered isLowered) stands) run
  · have binary : kind.isIntBinary = true := by
      unfold Loops.intOp at computed
      split at computed
      case h_8 => cases computed
      all_goals rfl
    obtain ⟨source, arith, data, scalar, isSource, rfl, adds, computes⟩ :=
      Loops.addsFor_intOp binary placed computed
    have notCall : OpKind.arith arith ≠ .func .func := nofun
    exact means.supersede present notExit notModule notFunction notCall rfl extended adds
      (Program.computedBy_intOp isKind binary isLhs isRhs isSource computes) run

end TensorIR
