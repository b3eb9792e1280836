import TensorIR.Proofs.Repetition
import TensorIR.Proofs.Scalar.Preparing
import TensorIR.Proofs.Subtyping

/-!
# Where refinement settles

A refinement gives one result the most precise type that is known from its declared type and from the
operands, and casts that are built carry types of their own. So types only become more precise. Where
rewriting stops by itself, every declared type is at least as precise as what follows about it.

## Main definitions

* `Ty.Narrows` — a type is at least as precise as another
* `Program.Agrees` — the declared types of an operation are at least as precise as what follows

## Main results

* `cases_refinements` — at most one result of an operation is refined
* `refineTypes_settles` — types become more precise until nothing more follows
-/

namespace TensorIR

variable {program start now after : Program} {op : OpId} {refinement : Refinement}

/-- The type of a value, if it has one, is the same or a more precise torch type. -/
def Ty.Narrows (now before : Option Ty) : Prop :=
  now = before ∨ ∃ narrow wide, now = some (.torch narrow) ∧ before = some (.torch wide) ∧
    narrow.isSubtype wide = true

theorem Ty.Narrows.trans {now between before : Option Ty} (late : Ty.Narrows now between)
    (early : Ty.Narrows between before) : Ty.Narrows now before := by
  rcases late with rfl | ⟨narrow, middle, rfl, rfl, below⟩
  · exact early
  rcases early with rfl | ⟨other, wide, same, rfl, above⟩
  · exact .inr ⟨narrow, middle, rfl, rfl, below⟩
  · cases same
    exact .inr ⟨narrow, wide, rfl, rfl, TorchType.isSubtype_trans below above⟩

/-- The values of a program have kept their types or got more precise ones. -/
structure Program.Descends (start now : Program) : Prop where
  values_le : start.values.size ≤ now.values.size
  narrows : ∀ value : ValueId, value.index < start.values.size →
    Ty.Narrows (now.typeOf? value) (start.typeOf? value)

namespace Program.Descends

theorem refl (program : Program) : program.Descends program :=
  ⟨le_rfl, fun _ _ => .inl rfl⟩

theorem trans {middle : Program} (early : start.Descends middle) (late : middle.Descends now) :
    start.Descends now where
  values_le := early.values_le.trans late.values_le
  narrows value below :=
    (late.narrows value (below.trans_le early.values_le)).trans (early.narrows value below)

theorem of_value_eq (values_le : start.values.size ≤ now.values.size)
    (value_eq : ∀ value : ValueId, value.index < start.values.size → now.value value = start.value value) :
    start.Descends now where
  values_le := values_le
  narrows value below := .inl (by rw [Program.typeOf?, value_eq value below]; rfl)

/-- A value gets a more precise type. -/
theorem setType {value : ValueId} {narrow wide : TorchType}
    (typed : program.typeOf? value = some (.torch wide)) (below : narrow.isSubtype wide = true) :
    program.Descends (program.setType value (.torch narrow)) where
  values_le := (Array.size_modify ..).ge
  narrows other inside := by
    rw [typeOf?_setType]
    split
    case isTrue same => exact .inr ⟨narrow, wide, rfl, same.1 ▸ typed, below⟩
    case isFalse => exact .inl rfl

end Program.Descends

/-! ### One refinement -/

/-- What follows about an operation follows about its first result. -/
theorem of_inferTypes_eq_ok {types : List Ty} (inferred : program.inferTypes op = .ok (some types)) :
    ∃ info, types = [.torch (.vtensor info)] := by
  unfold Program.inferTypes at inferred
  obtain ⟨info, -, isTypes⟩ := of_bind_eq_ok inferred
  cases info with
  | none => cases isTypes
  | some info =>
    cases isTypes
    exact ⟨info, rfl⟩

/-- What is made of the type that follows: the most precise type known from it and the declared one. -/
theorem of_refinement?_eq_ok {type : TorchType} {index : Nat} {found : Option Refinement}
    (refines : program.refinement? op (.torch type) index = .ok found) :
    ∃ result declared, program.result op index = .ok result ∧ program.typed result = .ok declared ∧
      (declared.torch? = none ∧ found = none ∨ ∃ wide refined, declared = .torch wide ∧
        wide.meet? type = some refined ∧
        found = if refined = wide then none else some ⟨result, wide, refined⟩) := by
  unfold Program.refinement? at refines
  obtain ⟨result, isResult, refines⟩ := of_bind_eq_ok refines
  obtain ⟨declared, isDeclared, refines⟩ := of_bind_eq_ok refines
  refine ⟨result, declared, isResult, isDeclared, ?_⟩
  cases declared with
  | torch wide =>
    refine .inr ⟨wide, ?_⟩
    simp only [] at refines
    split at refines
    case h_1 refined met =>
      cases refines
      exact ⟨refined, rfl, met, rfl⟩
    case h_2 => cases refines
  | scalar _ | shaped _ =>
    cases refines
    exact .inl ⟨rfl, rfl⟩

/-- At most one result of an operation is refined, by what follows about it. -/
theorem cases_refinements {refinements : List Refinement}
    (found : program.refinements op = .ok refinements)
    (allows : (program.kind op).allowsRefinement = true) :
    program.inferTypes op = .ok none ∧ refinements = [] ∨
      ∃ info one, program.inferTypes op = .ok (some [.torch (.vtensor info)]) ∧
        program.refinement? op (.torch (.vtensor info)) 0 = .ok one ∧ refinements = one.toList := by
  unfold Program.refinements at found
  rw [if_pos allows] at found
  split at found
  case h_1 => cases found
  case h_2 inferred =>
    cases found
    exact .inl ⟨inferred, rfl⟩
  case h_3 types inferred =>
    obtain ⟨info, rfl⟩ := of_inferTypes_eq_ok inferred
    obtain ⟨all, isAll, kept⟩ := of_bind_eq_ok found
    cases kept
    rw [List.zipIdx_cons, List.zipIdx_nil, List.mapM_cons] at isAll
    obtain ⟨one, isOne, rest⟩ := of_bind_eq_ok isAll
    cases rest
    refine .inr ⟨info, one, inferred, isOne, ?_⟩
    cases one <;> rfl

/-- The type of the result is all that changes about the values that exist. The cast for the users that
cannot take the new type is a value of its own. -/
theorem exists_setType_of_refineResult {done : Unit}
    (run : (Rewrite.refineResult op refinement).run program = (.ok done, after)) :
    ∃ moved : Program, program.values.size ≤ moved.values.size ∧
      (∀ value : ValueId, value.index < program.values.size → moved.value value = program.value value) ∧
      after = moved.setType refinement.result (.torch refinement.refined) := by
  rcases of_refineResult_eq_ok run with ⟨-, same⟩ | ⟨cast, draft, isCast, same⟩
  case inl => exact ⟨program, le_rfl, fun _ _ => rfl, same⟩
  case inr =>
    have builds : Builds (fun _ => True)
        (Build.value (.torch .tensorStaticInfoCast) [refinement.result] (.torch refinement.declared)) :=
      builds_value trivial _ _ _
    have extended := builds (program.draft op .after)
    rw [isCast] at extended
    refine ⟨_, ?_, fun value below => ?_, same⟩
    all_goals have values := (tables_setUses ((program.usesOf refinement.result).filter fun use =>
      !(program.kind use.op).allowsRefinement) cast draft.finished).2.1
    · rw [values]
      exact extended.program.values_le
    · rw [Program.value, values]
      exact extended.program.value_eq value below

/-- A refinement that changes something gives one result a more precise type. -/
theorem of_refine_eq_ok (run : (Rewrite.refine op).run program = (.ok true, after)) :
    ∃ refinement, program.refinements op = .ok [refinement] ∧ (program.kind op).allowsRefinement = true ∧
      (Rewrite.refineResult op refinement).run program = (.ok (), after) := by
  unfold Rewrite.refine at run
  obtain ⟨refinements, found, run⟩ := of_askFor_bind_eq_ok run
  cases refinements with
  | nil => cases run
  | cons refinement rest =>
    obtain ⟨allows, -⟩ := of_refinements found List.mem_cons_self
    obtain rfl : rest = [] := by
      rcases cases_refinements found allows with ⟨-, none⟩ | ⟨info, one, -, -, same⟩
      · cases none
      · cases one <;> cases same
        rfl
    refine ⟨refinement, found, allows, ?_⟩
    have ran := of_then_true_eq_ok run
    rw [List.forIn_cons] at ran
    obtain ⟨next, middle, first, ended⟩ := of_run_bind_eq_ok ran
    obtain ⟨⟨⟩, between, first, stepped⟩ := of_run_bind_eq_ok first
    cases stepped
    cases ended
    exact first

theorem descends_refine (run : (Rewrite.refine op).run program = (.ok true, after)) :
    program.Descends after := by
  obtain ⟨refinement, found, allows, refined⟩ := of_refine_eq_ok run
  rcases cases_refinements found allows with ⟨-, none⟩ | ⟨info, one, -, isOne, same⟩
  · cases none
  obtain ⟨result, declared, -, isDeclared, ⟨-, rfl⟩ | ⟨wide, narrow, rfl, met, rfl⟩⟩ :=
    of_refinement?_eq_ok isOne
  · cases same
  split at same <;> cases same
  obtain ⟨moved, values_le, value_eq, rfl⟩ := exists_setType_of_refineResult refined
  have typed := Program.typeOf?_of_typed isDeclared
  refine (Program.Descends.of_value_eq values_le value_eq).trans
    (.setType ?_ (TorchType.isSubtype_of_meet? met).1)
  rw [Program.typeOf?, value_eq _ (Program.lt_of_typeOf? typed)]
  exact typed

theorem descends_refineTypes {changed : Bool} (run : Change.refineTypes.run start = (.ok changed, after)) :
    start.Descends after := by
  have carries : Carries start.Descends Change.refineTypes := by
    refine carries_exhaust (fun rewrite member => ?_) fun rewrite member => ?_
    all_goals cases List.mem_singleton.mp member
    · exact Rewrite.idle_refine
    · exact fun op now after descends _ run => descends.trans (descends_refine run)
  exact carries start changed after (.refl start) run

/-! ### Where nothing more follows -/

/-- The declared types of the results of an operation are at least as precise as what follows about them,
and something can be said about what follows. -/
def Program.Agrees (program : Program) (op : OpId) : Prop :=
  ∃ types, program.inferTypes op = .ok types ∧ ∀ inferred ∈ types, ∀ (index : Nat) declared type,
    inferred[index]? = some (.torch type) → program.resultType? op index = some (.torch declared) →
    declared.isSubtype type = true

/-- Where nothing is refined, the declared type is the most precise one known. -/
theorem agrees_of_refinements (none : program.refinements op = .ok [])
    (allows : (program.kind op).allowsRefinement = true) : program.Agrees op := by
  rcases cases_refinements none allows with ⟨inferred, -⟩ | ⟨info, one, inferred, isOne, same⟩
  · exact ⟨_, inferred, by simp⟩
  refine ⟨_, inferred, ?_⟩
  rintro _ ⟨⟩ index declared type isType isDeclared
  obtain ⟨rfl, rfl⟩ : index = 0 ∧ TorchType.vtensor info = type := by
    cases index with
    | zero => simpa using isType
    | succ index => simp at isType
  obtain ⟨result, other, isResult, typed, ⟨plain, -⟩ | ⟨wide, refined, rfl, met, rfl⟩⟩ :=
    of_refinement?_eq_ok isOne
  · rw [Program.resultType?_of_typed isResult typed] at isDeclared
    cases isDeclared
    cases plain
  · rw [Program.resultType?_of_typed isResult typed] at isDeclared
    cases isDeclared
    split at same
    case isTrue known =>
      subst known
      exact (TorchType.isSubtype_of_meet? met).2
    case isFalse => cases same

theorem Rewrite.refinements_of_settled (settled : (Rewrite.refine op).run program = (.ok false, program)) :
    program.refinements op = .ok [] := by
  unfold Rewrite.refine at settled
  obtain ⟨refinements, found, run⟩ := of_askFor_bind_eq_ok settled
  cases refinements with
  | nil => exact found
  | cons first rest =>
    obtain ⟨⟨⟩, middle, -, ended⟩ := of_run_bind_eq_ok run
    cases ended

/-- Refinement that stops by itself has made types more precise until each operation that allows it has
types as precise as what follows about them. Refining once more changes nothing. -/
theorem refineTypes_settles {changed : Bool}
    (below : Rewrite.changesWithin (Rewrite.tryAll [Rewrite.refine]) Rewrite.limit start < Rewrite.limit)
    (run : Change.refineTypes.run start = (.ok changed, after)) :
    (∀ value : ValueId, value.index < start.values.size →
      Ty.Narrows (after.typeOf? value) (start.typeOf? value)) ∧
    (∀ op ∈ after.tree.ops, (after.kind op).allowsRefinement = true → after.Agrees op) ∧
    Change.refineTypes.run after = (.ok false, after) := by
  have settled : ∀ rewrite ∈ [Rewrite.refine], ∀ op ∈ after.tree.ops,
      (rewrite op).run after = (.ok false, after) := by
    refine Rewrite.settled_of_exhaust (fun rewrite member => ?_) below run
    cases List.mem_singleton.mp member
    exact Rewrite.idle_refine
  refine ⟨(descends_refineTypes run).narrows, fun op present allows => ?_,
    Rewrite.exhaust_eq_ok_false settled⟩
  have none := Rewrite.refinements_of_settled (settled _ List.mem_cons_self op present)
  exact agrees_of_refinements none allows

/-- A function with a rectified tensor of unknown sizes, which it returns. -/
def rectifying : Program where
  values := #[⟨some "%x", some (.torch (.vtensor ⟨some [some 2], some .f32⟩)), .argument (some ⟨1⟩)⟩,
    ⟨some "%y", some (.torch (.vtensor ⟨none, none⟩)), .result ⟨1⟩⟩]
  operations := #[
    { kind := .module },
    { kind := .torch .relu, operands := [⟨0⟩], results := [⟨1⟩] },
    { kind := .func .ret, operands := [⟨1⟩] },
    { kind := .func .func, attributes := Attributes.empty.insert "sym_name" (.ofSymbol "f") }]
  headers := #[{}, { arguments := [⟨0⟩] }]
  root := ⟨0⟩
  regions := .single ⟨0⟩ (.single ⟨3⟩ (.single ⟨1⟩ (.cons ⟨1⟩ .nil (.single ⟨2⟩ .nil))))

/-- The rectified tensor gets the type of the tensor it is made from, as follows. -/
theorem refineTypes_settles_rectifying : ∃ after, Change.refineTypes.run rectifying = (.ok true, after) ∧
    after.typeOf? ⟨1⟩ = rectifying.typeOf? ⟨0⟩ ∧ after.Agrees ⟨1⟩ ∧
    Change.refineTypes.run after = (.ok false, after) := by
  have found : (Change.refineTypes.run rectifying).1.toOption = some true := by decide +kernel
  have type : (Change.refineTypes.run rectifying).2.typeOf? ⟨1⟩ = rectifying.typeOf? ⟨0⟩ := by
    decide +kernel
  have present : (⟨1⟩ : OpId) ∈ (Change.refineTypes.run rectifying).2.tree.ops := by decide +kernel
  have allows : ((Change.refineTypes.run rectifying).2.kind ⟨1⟩).allowsRefinement = true := by
    decide +kernel
  rcases run : Change.refineTypes.run rectifying with ⟨error | changed, after⟩
  · rw [run] at found
    cases found
  · rw [run] at found type present allows
    cases found
    obtain ⟨-, agrees, again⟩ := refineTypes_settles (by decide +kernel) run
    exact ⟨after, rfl, type, agrees ⟨1⟩ present allows, again⟩

end TensorIR
