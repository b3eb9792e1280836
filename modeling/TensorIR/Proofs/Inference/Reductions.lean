import TensorIR.Proofs.Inference.Declared
import TensorIR.Proofs.Tensors.Reductions

/-!
# The dimensions of a sum

A sum lists the dimensions that it runs over, counted from the front or from the end, or it lists none and runs over
all of them. The sizes that are inferred for the result are those that remain.

## Main definitions

* `Program.ListsDims` — the operand of a sum that lists dimensions is known
* `Program.dimsAmong` — the dimensions that a sum over listed dimensions runs over

## Main results

* `Program.reducedDims_eq` — the dimensions are found from the listed ones
* `Program.of_dimsAmong` — they are the listed ones, or all of them
* `Program.of_sum` — the result of a sum has the sizes that remain
-/

namespace TensorIR

namespace Program

open Shape (remaining kept normalizeDim? isSummed)

/-- The sizes that are inferred for a sum are those that remain. -/
theorem reducedSizes_eq (dims : List Nat) (keep : Bool) (sizes : List Int) :
    reducedSizes dims keep (sizes.map some) = (remaining dims.contains (kept keep 1) sizes).map some := by
  have from_ (first : Nat) :
      ((sizes.map some).zipIdx first).filterMap (fun entry =>
        if !dims.contains entry.2 then some entry.1 else if keep then some (some 1) else none) =
      (remaining (fun dim => dims.contains (dim + first)) (kept keep 1) sizes).map some := by
    induction sizes generalizing first with
    | nil => rfl
    | cons size sizes ih =>
      have later : (remaining (fun dim => dims.contains (dim + 1 + first)) (kept keep 1) sizes) =
          remaining (fun dim => dims.contains (dim + (first + 1))) (kept keep 1) sizes :=
        Shape.remaining_congr fun dim _ => by rw [Nat.add_assoc, Nat.add_comm 1 first]
      rw [List.map_cons, List.zipIdx_cons, List.filterMap_cons, ih, remaining, Nat.zero_add, later]
      cases dims.contains first <;> cases keep <;> rfl
  exact from_ 0

/-- The positions of listed dimensions are found one after the other. -/
theorem of_positionsOf {rank : Nat} {listed : List Int} {answer : Option (List Nat)} : ∀ {seen : List Nat},
    positionsOf rank seen (listed.map some) = .ok answer → ∃ found, answer = some (seen ++ found) ∧
      List.Forall₂ (fun dim position => normalizeDim? dim rank = some position) listed found := by
  induction listed with
  | nil =>
    intro seen run
    cases run
    exact ⟨[], by rw [List.append_nil], .nil⟩
  | cons dim listed ih =>
    intro seen run
    rw [List.map_cons, positionsOf] at run
    split at run
    case h_1 => cases run
    case h_2 first isFirst =>
      split at run
      case isTrue => cases run
      case isFalse =>
        obtain ⟨found, rfl, each⟩ := ih run
        exact ⟨first :: found, by rw [List.append_assoc, List.singleton_append], .cons isFirst each⟩

theorem normalizeDim?_eq_some_iff {dim : Int} {rank position : Nat} (below : position < rank) :
    normalizeDim? dim rank = some position ↔ dim = position ∨ dim = (position : Int) - rank := by
  rw [normalizeDim?]
  simp only [Option.ite_none_right_eq_some, Option.some.injEq]
  split <;> omega

/-- The dimensions that a sum over listed dimensions runs over, in increasing order. -/
def dimsAmong (rank : Nat) (listed : List Int) : Except Error (Option (List Nat)) := do
  match ← positionsOf rank [] (listed.map some) with
  | none => return none
  | some [] => return some (List.range rank)
  | some positions => return some (positions.mergeSort (· ≤ ·))

/-- They are the dimensions that are listed, or all of them. -/
theorem of_dimsAmong {rank : Nat} {listed : List Int} {answer : Option (List Nat)}
    (run : dimsAmong rank listed = .ok answer) :
    ∃ dims, answer = some dims ∧ ∀ dim, dim ∈ dims ↔ dim < rank ∧ isSummed listed rank dim = true := by
  obtain ⟨_, isFound, run⟩ := of_bind_eq_ok run
  obtain ⟨found, rfl, each⟩ := of_positionsOf isFound
  simp only [isSummed, Bool.or_eq_true, List.isEmpty_iff, List.contains_iff_mem, or_assoc]
  cases each with
  | nil =>
    cases run
    exact ⟨_, rfl, fun dim => by simp⟩
  | @cons first position listed found isFirst each =>
    cases run
    have whole : List.Forall₂ (fun dim position => normalizeDim? dim rank = some position) (first :: listed)
        (position :: found) := .cons isFirst each
    refine ⟨_, rfl, fun dim => ?_⟩
    rw [List.nil_append, List.mem_mergeSort]
    constructor
    · intro among
      obtain ⟨_, isListed, isPosition⟩ := forall₂_mem_right whole among
      have below := Shape.lt_of_normalizeDim? isPosition
      rcases (normalizeDim?_eq_some_iff below).mp isPosition with rfl | rfl
      · exact ⟨below, .inr (.inl isListed)⟩
      · exact ⟨below, .inr (.inr isListed)⟩
    · rintro ⟨below, isSummed⟩
      -- A dimension is listed by its own number or by the one counted from the end.
      have found {listedDim : Int} (isListed : listedDim ∈ first :: listed)
          (same : listedDim = dim ∨ listedDim = (dim : Int) - rank) : dim ∈ position :: found := by
        obtain ⟨other, among, isPosition⟩ := forall₂_mem_left whole isListed
        rw [(normalizeDim?_eq_some_iff below).mpr same] at isPosition
        exact Option.some.inj isPosition ▸ among
      rcases isSummed with empty | isListed | isListed
      · cases empty
      · exact found isListed (.inl rfl)
      · exact found isListed (.inr rfl)

theorem isSummed_of_dimsAmong {rank : Nat} {listed : List Int} {dims : List Nat}
    (run : dimsAmong rank listed = .ok (some dims)) :
    ∀ dim < rank, dims.contains dim = isSummed listed rank dim := by
  intro dim below
  obtain ⟨_, same, among⟩ := of_dimsAmong run
  cases same
  rw [Bool.eq_iff_iff, List.contains_iff_mem, among]
  exact and_iff_right below

/-! ### The operands of a sum -/

variable {program : Program} {op : OpId} {value : ValueId} {listed : List Int}

/-- It is known which dimensions a value lists. The absent value lists none. -/
def ListsDims (program : Program) (value : ValueId) (listed : List Int) : Prop :=
  program.isNone value = true ∧ listed = [] ∨ program.foldIntList? value = some listed

/-- A list is not the absent value. -/
theorem isNone_of_foldIntList? (known : program.foldIntList? value = some listed) : program.isNone value = false := by
  obtain ⟨elements, isElements, -⟩ := Option.bind_eq_some_iff.mp known
  obtain ⟨producer, produced, isElements⟩ := Option.bind_eq_some_iff.mp isElements
  split at isElements
  case isFalse => cases isElements
  case isTrue isList =>
    have unknown : program.fold? producer = none := by
      rw [fold?, foldWithin, isList]
      rfl
    rw [isNone, foldValue?, produced, Option.bind_some, unknown]
    rfl

theorem eq_map_some_of_mapM_id : ∀ {elements : List (Option Int)} {listed : List Int},
    elements.mapM id = some listed → elements = listed.map some
  | [], _, all => by
    cases all
    rfl
  | element :: elements, _, all => by
    simp only [List.mapM_cons, id_eq, Option.bind_eq_bind, Option.bind_eq_some_iff, Option.pure_def] at all
    obtain ⟨_, rfl, rest, areRest, done⟩ := all
    cases done
    rw [List.map_cons, eq_map_some_of_mapM_id areRest]

/-- The dimensions that a sum runs over are found from those that are listed. -/
theorem reducedDims_eq (isOperand : program.operand op 1 = .ok value) (lists : program.ListsDims value listed)
    (rank : Nat) : program.reducedDims op rank = dimsAmong rank listed := by
  rw [reducedDims, isOperand, ok_bind]
  rcases lists with ⟨isNone, rfl⟩ | known
  · rw [if_pos isNone]
    rfl
  · rw [isNone_of_foldIntList? known, if_neg Bool.false_ne_true, listOperand, isOperand, ok_bind]
    obtain ⟨elements, isElements, all⟩ := Option.bind_eq_some_iff.mp known
    rw [isElements, eq_map_some_of_mapM_id all]
    rfl

/-- The result of a sum has the sizes that remain. -/
theorem of_sum {symbols : SymbolTable} {shape input : List Int} {dtype inputDtype : Dtype} {flag : ValueId}
    {keep : Bool}
    (isSum : program.kind op = .torch .sumDimIntList) (verified : program.verifyOp symbols op = .ok ())
    (declared : program.resultType op 0 = .ok (.vtensor (.ofShape shape dtype)))
    (isInput : program.tensorOperand op 0 = .ok (.ofShape input inputDtype))
    (isDims : program.operand op 1 = .ok value) (lists : program.ListsDims value listed)
    (isFlag : program.operand op 2 = .ok flag) (isKept : program.foldBool? flag = some keep) :
    ∃ dims, dimsAmong input.length listed = .ok (some dims) ∧
      shape = remaining (isSummed listed input.length) (kept keep 1) input := by
  obtain ⟨inferred, isInferred, met⟩ := exists_inferred isSum rfl verified declared
  have run := of_some_map_eq_ok isInferred
  unfold inferSum at run
  obtain ⟨⟨⟩, -, run⟩ := of_bind_eq_ok run
  rw [isInput, ok_bind] at run
  obtain ⟨⟨⟩, -, run⟩ := of_bind_eq_ok run
  obtain ⟨⟨⟩, -, run⟩ := of_bind_eq_ok run
  obtain ⟨⟨⟩, -, run⟩ := of_bind_eq_ok run
  obtain ⟨code, -, run⟩ := of_bind_eq_ok run
  have sizes {found : Option Dtype} (last : (program.reducedDims op (input.map some).length >>= fun dims =>
      (pure (TensorInfo.mk (dims.map fun dims => reducedSizes dims keep (input.map some)) found) :
        Except Error TensorInfo)) = .ok inferred) : ∃ dims, dimsAmong input.length listed = .ok (some dims) ∧
          shape = remaining (isSummed listed input.length) (kept keep 1) input := by
    rw [reducedDims_eq isDims lists, List.length_map] at last
    obtain ⟨answer, isAnswer, last⟩ := of_bind_eq_ok last
    obtain ⟨dims, rfl, -⟩ := of_dimsAmong isAnswer
    cases last
    have inferred_eq := TensorInfo.sizes_of_meet? met (congrArg some (reducedSizes_eq dims keep input))
    exact ⟨dims, isAnswer, inferred_eq.symm.trans (Shape.remaining_congr (isSummed_of_dimsAmong isAnswer))⟩
  simp only [isFlag, isKept, TensorInfo.ofShape, bind, Except.bind] at run
  split at run
  case h_1 =>
    split at run
    case h_1 => exact sizes run
    case h_2 => cases run
  case h_2 => exact sizes run

end Program

end TensorIR
