import TensorIR.Proofs.Rewriting
import TensorIR.Proofs.Verified

/-!
# What a failed lowering leaves behind

A lowering that fails before anything is converted leaves a program of modules, functions and torch
operations. The conversion itself can fail late, when it finds that a parameter of an operation is not
known, and then the operations that it has created until then are left in the program.

## Main definitions

* `Program.IsSource` — a program before lowering
* `Program.Unlowered` — a program that has evolved without operations of a target

## Main results

* `lower_failed_iff` — when a failed lowering has created operations of the target
-/

namespace TensorIR

open Program

/-- A program before lowering: it consists of modules, functions and torch operations. -/
def Program.IsSource (program : Program) : Prop :=
  ∀ op ∈ program.tree.ops, (program.kind op).isSource = true

instance (program : Program) : Decidable program.IsSource :=
  inferInstanceAs (Decidable (∀ op ∈ program.tree.ops, _))

/-- The operation belongs to programs before lowering, and no constant can take its place. -/
def OpKind.IsSettled (kind : OpKind) : Prop :=
  kind.isSource = true ∧ kind.isFolded = false

theorem TorchKind.isSettled_of_isConst {kind : TorchKind} (isConst : kind.isConst = true) :
    OpKind.IsSettled (.torch kind) := by
  refine ⟨rfl, ?_⟩
  unfold TorchKind.isConst at isConst
  split at isConst
  case h_7 => cases isConst
  all_goals rfl

theorem TorchKind.isIntBinary_of_onInts? {kind : TorchKind} {compute : Int → Int → Literal}
    (computes : kind.onInts? = some compute) : kind.isIntBinary = true := by
  unfold TorchKind.onInts? at computes
  split at computes
  case h_8 => cases computes
  all_goals rfl

/-- A result of a program before lowering can only become known if an operation on known values
computes it. -/
theorem isFolded_of_knownResult? {program : Program} {op : OpId} {literal : Literal}
    (source : (program.kind op).isSource = true)
    (known : Rewrite.knownResult? program op = some literal) :
    (program.kind op).isFolded = true := by
  unfold Rewrite.knownResult? at known
  simp only [] at known
  split at known
  case isFalse => cases known
  case isTrue condition =>
    simp only [Bool.and_eq_true, Bool.not_eq_true'] at condition
    obtain ⟨⟨-, noConst⟩, -⟩ := condition
    unfold Program.fold? Program.foldWithin at known
    cases isKind : program.kind op with
    | torch kind =>
      simp only [isKind] at known noConst
      split at known
      case h_4 same => cases same; rfl
      case h_5 same => cases same; rfl
      case h_6 torchKind _ _ same =>
        cases same
        rw [if_neg (by simpa [OpKind.isConst] using noConst)] at known
        obtain ⟨compute, computes, -⟩ := Option.bind_eq_some_iff.mp known
        simp [OpKind.isFolded, TorchKind.isIntBinary_of_onInts? computes]
      all_goals contradiction
    | module | func => simp [isKind] at known
    | arith | math | memref | scf | tosa => rw [isKind] at source; cases source

theorem Program.result_eq_ok {program : Program} {op : OpId} {index : Nat} {value : ValueId} :
    program.result op index = .ok value ↔ (program.results op)[index]? = some value := by
  unfold Program.result
  cases (program.results op)[index]? <;> simp

/-- A valid program before lowering, and another one that it has become without operations of a
target. -/
structure Program.Unlowered (start now : Program) : Prop where
  start_formed : start.WellFormed
  start_source : start.IsSource
  start_torch : ∀ op ∈ start.tree.ops, (start.kind op).isFolded = true →
    ∃ value, start.result op 0 = .ok value ∧ (start.torchTypeOf? value).isSome
  formed : now.WellFormed
  evolved : start.Evolves OpKind.IsSettled now

theorem unlowered_self {program : Program} (formed : program.WellFormed) (source : program.IsSource)
    (valid : program.verify = .ok ()) : program.Unlowered program where
  start_formed := formed
  start_source := source
  start_torch _ member folded := torch_result_of_verify valid member folded
  formed := formed
  evolved := Evolves.refl program

namespace Program.Unlowered

variable {start now after : Program}

theorem trans (unlowered : start.Unlowered now) (evolved : now.Evolves OpKind.IsSettled after) :
    start.Unlowered after :=
  { unlowered with
    formed := evolved.wellFormed unlowered.formed
    evolved := unlowered.evolved.trans evolved }

/-- Operations of the tree have been there before, or are new and settled. -/
theorem kind_cases (unlowered : start.Unlowered now) {op : OpId} (member : op ∈ now.tree.ops) :
    (op ∈ start.tree.ops ∧ op.index < start.operations.size ∧ now.kind op = start.kind op) ∨
      OpKind.IsSettled (now.kind op) := by
  rcases unlowered.evolved.mem_or_isNew (Body.op_mem_parts.mpr member) with old | new
  · have below := (unlowered.start_formed.knows _ old).1
    exact .inl ⟨Body.op_mem_parts.mp old, below, unlowered.evolved.kind_eq op below⟩
  · exact .inr (unlowered.evolved.kind_new op new)

theorem isSource (unlowered : start.Unlowered now) : now.IsSource := by
  intro op member
  rcases unlowered.kind_cases member with ⟨before, -, same⟩ | settled
  · rw [same]
    exact unlowered.start_source op before
  · exact settled.1

/-- Results that may become known have torch types. -/
theorem torch_result (unlowered : start.Unlowered now) {op : OpId} {result : ValueId}
    (member : op ∈ now.tree.ops) (folded : (now.kind op).isFolded = true)
    (found : now.result op 0 = .ok result) : (now.torchTypeOf? result).isSome := by
  rcases unlowered.kind_cases member with ⟨before, below, same⟩ | settled
  · rw [same] at folded
    have noFunc (kind : FuncKind) : start.kind op ≠ .func kind := by
      intro isKind
      rw [isKind] at folded
      cases folded
    obtain ⟨value, first, torch⟩ := unlowered.start_torch op before folded
    have results := unlowered.evolved.results_eq op below (noFunc _)
    rw [Program.result_eq_ok] at first found
    rw [results, first] at found
    cases found
    have owns := (unlowered.start_formed.knows _ (Body.op_mem_parts.mpr before)).2 (noFunc _)
    have among := List.mem_of_getElem? first
    refine unlowered.evolved.torch_result result ?_ torch
    exact ⟨owns.lt result among, op, below, owns.origin_eq result among, noFunc _⟩
  · rw [settled.2] at folded
    cases folded

end Program.Unlowered

/-! ### Before the conversion -/

theorem builds_settled_literal (literal : Literal) {type : Ty} (torch : type.torch?.isSome) :
    Builds OpKind.IsSettled (Build.literal literal type) := by
  cases type with
  | torch type =>
    exact builds_torchLiteral (fun _ isConst => TorchKind.isSettled_of_isConst isConst) literal type
  | scalar | shaped => cases torch

variable {start : Program}

theorem keeps_unlowered {α : Type} {step : Change α} (evolving : Evolving OpKind.IsSettled step) :
    Keeps start.Unlowered step :=
  fun now unlowered => unlowered.trans (evolving now unlowered.formed)

/-- A constant that takes the place of a known result is one of torch. -/
theorem unlowered_foldConstant (op : OpId) (now : Program) (unlowered : start.Unlowered now)
    (member : op ∈ now.tree.ops) : start.Unlowered ((Rewrite.foldConstant op).run now).2 := by
  refine unlowered.trans (evolves_foldConstant unlowered.formed op ?_)
  intro literal result type known found typed
  refine builds_settled_literal literal ?_
  have torch := unlowered.torch_result member
    (isFolded_of_knownResult? (unlowered.isSource op member) known) found
  unfold Program.typed at typed
  unfold Program.torchTypeOf? Program.typeOf? at torch
  split at typed
  case h_1 same => cases typed; rw [same] at torch; exact torch
  case h_2 => cases typed

theorem keeps_unlowered_dropDead : Keeps start.Unlowered Change.dropDead :=
  keeps_dropDead fun op now unlowered _ => keeps_unlowered (evolving_dropDead op) now unlowered

theorem keeps_unlowered_canonicalize : Keeps start.Unlowered Change.canonicalize :=
  keeps_canonicalize
    (fun op now unlowered member =>
      unlowered.trans (evolvingAt_simplify op now unlowered.formed member))
    unlowered_foldConstant
    (fun op now unlowered _ => keeps_unlowered (evolving_dropDead op) now unlowered)

theorem keeps_unlowered_refineTypes : Keeps start.Unlowered Change.refineTypes :=
  keeps_refineTypes fun op now unlowered _ =>
    keeps_unlowered (evolving_refine ⟨rfl, rfl⟩ op) now unlowered

/-- Making a program ready creates no operations of a target. -/
theorem keeps_unlowered_prepare (options : LowerOptions) :
    Keeps start.Unlowered (Change.prepare options) := by
  refine keeps_prepare keeps_unlowered_canonicalize keeps_unlowered_refineTypes ?_
  exact keeps_unlowered (evolving_convertSignatures options.target)

/-- A program is left as it is if it is not valid. -/
theorem prepare_cases (options : LowerOptions) {program : Program} (formed : program.WellFormed)
    (source : program.IsSource) :
    (∃ error, (Change.prepare options).run program = (.error error, program)) ∨
      program.Unlowered ((Change.prepare options).run program).2 := by
  cases valid : program.verify with
  | ok => exact .inr (keeps_unlowered_prepare options program (unlowered_self formed source valid))
  | error error =>
    refine .inl ⟨error, ?_⟩
    unfold Change.prepare Change.verify
    rw [run_bind, Change.run_askFor, valid]

theorem unlowered_of_prepare {options : LowerOptions} {program ready : Program}
    (formed : program.WellFormed) (source : program.IsSource)
    (prepared : (Change.prepare options).run program = (.ok (), ready)) :
    program.Unlowered ready := by
  rcases prepare_cases options formed source with ⟨error, same⟩ | unlowered
  · rw [prepared] at same
    cases same
  · rwa [prepared] at unlowered

/-! ### During the conversion and after it -/

theorem Program.Evolves.of_size_eq {allowed other : OpKind → Prop} {start now : Program}
    (evolved : start.Evolves allowed now) (same : now.operations.size = start.operations.size) :
    start.Evolves other now :=
  { evolved with kind_new := fun _ new => absurd new.2 (not_lt.mpr (same ▸ new.1)) }

theorem keeps_unlowered_finish (options : LowerOptions) :
    Keeps start.Unlowered (Change.finish options) :=
  keeps_finish options keeps_unlowered_canonicalize keeps_unlowered_dropDead

/-- The program has an operation that it has not had before, of a kind of a target. -/
def Program.HasCreated (start now : Program) : Prop :=
  ∃ op : OpId, (Part.op op).IsNew start now ∧ (now.kind op).isSource = false

theorem Program.Unlowered.not_hasCreated {now : Program} (unlowered : start.Unlowered now) :
    ¬start.HasCreated now := by
  rintro ⟨op, new, target⟩
  rw [(unlowered.evolved.kind_new op new).1] at target
  cases target

/-- The conversion only creates operations of its target, which stay in the table. -/
theorem hasCreated_of_lt {ready middle after : Program}
    (prepared : start.operations.size ≤ ready.operations.size)
    (converted : ready.Evolves OpKind.IsTarget middle)
    (created : ready.operations.size < middle.operations.size)
    (finished : middle.Grows (fun _ => True) after) : start.HasCreated after := by
  have new : (Part.op ⟨ready.operations.size⟩).IsNew ready middle := ⟨le_rfl, created⟩
  refine ⟨⟨ready.operations.size⟩, ⟨prepared, new.2.trans_le finished.operations_le⟩, ?_⟩
  rw [finished.kind_eq _ new.2]
  exact converted.kind_new _ new

/-- The program is ready, and converting it creates operations. -/
def ConversionCreates (options : LowerOptions) (program : Program) : Prop :=
  ∃ ready, (Change.prepare options).run program = (.ok (), ready) ∧
    ready.operations.size < ((Change.convert options.target).run ready).2.operations.size

/-- A failed lowering has created operations of the target exactly if the conversion has come so far
as to create any. Otherwise the program still consists of modules, functions and torch operations. -/
theorem lower_failed_iff (options : LowerOptions) {program after : Program} {error : Error}
    (formed : program.WellFormed) (source : program.IsSource)
    (failed : (Change.lower options).run program = (.error error, after)) :
    (program.HasCreated after ↔ ConversionCreates options program) ∧
      (¬ConversionCreates options program → after.IsSource) := by
  have settle (left : program.Unlowered after ∨ after = program)
      (none : ¬ConversionCreates options program) :
      (program.HasCreated after ↔ ConversionCreates options program) ∧
        (¬ConversionCreates options program → after.IsSource) := by
    rcases left with unlowered | rfl
    · exact ⟨iff_of_false unlowered.not_hasCreated none, fun _ => unlowered.isSource⟩
    · exact ⟨iff_of_false (fun ⟨_, new, _⟩ => absurd new.2 (not_lt.mpr new.1)) none, fun _ => source⟩
  unfold Change.lower at failed
  rw [run_bind, Change.run_ask] at failed
  simp only [] at failed
  rw [run_bind] at failed
  -- The preparation fails, which converts nothing, or what comes after it does.
  rcases prepared : (Change.prepare options).run program with ⟨problem | _, ready⟩
  case error =>
    rw [prepared] at failed
    cases failed
    refine settle ?_ fun ⟨_, same, _⟩ => by rw [prepared] at same; cases same
    rcases prepare_cases options formed source with ⟨_, same⟩ | unlowered
    · rw [prepared] at same
      exact .inr (congrArg Prod.snd same)
    · rw [prepared] at unlowered
      exact .inl unlowered
  case ok =>
    have unlowered := unlowered_of_prepare formed source prepared
    rw [prepared] at failed
    simp only [] at failed
    rw [run_bind] at failed
    have converted := evolving_convert options.target ready unlowered.formed
    rcases conversion : (Change.convert options.target).run ready with ⟨outcome, middle⟩
    rw [conversion] at failed converted
    -- What the conversion has created stays. Where the table has kept its size there is nothing of the kind.
    rcases converted.operations_le.eq_or_lt with same | created
    · have left : program.Unlowered middle := unlowered.trans (converted.of_size_eq same.symm)
      have kept : program.Unlowered after :=
        Keeps.after failed (fun quant => (keeps_unlowered_finish options).bind fun _ =>
          (keeps_ask Program.text).bind fun text => keeps_pure _) left
      refine settle (.inl kept) ?_
      rintro ⟨other, found, created⟩
      rw [prepared] at found
      cases found
      rw [conversion] at created
      exact absurd created (not_lt.mpr same.ge)
    · have creates : ConversionCreates options program :=
        ⟨ready, prepared, by rw [conversion]; exact created⟩
      have evolving : Evolving (fun _ => True) (Change.finish options) :=
        evolving_finish trivial (fun _ _ => trivial) options
      have finishing := evolving.keeps middle
      have kept := Keeps.after failed (fun quant => finishing.bind fun _ =>
        (keeps_ask Program.text).bind fun text => keeps_pure _)
        ⟨converted.wellFormed unlowered.formed, Evolves.refl middle⟩
      have has := hasCreated_of_lt unlowered.evolved.operations_le converted created kept.2.toGrows
      exact ⟨iff_of_true has creates, fun none => absurd creates none⟩

/-- A tensor of two numbers. -/
def pairType : Ty := .torch (.vtensor ⟨some [some 2], some .f32⟩)

/-- A function that adds a tensor to another one, scaled by a factor that is only given by the
caller. The first of its operations can be lowered to operations on whole tensors, the second cannot. -/
def unknownFactor : Program where
  values := #[⟨some "%x", some pairType, .argument (some ⟨0⟩)⟩,
    ⟨some "%n", some (.torch .int), .argument (some ⟨0⟩)⟩,
    ⟨none, some pairType, .signature⟩,
    ⟨some "%0", some pairType, .result ⟨1⟩⟩,
    ⟨some "%1", some pairType, .result ⟨2⟩⟩]
  operations := #[
    { kind := .func .func, results := [⟨2⟩], attributes := Attributes.empty.insert "sym_name" (.str "f") },
    { kind := .torch .relu, operands := [⟨0⟩], results := [⟨3⟩] },
    { kind := .torch .addTensor, operands := [⟨3⟩, ⟨3⟩, ⟨1⟩], results := [⟨4⟩] },
    { kind := .func .ret, operands := [⟨4⟩] },
    { kind := .module }]
  headers := #[{ arguments := [⟨0⟩, ⟨1⟩] }, {}]
  root := ⟨4⟩
  regions := .single ⟨1⟩ (.single ⟨0⟩ (.single ⟨0⟩
    (.cons ⟨1⟩ .nil (.cons ⟨2⟩ .nil (.single ⟨3⟩ .nil)))))

/-- The factor is missed only after the first operation has been lowered. -/
theorem hasCreated_unknownFactor :
    unknownFactor.WellFormed ∧ unknownFactor.IsSource ∧ ∃ error after,
      (Change.lower { target := .tosa }).run unknownFactor = (.error error, after) ∧
        unknownFactor.HasCreated after := by
  have formed : unknownFactor.WellFormed := by decide +kernel
  have source : unknownFactor.IsSource := by decide +kernel
  have fails : ((Change.lower { target := .tosa }).run unknownFactor).1.isOk = false := by
    decide +kernel
  have ready : ((Change.prepare { target := .tosa }).run unknownFactor).1.isOk = true := by
    decide +kernel
  have created : ((Change.prepare { target := .tosa }).run unknownFactor).2.operations.size <
      ((Change.convert .tosa).run
        ((Change.prepare { target := .tosa }).run unknownFactor).2).2.operations.size := by
    decide +kernel
  refine ⟨formed, source, ?_⟩
  rcases failed : (Change.lower { target := .tosa }).run unknownFactor with ⟨error | _, after⟩
  case ok => rw [failed] at fails; cases fails
  refine ⟨error, after, rfl, (lower_failed_iff _ formed source failed).1.mpr ?_⟩
  rcases prepared : (Change.prepare { target := .tosa }).run unknownFactor with ⟨_ | _, next⟩
  case error => rw [prepared] at ready; cases ready
  rw [prepared] at created
  exact ⟨next, prepared, created⟩

end TensorIR
