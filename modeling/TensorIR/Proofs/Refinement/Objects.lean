import Mathlib.Data.List.Find
import TensorIR.Proofs.Refinement.Rules

/-!
# Rules for objects after types have been made more precise

Classes, objects and global slots hold no tensor operations that a valid program could have there, so
nothing is put into them, and operations find the same function around themselves. With the other rules
this makes up all rules of operations whose types stay.

## Main results

* `Program.NarrowsTo.verifyOp_eq_ok` — operations whose types stay keep their rules
-/

namespace TensorIR

/-- A check of each operation succeeds only if it holds of all of them. -/
theorem each_of_members {items : List OpId} {condition : OpId → Prop} [DecidablePred condition]
    {message : OpId → String} {value : PUnit.{1}}
    (checked : (forIn items PUnit.unit fun inner _ =>
      if condition inner then pure (ForInStep.yield PUnit.unit)
      else failing (message inner) >>= fun _ : PUnit => pure (ForInStep.yield PUnit.unit)) =
        Except.ok (ε := Error) value) :
    ∀ inner ∈ items, condition inner := by
  have each := each_of_forIn_eq_ok checked fun inner done => by cases (of_unless_eq_ok done).2
  exact fun inner member => (of_unless_eq_ok (each inner member)).1

namespace Program.NarrowsTo

variable {start now : Program} {op : OpId} {symbols : SymbolTable} (narrows : start.NarrowsTo now)
include narrows

/-! ### The function around an operation -/

theorem ancestors_eq (fuel : Nat) (member : op ∈ start.tree.ops) :
    now.ancestors fuel op = start.ancestors fuel op ∧
      ∀ around ∈ start.ancestors fuel op, around ∈ start.tree.ops := by
  fun_induction start.ancestors fuel op with
  | case1 => exact ⟨rfl, List.forall_mem_nil _⟩
  | case2 fuel op none =>
    refine ⟨?_, List.forall_mem_nil _⟩
    rw [Program.ancestors, narrows.parent?_eq member, none]
  | case3 fuel op parent found ih =>
    have inTree := narrows.mem_of_parent? member found
    obtain ⟨same, inside⟩ := ih inTree
    refine ⟨?_, List.forall_mem_cons.mpr ⟨inTree, inside⟩⟩
    rw [Program.ancestors, narrows.parent?_eq member, found]
    dsimp only
    rw [same]

omit narrows in
/-- Looking further finds no more than what is behind. -/
theorem ancestors_grow (program : Program) {less more : Nat} (le : less ≤ more) (op : OpId) :
    program.ancestors less op <+: program.ancestors more op := by
  induction more generalizing less op with
  | zero =>
    cases Nat.le_zero.mp le
    exact List.prefix_rfl
  | succ more ih =>
    cases less with
    | zero => exact List.nil_prefix
    | succ less =>
      rw [Program.ancestors, Program.ancestors]
      cases program.parent? op with
      | none => exact List.prefix_rfl
      | some parent => exact List.prefix_cons_inj parent |>.mpr (ih (Nat.le_of_succ_le_succ le) parent)

theorem enclosingFunction?_eq {name : String} (member : op ∈ start.tree.ops)
    (found : start.enclosingFunction? op = some name) : now.enclosingFunction? op = some name := by
  unfold Program.enclosingFunction? at found ⊢
  split at found
  case h_2 => cases found
  case h_1 function around =>
    obtain ⟨same, inside⟩ := narrows.ancestors_eq start.operations.size member
    have kinds : (start.ancestors start.operations.size op).find? (fun around => now.kind around == .func .func) =
        some function := by
      rw [← around]
      exact List.find?_congr fun around among => by rw [narrows.kind_eq (inside around among)]
    have further := (ancestors_grow now narrows.operations_le op).find?_eq_some (same ▸ kinds)
    rw [further]
    have inTree := inside function (List.mem_of_find?_eq_some around)
    rw [← found]
    simp only [Program.symbolName?, Program.functionName?, Program.symbolOf, narrows.kind_eq inTree,
      narrows.attributes_eq inTree]

/-- What an operation may access it may still access. -/
theorem checkVisible_eq_ok {className memberName : String} {isPrivate : Bool} (member : op ∈ start.tree.ops)
    (kept : start.checkVisible symbols op className memberName isPrivate = .ok ()) :
    now.checkVisible symbols op className memberName isPrivate = .ok () := by
  unfold Program.checkVisible at kept ⊢
  cases isPrivate with
  | false => rfl
  | true =>
    cases found : start.enclosingFunction? op with
    | none =>
      rw [found] at kept
      cases kept
    | some function =>
      rw [found] at kept
      rwa [narrows.enclosingFunction?_eq member found]

/-! ### Members of objects -/

theorem receiverAttribute_eq_ok {declared : AttributeDeclaration} (member : op ∈ start.tree.ops)
    (tight : ¬start.Loose op) (found : start.receiverAttribute symbols op = .ok declared) :
    now.receiverAttribute symbols op = .ok declared := by
  have alike := narrows.alike member tight
  unfold Program.receiverAttribute at found ⊢
  rw [Program.receiverClass, alike.operandType_eq, ← Program.receiverClass]
  obtain ⟨layout, isLayout, found⟩ := of_bind_eq_ok found
  rw [isLayout, show now.stringOf op "name" = start.stringOf op "name" by
    rw [Program.stringOf, alike.attributes_eq, Program.stringOf]]
  cases isAttribute : layout.attribute? (start.stringOf op "name") with
  | none =>
    simp only [isAttribute] at found
    cases found
  | some known =>
    simp only [isAttribute] at found
    obtain ⟨_, isVisible, found⟩ := of_bind_eq_ok found
    rw [ok_bind]
    simp only [isAttribute]
    rwa [narrows.checkVisible_eq_ok member isVisible, ok_bind]

theorem verifyCallMethod_eq_ok (member : op ∈ start.tree.ops) (tight : ¬start.Loose op)
    (kept : start.verifyCallMethod symbols op = .ok ()) : now.verifyCallMethod symbols op = .ok () := by
  have alike := narrows.alike member tight
  unfold Program.verifyCallMethod at kept ⊢
  rw [Program.receiverClass, alike.operandType_eq, ← Program.receiverClass]
  obtain ⟨layout, isLayout, kept⟩ := of_bind_eq_ok kept
  rw [isLayout, show now.stringOf op "name" = start.stringOf op "name" by
    rw [Program.stringOf, alike.attributes_eq, Program.stringOf]]
  cases isMethod : layout.method? (start.stringOf op "name") with
  | none =>
    simp only [isMethod] at kept
    cases kept
  | some method =>
    simp only [isMethod] at kept
    obtain ⟨_, isVisible, kept⟩ := of_bind_eq_ok kept
    rw [ok_bind]
    simp only [isMethod, alike.typedOperands_eq, alike.typedResults_eq]
    rwa [narrows.checkVisible_eq_ok member isVisible, ok_bind]

/-- In a class there is nothing that a cast could be put behind. -/
theorem membersOf_eq (member : op ∈ start.tree.ops) (tight : ∀ inner ∈ start.membersOf op, ¬start.Loose inner) :
    now.membersOf op = start.membersOf op :=
  (narrows.regionsOf_padded member).1.heads_eq tight

theorem mem_of_membersOf {inner : OpId} (member : op ∈ start.tree.ops) (among : inner ∈ start.membersOf op) :
    inner ∈ start.tree.ops :=
  Body.op_mem_parts.mp ((narrows.regionsOf_padded member).2.1 _ (Regions.op_of_heads _ among))

theorem forall₂_membersOf (member : op ∈ start.tree.ops) :
    List.Forall₂ (fun inner other => inner = other ∧ inner ∈ start.tree.ops) (start.membersOf op)
      (start.membersOf op) :=
  List.forall₂_same.mpr fun _ among => ⟨rfl, narrows.mem_of_membersOf member among⟩

theorem verifyClass_eq_ok (member : op ∈ start.tree.ops) (kept : start.verifyClass symbols op = .ok ()) :
    now.verifyClass symbols op = .ok () := by
  have whole := kept
  unfold Program.verifyClass at whole kept ⊢
  obtain ⟨_, checked, -⟩ := of_bind_eq_ok kept
  have members := each_of_members checked
  rw [narrows.membersOf_eq member fun inner among isLoose => ?tight, narrows.classLayout_eq member]
  case tight =>
    have isMember := members inner among
    rw [Bool.or_eq_true, beq_iff_eq, beq_iff_eq] at isMember
    rcases isMember with isKind | isKind <;> simp [Program.Loose, isKind, OpKind.allowsRefinement, TorchKind.isTensorOp] at isLoose
  refine (bind_congr_left (forIn_congr (narrows.forall₂_membersOf member) ?_ _) _).trans whole
  rintro inner _ ⟨rfl, inTree⟩
  rw [Program.opName, Program.opName, narrows.kind_eq inTree]

theorem verifyObject_eq_ok (member : op ∈ start.tree.ops) (tight : ¬start.Loose op)
    (kept : start.verifyObject symbols op = .ok ()) : now.verifyObject symbols op = .ok () := by
  have alike := narrows.alike member tight
  unfold Program.verifyObject at kept ⊢
  rw [alike.resultType_eq]
  obtain ⟨type, isType, kept⟩ := of_bind_eq_ok kept
  rw [isType, ok_bind]
  simp only [pure_bind] at kept ⊢
  split at kept
  case h_2 => cases kept
  case h_1 className =>
    cases isClass : symbols.class? className with
    | none =>
      simp only [isClass] at kept
      cases kept
    | some layout =>
      simp only [isClass] at kept ⊢
      obtain ⟨_, checked, rest⟩ := of_bind_eq_ok kept
      have members := each_of_members checked
      have tightMember (inner : OpId) (among : inner ∈ start.membersOf op) : ¬start.Loose inner := by
        rw [Program.Loose, beq_iff_eq.mp (members inner among)]
        exact Bool.false_ne_true
      rw [narrows.membersOf_eq member tightMember]
      refine (bind_congr_both (forIn_congr (narrows.forall₂_membersOf member) ?_ _) fun _ =>
        bind_congr_left (mapM_congr (List.map_congr_left fun inner among => ?_)) _).trans kept
      · rintro inner _ ⟨rfl, inTree⟩
        rw [Program.opName, Program.opName, narrows.kind_eq inTree]
      · have same := narrows.alike (narrows.mem_of_membersOf member among) (tightMember inner among)
        rw [same.operandType_eq, Program.stringOf, Program.stringOf, same.attributes_eq]

theorem verifyGlobalSlot_eq (member : op ∈ start.tree.ops) (tight : ¬start.Loose op) :
    now.verifyGlobalSlot op = start.verifyGlobalSlot op := by
  have alike := narrows.alike member tight
  unfold Program.verifyGlobalSlot
  rw [Program.declaredType, alike.attributes_eq, ← Program.declaredType]
  refine bind_congr fun declared => ?_
  rcases narrows.getElem?_regions member 0 with ⟨isNone, wasNone⟩ | ⟨wider, blocks, isWide, isRegion, same⟩
  · rw [isNone, wasNone]
  rw [isWide, isRegion]
  dsimp only
  rw [narrows.terminatorOf?_eq same rfl]
  cases found : start.terminatorOf? (some blocks) (.torch .globalSlotInit) with
  | none => rfl
  | some last => simp only [(narrows.alike_terminator same rfl found).operandType_eq]

theorem verifyTorchObject_eq_ok (member : op ∈ start.tree.ops) (tight : ¬start.Loose op) (kind : TorchKind)
    (kept : start.verifyTorchObject symbols op kind = .ok ()) :
    now.verifyTorchObject symbols op kind = .ok () := by
  have alike := narrows.alike member tight
  unfold Program.verifyTorchObject at kept ⊢
  split at kept
  · exact narrows.verifyClass_eq_ok member kept
  · rwa [narrows.expectParent_eq member, Program.declaredType, alike.attributes_eq, ← Program.declaredType]
  · rwa [narrows.expectParent_eq member]
  · exact narrows.verifyObject_eq_ok member tight kept
  · rwa [narrows.expectParent_eq member]
  · rwa [narrows.verifyGlobalSlot_eq member tight]
  · rwa [narrows.expectParent_eq member, alike.length_operands]
  · rwa [Program.slotType, Program.symbolOf, alike.attributes_eq, ← Program.symbolOf, ← Program.slotType,
      alike.resultType_eq]
  · rwa [Program.slotType, Program.symbolOf, alike.attributes_eq, ← Program.symbolOf, ← Program.slotType,
      alike.operandType_eq]
  · obtain ⟨declared, found, kept⟩ := of_bind_eq_ok kept
    rwa [narrows.receiverAttribute_eq_ok member tight found, ok_bind, alike.resultType_eq]
  · obtain ⟨declared, found, kept⟩ := of_bind_eq_ok kept
    rwa [narrows.receiverAttribute_eq_ok member tight found, ok_bind, alike.operandType_eq]
  · exact narrows.verifyCallMethod_eq_ok member tight kept
  · rfl

/-- Operations whose types stay keep their rules. -/
theorem verifyOp_eq_ok (member : op ∈ start.tree.ops) (tight : ¬start.Loose op)
    (kept : start.verifyOp symbols op = .ok ()) : now.verifyOp symbols op = .ok () := by
  have alike := narrows.alike member tight
  unfold Program.verifyOp at kept ⊢
  rw [alike.kind_eq]
  split at kept
  case h_1 => rfl
  case h_2 => rwa [alike.verifyArith_eq]
  case h_3 => rwa [alike.verifyMath_eq]
  case h_4 => rwa [alike.verifyMemref_eq]
  case h_5 => rwa [narrows.verifyFunc_eq symbols member tight]
  case h_6 => rwa [narrows.verifyScf_eq member tight]
  case h_7 => rwa [alike.verifyTosa_eq]
  case h_8 kind isKind =>
    unfold Program.verifyTorch at kept ⊢
    split at kept
    case isTrue isObject =>
      rw [if_pos isObject]
      exact narrows.verifyTorchObject_eq_ok member tight kind kept
    case isFalse notObject =>
      rw [if_neg notObject]
      split at kept
      case isTrue isControl =>
        rw [if_pos isControl]
        rwa [narrows.verifyTorchControl_eq member tight]
      case isFalse notControl =>
        rw [if_neg notControl]
        -- The operations whose results are inferred are those that can be refined, and they are left out here.
        have noTensor (program : Program) : program.inferKind op kind = .ok none := by
          rw [Program.Loose, isKind] at tight
          cases kind <;> first | rfl | exact absurd rfl tight
        rw [noTensor] at kept ⊢
        rwa [ok_bind, alike.verifyTorchValue_eq isKind]

end Program.NarrowsTo

end TensorIR
