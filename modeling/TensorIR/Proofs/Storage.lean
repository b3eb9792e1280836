import TensorIR.Proofs.Calls
import TensorIR.Proofs.ClassLayouts
import TensorIR.Proofs.Refinement.Objects

/-!
# Typed storage

Objects and global slots keep values until they are read. Whatever is stored under a name has a type
that can stand where the name is read: the slots that an object starts with, the initial value of a
global slot, and all values that are set later are compared with the declared type, and what is read is
above it.

## Main definitions

* `Program.DeclaresClass` — an operation declares a class with a layout
* `Program.AttributeBelow`, `Program.GlobalSlotBelow` — what is stored can be read as a type

## Main results

* `Program.storage_of_verify` — in a valid program, what is read is what may have been stored
-/

namespace TensorIR

variable {program : Program} {symbols after : SymbolTable} {op : OpId} {name className : String}
  {layout : ClassLayout}

namespace Program

/-- The operation declares a class with a layout. -/
def DeclaresClass (program : Program) (className : String) (layout : ClassLayout) (op : OpId) : Prop :=
  program.kind op = .torch .classType ∧ layout.name = className ∧ program.classLayout op = .ok layout

/-- The operation declares a global slot. -/
def DeclaresGlobalSlot (program : Program) (name : String) (op : OpId) : Prop :=
  program.kind op = .torch .globalSlot ∧ program.symbolOf op "sym_name" = name

/-- The slots that an object starts with, in their order. -/
def slotsOf (program : Program) (op : OpId) : List OpId :=
  (program.membersOf op).filter (program.kind · == .torch .slot)

/-- What objects of a class store in an attribute can be read as a type: the slot at the position of the
attribute in each object, and every value that is set. -/
structure AttributeBelow (program : Program) (className member : String) (position : Nat)
    (type : TorchType) : Prop where
  initial : ∀ object ∈ program.tree.ops, program.kind object = .torch .nnModule →
    program.resultType object 0 = .ok (.nnModule className) →
      ∃ slot stored, (program.slotsOf object)[position]? = some slot ∧
        program.stringOf slot "name" = member ∧ program.operandType slot 0 = .ok stored ∧
          stored.isSubtype type = true
  set : ∀ setter ∈ program.tree.ops, program.kind setter = .torch .setAttr →
    program.operandType setter 0 = .ok (.nnModule className) →
      program.stringOf setter "name" = member →
        ∃ stored, program.operandType setter 1 = .ok stored ∧ stored.isSubtype type = true

/-- What global slots of a name store can be read as a type: what the initializer ends with, and every
value that is set. -/
structure GlobalSlotBelow (program : Program) (name : String) (type : TorchType) : Prop where
  initial : ∀ slot ∈ program.topLevel, program.DeclaresGlobalSlot name slot →
    ∃ last stored, program.terminatorOf? ((program.regionsOf slot).get? 0) (.torch .globalSlotInit) =
        some last ∧
      program.operandType last 0 = .ok stored ∧ stored.isSubtype type = true
  set : ∀ setter ∈ program.tree.ops, program.kind setter = .torch .globalSlotSet →
    program.symbolOf setter "slot" = name →
      ∃ stored, program.operandType setter 0 = .ok stored ∧ stored.isSubtype type = true

end Program

/-- The last check of a rule has not failed. -/
theorem holds_of_unless_eq_ok {condition : Prop} [Decidable condition] {message : String}
    (kept : (if condition then pure () else failing message) = Except.ok (ε := Error) ()) : condition := by
  by_contra broken
  rw [if_neg broken] at kept
  cases kept

/-! ### Declarations -/

/-- An attribute stands at its position. -/
theorem ClassLayout.Records.slotIndex?_of_attribute? {members : List MemberDeclaration}
    (records : layout.Records className members) {declared : AttributeDeclaration}
    (found : layout.attribute? name = some declared) :
    ∃ position, layout.slotIndex? name = some position ∧
      layout.attributes[position]? = some declared ∧ declared.name = name := by
  obtain ⟨position, isPosition, stands⟩ := Option.bind_eq_some_iff.mp found
  exact ⟨position, isPosition, stands, (records.attribute?_eq_some_iff.mp found).2⟩

namespace Program

/-- A class is one from before or the one that is declared. -/
theorem declaresClass_of_addSymbol (added : program.addSymbol symbols op = .ok after)
    (known : after.class? className = some layout) :
    symbols.class? className = some layout ∨ program.DeclaresClass className layout op := by
  cases addsSymbol added with
  | classType isClass isLayout =>
    rw [SymbolTable.class?, List.lookup_append, Option.or_eq_some_iff] at known
    refine known.imp_right fun ⟨_, new⟩ => ?_
    rw [List.lookup_cons] at new
    split at new
    case h_1 same =>
      cases new
      exact ⟨isClass, (beq_iff_eq.mp same).symm, isLayout⟩
    case h_2 => cases new
  | function | globalSlot | other => exact .inl known

theorem declaresClass_of_foldlM {ops : List OpId} (added : ops.foldlM program.addSymbol symbols = .ok after)
    (known : after.class? className = some layout) :
    symbols.class? className = some layout ∨ ∃ op ∈ ops, program.DeclaresClass className layout op :=
  origin_of_foldlM_eq_ok (fun now => now.class? className = some layout) added declaresClass_of_addSymbol known

/-- The type of a global slot stays when more is declared. -/
theorem globalSlot?_addSymbol {type : TorchType} (added : program.addSymbol symbols op = .ok after)
    (known : symbols.globalSlot? name = some type) : after.globalSlot? name = some type := by
  cases addsSymbol added with
  | globalSlot =>
    rw [SymbolTable.globalSlot?, List.lookup_append]
    exact Option.or_eq_some_iff.mpr (.inl known)
  | function | classType | other => exact known

theorem globalSlot?_foldlM {ops : List OpId} {type : TorchType}
    (added : ops.foldlM program.addSymbol symbols = .ok after)
    (known : symbols.globalSlot? name = some type) : after.globalSlot? name = some type :=
  holds_of_foldlM_eq_ok (fun now => now.globalSlot? name = some type) added known
    fun _ _ _ _ declared => globalSlot?_addSymbol declared

/-- The type that a global slot at the top declares is the one that is known under its name. -/
theorem declaredType_of_foldlM {ops : List OpId} (added : ops.foldlM program.addSymbol symbols = .ok after)
    (member : op ∈ ops) (declares : program.DeclaresGlobalSlot name op) :
    ∃ type, program.declaredType op = .ok type ∧ after.globalSlot? name = some type := by
  induction ops generalizing symbols with
  | nil => cases member
  | cons first ops ih =>
    rw [List.foldlM_cons] at added
    obtain ⟨middle, declared, later⟩ := of_bind_eq_ok added
    rcases List.mem_cons.mp member with rfl | behind
    case inr => exact ih later behind
    obtain ⟨isSlot, rfl⟩ := declares
    cases addsSymbol declared with
    | function isOther => cases isSlot.symm.trans isOther
    | classType isOther => cases isSlot.symm.trans isOther
    | globalSlot _ isType isNew =>
      refine ⟨_, isType, globalSlot?_foldlM later ?_⟩
      rw [SymbolTable.globalSlot?, List.lookup_append, ← SymbolTable.globalSlot?, isNew, Option.none_or,
        List.lookup_cons_self]
    | other _ _ notSlot => exact absurd isSlot notSlot

/-! ### Objects -/

/-- The attribute that an operation is about is declared by the class of the receiver. -/
theorem of_receiverAttribute {declared : AttributeDeclaration}
    (found : program.receiverAttribute symbols op = .ok declared) :
    ∃ className layout, program.operandType op 0 = .ok (.nnModule className) ∧
      symbols.class? className = some layout ∧
        layout.attribute? (program.stringOf op "name") = some declared := by
  obtain ⟨layout, isLayout, found⟩ := of_bind_eq_ok found
  obtain ⟨className, isReceiver, isClass⟩ := of_receiverClass isLayout
  refine ⟨className, layout, isReceiver, isClass, ?_⟩
  extract_lets member at found
  split at found
  case h_2 => cases found
  case h_1 known isKnown =>
    obtain ⟨_, -, found⟩ := of_bind_eq_ok found
    cases found
    exact isKnown

/-- Each slot of an object has the name of the attribute at its position, and a value that fits it. -/
theorem slot_of_verifyObject (kept : program.verifyObject symbols op = .ok ())
    (isObject : program.resultType op 0 = .ok (.nnModule className))
    (isClass : symbols.class? className = some layout) {position : Nat} {declared : AttributeDeclaration}
    (isDeclared : layout.attributes[position]? = some declared) :
    ∃ slot stored, (program.slotsOf op)[position]? = some slot ∧
      program.stringOf slot "name" = declared.name ∧ program.operandType slot 0 = .ok stored ∧
        stored.isSubtype declared.type = true := by
  unfold verifyObject at kept
  simp only [isObject, ok_bind, pure_bind, isClass] at kept
  obtain ⟨_, checked, kept⟩ := of_bind_eq_ok kept
  have members := each_of_members checked
  have areSlots : program.slotsOf op = program.membersOf op := List.filter_eq_self.mpr members
  obtain ⟨slots, areTyped, kept⟩ := of_bind_eq_ok kept
  obtain ⟨same, kept⟩ := of_check_eq_ok kept
  obtain ⟨_, compared, -⟩ := of_bind_eq_ok kept
  have fits := forall₂_of_forIn (not_not.mp same) compared fun item done => by
    obtain ⟨-, done⟩ := of_check_eq_ok done
    cases (of_unless_eq_ok done).2
  have each := (forall₂_comp (forall₂_of_mapM_eq_ok areTyped) fits).flip
  obtain ⟨slot, isSlot, ⟨_, stored⟩, isTyped, index, fits⟩ := forall₂_getElem? each isDeclared
  obtain ⟨type, isStored, isTyped⟩ := of_bind_eq_ok isTyped
  cases isTyped
  obtain ⟨isNamed, fits⟩ := of_check_eq_ok fits
  exact ⟨slot, stored, areSlots ▸ isSlot, not_not.mp isNamed, isStored, (of_unless_eq_ok fits).1⟩

/-- Where an attribute is read, all objects of the class and all values that are set fit. -/
theorem attributeBelow_of_verify (rules : ∀ op ∈ program.tree.ops, program.verifyOp symbols op = .ok ())
    {declared : AttributeDeclaration} {position : Nat} {type : TorchType}
    (isClass : symbols.class? className = some layout) (isAttribute : layout.attribute? name = some declared)
    (isDeclared : layout.attributes[position]? = some declared) (isNamed : declared.name = name)
    (below : declared.type.isSubtype type = true) :
    program.AttributeBelow className name position type := by
  constructor
  · intro object member isKind isObject
    have kept := rules object member
    rw [verifyOp, isKind] at kept
    obtain ⟨slot, stored, isSlot, same, isStored, fits⟩ :=
      slot_of_verifyObject kept isObject isClass isDeclared
    exact ⟨slot, stored, isSlot, same.trans isNamed, isStored, TorchType.isSubtype_trans fits below⟩
  · intro setter member isKind isReceiver isAbout
    have kept := rules setter member
    rw [verifyOp, isKind] at kept
    obtain ⟨other, found, kept⟩ := of_bind_eq_ok kept
    obtain ⟨stored, isStored, kept⟩ := of_bind_eq_ok kept
    obtain ⟨otherClass, otherLayout, isOther, isOtherClass, isOtherAttribute⟩ := of_receiverAttribute found
    cases isReceiver.symm.trans isOther
    cases isClass.symm.trans isOtherClass
    rw [isAbout] at isOtherAttribute
    cases isAttribute.symm.trans isOtherAttribute
    exact ⟨stored, isStored, TorchType.isSubtype_trans (holds_of_unless_eq_ok kept) below⟩

/-! ### Global slots -/

theorem of_slotType {found : String × TorchType} (known : program.slotType symbols op = .ok found) :
    symbols.globalSlot? (program.symbolOf op "slot") = some found.2 := by
  unfold slotType at known
  extract_lets name at known
  split at known
  case h_1 type isType =>
    cases known
    exact isType
  case h_2 => cases known

theorem globalSlotBelow_of_verify (table : program.symbolTable = .ok symbols)
    (rules : ∀ op ∈ program.tree.ops, program.verifyOp symbols op = .ok ()) {declared type : TorchType}
    (isDeclared : symbols.globalSlot? name = some declared) (below : declared.isSubtype type = true) :
    program.GlobalSlotBelow name type := by
  constructor
  · intro slot onTop declares
    obtain ⟨known, isKnown, isGlobal⟩ := declaredType_of_foldlM table onTop declares
    cases isDeclared.symm.trans isGlobal
    have member := Regions.op_mem_parts.mp (program.regions.op_of_heads onTop)
    have kept := rules slot (List.mem_cons_of_mem _ (List.mem_append_left _ member))
    rw [verifyOp, declares.1] at kept
    replace kept : program.verifyGlobalSlot slot = .ok () := kept
    unfold verifyGlobalSlot at kept
    rw [isKnown, ok_bind] at kept
    split at kept
    case h_2 => cases kept
    rename_i region isRegion
    split at kept
    case h_2 => cases kept
    rename_i last ends
    obtain ⟨stored, isStored, fits⟩ := of_bind_eq_ok kept
    exact ⟨last, stored, isRegion ▸ ends, isStored,
      TorchType.isSubtype_trans (holds_of_unless_eq_ok fits) below⟩
  · intro setter member isKind isAbout
    have kept := rules setter member
    rw [verifyOp, isKind] at kept
    obtain ⟨found, isSlot, kept⟩ := of_bind_eq_ok kept
    obtain ⟨stored, isStored, kept⟩ := of_bind_eq_ok kept
    have isGlobal := of_slotType isSlot
    rw [isAbout] at isGlobal
    cases isDeclared.symm.trans isGlobal
    exact ⟨stored, isStored, TorchType.isSubtype_trans (holds_of_unless_eq_ok kept) below⟩

/-- Reading an attribute or a global slot of a valid program gives what has been stored there: all objects
of the class have the attribute at one position, and the values that they start with, that a global slot
starts with, and that are set anywhere can stand for what is read. -/
theorem storage_of_verify (valid : program.verify = .ok ()) :
    (∀ getter ∈ program.tree.ops, program.kind getter = .torch .getAttr → ∀ className,
      program.operandType getter 0 = .ok (.nnModule className) →
        ∃ declaration ∈ program.topLevel, ∃ layout position type,
          program.DeclaresClass className layout declaration ∧
            layout.slotIndex? (program.stringOf getter "name") = some position ∧
              program.resultType getter 0 = .ok type ∧
                program.AttributeBelow className (program.stringOf getter "name") position type) ∧
    (∀ getter ∈ program.tree.ops, program.kind getter = .torch .globalSlotGet →
      ∃ type, program.resultType getter 0 = .ok type ∧
        program.GlobalSlotBelow (program.symbolOf getter "slot") type) := by
  obtain ⟨symbols, table, rules⟩ := keepsRule_of_verify valid
  constructor
  · intro getter member isKind className isReceiver
    have kept := rules getter member
    rw [verifyOp, isKind] at kept
    obtain ⟨declared, found, kept⟩ := of_bind_eq_ok kept
    obtain ⟨type, isType, kept⟩ := of_bind_eq_ok kept
    obtain ⟨_, layout, isSame, isClass, isAttribute⟩ := of_receiverAttribute found
    cases isReceiver.symm.trans isSame
    have declares := (declaresClass_of_foldlM table isClass).resolve_left fun empty => by cases empty
    obtain ⟨declaration, onTop, declares⟩ := declares
    obtain ⟨_, records⟩ := exists_records_of_classLayout declares.2.2
    obtain ⟨position, isPosition, isDeclared, isNamed⟩ := records.slotIndex?_of_attribute? isAttribute
    exact ⟨declaration, onTop, layout, position, type, declares, isPosition, isType,
      attributeBelow_of_verify rules isClass isAttribute isDeclared isNamed (holds_of_unless_eq_ok kept)⟩
  · intro getter member isKind
    have kept := rules getter member
    rw [verifyOp, isKind] at kept
    obtain ⟨found, isSlot, kept⟩ := of_bind_eq_ok kept
    obtain ⟨type, isType, kept⟩ := of_bind_eq_ok kept
    exact ⟨type, isType, globalSlotBelow_of_verify table rules (of_slotType isSlot) (holds_of_unless_eq_ok kept)⟩

end Program

/-- A class with two attributes and an object of it, a global slot, and a function that reads and sets the
second attribute and the global slot. -/
def storing : Program where
  values := #[⟨some "%one", some (.torch .int), .result ⟨4⟩⟩,
    ⟨some "%object", some (.torch (.nnModule "c")), .result ⟨5⟩⟩,
    ⟨some "%self", some (.torch (.nnModule "c")), .argument (some ⟨4⟩)⟩,
    ⟨some "%none", some (.torch .none), .result ⟨11⟩⟩,
    ⟨some "%0", some (.torch .any), .result ⟨12⟩⟩,
    ⟨some "%1", some (.torch (.optional .int)), .result ⟨14⟩⟩]
  operations := #[
    { kind := .module },
    { kind := .torch .classType, attributes := Attributes.empty.insert "sym_name" (.symbol "c") },
    { kind := .torch .attr,
      attributes := (Attributes.empty.insert "name" (.str "n")).insert "type" (.type (.torch .int)) },
    { kind := .torch .attr, attributes :=
        (Attributes.empty.insert "name" (.str "w")).insert "type" (.type (.torch (.optional .int))) },
    { kind := .torch .constantInt, results := [⟨0⟩], attributes := Attributes.empty.insert "value" (.int 1) },
    { kind := .torch .nnModule, results := [⟨1⟩] },
    { kind := .torch .slot, operands := [⟨0⟩], attributes := Attributes.empty.insert "name" (.str "n") },
    { kind := .torch .slot, operands := [⟨0⟩], attributes := Attributes.empty.insert "name" (.str "w") },
    { kind := .torch .globalSlot, attributes :=
        (Attributes.empty.insert "sym_name" (.symbol "g")).insert "type" (.type (.torch (.optional .int))) },
    { kind := .torch .globalSlotInit, operands := [⟨0⟩] },
    { kind := .func .func, attributes := Attributes.empty.insert "sym_name" (.symbol "f") },
    { kind := .torch .constantNone, results := [⟨3⟩] },
    { kind := .torch .getAttr, operands := [⟨2⟩], results := [⟨4⟩],
      attributes := Attributes.empty.insert "name" (.str "w") },
    { kind := .torch .setAttr, operands := [⟨2⟩, ⟨3⟩],
      attributes := Attributes.empty.insert "name" (.str "w") },
    { kind := .torch .globalSlotGet, results := [⟨5⟩], attributes := Attributes.empty.insert "slot" (.symbol "g") },
    { kind := .torch .globalSlotSet, operands := [⟨0⟩],
      attributes := Attributes.empty.insert "slot" (.symbol "g") },
    { kind := .func .ret }]
  headers := #[{}, {}, {}, {}, { arguments := [⟨2⟩] }]
  root := ⟨0⟩
  regions := .single ⟨0⟩ (.cons ⟨1⟩ (.single ⟨1⟩ (.cons ⟨2⟩ .nil (.single ⟨3⟩ .nil)))
    (.cons ⟨4⟩ .nil (.cons ⟨5⟩ (.single ⟨2⟩ (.cons ⟨6⟩ .nil (.single ⟨7⟩ .nil)))
      (.cons ⟨8⟩ (.single ⟨3⟩ (.single ⟨9⟩ .nil))
        (.single ⟨10⟩ (.single ⟨4⟩ (.cons ⟨11⟩ .nil (.cons ⟨12⟩ .nil (.cons ⟨13⟩ .nil (.cons ⟨14⟩ .nil
          (.cons ⟨15⟩ .nil (.single ⟨16⟩ .nil))))))))))))

/-- What is read of the second attribute of an object, and of the global slot. -/
theorem storage_of_verify_storing : storing.verify = .ok () ∧
    storing.AttributeBelow "c" "w" 1 .any ∧ storing.GlobalSlotBelow "g" (.optional .int) := by
  have valid : storing.verify = .ok () := rfl
  obtain ⟨attributes, globals⟩ := Program.storage_of_verify valid
  obtain ⟨declaration, onTop, layout, position, type, ⟨-, -, isLayout⟩, isPosition, isType, below⟩ :=
    attributes ⟨12⟩ (by decide +kernel) (by decide +kernel) "c" rfl
  obtain ⟨other, isOther, belowGlobal⟩ := globals ⟨14⟩ (by decide +kernel) (by decide +kernel)
  have isSecond : position = 1 := by
    have second : ∀ declaration ∈ storing.topLevel, ∀ layout ∈ (storing.classLayout declaration).toOption,
        ∀ position ∈ layout.slotIndex? "w", position = 1 := by decide +kernel
    exact second declaration onTop layout (by rw [isLayout]; rfl) position isPosition
  cases isType
  cases isOther
  exact ⟨valid, isSecond ▸ below, belowGlobal⟩

end TensorIR
