import TensorIR.Proofs.Execution.Counting
import TensorIR.Proofs.Execution.Rewiring
import TensorIR.Proofs.Scalar.Meaningful
import TensorIR.Proofs.Subtyping
import TensorIR.Proofs.TypeTexts

/-!
# Calls in valid programs

A call passes as many values as the function has parameters. Each of them fits its parameter, and what
the function returns fits the results of the call. One value is not compared with its parameter: the
receiver of a method, which only has to be an object of a class with a method of that name.

## Main definitions

* `Program.Calls` — the function that an operation calls, by name or as a method
* `Program.FitsFrom` — a call fits a function, but for the first values that it passes

## Main results

* `Program.fitsFrom_of_verify` — calls fit but for the receiver, and fit altogether if it does
-/

namespace TensorIR

variable {program : Program} {symbols : SymbolTable} {op : OpId} {name : String}
  {signature : Signature}

/-- Values of the first types can stand, position by position, where the others are expected. -/
def Ty.FitEach (actual expected : List Ty) : Prop :=
  List.Forall₂ (fun type wanted => type.isAssignable wanted = true) actual expected

/-- No class has a double quote in its name, as far as classes are mentioned in types of values. -/
def Program.HasQuotableTypes (program : Program) : Prop :=
  ∀ value ∈ program.values.toList, ∀ type ∈ value.type, type.IsQuotable

instance (program : Program) : Decidable program.HasQuotableTypes :=
  inferInstanceAs (Decidable (∀ value ∈ program.values.toList, ∀ type ∈ value.type, type.IsQuotable))

/-- The number of values that a call passes without a comparison with the parameters. -/
def OpKind.unchecked : OpKind → Nat
  | .torch .callMethod => 1
  | _ => 0

namespace Program

/-- The name of the function that an operation calls: the function is named by the call, or it is bound
to a method of the class of the receiver. -/
inductive Calls (program : Program) (symbols : SymbolTable) (op : OpId) : String → Prop
  | function {name : String} (isCall : program.kind op = .func .call)
      (isCallee : (program.attributes op).symbol? "callee" = some name) :
      program.Calls symbols op name
  | method {className : String} {layout : ClassLayout} {method : MethodDeclaration}
      (isCall : program.kind op = .torch .callMethod)
      (isReceiver : program.operandType op 0 = .ok (.nnModule className))
      (isClass : symbols.class? className = some layout)
      (isMethod : layout.method? (program.stringOf op "name") = some method) :
      program.Calls symbols op method.function

/-- A call passes as many values as a function has parameters. Those from a position on fit their
parameters, and what the function returns fits the results of the call. -/
structure FitsFrom (program : Program) (op : OpId) (signature : Signature) (position : Nat) : Prop where
  passed : ∃ types, program.typedOperands op = .ok types ∧
    types.length = signature.inputs.length ∧
      Ty.FitEach (types.drop position) (signature.inputs.drop position)
  returned : ∃ types, program.typedResults op = .ok types ∧ Ty.FitEach signature.outputs types

end Program

/-! ### Types that fit -/

theorem fitEach_of_checkAssignable {what : String} {actual expected : List Ty} {value : Unit}
    (checked : checkAssignable what actual expected = .ok value) : Ty.FitEach actual expected := by
  unfold checkAssignable at checked
  obtain ⟨same, checked⟩ := of_check_eq_ok checked
  obtain ⟨_, run, -⟩ := of_bind_eq_ok checked
  refine (forall₂_of_forIn (not_not.mp same) run fun item done => ?_).imp ?_
  · cases (of_unless_eq_ok done).2
  · rintro type wanted ⟨index, fits⟩
    exact (of_unless_eq_ok fits).1

/-- Types that are written the same fit each other. -/
theorem Ty.isAssignable_of_text {first second : Ty} (quotable : first.IsQuotable)
    (otherQuotable : second.IsQuotable) (same : first.text = second.text) :
    first.isAssignable second = true := by
  unfold isAssignable
  split
  case h_1 type other =>
    rw [TorchType.eq_of_text (quotable type rfl) (otherQuotable other rfl) same]
    exact TorchType.isSubtype_refl other
  case h_2 => exact beq_iff_eq.mpr same

theorem Ty.fitEach_of_typesText {first second : List Ty} (quotable : ∀ type ∈ first, type.IsQuotable)
    (otherQuotable : ∀ type ∈ second, type.IsQuotable) (same : typesText first = typesText second) :
    Ty.FitEach first second := by
  have texts : first.map Ty.text = second.map Ty.text :=
    beq_iff_eq.mp (Ty.sameEach_of_typesText quotable otherQuotable same)
  refine List.forall₂_iff_zip.mpr ⟨by simpa using congrArg List.length texts, fun {a b} member => ?_⟩
  obtain ⟨index, found⟩ := List.mem_iff_getElem?.mp member
  obtain ⟨inFirst, inSecond⟩ := List.getElem?_zip_eq_some.mp found
  refine isAssignable_of_text (quotable a (List.mem_of_getElem? inFirst))
    (otherQuotable b (List.mem_of_getElem? inSecond)) ?_
  have at_index := congrArg (·[index]?) texts
  simpa [inFirst, inSecond] using at_index

namespace Program

theorem isQuotable_of_typed {value : ValueId} {type : Ty} (quotable : program.HasQuotableTypes)
    (typed : program.typed value = .ok type) : type.IsQuotable := by
  have isType := typeOf?_of_typed typed
  unfold typeOf? Program.value at isType
  by_cases inRange : value.index < program.values.size
  · refine quotable (program.values[value.index]) (by simp) type ?_
    simpa [Array.getD, inRange] using isType
  · simp [Array.getD, inRange] at isType
    cases isType

theorem isQuotable_of_mapM {values : List ValueId} {types : List Ty}
    (quotable : program.HasQuotableTypes) (typed : values.mapM program.typed = .ok types) :
    ∀ type ∈ types, type.IsQuotable := by
  intro type member
  obtain ⟨value, -, typed⟩ := forall₂_mem_right (forall₂_of_mapM_eq_ok typed) member
  exact isQuotable_of_typed quotable typed

/-! ### The rules for calls -/

theorem fitsFrom_of_verifyCall (isCall : program.kind op = .func .call)
    (kept : program.verifyFunc symbols op .call = .ok ()) :
    ∃ name signature, program.Calls symbols op name ∧ symbols.function? name = some signature ∧
      program.FitsFrom op signature 0 := by
  obtain ⟨callee, signature, operands, results, isCallee, known, passed, typed, arguments, returned⟩ :=
    of_verifyCall kept
  have fits := fitEach_of_checkAssignable arguments
  exact ⟨callee, signature, .function isCall isCallee, known, ⟨operands, passed, fits.length_eq, fits⟩,
    results, typed, fitEach_of_checkAssignable returned⟩

/-- The class of the object that an operation is about is declared. -/
theorem of_receiverClass {layout : ClassLayout}
    (found : program.receiverClass symbols op = .ok layout) :
    ∃ className, program.operandType op 0 = .ok (.nnModule className) ∧
      symbols.class? className = some layout := by
  obtain ⟨type, isReceiver, found⟩ := of_bind_eq_ok found
  split at found
  case h_2 => cases found
  rename_i className
  split at found
  case h_2 => cases found
  rename_i declared isClass
  cases found
  exact ⟨className, isReceiver, isClass⟩

/-- The loop that leaves out the first position compares all others. -/
theorem fitEach_drop_of_forIn {actual expected : List Ty} {value : PUnit.{1}}
    {message : (Ty × Ty) × Nat → String} (same : actual.length = expected.length)
    (run : forIn ((actual.zip expected).zipIdx.drop 1) PUnit.unit (fun item _ =>
      if item.1.1.isAssignable item.1.2 = true then pure (ForInStep.yield PUnit.unit)
      else do
        failing (message item)
        pure (ForInStep.yield PUnit.unit) : _ → _ → Except Error (ForInStep PUnit)) = .ok value) :
    Ty.FitEach (actual.drop 1) (expected.drop 1) := by
  cases actual with
  | nil =>
    obtain rfl : expected = [] := List.length_eq_zero_iff.mp same.symm
    exact .nil
  | cons first actual =>
    cases expected with
    | nil => cases same
    | cons wanted expected =>
      have each := each_of_forIn_eq_ok run fun item done => by cases (of_unless_eq_ok done).2
      refine List.forall₂_iff_zip.mpr ⟨Nat.succ.inj same, fun {a b} member => ?_⟩
      obtain ⟨index, found⟩ := List.mem_iff_getElem?.mp member
      refine (of_unless_eq_ok (each ((a, b), 1 + index) (List.mem_of_getElem? (i := index) ?_))).1
      simpa using found

theorem declares_of_symbolTable (table : program.symbolTable = .ok symbols)
    (known : symbols.function? name = some signature) :
    ∃ function ∈ program.topLevel, program.Declares name signature function := by
  rcases declares_of_foldlM table known with empty | declared
  · cases empty
  · exact declared

theorem isQuotable_of_signature {function : OpId} (quotable : program.HasQuotableTypes)
    (declared : program.signature function = .ok signature) :
    ∀ type ∈ signature.outputs, type.IsQuotable := by
  obtain ⟨_, _, -, -, typed⟩ := of_signature declared
  exact isQuotable_of_mapM quotable typed

theorem fitsFrom_of_verifyCallMethod (quotable : program.HasQuotableTypes)
    (table : program.symbolTable = .ok symbols) (isCall : program.kind op = .torch .callMethod)
    (kept : program.verifyCallMethod symbols op = .ok ()) :
    ∃ name signature, program.Calls symbols op name ∧ symbols.function? name = some signature ∧
      program.FitsFrom op signature 1 := by
  obtain ⟨layout, found, kept⟩ := of_bind_eq_ok kept
  obtain ⟨className, isReceiver, isClass⟩ := of_receiverClass found
  extract_lets name at kept
  split at kept
  case h_2 => cases kept
  rename_i method isMethod
  obtain ⟨_, -, kept⟩ := of_bind_eq_ok kept
  split at kept
  case h_2 => cases kept
  rename_i signature known
  obtain ⟨operands, passed, kept⟩ := of_bind_eq_ok kept
  obtain ⟨same, kept⟩ := of_check_eq_ok kept
  obtain ⟨_, run, kept⟩ := of_bind_eq_ok kept
  obtain ⟨results, typed, kept⟩ := of_bind_eq_ok kept
  have written : typesText results = typesText signature.outputs := not_not.mp (of_lastCheck_eq_ok kept)
  -- The rule compares the results as they are written, so types are told apart by their texts.
  refine ⟨method.function, signature, .method isCall isReceiver isClass isMethod, known,
    ⟨operands, passed, not_not.mp same, fitEach_drop_of_forIn (not_not.mp same) run⟩, results, typed, ?_⟩
  obtain ⟨function, -, declares⟩ := declares_of_symbolTable table known
  exact Ty.fitEach_of_typesText (isQuotable_of_signature quotable declares.2.2)
    (isQuotable_of_mapM quotable typed) written.symm

/-- The value that a method is called on fits the first parameter of the function. -/
def FitsReceiver (program : Program) (op : OpId) (signature : Signature) : Prop :=
  ∀ receiver ∈ (program.operands op).head?, ∀ parameter ∈ signature.inputs.head?,
    (program.typeOf receiver).isAssignable parameter = true

/-- If all values but the first one fit, all of them fit if the first one does. -/
theorem fitsFrom_zero_iff (others : program.FitsFrom op signature 1) :
    program.FitsFrom op signature 0 ↔ program.FitsReceiver op signature := by
  obtain ⟨⟨types, passed, same, fits⟩, returned⟩ := others
  have each := forall₂_of_mapM_eq_ok passed
  obtain ⟨inputs, outputs⟩ := signature
  cases inputs with
  | nil =>
    obtain rfl : types = [] := List.length_eq_zero_iff.mp same
    refine iff_of_true ⟨⟨[], passed, rfl, .nil⟩, returned⟩ fun receiver _ parameter isParameter => ?_
    cases isParameter
  | cons parameter inputs =>
    obtain ⟨type, types, rfl⟩ := List.exists_cons_of_length_eq_add_one same
    obtain ⟨receiver, values, typed, -, isOperand⟩ := List.forall₂_cons_right_iff.mp each
    have isType : program.typeOf receiver = type := by
      rw [typeOf, typeOf?_of_typed typed, Option.getD_some]
    constructor
    · rintro ⟨⟨all, again, -, every⟩, -⟩ value isReceiver wanted isParameter
      obtain rfl : type :: types = all := Except.ok.inj (passed.symm.trans again)
      obtain rfl : receiver = value := by simpa [isOperand] using isReceiver
      obtain rfl : parameter = wanted := Option.some.inj isParameter
      rw [isType]
      exact (List.forall₂_cons.mp every).1
    · intro first
      refine ⟨⟨type :: types, passed, same, .cons ?_ fits⟩, returned⟩
      rw [← isType]
      exact first receiver (by rw [isOperand]; rfl) parameter rfl

/-- Calls in a valid program fit the function that is called, but for the receiver of a method. They fit
altogether if the receiver fits the first parameter. -/
theorem fitsFrom_of_verify (valid : program.verify = .ok ()) (quotable : program.HasQuotableTypes)
    (member : op ∈ program.tree.ops)
    (isCall : program.kind op = .func .call ∨ program.kind op = .torch .callMethod) :
    ∃ symbols name signature function, program.symbolTable = .ok symbols ∧
      program.Calls symbols op name ∧ function ∈ program.topLevel ∧
      program.Declares name signature function ∧
      program.FitsFrom op signature (program.kind op).unchecked ∧
      (program.FitsFrom op signature 0 ↔
        (program.kind op = .torch .callMethod → program.FitsReceiver op signature)) := by
  obtain ⟨symbols, table, rules⟩ := keepsRule_of_verify valid
  have kept := rules op member
  unfold verifyOp at kept
  rcases isCall with isCall | isCall
  · rw [isCall] at kept ⊢
    obtain ⟨name, signature, calls, known, fits⟩ := fitsFrom_of_verifyCall isCall kept
    obtain ⟨function, onTop, declares⟩ := declares_of_symbolTable table known
    exact ⟨symbols, name, signature, function, table, calls, onTop, declares, fits,
      iff_of_true fits fun other => by cases other⟩
  · rw [isCall] at kept ⊢
    obtain ⟨name, signature, calls, known, fits⟩ :=
      fitsFrom_of_verifyCallMethod quotable table isCall kept
    obtain ⟨function, onTop, declares⟩ := declares_of_symbolTable table known
    exact ⟨symbols, name, signature, function, table, calls, onTop, declares, fits,
      (fitsFrom_zero_iff fits).trans ⟨fun first _ => first, fun first => first rfl⟩⟩

end Program

/-- A method is bound to a function on integers, and called on an object of its class. -/
def miscalling : Program where
  values := #[⟨some "%self", some (.torch .int), .argument (some ⟨2⟩)⟩,
    ⟨none, some (.torch .int), .signature⟩,
    ⟨some "%c", some (.torch (.nnModule "c")), .argument (some ⟨3⟩)⟩,
    ⟨none, some (.torch .int), .signature⟩,
    ⟨some "%0", some (.torch .int), .result ⟨6⟩⟩]
  operations := #[
    { kind := .module },
    { kind := .torch .classType, attributes := Attributes.empty.insert "sym_name" (.symbol "c") },
    { kind := .torch .method,
      attributes := (Attributes.empty.insert "name" (.str "m")).insert "function" (.symbol "f") },
    { kind := .func .func, results := [⟨1⟩], attributes := Attributes.empty.insert "sym_name" (.symbol "f") },
    { kind := .func .ret, operands := [⟨0⟩] },
    { kind := .func .func, results := [⟨3⟩], attributes := Attributes.empty.insert "sym_name" (.symbol "g") },
    { kind := .torch .callMethod, operands := [⟨2⟩], results := [⟨4⟩],
      attributes := Attributes.empty.insert "name" (.str "m") },
    { kind := .func .ret, operands := [⟨4⟩] }]
  headers := #[{}, {}, { arguments := [⟨0⟩] }, { arguments := [⟨2⟩] }]
  root := ⟨0⟩
  regions := .single ⟨0⟩ (.cons ⟨1⟩ (.single ⟨1⟩ (.single ⟨2⟩ .nil))
    (.cons ⟨3⟩ (.single ⟨2⟩ (.single ⟨4⟩ .nil))
      (.single ⟨5⟩ (.single ⟨3⟩ (.cons ⟨6⟩ .nil (.single ⟨7⟩ .nil))))))

/-- The object that the method is called on does not fit the parameter, which the rules do not tell. -/
theorem not_fitsFrom_miscalling : ∃ signature function, miscalling.Declares "f" signature function ∧
    miscalling.FitsFrom ⟨6⟩ signature 1 ∧ ¬miscalling.FitsFrom ⟨6⟩ signature 0 := by
  have valid : miscalling.verify = .ok () := rfl
  have isCall : miscalling.kind ⟨6⟩ = .torch .callMethod := by decide +kernel
  obtain ⟨symbols, name, signature, function, table, calls, onTop, declares, fits, fits_iff⟩ :=
    Program.fitsFrom_of_verify valid (by decide +kernel) (by decide +kernel) (.inr isCall)
  -- The class of the receiver has one method, which is bound to the first function.
  have isFunction : name = "f" := by
    have receiver : (miscalling.operandType ⟨6⟩ 0).toOption = some (.nnModule "c") := by decide +kernel
    have member : miscalling.stringOf ⟨6⟩ "name" = "m" := by decide +kernel
    have bound : (miscalling.symbolTable.toOption.bind fun symbols => (symbols.class? "c").bind
        fun layout => (layout.method? "m").map (·.function)) = some "f" := by decide +kernel
    cases calls with
    | function isOther => cases isCall.symm.trans isOther
    | method _ isReceiver isClass isMethod =>
      rw [isReceiver] at receiver
      cases receiver
      rw [member] at isMethod
      simpa [table, Except.toOption, isClass, isMethod] using bound
  subst isFunction
  have parameter : ∀ function ∈ miscalling.topLevel, (miscalling.functionName? function).getD "" = "f" →
      (miscalling.signature function).toOption.bind (·.inputs.head?) = some (.torch .int) := by
    decide +kernel
  have isParameter := parameter function onTop declares.2.1
  rw [declares.2.2] at isParameter
  refine ⟨signature, function, declares, by rwa [isCall] at fits, fun all => ?_⟩
  have first := fits_iff.mp all isCall ⟨2⟩ (by decide +kernel) (.torch .int) isParameter
  revert first
  decide +kernel

end TensorIR
