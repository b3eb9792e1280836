import Mathlib.Data.List.Pairwise
import TensorIR.Proofs.Scalar.Adequacy

/-!
# Calling functions on scalars

Functions of a valid program have different names, so a function is found by its name. A lowered
function on scalars that has a meaning is called without failing, and returns what it means.

## Main definitions

* `Program.AddsSymbol` — what an operation at the top adds to the symbols
* `Atom.data` — what a value is outside of a run

## Main results

* `Program.function?_eq` — a function is found by its name
* `Program.run_of_means` — a function returns what it means
-/

namespace TensorIR

variable {program : Program} {op function : OpId} {name : String}

/-! ### Functions by name -/

theorem Body.heads_eq (body : Body) : body.heads = body.entries.map Prod.fst := by
  fun_induction Body.heads body with
  | case1 => rfl
  | case2 op regions rest ih => rw [Body.entries, List.map_cons, ih]

theorem Blocks.heads_eq (blocks : Blocks) :
    Regions.heads.blockHeads blocks = blocks.entries.map Prod.fst := by
  fun_induction Regions.heads.blockHeads blocks with
  | case1 => rfl
  | case2 block body rest ih => rw [Blocks.entries, List.map_append, Body.heads_eq, ih]

theorem Regions.heads_eq (regions : Regions) : regions.heads = regions.entries.map Prod.fst := by
  fun_induction Regions.entries regions with
  | case1 => rfl
  | case2 blocks rest ih =>
    rw [List.map_append, ← ih, ← Blocks.heads_eq, Regions.heads, Regions.heads, Regions.toList,
      List.flatMap_cons]

/-- The symbols after an operation at the top: what it declares stands behind those from before, which
have nothing of the same sort and name. -/
inductive Program.AddsSymbol (program : Program) (symbols : SymbolTable) (op : OpId) : SymbolTable → Prop
  | function {signature : Signature} (isFunction : program.kind op = .func .func)
      (isSignature : program.signature op = .ok signature)
      (isNew : symbols.function? ((program.functionName? op).getD "") = none) :
      program.AddsSymbol symbols op { symbols with
        functions := symbols.functions ++ [((program.functionName? op).getD "", signature)] }
  | classType {layout : ClassLayout} (isClass : program.kind op = .torch .classType)
      (isLayout : program.classLayout op = .ok layout) (isNew : symbols.class? layout.name = none) :
      program.AddsSymbol symbols op { symbols with
        classes := symbols.classes ++ [(layout.name, layout)]
        methods := symbols.methods ++ layout.methods.map fun method => (method.2.function, layout.name) }
  | globalSlot {type : TorchType} (isSlot : program.kind op = .torch .globalSlot)
      (isType : program.declaredType op = .ok type)
      (isNew : symbols.globalSlot? (program.symbolOf op "sym_name") = none) :
      program.AddsSymbol symbols op { symbols with
        globalSlots := symbols.globalSlots ++ [(program.symbolOf op "sym_name", type)] }
  | other (notFunction : program.kind op ≠ .func .func) (notClass : program.kind op ≠ .torch .classType)
      (notSlot : program.kind op ≠ .torch .globalSlot) : program.AddsSymbol symbols op symbols

theorem Program.addsSymbol {symbols after : SymbolTable} (added : program.addSymbol symbols op = .ok after) :
    program.AddsSymbol symbols op after := by
  unfold Program.addSymbol at added
  split at added
  case h_1 isFunction =>
    obtain ⟨signature, isSignature, added⟩ := of_bind_eq_ok added
    obtain ⟨isNew, added⟩ := of_check_eq_ok added
    cases added
    exact .function isFunction isSignature (by simpa using isNew)
  case h_2 isClass =>
    obtain ⟨layout, isLayout, added⟩ := of_bind_eq_ok added
    obtain ⟨isNew, added⟩ := of_check_eq_ok added
    cases added
    exact .classType isClass isLayout (by simpa using isNew)
  case h_3 isSlot =>
    obtain ⟨type, isType, added⟩ := of_bind_eq_ok added
    obtain ⟨isNew, added⟩ := of_check_eq_ok added
    cases added
    exact .globalSlot isSlot isType (by simpa using isNew)
  case h_4 notFunction notClass notSlot =>
    cases added
    exact .other notFunction notClass notSlot

/-- A symbol that is declared makes no function unknown. -/
theorem Program.function?_of_addSymbol {symbols after : SymbolTable}
    (added : program.addSymbol symbols op = .ok after) (known : (symbols.function? name).isSome) :
    (after.function? name).isSome := by
  cases Program.addsSymbol added with
  | function =>
    rw [SymbolTable.function?, List.lookup_append, Option.isSome_or, ← SymbolTable.function?, known,
      Bool.true_or]
  | classType | globalSlot | other => exact known

/-- A function is declared under a name that no other function has had before. -/
theorem Program.of_addSymbol {symbols after : SymbolTable} (isFunction : program.kind op = .func .func)
    (added : program.addSymbol symbols op = .ok after) :
    symbols.function? ((program.functionName? op).getD "") = none ∧
      (after.function? ((program.functionName? op).getD "")).isSome := by
  cases Program.addsSymbol added with
  | function _ _ isNew =>
    refine ⟨isNew, ?_⟩
    rw [SymbolTable.function?, List.lookup_append]
    simp only [List.lookup_cons_self, Option.isSome_or, Option.isSome_some, Bool.or_true]
  | classType isOther => cases isFunction.symm.trans isOther
  | globalSlot isOther => cases isFunction.symm.trans isOther
  | other notFunction => exact absurd isFunction notFunction

/-- Two functions do not have the same name. -/
def Program.NamedApart (program : Program) (first second : OpId) : Prop :=
  program.kind first = .func .func → program.kind second = .func .func →
    (program.functionName? first).getD "" ≠ (program.functionName? second).getD ""

instance : Std.Symm program.NamedApart where
  symm _ _ apart isSecond isFirst same := apart isFirst isSecond same.symm

theorem Program.namedApart_of_foldlM {ops : List OpId} {symbols after : SymbolTable}
    (added : ops.foldlM program.addSymbol symbols = .ok after) :
    (∀ op ∈ ops, program.kind op = .func .func →
      symbols.function? ((program.functionName? op).getD "") = none) ∧
      ops.Pairwise program.NamedApart := by
  induction ops generalizing symbols with
  | nil => exact ⟨fun _ member => absurd member List.not_mem_nil, .nil⟩
  | cons first ops ih =>
    rw [List.foldlM_cons] at added
    obtain ⟨middle, declared, later⟩ := of_bind_eq_ok added
    obtain ⟨unknown, apart⟩ := ih later
    refine ⟨fun op member isFunction => ?_, List.pairwise_cons.mpr ⟨?_, apart⟩⟩
    · rcases List.mem_cons.mp member with rfl | behind
      · exact (Program.of_addSymbol isFunction declared).1
      · by_contra known
        have still := Program.function?_of_addSymbol declared (Option.isSome_iff_ne_none.mpr known)
        rw [unknown op behind isFunction] at still
        cases still
    · intro op member isFirst isFunction same
      have known := (Program.of_addSymbol isFirst declared).2
      rw [same, unknown op member isFunction] at known
      cases known

/-- A function at the top of a program with symbols is found by its name. -/
theorem Program.function?_eq {symbols : SymbolTable} (table : program.symbolTable = .ok symbols)
    (member : function ∈ program.topLevel) (isFunction : program.kind function = .func .func)
    (named : program.functionName? function = some name) : program.function? name = some function := by
  have apart := (Program.namedApart_of_foldlM table).2
  cases found : program.function? name with
  | none =>
    have other := List.find?_eq_none.mp found function (List.mem_reverse.mpr member)
    simp [isFunction, named] at other
  | some other =>
    have isNamed := List.find?_some found
    simp only [Bool.and_eq_true, decide_eq_true_eq, beq_iff_eq] at isNamed
    by_contra different
    refine apart.forall member (List.mem_reverse.mp (List.mem_of_find?_eq_some found))
      (fun same => different (congrArg some same.symm)) isFunction isNamed.1 ?_
    rw [named, isNamed.2]

/-! ### Calls -/

/-- What a value is outside of a run. -/
def Atom.data (atom : Atom) : Data := .scalar (.int atom.toInt)

theorem Run.run_loadEach (atoms : List Atom) {machine : Machine} :
    ((atoms.map Atom.data).mapM Run.load).run machine = .ok (atoms.map Atom.slot, machine) :=
  Run.run_mapM (List.forall₂_map_left_iff.mpr (List.forall₂_map_right_iff.mpr
    (List.forall₂_same.mpr fun _ _ => rfl)))

theorem Run.run_snapshotEach (atoms : List Atom) {machine : Machine} :
    ((atoms.map Atom.slot).mapM Run.snapshot).run machine = .ok (atoms.map Atom.data, machine) :=
  Run.run_mapM (List.forall₂_map_left_iff.mpr (List.forall₂_map_right_iff.mpr
    (List.forall₂_same.mpr fun _ _ => rfl)))

/-- A function that has a meaning is called as it is evaluated. -/
theorem Program.run_callWithin {arguments results : List Atom} {symbols : SymbolTable}
    (means : program.Means function arguments results) (table : program.symbolTable = .ok symbols)
    (named : program.functionName? function = some name)
    (runnable : ∀ op ∈ program.tree.ops, program.IsRunnable op) (depth : Nat) (machine : Machine) :
    ∃ final, (program.callWithin (depth + 1) name (arguments.map Atom.slot)).run machine =
      .ok (results.map Atom.slot, final) := by
  obtain ⟨inside, member, returns⟩ := means.returns
  obtain ⟨exit, ended, rfl⟩ := Option.map_eq_some_iff.mp returns
  obtain ⟨-, visit, visited, isFunction, isInside⟩ := Program.visits_of_entries member
  have inTree (part : Part) (among : part ∈ inside.parts) : part ∈ program.tree.parts :=
    List.mem_cons_of_mem _ (List.mem_append_left _ (Regions.parts_of_entries _ member part among))
  have nodup : inside.parts.Nodup := by
    rw [← isInside]
    exact means.formed.nodup_inside visited
  have onTop : function ∈ program.topLevel := by
    rw [Program.topLevel, Regions.heads_eq]
    exact List.mem_map_of_mem member
  have isFound := Program.function?_eq table onTop means.isFunction named
  have runs := Regions.run_of_eval (program.callWithin depth) function 0 0 inside nodup
    (fun part among => means.formed.knows part (inTree part among))
    (fun op among => runnable op (Body.op_mem_parts.mp (inTree _ (Regions.op_mem_parts.mpr among))))
    (program.admits_empty _) ended
  obtain _ | ⟨_ | ⟨block, body, others⟩, behind⟩ := inside
  · cases ended
  · cases ended
  have hasBody : program.functionBody function = .ok (block, body) := by
    rw [Program.functionBody, Program.entryOf?, ← isFunction, means.formed.regionsOf_eq visited,
      isInside]
    rfl
  obtain ⟨final, done, -⟩ := runs
    { machine with frame := Array.replicate program.values.size none }
    (fun _ _ known => by cases known) (Array.size_replicate ..).ge
  refine ⟨{ final with frame := machine.frame }, ?_⟩
  -- A call starts with an empty frame and puts the frame of the caller back.
  have called : (program.callWithin (depth + 1) name (arguments.map Atom.slot)).run machine =
      (Run.enter program block (arguments.map Atom.slot) >>= fun _ =>
        body.run program (program.callWithin depth) >>= fun slots => do
          modify fun machine' => { machine' with frame := machine.frame }
          return slots).run { machine with frame := Array.replicate program.values.size none } := by
    rw [Program.callWithin, isFound]
    exact Run.run_bind_of (Run.run_lift hasBody)
  rw [Regions.run, Blocks.run] at done
  rw [called, ← bind_assoc, Run.run_bind_of done]
  rfl

/-- A function that has a meaning is run without failing, and returns what it means. -/
theorem Program.run_of_means {arguments results : List Atom} {symbols : SymbolTable}
    (means : program.Means function arguments results) (table : program.symbolTable = .ok symbols)
    (named : program.functionName? function = some name)
    (runnable : ∀ op ∈ program.tree.ops, program.IsRunnable op) :
    program.run name (arguments.map Atom.data) =
      .ok (results.map Atom.data, arguments.map Atom.data) := by
  obtain ⟨final, called⟩ : ∃ final,
      (program.callWithin Program.callDepth name (arguments.map Atom.slot)).run {} =
        .ok (results.map Atom.slot, final) :=
    Program.run_callWithin means table named runnable (Program.callDepth - 1) {}
  unfold Program.run
  simp only []
  rw [Run.run_bind_of (Run.run_loadEach arguments), Run.run_bind_of called,
    Run.run_bind_of (Run.run_snapshotEach results), Run.run_bind_of (Run.run_snapshotEach arguments)]
  rfl

end TensorIR
