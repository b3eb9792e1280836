import TensorIR.Proofs.Evolution
import TensorIR.Proofs.LoweringBuilds
import TensorIR.Proofs.LoweringRun

/-!
# How programs evolve under the passes

Every pass of the lowering is made of the changes under which programs evolve. What a pass puts into a
program differs: the constants of canonicalization are of torch or of the target, as the types of the
results are that they stand for.

## Main results

* `evolvingAt_simplify`, `evolving_dropDead`, `evolving_refine` — the rewrites
* `evolving_convertSignatures` — the types of functions and calls
* `evolvingAt_opToLoops`, `evolvingAt_opToTosa` — the lowering of one operation
-/

namespace TensorIR

open Program

variable {allowed : OpKind → Prop}

/-! ### Rewrites -/

theorem evolving_simplifyCast (op : OpId) : Evolving allowed (Rewrite.simplifyCast op) := by
  refine (evolving_askFor _).bind fun operand => (evolving_askFor _).bind fun result => ?_
  refine (evolving_askFor _).bind fun type => (evolving_askFor _).bind fun operandType => ?_
  refine Evolving.ite ((evolving_supersede op operand).bind fun _ => evolving_pure _) ?_
  refine evolving_program.bind fun now => ?_
  cases now.definingOp? operand with
  | none => exact evolving_pure _
  | some producer =>
    refine Evolving.ite (evolving_pure _) ?_
    refine (evolving_askFor _).bind fun source => (evolving_askFor _).bind fun sourceType => ?_
    exact Evolving.ite ((evolving_supersede op source).bind fun _ => evolving_pure _)
      (evolving_pure _)

theorem evolving_simplifyCopy (op : OpId) : Evolving allowed (Rewrite.simplifyCopy op) := by
  refine (evolving_askFor _).bind fun operand => evolving_program.bind fun now => ?_
  cases now.definingOp? operand with
  | none => exact evolving_pure _
  | some producer =>
    refine Evolving.ite (evolving_pure _) ((evolving_askFor _).bind fun source => ?_)
    refine (evolving_supersede op source).bind fun _ => ?_
    exact (evolving_erase producer).bind fun _ => evolving_pure _

/-- The side of a branch that is moved out of it: the region, its operations but the last, and the
last with what is inside it. -/
structure Rewrite.Inlined (program : Program) (op : OpId) (taken : Bool) where
  blocks : Blocks
  block : BlockId
  body : Body
  front : Body
  last : OpId
  inside : Regions
  found : (program.regionsOf op).get? (if taken then 0 else 1) = some blocks
  entry : blocks.entryBlock? = some (block, body)
  split : body.splitLast? = some (front, last, inside)

/-- The operations of the side that is taken before the branch, which keeps their end. -/
def Rewrite.Inlined.change {program : Program} {op : OpId} {taken : Bool}
    (inlined : Rewrite.Inlined program op taken) (regions : Regions) (rest : Body) : Body :=
  inlined.front.append (.cons op (regions.modify (if taken then 0 else 1)
    (Blocks.withEntryBody (.single inlined.last inlined.inside))) rest)

/-- The operations of the side are moved, not copied. -/
theorem Rewrite.Inlined.evolves {program : Program} {op : OpId} {taken : Bool}
    (inlined : Rewrite.Inlined program op taken) (formed : program.WellFormed) :
    program.Evolves allowed (program.alterAt op inlined.change) := by
  refine evolves_alterAt formed fun visit _ regions part => ?_
  have whole := Regions.count_inline part inlined.found inlined.entry inlined.split
  rw [regions] at whole
  simp only [Rewrite.Inlined.change, Body.parts_append, Body.parts, List.count_append,
    List.count_cons]
  omega

/-- All that simplifying a branch can do. -/
theorem simplifyBranch_cases (program : Program) (op : OpId) :
    (((Rewrite.simplifyBranch op).run program).2 = program ∧
      ((Rewrite.simplifyBranch op).run program).1 ≠ .ok true) ∨
    ∃ (condition : ValueId) (taken : Bool) (inlined : Rewrite.Inlined program op taken),
      program.operand op 0 = .ok condition ∧ program.foldBool? condition = some taken ∧
      (Rewrite.simplifyBranch op).run program =
        (do
          Change.supersedeAll op (program.operands inlined.last)
          return true : Change Bool).run (program.alterAt op inlined.change) := by
  -- Every step before the change only asks, so where one of them gives up the program is what it was.
  unfold Rewrite.simplifyBranch
  rw [run_bind, Change.run_askFor]
  cases program.operand op 0 with
  | error error => exact .inl ⟨rfl, by simp⟩
  | ok condition =>
    simp only []
    rw [run_bind, Change.run_program]
    simp only []
    cases folded : program.foldBool? condition with
    | none => exact .inl ⟨rfl, by simp [run_pure]⟩
    | some taken =>
      simp only []
      cases found : (program.regionsOf op).get? (if taken then 0 else 1) with
      | none => exact .inl ⟨rfl, by simp [run_pure]⟩
      | some blocks =>
        simp only []
        cases entry : blocks.entryBlock? with
        | none => exact .inl ⟨rfl, by simp [run_throw]⟩
        | some first =>
          simp only []
          cases split : first.2.splitLast? with
          | none => exact .inl ⟨rfl, by simp [run_throw]⟩
          | some parts =>
            simp only []
            rw [run_bind]
            have unchanged := run_expectPlace_snd op "insert_before" program
            rcases run : (Change.expectPlace op "insert_before").run program with ⟨outcome, after⟩
            rw [run] at unchanged
            subst unchanged
            cases outcome with
            | error error => exact .inl ⟨rfl, by simp⟩
            | ok _ =>
              exact .inr ⟨condition, taken, ⟨blocks, first.1, first.2, parts.1, parts.2.1, parts.2.2,
                found, entry, split⟩, rfl, folded, rfl⟩

/-- The operations that move are those of the program as it is, so the branch has to be in the tree. -/
theorem evolvingAt_simplifyBranch (op : OpId) :
    EvolvingAt allowed op (Rewrite.simplifyBranch op) := by
  intro program formed member
  rcases simplifyBranch_cases program op with ⟨unchanged, -⟩ | ⟨condition, taken, inlined, -, -, run⟩
  · rw [unchanged]
    exact Evolves.refl program
  · have moved : program.Evolves allowed (program.alterAt op inlined.change) := inlined.evolves formed
    rw [run]
    have later : Evolving allowed (do
        Change.supersedeAll op (program.operands inlined.last)
        return true) :=
      (evolving_supersedeAll op _).bind fun _ => evolving_pure _
    exact moved.trans (later _ (moved.wellFormed formed))

theorem evolving_simplifyLoop (op : OpId) : Evolving allowed (Rewrite.simplifyLoop op) := by
  refine evolving_program.bind fun now => Evolving.ite ?_ (evolving_pure _)
  exact (evolving_supersedeAll op _).bind fun _ => evolving_pure _

theorem evolvingAt_simplify (op : OpId) : EvolvingAt allowed op (Rewrite.simplify op) := by
  intro program formed member
  unfold Rewrite.simplify
  rw [run_bind, Change.run_ask]
  dsimp only
  split
  · exact evolving_simplifyCast op program formed
  · exact evolving_simplifyCopy op program formed
  · exact evolvingAt_simplifyBranch op program formed member
  · exact evolving_simplifyLoop op program formed
  · exact Evolves.refl program

theorem evolving_dropDead (op : OpId) : Evolving allowed (Rewrite.dropDead op) := by
  refine (evolving_ask _).bind fun isDead => Evolving.ite ?_ (evolving_pure _)
  exact (evolving_erase op).bind fun _ => evolving_pure _

/-- All that folding can do: a constant for a known result. -/
theorem foldConstant_cases (program : Program) (op : OpId) :
    (((Rewrite.foldConstant op).run program).2 = program ∧
      ((Rewrite.foldConstant op).run program).1 ≠ .ok true) ∨
    ∃ literal result type, Rewrite.knownResult? program op = some literal ∧
      program.result op 0 = .ok result ∧ program.typed result = .ok type ∧
      (Rewrite.foldConstant op).run program =
        (do
          match ← Change.build op (Build.literal literal type) with
          | none => return false
          | some constant =>
            Change.supersede op constant
            return true : Change Bool).run program := by
  unfold Rewrite.foldConstant
  rw [run_bind, Change.run_ask]
  cases Rewrite.knownResult? program op with
  | none => exact .inl ⟨rfl, by simp [run_pure]⟩
  | some literal =>
    simp only []
    rw [run_bind, Change.run_askFor]
    cases program.result op 0 with
    | error error => exact .inl ⟨rfl, by simp⟩
    | ok result =>
      simp only []
      rw [run_bind, Change.run_askFor]
      cases typed : program.typed result with
      | error error => exact .inl ⟨rfl, by simp⟩
      | ok type => exact .inr ⟨literal, result, type, rfl, rfl, typed, rfl⟩

/-- The constant that stands for a known result has a kind that belongs to the type of the result. -/
theorem evolves_foldConstant {program : Program} (formed : program.WellFormed) (op : OpId)
    (allows : ∀ literal result type, Rewrite.knownResult? program op = some literal →
      program.result op 0 = .ok result → program.typed result = .ok type →
      Builds allowed (Build.literal literal type)) :
    program.Evolves allowed ((Rewrite.foldConstant op).run program).2 := by
  rcases foldConstant_cases program op with ⟨unchanged, -⟩ | ⟨literal, result, type, known, of, typed, run⟩
  · rw [unchanged]
    exact Evolves.refl program
  · rw [run]
    refine Evolving.bind (evolving_build (allows literal result type known of typed) op _)
      (fun constant => ?_) program formed
    cases constant with
    | none => exact evolving_pure _
    | some constant => exact (evolving_supersede op constant).bind fun _ => evolving_pure _

theorem evolving_refineResult (cast : allowed (.torch .tensorStaticInfoCast)) (op : OpId)
    (refinement : Refinement) : Evolving allowed (Rewrite.refineResult op refinement) := by
  refine evolving_program.bind fun now => ?_
  have retyped : Evolving allowed
      (modify (·.setType refinement.result (.torch refinement.refined)) : Change PUnit) :=
    evolving_setType _ _
  refine Evolving.ite retyped ?_
  refine (evolving_build (builds_value cast _ _ _) op _).bind fun value => ?_
  refine (Evolving.forIn (fun use _ => ?_) _ _).bind fun _ => retyped
  exact (evolving_setUse use value).bind fun _ => evolving_pure _

theorem evolving_refine (cast : allowed (.torch .tensorStaticInfoCast)) (op : OpId) :
    Evolving allowed (Rewrite.refine op) := by
  refine (evolving_askFor _).bind fun found => ?_
  cases found with
  | nil => exact evolving_pure _
  | cons first rest =>
    refine (Evolving.forIn (fun refinement _ => ?_) _ _).bind fun _ => evolving_pure _
    exact (evolving_refineResult cast op refinement).bind fun _ => evolving_pure _

/-! ### Signatures -/

/-- The program with other types of values. -/
def Program.setTypes (program : Program) (types : List (ValueId × Ty)) : Program :=
  types.foldl (fun now pair => now.setType pair.1 pair.2) program

theorem setTypes_cons (program : Program) (value : ValueId) (type : Ty)
    (types : List (ValueId × Ty)) :
    program.setTypes ((value, type) :: types) = (program.setType value type).setTypes types := rfl

/-- Values that are passed in can be given any types. -/
theorem grows_setType {program : Program} {value : ValueId} (passed : program.IsPassed value)
    (type : Ty) : program.Grows allowed (program.setType value type) :=
  Grows.setType program value type fun result => absurd result passed.not_isResult

theorem grows_setTypes {program : Program} {types : List (ValueId × Ty)}
    (passed : ∀ pair ∈ types, program.IsPassed pair.1) :
    program.Grows allowed (program.setTypes types) := by
  induction types generalizing program with
  | nil => exact Grows.refl program
  | cons first types ih =>
    have retyped : program.Grows allowed (program.setType first.1 first.2) :=
      grows_setType (passed first List.mem_cons_self) first.2
    exact retyped.trans (ih fun pair member =>
      retyped.isPassed (passed pair (List.mem_cons_of_mem _ member)))

theorem operations_setTypes (program : Program) (types : List (ValueId × Ty)) :
    (program.setTypes types).operations = program.operations := by
  induction types generalizing program with
  | nil => rfl
  | cons first types ih => exact ih (program.setType first.1 first.2)

theorem tree_setTypes (program : Program) (types : List (ValueId × Ty)) :
    (program.setTypes types).tree = program.tree := by
  induction types generalizing program with
  | nil => rfl
  | cons first types ih => exact ih (program.setType first.1 first.2)

theorem root_setTypes (program : Program) (types : List (ValueId × Ty)) :
    (program.setTypes types).root = program.root := by
  have same := tree_setTypes program types
  unfold Program.tree at same
  injection same

theorem regions_setTypes (program : Program) (types : List (ValueId × Ty)) :
    (program.setTypes types).regions = program.regions := by
  have same := tree_setTypes program types
  unfold Program.tree at same
  injection same

theorem entryOf?_of_functionBody {program : Program} {op : OpId} {entry : BlockId × Body}
    (found : program.functionBody op = .ok entry) : program.entryOf? op = some entry := by
  unfold functionBody at found
  split at found
  case h_1 same => cases found; exact same
  case h_2 => cases found

/-- A change of types alone, in which everything stays where it is. -/
def Retypes (allowed : OpKind → Prop) (start now : Program) : Prop :=
  start.Grows allowed now ∧ now.tree = start.tree

namespace Retypes

variable {start middle now : Program}

theorem refl (program : Program) : Retypes allowed program program :=
  ⟨Grows.refl program, rfl⟩

theorem trans (first : Retypes allowed start middle) (second : Retypes allowed middle now) :
    Retypes allowed start now :=
  ⟨first.1.trans second.1, second.2.trans first.2⟩

theorem evolves (retyped : Retypes allowed start now) : start.Evolves allowed now :=
  .of_count_le retyped.1 fun part => by rw [retyped.2]

end Retypes

theorem run_convertFunction {target : Target} {program : Program} {op : OpId} {inputs outputs : List Ty}
    {block : BlockId} {body : Body} (signature : program.loweredSignature target op = .ok (.ok inputs, .ok outputs))
    (entry : program.functionBody op = .ok (block, body)) :
    (Change.convertFunction target op).run program =
      (.ok (), (program.setTypes ((program.header block).arguments.zip inputs)).withOutputs op outputs) := by
  unfold Change.convertFunction
  rw [run_bind, Change.run_program]
  simp only []
  rw [run_bind, Change.run_askFor, signature]
  simp only []
  rw [run_bind, Change.run_askFor, entry]
  simp only []
  rw [run_bind, run_forIn_modify]
  rfl

/-- All that giving a function other types can do. -/
theorem convertFunction_cases (target : Target) (program : Program) (op : OpId) :
    (((Change.convertFunction target op).run program).2 = program ∧
      ((Change.convertFunction target op).run program).1 ≠ .ok ()) ∨
    ∃ inputs outputs block body, program.loweredSignature target op = .ok (.ok inputs, .ok outputs) ∧
      program.functionBody op = .ok (block, body) ∧
      (Change.convertFunction target op).run program =
        (.ok (), (program.setTypes ((program.header block).arguments.zip inputs)).withOutputs op
          outputs) := by
  cases signature : program.loweredSignature target op with
  | ok types =>
    rcases types with ⟨_ | inputs, _ | outputs⟩
    case ok.ok =>
      cases entry : program.functionBody op with
      | ok found => exact .inr ⟨inputs, outputs, found.1, found.2, rfl, rfl, run_convertFunction signature entry⟩
      | error error =>
        rw [Program.loweredSignature, entry] at signature
        cases signature
    all_goals
      refine .inl ?_
      unfold Change.convertFunction
      simp [run_bind, signature]
  | error error =>
    refine .inl ?_
    unfold Change.convertFunction
    simp [run_bind, signature]

/-- The values that state the results of a function get the next entries. -/
theorem withOutputs_eq (program : Program) (op : OpId) (outputs : List Ty) :
    program.withOutputs op outputs =
      { program with
        values := program.values ++
          (outputs.map fun type => (⟨none, some type, .signature⟩ : Value)).toArray }.modifyOperation
        op fun operation => { operation with results := program.freshValues outputs.length } := by
  have gathered (before : List ValueId) :
      outputs.foldl (fun (state : Program × List ValueId) type =>
        ((state.1.addValue ⟨none, some type, .signature⟩).2,
          state.2 ++ [(state.1.addValue ⟨none, some type, .signature⟩).1])) (program, before) =
      ({ program with
        values := program.values ++
          (outputs.map fun type => (⟨none, some type, .signature⟩ : Value)).toArray },
        before ++ program.freshValues outputs.length) := by
    induction outputs generalizing program before with
    | nil => simp [Program.freshValues]
    | cons type outputs ih =>
      rw [List.foldl_cons, ih]
      simp [Program.addValue, Program.freshValues, List.range'_succ]
  have same := gathered []
  unfold Program.withOutputs
  simp only [List.nil_append] at same
  simp only [same]

theorem grows_withOutputs {program : Program} {op : OpId} (isFunction : program.kind op = .func .func)
    (outputs : List Ty) : program.Grows allowed (program.withOutputs op outputs) := by
  rw [withOutputs_eq]
  refine (Grows.appendValues program _).trans (Grows.modifyOperation _ op (fun _ => rfl)
    (fun _ => rfl) fun other => absurd isFunction other)

theorem tree_withOutputs (program : Program) (op : OpId) (outputs : List Ty) :
    (program.withOutputs op outputs).tree = program.tree := by
  rw [withOutputs_eq]
  rfl

/-- The results of a function are replaced, so the operation must be one. -/
theorem retypes_convertFunction (target : Target) {program : Program} {op : OpId}
    (formed : program.WellFormed) (member : op ∈ program.tree.ops)
    (isFunction : program.kind op = .func .func) :
    Retypes allowed program ((Change.convertFunction target op).run program).2 := by
  rcases convertFunction_cases target program op with
    ⟨unchanged, -⟩ | ⟨inputs, outputs, block, body, -, entry, run⟩
  · rw [unchanged]
    exact Retypes.refl program
  · rw [run]
    have placed := (formed.entry_mem member (entryOf?_of_functionBody entry)).1
    have typed : program.Grows allowed
        (program.setTypes ((program.header block).arguments.zip inputs)) :=
      grows_setTypes fun pair among => formed.isPassed_argument placed (List.of_mem_zip among).1
    refine ⟨typed.trans (grows_withOutputs ?_ outputs), ?_⟩
    · rw [Program.kind, Program.operation, operations_setTypes, ← Program.operation, ← Program.kind,
        isFunction]
    · rw [tree_withOutputs, tree_setTypes]

theorem retypes_convertCall (target : Target) {program : Program} {op : OpId}
    (formed : program.WellFormed) (member : op ∈ program.tree.ops)
    (isCall : program.kind op = .func .call) :
    Retypes allowed program ((Change.convertCall target op).run program).2 := by
  unfold Change.convertCall
  rw [run_bind, Change.run_ask]
  refine Keeps.bind (Keeps.forIn (fun result among _ => ?_) _) (fun _ => keeps_pure _) program
    (Retypes.refl program)
  refine keeps_program.bind fun now => ?_
  cases now.typed result >>= target.counterpart with
  | error error => exact (keeps_throw _).bind fun _ => keeps_pure _
  | ok type =>
    refine Keeps.bind (keeps_modify fun now retyped => ?_) fun _ => keeps_pure _
    refine retyped.trans ⟨grows_setType ?_ type, rfl⟩
    exact retyped.1.isPassed (formed.isPassed_call member isCall among)

theorem retypes_convertOp (target : Target) {program : Program} {op : OpId}
    (formed : program.WellFormed) (member : op ∈ program.tree.ops) :
    Retypes allowed program ((Change.convertOp target op).run program).2 := by
  unfold Change.convertOp
  rw [run_bind, Change.run_ask]
  simp only []
  split
  case h_1 isFunction => exact retypes_convertFunction target formed member isFunction
  case h_2 isCall => exact retypes_convertCall target formed member isCall
  case h_3 => exact Retypes.refl program

theorem keeps_retypes_convertEach (target : Target) {program : Program} (formed : program.WellFormed)
    {ops : List OpId} (members : ∀ op ∈ ops, op ∈ program.tree.ops) :
    Keeps (Retypes allowed program) (Change.convertEach target ops) := by
  induction ops with
  | nil => exact keeps_pure _
  | cons op ops ih =>
    refine Keeps.bind (fun now retyped => ?_) fun _ =>
      ih fun other member => members other (List.mem_cons_of_mem _ member)
    refine retyped.trans (retypes_convertOp target (retyped.evolves.wellFormed formed) ?_)
    rw [retyped.2]
    exact members op List.mem_cons_self

theorem retypes_convertSignatures (target : Target) {program : Program}
    (formed : program.WellFormed) :
    Retypes allowed program ((Change.convertSignatures target).run program).2 := by
  unfold Change.convertSignatures
  rw [run_bind, Change.run_ask]
  exact keeps_retypes_convertEach target formed (fun _ member => member) program (Retypes.refl program)

theorem evolving_convertSignatures (target : Target) :
    Evolving allowed (Change.convertSignatures target) :=
  fun _ formed => (retypes_convertSignatures target formed).evolves

/-! ### Lowering of one operation -/

/-- The program has evolved, and an operation is still in its tree. -/
def Placed (allowed : OpKind → Prop) (start : Program) (op : OpId) (now : Program) : Prop :=
  (now.WellFormed ∧ start.Evolves allowed now) ∧ op ∈ now.tree.ops

variable {start : Program} {op : OpId}

theorem keeps_placed {α : Type} {step : Change α} (evolving : Evolving allowed step)
    (tree : ∀ now, (step.run now).2.tree = now.tree) : Keeps (Placed allowed start op) step :=
  (evolving.keeps start).and fun now member => by rwa [tree]

/-- Building takes nothing out of the tree. -/
theorem keeps_placed_build {α : Type} {step : Build α} (builds : Builds allowed step)
    (anchor : OpId) (placement : Placement) :
    Keeps (Placed allowed start op) (Change.build anchor step placement) := by
  rintro now ⟨⟨formed, evolved⟩, member⟩
  refine ⟨(evolving_build builds anchor placement).keeps start now ⟨formed, evolved⟩, ?_⟩
  rw [Change.run_build]
  exact Body.op_mem_parts.mp ((builds _).mem_finished formed (Body.op_mem_parts.mpr member))

theorem keeps_placed_setUses (uses : List Use) (value : ValueId) :
    Keeps (Placed allowed start op) (forIn uses PUnit.unit fun use _ => do
      modify (·.setUse use value)
      pure (ForInStep.yield PUnit.unit) : Change PUnit) :=
  Keeps.forIn (fun use _ _ => Keeps.bind (keeps_placed (evolving_setUse use value) fun _ => rfl)
    fun _ => keeps_pure _) _

theorem keeps_placed_setType {value : ValueId} (passed : start.IsPassed value) (type : Ty) :
    Keeps (Placed allowed start op) (modify (·.setType value type) : Change PUnit) := by
  rintro now ⟨⟨formed, evolved⟩, member⟩
  have retyped : now.Evolves allowed (now.setType value type) :=
    .of_count_le (grows_setType (evolved.toGrows.isPassed passed) type) fun _ => le_rfl
  exact ⟨⟨retyped.wellFormed formed, evolved.trans retyped⟩, member⟩

/-- The arguments of the body are passed in, so their types may change. -/
theorem keeps_convertBody (cast : allowed (.arith .indexCast)) {block : BlockId} (body : Body)
    (types : List Ty) (formed : start.WellFormed) (inside : Part.block block ∈ start.tree.parts) :
    Keeps (Placed allowed start op) (Change.convertBody block body types) := by
  intro now placed
  unfold Change.convertBody
  rw [run_bind, Change.run_ask]
  simp only []
  have passed (argument : ValueId) (among : argument ∈ (now.header block).arguments) :
      start.IsPassed argument := by
    rw [placed.1.2.arguments_eq block (formed.knows _ inside).1] at among
    exact formed.isPassed_argument inside among
  generalize (now.header block).arguments = arguments at passed
  refine Keeps.bind (Keeps.forIn (fun pair among _ => ?_) _) (fun _ => ?_) now placed
  · have argument := List.mem_of_mem_drop (List.of_mem_zip among).1
    exact (keeps_placed_setType (passed pair.1 argument) pair.2).bind fun _ => keeps_pure _
  cases arguments with
  | nil => exact keeps_pure _
  | cons round rest =>
    refine (keeps_ask _).bind fun uses =>
      (keeps_placed_setType (passed round List.mem_cons_self) _).bind fun _ => ?_
    cases body.heads with
    | nil => exact keeps_pure _
    | cons first later =>
      refine Keeps.ite (keeps_pure _) ?_
      refine (keeps_placed_build (builds_value cast _ _ _) first _).bind fun value => ?_
      exact (keeps_placed_setUses uses value).bind fun _ => keeps_pure _

/-- The regions of an operation move to another one. -/
theorem evolves_moveRegions {now : Program} (formed : now.WellFormed) (member : op ∈ now.tree.ops)
    (new : OpId) : now.Evolves allowed ((now.setRegions op .nil).setRegions new (now.regionsOf op)) := by
  obtain ⟨visit, -, -, regions, outside, same⟩ := formed.exists_focus member
  have original := same (.cons op)
  rw [Body.alterAt_self] at original
  -- Without its regions, the operation leaves room for them elsewhere.
  have emptied (part : Part) : (now.setRegions op .nil).tree.parts.count part +
      (now.regionsOf op).parts.count part = now.tree.parts.count part := by
    rw [tree_setRegions, (same _).count_eq, original.count_eq, regions]
    simp only [Body.parts, Regions.parts, List.count_append, List.count_cons, List.nil_append]
    omega
  have first : now.Evolves allowed (now.setRegions op .nil) :=
    .of_count_le (Grows.setRegions ..) fun part => by have := emptied part; omega
  refine .of_count_le (first.toGrows.trans (Grows.setRegions ..)) fun part => ?_
  rw [← emptied part, tree_setRegions]
  refine (first.wellFormed formed).count_alterAt_le fun visit _ _ => ?_
  simp only [Body.parts, List.count_append, List.count_cons]
  omega

/-- The operation has to stay in the tree until its regions move. -/
theorem evolves_replaceHead {build : Build OpId} {finish : Change Unit} {now : Program}
    (builds : Builds allowed build) (finishes : Keeps (Placed allowed start op) finish)
    (placed : Placed allowed start op now) :
    start.Evolves allowed ((Change.replaceHead op build finish).run now).2 := by
  unfold Change.replaceHead
  refine (keeps_placed_build builds op _).run_bind (fun now holds => holds.1.2)
    (fun new now placed => ?_) placed
  refine finishes.run_bind (fun now holds => holds.1.2) (fun _ now placed => ?_) placed
  obtain ⟨⟨formed, evolved⟩, member⟩ := placed
  have moved : now.Evolves allowed ((now.setRegions op .nil).setRegions new (now.regionsOf op)) :=
    evolves_moveRegions formed member new
  have later : Evolving allowed (do
      Change.supersedeAll op (← Change.ask fun program => program.results new)) :=
    (evolving_ask _).bind fun _ => evolving_supersedeAll op _
  exact (evolved.trans moved).trans (later _ (moved.wellFormed formed))

/-- At first everything is in its place. -/
theorem placed_self {program : Program} (formed : program.WellFormed)
    (member : op ∈ program.tree.ops) : Placed allowed program op program :=
  ⟨⟨formed, Evolves.refl program⟩, member⟩

theorem evolvingAt_branchToLoops : EvolvingAt OpKind.IsTarget op (Change.branchToLoops op) := by
  intro program formed member
  refine evolves_replaceHead ?_ (keeps_pure _) (placed_self formed member)
  refine Loops.builds_resultTypes.bind fun types => Loops.builds_operand.bind fun condition => ?_
  exact builds_create OpKind.isTarget_scf _ _ _

theorem builds_tripCount : BuildsTarget (Change.tripCount op) := by
  refine Loops.builds_operand.bind fun rounds => (builds_ask _).bind fun known => ?_
  cases known with
  | none => exact builds_value OpKind.isTarget_arith _ _ _
  | some known => exact Loops.builds_index

theorem evolvingAt_loopToLoops : EvolvingAt OpKind.IsTarget op (Change.loopToLoops op) := by
  intro program formed member
  unfold Change.loopToLoops
  rw [run_bind, Change.run_program]
  simp only []
  cases found : program.entryOf? op with
  | none => exact Evolves.refl program
  | some entry =>
    obtain ⟨block, body⟩ := entry
    simp only []
    have inside := (formed.entry_mem member found).1
    split
    · refine (keeps_placed_build Loops.builds_resultTypes op _).run_bind (fun now holds => holds.1.2)
        (fun types now placed => ?_) (placed_self formed member)
      refine evolves_replaceHead ?_ ?_ placed
      · refine builds_tripCount.bind fun upper => Loops.builds_index.bind fun lower => ?_
        refine Loops.builds_index.bind fun step => (builds_ask _).bind fun initial => ?_
        exact builds_create OpKind.isTarget_scf _ _ _
      · exact keeps_convertBody OpKind.isTarget_arith body types formed inside
    · exact Evolves.refl program

theorem evolving_terminatorToLoops (skipped : Nat) :
    Evolving OpKind.IsTarget (Change.terminatorToLoops op skipped) :=
  (evolving_ask _).bind fun _ => (evolving_build (builds_emit OpKind.isTarget_scf _) op _).bind
    fun _ => evolving_erase op

/-! ### The lowering of a program -/

section Lowering

variable {program : Program} {kind : TorchKind} {table : QuantTable}

theorem evolves_lift {α : Type} {change : Change α} (evolving : EvolvingAt allowed op change)
    (formed : program.WellFormed) (member : op ∈ program.tree.ops) :
    program.Evolves allowed (Lowering.exec (liftM change) (program, table)).2 := by
  rw [Lowering.exec_lift_snd]
  exact evolving program formed member

theorem evolves_supersede {build : Build (ValueId × Option QuantParams)}
    (builds : Builds allowed build) (formed : program.WellFormed) :
    program.Evolves allowed (Lowering.exec (Lowering.supersede op build) (program, table)).2 := by
  have built := evolving_build builds op .before program formed
  rw [Lowering.exec_supersede]
  simp only []
  rcases run : (Change.build op build).run program with ⟨error | ⟨value, params⟩, middle⟩
  · rw [run] at built
    exact built
  · rw [run] at built
    have later : middle.Evolves allowed _ :=
      evolving_supersede op value middle (built.wellFormed formed)
    simp only []
    rcases superseded : (Change.supersede op value).run middle with ⟨_ | _, after⟩
    all_goals
      rw [superseded] at later
      exact built.trans later

theorem evolves_opToLoops (formed : program.WellFormed) (member : op ∈ program.tree.ops) :
    program.Evolves OpKind.IsTarget (Lowering.exec (Lowering.opToLoops op kind) (program, table)).2 := by
  unfold Lowering.opToLoops
  split
  · exact evolves_lift ((evolving_erase op).at op) formed member
  · split
    · exact evolves_lift evolvingAt_branchToLoops formed member
    · exact evolves_lift evolvingAt_loopToLoops formed member
    · exact evolves_lift ((evolving_terminatorToLoops 0).at op) formed member
    · exact evolves_lift ((evolving_terminatorToLoops 1).at op) formed member
    · split
      · exact evolves_supersede (Loops.builds_scalarOp.bind fun _ => Builds.pure _) formed
      · split
        · exact evolves_supersede Loops.builds_tensorOp formed
        · exact Evolves.refl program

theorem evolves_opToTosa (formed : program.WellFormed) (member : op ∈ program.tree.ops) :
    program.Evolves OpKind.IsTarget (Lowering.exec (Lowering.opToTosa op kind) (program, table)).2 := by
  unfold Lowering.opToTosa
  split
  · exact evolves_lift ((evolving_erase op).at op) formed member
  · split
    · rw [Lowering.exec_bind, Lowering.exec_lift]
      simp only [Change.run_ask]
      split
      · exact evolves_lift ((evolving_erase op).at op) formed member
      · exact evolves_supersede (Tosa.builds_scalarOp.bind fun _ => Builds.pure _) formed
    · split
      · exact evolves_supersede Tosa.builds_tensorOp formed
      · exact Evolves.refl program

/-- The program evolves along the run of a lowering of which every step makes it evolve. -/
theorem evolving_exhaust {isDue : Program → OpId → TorchKind → Bool}
    {lower : OpId → TorchKind → Lowering Unit}
    (each : ∀ op kind (state : Lowering.State), state.1.WellFormed → op ∈ state.1.tree.ops →
      state.1.Evolves allowed (Lowering.exec (lower op kind) state).2) :
    Evolving allowed ((Lowering.exhaust isDue lower).run table) := by
  intro program formed
  have along {final : Lowering.State} (steps : Lowering.Steps isDue lower (program, table) final) :
      program.Evolves allowed final.1 := by
    induction steps with
    | refl => exact Evolves.refl program
    | @tail middle final op kind before next run ih =>
      have step := each op kind middle (ih.wellFormed formed) next.mem
      rw [run] at step
      exact ih.trans step
  have run : Lowering.Run isDue lower (program, table) _ := Lowering.run_exhaust (program, table)
  unfold Lowering.exec at run
  simp only [] at run
  generalize (((Lowering.exhaust isDue lower).run table).run program) = result at run ⊢
  cases run with
  | done changed steps => exact along steps
  | @failed middle op kind error after steps next run =>
    have step := each op kind middle ((along steps).wellFormed formed) next.mem
    rw [run] at step
    exact (along steps).trans step

theorem evolving_convert (target : Target) : Evolving OpKind.IsTarget (Change.convert target) := by
  cases target with
  | loops => exact evolving_exhaust fun _ _ _ formed member => evolves_opToLoops formed member
  | tosa => exact evolving_exhaust fun _ _ _ formed member => evolves_opToTosa formed member

end Lowering

end TensorIR
