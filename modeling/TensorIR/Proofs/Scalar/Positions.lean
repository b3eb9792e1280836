import TensorIR.Proofs.Scalar.Moving

/-!
# Constant positions

A new loop needs positions to start from, to stop at and to go on by. Constant positions are built once
each and stand in front of everything else, so all that matters about what stands in front of a loop is
that every operation there computes a new value from what has been known before.

## Main definitions

* `Program.IsPosition` — an operation that is a constant position
* `Draft.Positioned` — the constant positions of a draft stand in front

## Main results

* `positioned_index` — a constant position is built or found
* `Body.through_fresh` — what is known behind operations that compute new values
-/

namespace TensorIR

variable {program after : Program} {start final : Draft} {op : OpId}

/-- An operation of a program is a constant position. -/
def Program.IsPosition (program : Program) (op : OpId) (position : Int) (value : ValueId) : Prop :=
  program.Defines op (.arith .constant) [] (Build.constantAttributes (some (.int position))) [value]
    [.scalar .index]

theorem Program.Defines.lt {kind : OpKind} {operands values : List ValueId} {attributes : Attributes}
    {types : List Ty} (defines : program.Defines op kind operands attributes values types)
    {value : ValueId} (member : value ∈ values) : value.index < program.values.size := by
  have typed : program.typeOf? value ∈ types.map some :=
    defines.types_eq ▸ List.mem_map_of_mem member
  obtain ⟨type, -, isType⟩ := List.mem_map.mp typed
  exact Program.lt_of_typeOf? isType.symm

/-- What an operation is does not change when others are built. -/
theorem Program.Defines.extend {allowed : OpKind → Prop} {kind : OpKind}
    {operands values : List ValueId} {attributes : Attributes} {types : List Ty}
    (defines : program.Defines op kind operands attributes values types)
    (reached : program.Extends allowed after) :
    after.Defines op kind operands attributes values types := by
  have same := reached.operation_eq op defines.below
  refine ⟨defines.below.trans_le reached.operations_le, ?_, ?_, ?_, ?_, ?_⟩
  · rw [Program.kind, same]
    exact defines.kind_eq
  · rw [Program.operands, same]
    exact defines.operands_eq
  · rw [Program.attributes, same]
    exact defines.attributes_eq
  · rw [Program.results, same]
    exact defines.results_eq
  · rw [← defines.types_eq]
    exact List.map_congr_left fun value member =>
      congrArg Value.type (reached.value_eq value (defines.lt member))

theorem Body.heads_append : (first second : Body) →
    (first.append second).heads = first.heads ++ second.heads
  | .nil, _ => rfl
  | .cons _ _ rest, second => congrArg _ (Body.heads_append rest second)

/-- The operations in front of the body of a draft are constant positions, among them those that are
shared. -/
structure Draft.Positioned (draft : Draft) : Prop where
  heads : ∀ op ∈ (draft.hoisted.append draft.lead).heads, ∃ position value,
    draft.program.IsPosition op position value
  indices : ∀ position value, (position, value) ∈ draft.indices →
    ∃ op ∈ (draft.hoisted.append draft.lead).heads, draft.program.IsPosition op position value
  lead : draft.started = false → draft.lead = .nil

theorem positioned_draft (program : Program) (op : OpId) (placement : Placement) :
    (program.draft op placement).Positioned where
  heads := nofun
  indices := nofun
  lead _ := rfl

/-- A draft with the same constant positions in front, and perhaps more in its body. -/
theorem Draft.Positioned.grow {allowed : OpKind → Prop} (positioned : start.Positioned)
    (reached : start.program.Extends allowed final.program) (hoisted : final.hoisted = start.hoisted)
    (lead : final.lead = start.lead) (indices : final.indices = start.indices)
    (started : start.started = true → final.started = true) : final.Positioned where
  heads op member := by
    rw [hoisted, lead] at member
    obtain ⟨position, value, isPosition⟩ := positioned.heads op member
    exact ⟨position, value, isPosition.extend reached⟩
  indices position value member := by
    rw [indices] at member
    obtain ⟨op, among, isPosition⟩ := positioned.indices position value member
    exact ⟨op, by rwa [hoisted, lead], isPosition.extend reached⟩
  lead notStarted := by
    rw [lead]
    exact positioned.lead (Bool.eq_false_iff.mpr fun isStarted => by
      rw [started isStarted] at notStarted
      cases notStarted)

/-- The draft with a new constant position in front. -/
def Draft.withPosition (draft : Draft) (position : Int) (name : String) : Draft :=
  let program := draft.program.withDefinition
    { kind := .arith .constant
      attributes := Build.constantAttributes (some (.int position))
      location := (draft.program.operation draft.anchor).location }
    [(name, .scalar .index)]
  let indices := (position, ⟨draft.program.values.size⟩) :: draft.indices
  let op := Body.single ⟨draft.program.operations.size⟩ .nil
  if draft.started then { draft with program, indices, hoisted := draft.hoisted.append op }
  else { draft with program, indices, started := true, lead := op }

theorem Build.run_position (position : Int) (name : String)
    (placed : start.anchor ≠ start.program.root) :
    (do
      let op ← Build.define (.arith .constant) [] [(name, .scalar .index)]
        (Build.constantAttributes (some (.int position)))
      Build.hoist op
      let id ← Build.askFor fun program => program.result op 0
      modify fun draft => { draft with indices := (position, id) :: draft.indices }
      return id : Build ValueId).run start =
      (.ok ⟨start.program.values.size⟩, start.withPosition position name) := by
  rw [run_bind, Build.run_define _ _ _ _ placed]
  simp only []
  rw [run_bind, Build.hoist, run_modify]
  simp only []
  have result : (start.program.withDefinition
      { kind := .arith .constant
        attributes := Build.constantAttributes (some (.int position))
        location := (start.program.operation start.anchor).location }
      [(name, .scalar .index)]).result ⟨start.program.operations.size⟩ 0 =
        .ok ⟨start.program.values.size⟩ :=
    Program.result_withDefinition _ _ _ _ Nat.one_pos
  unfold Draft.withPosition
  cases isStarted : start.started with
  | true =>
    rw [run_bind, Build.run_askFor]
    simp only [Draft.defining, isStarted, if_true, result]
    rfl
  | false =>
    rw [run_bind, Build.run_askFor]
    simp only [Draft.defining, isStarted, Bool.false_eq_true, if_false, result]
    rfl

section WithPosition

variable (start : Draft) (position : Int) (name : String)

theorem Draft.extends_withPosition :
    start.program.Extends (fun _ => True) (start.withPosition position name).program := by
  unfold Draft.withPosition
  split <;> exact Program.Extends.withDefinition _ _ _ trivial

theorem Draft.isPosition_withPosition : (start.withPosition position name).program.IsPosition
    ⟨start.program.operations.size⟩ position ⟨start.program.values.size⟩ := by
  have length_eq : [name].length = [Ty.scalar .index].length := rfl
  unfold Draft.withPosition
  split <;> exact start.program.defines_withDefinition _ length_eq

@[simp]
theorem Draft.indices_withPosition : (start.withPosition position name).indices =
    (position, ⟨start.program.values.size⟩) :: start.indices := by
  unfold Draft.withPosition
  split <;> rfl

@[simp]
theorem Draft.code_withPosition : (start.withPosition position name).code = start.code := by
  unfold Draft.withPosition
  split <;> rfl

end WithPosition

/-- The new constant position stands somewhere among those in front. -/
theorem Draft.Positioned.exists_place (positioned : start.Positioned) (position : Int) (name : String) :
    ∃ front back : Body,
      start.hoisted.append start.lead = front.append back ∧
      (start.withPosition position name).hoisted.append (start.withPosition position name).lead =
        front.append (.cons ⟨start.program.operations.size⟩ .nil back) := by
  refine ⟨start.hoisted, start.lead, rfl, ?_⟩
  unfold Draft.withPosition
  split
  case isTrue => rw [Body.append_assoc]; rfl
  case isFalse notStarted => rw [positioned.lead (Bool.eq_false_iff.mpr notStarted)]; rfl

/-- A constant position that is built stands in front, behind those that have been built before it. -/
theorem Draft.Positioned.withPosition (positioned : start.Positioned) (position : Int) (name : String) :
    (start.withPosition position name).Positioned := by
  have reached := start.extends_withPosition position name
  have isPosition := start.isPosition_withPosition position name
  obtain ⟨front, back, before, after⟩ := positioned.exists_place position name
  have members (op : OpId) :
      op ∈ ((start.withPosition position name).hoisted.append
        (start.withPosition position name).lead).heads ↔
        op ∈ (start.hoisted.append start.lead).heads ∨ op = ⟨start.program.operations.size⟩ := by
    rw [before, after]
    simp only [Body.heads_append, Body.heads, List.mem_append, List.mem_cons]
    tauto
  refine ⟨fun op member => ?_, fun other value member => ?_, fun notStarted => ?_⟩
  · rcases (members op).mp member with old | rfl
    · obtain ⟨other, value, isOther⟩ := positioned.heads op old
      exact ⟨other, value, isOther.extend reached⟩
    · exact ⟨position, _, isPosition⟩
  · rw [Draft.indices_withPosition, List.mem_cons] at member
    rcases member with same | old
    · cases same
      exact ⟨_, (members _).mpr (.inr rfl), isPosition⟩
    · obtain ⟨op, among, isOther⟩ := positioned.indices other value old
      exact ⟨op, (members op).mpr (.inl among), isOther.extend reached⟩
  · unfold Draft.withPosition at notStarted
    split at notStarted
    case isTrue started => rw [started] at notStarted; cases notStarted
    case isFalse => cases notStarted

/-- A draft that has only got further constant positions in front. -/
structure Draft.Reaches (start final : Draft) : Prop where
  positioned : final.Positioned
  extends_program : start.program.Extends OpKind.IsTarget final.program
  anchor : final.anchor = start.anchor
  placement : final.placement = start.placement
  code : final.code = start.code
  indices : ∀ pair ∈ start.indices, pair ∈ final.indices

theorem Draft.Reaches.trans {middle : Draft} (first : start.Reaches middle)
    (second : middle.Reaches final) : start.Reaches final where
  positioned := second.positioned
  extends_program := first.extends_program.trans second.extends_program
  anchor := second.anchor.trans first.anchor
  placement := second.placement.trans first.placement
  code := second.code.trans first.code
  indices pair member := second.indices pair (first.indices pair member)

theorem mem_of_lookup {α β : Type} [DecidableEq α] {key : α} {value : β} {pairs : List (α × β)}
    (found : pairs.lookup key = some value) : (key, value) ∈ pairs := by
  obtain ⟨before, behind, rfl, -⟩ := List.lookup_eq_some_iff.mp found
  exact List.mem_append_right _ List.mem_cons_self

/-- A constant position is built, or it has been built before. -/
theorem positioned_index (positioned : start.Positioned) (position : Int)
    (placed : start.anchor ≠ start.program.root) :
    ∃ value final, (Build.index position).run start = (.ok value, final) ∧ start.Reaches final ∧
      (position, value) ∈ final.indices := by
  unfold Build.index
  rw [run_bind, run_get]
  simp only []
  cases found : start.indices.lookup position with
  | some value =>
    exact ⟨value, start, rfl, ⟨positioned, .refl _, rfl, rfl, rfl, fun _ => id⟩,
      mem_of_lookup found⟩
  | none =>
    simp only []
    -- However the name is chosen, the position is built in front and kept for later uses.
    have named (supply : Namer → String × Namer) : ∃ value final,
        (Build.named supply >>= fun name => do
          let op ← Build.define (.arith .constant) [] [(name, .scalar .index)]
            (Build.constantAttributes (some (.int position)))
          Build.hoist op
          let id ← Build.askFor fun program => program.result op 0
          modify fun draft => { draft with indices := (position, id) :: draft.indices }
          return id : Build ValueId).run start = (.ok value, final) ∧ start.Reaches final ∧
        (position, value) ∈ final.indices := by
      let renamed : Draft := { start with namer := (supply start.namer).2 }
      have front : renamed.Positioned := ⟨positioned.heads, positioned.indices, positioned.lead⟩
      refine ⟨⟨start.program.values.size⟩, renamed.withPosition position (supply start.namer).1,
        ?_, ?_, ?_⟩
      · rw [run_bind, Build.run_named]
        exact Build.run_position position _ placed
      · refine ⟨front.withPosition position _, ?_, ?_, ?_, ?_, fun pair member => ?_⟩
        all_goals unfold Draft.withPosition; split
        any_goals rfl
        any_goals exact Program.Extends.withDefinition _ _ _ OpKind.isTarget_arith
        all_goals exact List.mem_cons_of_mem _ member
      · unfold Draft.withPosition
        split <;> exact List.mem_cons_self
    split
    · exact named _
    · exact named _

/-! ### What is known behind positions -/

/-- An operation computes one new value from what is known. -/
structure Program.ComputesFresh (program : Program) (bound : Nat) (environment : Environment)
    (op : OpId) (value : ValueId) (atom : Atom) : Prop where
  notExit : (program.kind op).isExit = false
  results_eq : program.results op = [value]
  new : bound ≤ value.index
  fits : (program.typeOf? value).any atom.fits = true
  computes : ∃ inputs, (program.operands op).mapM environment = some inputs ∧
    ∀ enter, program.outputs? op inputs enter = some [atom]

/-- Behind operations that compute new values from what has been known before all of them, these values
are known. -/
theorem Body.through_fresh {bound : Nat} {environment : Environment} {target : ValueId → Atom}
    (below : ∀ value atom, environment value = some atom → value.index < bound) :
    (front : Body) → (∀ op ∈ front.heads, ∃ value,
        program.ComputesFresh bound environment op value (target value)) →
      ∀ image : Environment,
        (∀ value atom, environment value = some atom → image value = some atom) →
        ∃ ready, front.through program image = some ready ∧
          (∀ value atom, environment value = some atom → ready value = some atom) ∧
          (∀ op ∈ front.heads, ∀ value ∈ program.results op, ready value = some (target value)) ∧
          ∀ value, image value = some (target value) → ready value = some (target value)
  | .nil, _, image, carries => ⟨image, rfl, carries, nofun, fun _ => id⟩
  | .cons op regions rest, each, image, carries => by
    obtain ⟨value, fresh⟩ := each op List.mem_cons_self
    obtain ⟨inputs, isInputs, computes⟩ := fresh.computes
    obtain ⟨ready, through, carriesReady, targets, stays⟩ := Body.through_fresh below rest
      (fun other member => each other (List.mem_cons_of_mem _ member)) (image.set value (target value))
      fun other atom known => by
        rw [Environment.set_other]
        · exact carries other atom known
        · rintro rfl
          exact absurd (below _ _ known) (not_lt.mpr fresh.new)
    refine ⟨ready, Body.through_cons_iff.mpr ⟨inputs, mapM_carries carries isInputs, fresh.notExit,
      [target value], image.set value (target value), computes _, ?_, through⟩, carriesReady, ?_, ?_⟩
    · rw [fresh.results_eq, Program.assign?, if_pos fresh.fits, Program.assign?]
    · intro other member result isResult
      rcases List.mem_cons.mp member with rfl | later
      · rw [fresh.results_eq, List.mem_singleton] at isResult
        subst isResult
        exact stays result (Environment.set_self ..)
      · exact targets other later result isResult
    · intro other known
      refine stays other ?_
      by_cases same : other = value
      · subst same
        exact Environment.set_self ..
      · rw [Environment.set_other _ _ same]
        exact known

/-- What an operation with one result computes, if it computes a literal. -/
theorem Program.Defines.computesFresh {kind : OpKind} {operands : List ValueId}
    {attributes : Attributes} {value : ValueId} {type : Ty} {bound : Nat} {environment : Environment}
    {inputs : List Atom} {literal : Literal} {atom : Atom}
    (defines : program.Defines op kind operands attributes [value] [type]) (new : bound ≤ value.index)
    (suits : kind.suits type = true) (isInputs : operands.mapM environment = some inputs)
    (isLiteral : program.literal? op inputs = some literal) (isAtom : literal.atom? type = some atom) :
    program.ComputesFresh bound environment op value atom := by
  have each (enter : Nat → List Atom → Option Exit) := Program.outputs?_of_literal? enter
    defines.resultType?_eq isLiteral isAtom (by rw [defines.kind_eq]; exact suits)
  have types : program.typeOf? value = some type := by simpa using defines.types_eq
  refine ⟨(each fun _ _ => none).1, defines.results_eq, new, ?_, inputs, ?_, fun enter => (each enter).2⟩
  · rw [types]
    exact Literal.fits_of_atom? isAtom
  · rw [defines.operands_eq]
    exact isInputs

/-- A constant position computes the position. -/
theorem Program.IsPosition.computesFresh {position : Int} {value : ValueId} {bound : Nat}
    (isPosition : program.IsPosition op position value) (environment : Environment)
    (new : bound ≤ value.index) :
    program.ComputesFresh bound environment op value (.index position) := by
  obtain ⟨other, isAtom, computes⟩ := (Literal.isConstant_int position .index).computes
    (.index position) rfl
  exact Program.Defines.computesFresh isPosition new rfl rfl
    (computes program op isPosition.kind_eq isPosition.attributes_eq isPosition.resultType?_eq) isAtom

/-- A cast computes a position from an integer. -/
theorem Program.Defines.castFresh {rounds value : ValueId} {bound : Nat} {environment : Environment}
    {count : Int}
    (defines : program.Defines op (.arith .indexCast) [rounds] .empty [value] [.scalar .index])
    (known : environment rounds = some (.int count)) (new : bound ≤ value.index) :
    program.ComputesFresh bound environment op value (.index count) := by
  have isInputs : [rounds].mapM environment = some [.int count] := by simp [known]
  have isLiteral : program.literal? op [.int count] = some (.int count) := by
    unfold Program.literal?
    rw [defines.kind_eq]
  exact defines.computesFresh new rfl isInputs isLiteral rfl

end TensorIR
