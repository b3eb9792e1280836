import TensorIR.Proofs.Planning.Surroundings
import TensorIR.Proofs.Scalar.Positions

/-!
# Drafts in order

While operations are built, each of them uses values that are visible where it is going to stand: values of
the surroundings, values computed before in the same body, and constant positions. The latter use nothing
themselves and stand in front of everything else, so that further ones only make more visible, also in
bodies that have been built before.

## Main definitions

* `Draft.Shows` — a value is visible behind what has been built in the body
* `Draft.Orderly` — everything that has been built uses visible values
* `Draft.Furthers` — what has been visible stays so
* `Draft.Leads` — a draft that is in order again, with nothing visible lost

## Main results

* `Draft.Orderly.prolong` — further operations in the body
* `Draft.Orderly.withPosition` — a further constant position
* `Draft.Orderly.enter`, `Draft.Orderly.leave` — a body of its own
* `Draft.Orderly.suits` — what has been built fits in front of the anchor
-/

namespace TensorIR

/-- Values keep their types when a program is extended. -/
theorem Program.Extends.typed {allowed : OpKind → Prop} {program after : Program} {value : ValueId}
    (reached : program.Extends allowed after) (isTyped : (program.typeOf? value).isSome) :
    (after.typeOf? value).isSome := by
  obtain ⟨type, hasType⟩ := Option.isSome_iff_exists.mp isTyped
  rwa [Program.typeOf?, reached.value_eq value (Program.lt_of_typeOf? hasType)]

/-- The operation has been defined with types for all its results. -/
theorem Program.Defines.typed {program : Program} {op : OpId} {kind : OpKind} {operands values : List ValueId}
    {attributes : Attributes} {types : List Ty}
    (defines : program.Defines op kind operands attributes values types) :
    ∀ value ∈ values, (program.typeOf? value).isSome := by
  intro value member
  have among : program.typeOf? value ∈ values.map program.typeOf? := List.mem_map_of_mem member
  rw [defines.types_eq, List.mem_map] at among
  obtain ⟨type, -, isType⟩ := among
  exact isType ▸ rfl

theorem Body.results_eq_flatMap (program : Program) (body : Body) :
    body.results program = body.heads.flatMap program.results := by
  fun_induction Body.results program body with
  | case1 => rfl
  | case2 op regions rest ih => rw [ih, Body.heads, List.flatMap_cons]

theorem Body.append_nil (body : Body) : body.append .nil = body := by
  fun_induction Body.heads body with
  | case1 => rfl
  | case2 op regions rest ih => rw [Body.append, ih]

namespace Draft

/-- The constant positions, which stand in front of everything else. -/
def constants (draft : Draft) : Body :=
  draft.hoisted.append draft.lead

/-- In surroundings of a given scope, the value is visible behind what has been built in the body. -/
def Shows (draft : Draft) (scope : ValueId → Prop) (value : ValueId) : Prop :=
  value ∈ draft.code.results draft.program ∨ value ∈ draft.constants.results draft.program ∨ scope value

/-- Everything that has been built is known and uses visible values, which have types if those of the
surroundings do. -/
structure Orderly (scope : ValueId → Prop) (typed : Prop) (draft : Draft) : Prop where
  placed : draft.anchor ≠ draft.program.root
  knows : ∀ part ∈ draft.built, draft.program.Knows part
  positioned : draft.Positioned
  constants : draft.constants.Visible draft.program fun _ => False
  code : draft.code.Visible draft.program fun value =>
    value ∈ draft.constants.results draft.program ∨ scope value
  types : typed → ∀ value, draft.Shows scope value → (draft.program.typeOf? value).isSome

/-- A draft of an extended program in which nothing that was visible has been lost. -/
structure Furthers (start now : Draft) : Prop where
  program : start.program.Extends (fun _ => True) now.program
  anchor : now.anchor = start.anchor
  placement : now.placement = start.placement
  constants : ∀ value ∈ start.constants.results start.program, value ∈ now.constants.results now.program
  code : ∀ value ∈ start.code.results start.program, value ∈ now.code.results now.program
  indices : ∀ position value, start.indices.lookup position = some value →
    now.indices.lookup position = some value

/-- Building leads to a draft that is in order, in which nothing that was visible has been lost. -/
structure Leads (scope : ValueId → Prop) (typed : Prop) (start now : Draft) : Prop where
  furthers : start.Furthers now
  orderly : now.Orderly scope typed

variable {scope wider : ValueId → Prop} {typed : Prop} {start middle now draft : Draft} {value : ValueId}

theorem Furthers.refl (draft : Draft) : draft.Furthers draft where
  program := .refl _
  anchor := rfl
  placement := rfl
  constants _ := id
  code _ := id
  indices _ _ := id

theorem Furthers.trans (first : start.Furthers middle) (second : middle.Furthers now) : start.Furthers now where
  program := first.program.trans second.program
  anchor := second.anchor.trans first.anchor
  placement := second.placement.trans first.placement
  constants value member := second.constants value (first.constants value member)
  code value member := second.code value (first.code value member)
  indices position value known := second.indices position value (first.indices position value known)

theorem Furthers.shows (furthers : start.Furthers now) (shown : start.Shows scope value) :
    now.Shows scope value :=
  shown.imp (furthers.code value) (Or.imp_left (furthers.constants value))

theorem Leads.refl (orderly : draft.Orderly scope typed) : draft.Leads scope typed draft :=
  ⟨.refl draft, orderly⟩

theorem Leads.trans (first : start.Leads scope typed middle) (second : middle.Leads scope typed now) :
    start.Leads scope typed now :=
  ⟨first.furthers.trans second.furthers, second.orderly⟩

/-! ### What a draft in order is made of -/

namespace Orderly

variable (orderly : draft.Orderly scope typed)
include orderly

theorem knows_constants : ∀ part ∈ draft.constants.parts, draft.program.Knows part := by
  intro part member
  rw [Draft.constants, Body.parts_append, List.mem_append] at member
  exact orderly.knows part (by simp only [built, List.mem_append]; tauto)

theorem knows_code : ∀ part ∈ draft.code.parts, draft.program.Knows part :=
  fun part member => orderly.knows part (by simp only [built, List.mem_append]; tauto)

/-- A constant position that is known has been computed in front. -/
theorem mem_constants {position : Int} (known : draft.indices.lookup position = some value) :
    value ∈ draft.constants.results draft.program := by
  obtain ⟨op, member, isPosition⟩ := orderly.positioned.indices position value (mem_of_lookup known)
  rw [Body.results_eq_flatMap, List.mem_flatMap]
  exact ⟨op, member, isPosition.results_eq ▸ List.mem_singleton_self value⟩

theorem shows_of_lookup {position : Int} (known : draft.indices.lookup position = some value) :
    draft.Shows scope value :=
  .inr (.inl (orderly.mem_constants known))

/-! ### Further operations -/

/-- What has been built gives the same values in an extended program. -/
theorem results_eq (reached : draft.program.Extends (fun _ => True) now.program) :
    draft.constants.results now.program = draft.constants.results draft.program ∧
      draft.code.results now.program = draft.code.results draft.program :=
  ⟨draft.constants.results_congr fun part member => (reached.reads (orderly.knows_constants part member)).1,
    draft.code.results_congr fun part member => (reached.reads (orderly.knows_code part member)).1⟩

/-- What has been built is in order in an extended program as well. -/
theorem constants_extended (reached : draft.program.Extends (fun _ => True) now.program) :
    draft.constants.Visible now.program fun _ => False :=
  draft.constants.visible_of_reads (fun part member => reached.reads (orderly.knows_constants part member))
    orderly.constants

theorem code_extended (reached : draft.program.Extends (fun _ => True) now.program) :
    draft.code.Visible now.program fun value => value ∈ draft.constants.results draft.program ∨ scope value :=
  draft.code.visible_of_reads (fun part member => reached.reads (orderly.knows_code part member)) orderly.code

end Orderly

/-- A draft with further operations in the body, whose constant positions are the same. -/
structure Prolongs (start : Draft) (added : Body) (now : Draft) : Prop where
  program : start.program.Extends (fun _ => True) now.program
  anchor : now.anchor = start.anchor
  placement : now.placement = start.placement
  hoisted : now.hoisted = start.hoisted
  lead : now.lead = start.lead
  indices : now.indices = start.indices
  started : start.started = true → now.started = true
  code : now.code = start.code.append added

/-- Further operations that use visible values may stand behind those that have been built. -/
theorem Orderly.prolong {added : Body} (orderly : start.Orderly scope typed) (prolongs : start.Prolongs added now)
    (knows : ∀ part ∈ added.parts, now.program.Knows part)
    (visible : added.Visible now.program (start.Shows scope))
    (types : typed → ∀ value ∈ added.results now.program, (now.program.typeOf? value).isSome) :
    start.Leads scope typed now ∧ ∀ value ∈ added.results now.program, now.Shows scope value := by
  have reached := prolongs.program
  obtain ⟨constantResults, codeResults⟩ := orderly.results_eq reached
  have constants : now.constants = start.constants := by
    rw [Draft.constants, prolongs.hoisted, prolongs.lead, ← Draft.constants]
  have results : now.code.results now.program =
      start.code.results start.program ++ added.results now.program := by
    rw [prolongs.code, Body.results_append, codeResults]
  have furthers : start.Furthers now :=
    { program := reached
      anchor := prolongs.anchor
      placement := prolongs.placement
      constants := fun value member => by rwa [constants, constantResults]
      code := fun value member => by rw [results]; exact List.mem_append_left _ member
      indices := fun position value known => by rwa [prolongs.indices] }
  refine ⟨⟨furthers, ?_⟩, fun value member => .inl (results ▸ List.mem_append_right _ member)⟩
  constructor
  case placed => rw [prolongs.anchor, reached.root]; exact orderly.placed
  case knows =>
    intro part member
    rw [built, prolongs.hoisted, prolongs.lead, prolongs.code, Body.parts_append] at member
    -- A part of the longer draft has been added or was there before.
    by_cases isNew : part ∈ added.parts
    case pos => exact knows part isNew
    case neg =>
      refine reached.grows.knows (orderly.knows part ?_)
      simp only [built, List.mem_append, isNew, or_false] at member ⊢
      exact member
  case positioned =>
    exact orderly.positioned.grow reached prolongs.hoisted prolongs.lead prolongs.indices prolongs.started
  case constants =>
    rw [constants]
    exact orderly.constants_extended reached
  case code =>
    rw [prolongs.code, Body.visible_append, constants, constantResults, codeResults]
    exact ⟨orderly.code_extended reached, visible⟩
  case types =>
    intro isTyped value shown
    rw [Shows, results, constants, constantResults, List.mem_append, or_assoc, or_left_comm] at shown
    exact shown.elim (types isTyped value) fun old => reached.typed (orderly.types isTyped value old)

/-! ### Constant positions -/

theorem built_eq (draft : Draft) : draft.built = draft.constants.parts ++ draft.code.parts := by
  rw [built, Draft.constants, Body.parts_append, List.append_assoc]

section WithPosition

variable (orderly : start.Orderly scope typed) (position : Int) (name : String)
include orderly

/-- Only the new operation is put among the constant positions, and it stands somewhere in front. -/
theorem Orderly.exists_constants_withPosition : ∃ front back : Body, start.constants = front.append back ∧
    (start.withPosition position name).constants =
      front.append (.cons ⟨start.program.operations.size⟩ .nil back) :=
  orderly.positioned.exists_place position name

theorem Orderly.mem_constants_withPosition (value : ValueId) :
    value ∈ (start.withPosition position name).constants.results (start.withPosition position name).program ↔
      value ∈ start.constants.results start.program ∨
        value ∈ (start.withPosition position name).program.results ⟨start.program.operations.size⟩ := by
  obtain ⟨front, back, before, after⟩ := orderly.exists_constants_withPosition position name
  have reached := start.extends_withPosition position name
  rw [← (orderly.results_eq reached).1, before, after, Body.results_append, Body.results_append, Body.results]
  simp only [List.mem_append]
  tauto

theorem Orderly.furthers_withPosition (unknown : start.indices.lookup position = none) :
    start.Furthers (start.withPosition position name) where
  program := start.extends_withPosition position name
  anchor := by simp only [Draft.withPosition]; split <;> rfl
  placement := by simp only [Draft.withPosition]; split <;> rfl
  constants value member := (orderly.mem_constants_withPosition position name value).mpr (.inl member)
  code value member := by
    rwa [start.code_withPosition, (orderly.results_eq (start.extends_withPosition position name)).2]
  indices other value known := by
    have distinct : (other == position) = false := by
      rw [beq_eq_false_iff_ne]
      rintro rfl
      rw [unknown] at known
      cases known
    rw [Draft.indices_withPosition, List.lookup_cons, distinct]
    exact known

/-- A further constant position stands in front, where the bodies built before see it as well. -/
theorem Orderly.withPosition (unknown : start.indices.lookup position = none) :
    start.Leads scope typed (start.withPosition position name) := by
  have furthers := orderly.furthers_withPosition position name unknown
  have reached := furthers.program
  have isPosition := start.isPosition_withPosition position name
  have among := orderly.mem_constants_withPosition position name
  obtain ⟨front, back, before, after⟩ := orderly.exists_constants_withPosition position name
  have code := start.code_withPosition position name
  set now := start.withPosition position name
  set op : OpId := ⟨start.program.operations.size⟩
  refine ⟨furthers, ?_⟩
  constructor
  case placed => rw [furthers.anchor, reached.root]; exact orderly.placed
  case knows =>
    intro part member
    rw [built_eq, after, code] at member
    simp only [Body.parts_append, Body.parts, Regions.parts, List.nil_append, List.mem_append, List.mem_cons]
      at member
    have isNew : (Part.op op).IsNew start.program now.program := ⟨le_rfl, isPosition.below⟩
    by_cases here : part = .op op
    case pos => exact here ▸ reached.grows.knows_new isNew
    case neg =>
      apply reached.grows.knows (orderly.knows part _)
      rw [built_eq, before, Body.parts_append]
      simp only [List.mem_append]
      tauto
  case positioned => exact orderly.positioned.withPosition position name
  case constants =>
    -- The new operation uses nothing, and those behind it see more than before.
    have old := orderly.constants_extended reached
    rw [before, Body.visible_append] at old
    rw [after, Body.visible_append, Body.Visible, isPosition.operands_eq]
    refine ⟨old.1, ?_, trivial, ?_⟩
    · simp
    · exact Body.visible_widen (fun _ => .inr) _ old.2
  case code =>
    rw [code]
    exact Body.visible_widen (fun value => Or.imp_left fun member => (among value).mpr (.inl member)) _
      (orderly.code_extended reached)
  case types =>
    intro isTyped value shown
    rw [Shows, code, (orderly.results_eq reached).2, among] at shown
    by_cases isNew : value ∈ now.program.results op
    case pos => exact isPosition.typed value (isPosition.results_eq ▸ isNew)
    case neg =>
      apply reached.typed (orderly.types isTyped value _)
      rw [Shows]
      tauto

end WithPosition

/-- A constant position is built once and visible from then on. -/
theorem Orderly.index (orderly : start.Orderly scope typed) (position : Int) :
    ∃ value now, (Build.index position).run start = (.ok value, now) ∧ start.Leads scope typed now ∧
      now.indices.lookup position = some value := by
  unfold Build.index
  rw [run_bind, run_get]
  dsimp only
  split
  case h_1 known isKnown => exact ⟨known, start, rfl, .refl orderly, isKnown⟩
  case h_2 unknown =>
    -- A negative position takes a fresh name, another one its own, and all else is the same.
    have build (supply : Namer → String × Namer) : ∃ value now, (Build.named supply >>= fun name => do
        let op ← Build.define (.arith .constant) [] [(name, .scalar .index)]
          (Build.constantAttributes (some (.int position)))
        Build.hoist op
        let id ← Build.askFor fun program => program.result op 0
        modify fun draft => { draft with indices := (position, id) :: draft.indices }
        return id : Build ValueId).run start = (.ok value, now) ∧ start.Leads scope typed now ∧
          now.indices.lookup position = some value := by
      let named : Draft := { start with namer := (supply start.namer).2 }
      have steps : start.Leads scope typed named :=
        ⟨⟨.refl _, rfl, rfl, fun _ => id, fun _ => id, fun _ _ => id⟩,
          ⟨orderly.placed, orderly.knows, ⟨orderly.positioned.heads, orderly.positioned.indices,
            orderly.positioned.lead⟩, orderly.constants, orderly.code, orderly.types⟩⟩
      have leads := steps.orderly.withPosition position (supply start.namer).1 unknown
      refine ⟨⟨start.program.values.size⟩, _, ?_, steps.trans leads, ?_⟩
      · rw [run_bind, Build.run_named]
        exact Build.run_position position (supply start.namer).1 steps.orderly.placed
      · rw [Draft.indices_withPosition, List.lookup_cons_self]
    split
    · exact build _
    · exact build _

/-! ### Bodies inside -/

/-- A body of its own sees its arguments and what is visible where it is going to stand. -/
theorem Orderly.enter (orderly : draft.Orderly scope typed) {arguments : List ValueId}
    (types : typed → ∀ value ∈ arguments, (draft.program.typeOf? value).isSome) :
    { draft with code := .nil }.Orderly (fun value => value ∈ arguments ∨ draft.Shows scope value) typed where
  placed := orderly.placed
  knows part member := by
    rw [built_eq, Body.parts, List.append_nil] at member
    exact orderly.knows_constants part member
  positioned := ⟨orderly.positioned.heads, orderly.positioned.indices, orderly.positioned.lead⟩
  constants := orderly.constants
  code := trivial
  types isTyped value shown := by
    rcases shown with nothing | constant | argument | outside
    · cases nothing
    · exact orderly.types isTyped value (.inr (.inl constant))
    · exact types isTyped value argument
    · exact orderly.types isTyped value outside

/-- Behind a body inside, the body outside goes on as it was left, and the body inside sees only what is
visible there. -/
theorem Orderly.leave (orderly : draft.Orderly scope typed) {arguments : List ValueId} {inner : Draft}
    (leads : { draft with code := .nil }.Leads
      (fun value => value ∈ arguments ∨ draft.Shows scope value) typed inner) :
    draft.Leads scope typed { inner with code := draft.code } ∧
      inner.code.Visible inner.program fun value =>
        value ∈ arguments ∨ { inner with code := draft.code }.Shows scope value := by
  have reached := leads.furthers.program
  have codeResults := (orderly.results_eq reached).2
  have furthers : draft.Furthers { inner with code := draft.code } :=
    { program := reached
      anchor := leads.furthers.anchor
      placement := leads.furthers.placement
      constants := leads.furthers.constants
      code := fun value member => by rwa [codeResults]
      indices := leads.furthers.indices }
  refine ⟨⟨furthers, ?_⟩, ?_⟩
  -- Constants that are built inside stand in front of the whole draft, so they stay visible outside.
  case refine_2 =>
    refine Body.visible_widen (fun value shown => ?_) _ leads.orderly.code
    rcases shown with constant | argument | outside
    · exact .inr (.inr (.inl constant))
    · exact .inl argument
    · exact .inr (furthers.shows outside)
  constructor
  case placed => exact leads.orderly.placed
  case knows =>
    intro part member
    rw [built_eq, List.mem_append] at member
    rcases member with constant | inBody
    · exact leads.orderly.knows_constants part constant
    · exact reached.grows.knows (orderly.knows_code part inBody)
  case positioned =>
    exact ⟨leads.orderly.positioned.heads, leads.orderly.positioned.indices, leads.orderly.positioned.lead⟩
  case constants => exact leads.orderly.constants
  case code =>
    exact Body.visible_widen (fun value => Or.imp_left (leads.furthers.constants value)) _
      (orderly.code_extended reached)
  case types =>
    intro isTyped value shown
    rcases shown with inBody | constant | outside
    · exact reached.typed (orderly.types isTyped value (.inl (codeResults ▸ inBody)))
    · exact leads.orderly.types isTyped value (.inr (.inl constant))
    · exact reached.typed (orderly.types isTyped value (.inr (.inr outside)))

/-! ### The beginning and the end -/

/-- Nothing has been built at first. -/
theorem orderly_draft {program : Program} {anchor : OpId} {placement : Placement}
    (placed : anchor ≠ program.root)
    (types : typed → ∀ value, scope value → (program.typeOf? value).isSome) :
    (program.draft anchor placement).Orderly scope typed where
  placed := placed
  knows _ member := by simp [built_eq, Draft.constants, Program.draft, Body.append, Body.parts] at member
  positioned := positioned_draft program anchor placement
  constants := trivial
  code := trivial
  types isTyped value shown := by
    rcases shown with nothing | nothing | outside
    · cases nothing
    · cases nothing
    · exact types isTyped value outside

/-- What has been built may stand in front of the anchor, where the values of the scope are visible. -/
theorem Orderly.suits (orderly : draft.Orderly scope typed) (before : draft.placement = .before) :
    draft.program.Suits scope draft.anchor draft.change where
  visible := by
    intro seen regions rest more visible
    rw [Draft.change, before, ← Draft.constants, Body.visible_append, Body.visible_append]
    refine ⟨Body.visible_widen (fun _ => False.elim) _ orderly.constants, ?_, ?_⟩
    · exact Body.visible_widen (fun value => Or.imp_right (more value)) _ orderly.code
    · exact Body.visible_widen (fun _ shown => .inr (.inr shown)) _ visible
  results regions rest value member := by
    rw [Draft.change, before]
    simp only [Body.results_append, List.mem_append]
    exact .inr (.inr member)

end Draft

end TensorIR
