import TensorIR.Proofs.Execution.Agreement
import TensorIR.Proofs.Planning.Drafts
import TensorIR.Proofs.Related

/-!
# Calls that build in order

A call of building gets values that are visible and gives values that are visible behind it. What one call
gives may be used in every later one and in the bodies that later ones fill, and a constant position that
has been asked for anywhere may be used everywhere from then on.

## Main definitions

* `Draft.Offers` — values that may be used, and constant positions that have been asked for
* `Build.Proceeds` — a step of building keeps a draft in order, whether it succeeds or fails

## Main results

* `Build.Proceeds.bind` — steps one after the other
* `Build.Proceeds.create`, `Build.Proceeds.literal`, `Build.Proceeds.index` — operations with results
* `Build.Proceeds.forLoop`, `Build.Proceeds.ifElse`, `Build.Proceeds.loopNest` — loops and branches
-/

namespace TensorIR

variable {α β : Type} {scope : ValueId → Prop} {typed : Prop} {start now draft : Draft}
  {values : List ValueId} {asked asks : List Int}

/-- The values are visible, and the constants of the positions have been built. -/
structure Draft.Offers (scope : ValueId → Prop) (values : List ValueId) (asked : List Int) (draft : Draft) :
    Prop where
  shown : ∀ value ∈ values, draft.Shows scope value
  known : ∀ position ∈ asked, (draft.indices.lookup position).isSome

namespace Draft.Offers

variable {more : List ValueId} {arguments : List ValueId}

/-- What may be used stays so. -/
theorem furthers (offers : start.Offers scope values asked) (reached : start.Furthers now) :
    now.Offers scope values asked where
  shown value member := reached.shows (offers.shown value member)
  known position member := by
    obtain ⟨value, known⟩ := Option.isSome_iff_exists.mp (offers.known position member)
    exact Option.isSome_iff_exists.mpr ⟨value, reached.indices position value known⟩

theorem append (offers : draft.Offers scope values asked) (others : ∀ value ∈ more, draft.Shows scope value) :
    draft.Offers scope (values ++ more) asked :=
  ⟨fun _ member => (List.mem_append.mp member).elim (offers.shown _) (others _), offers.known⟩

theorem anti (offers : draft.Offers scope values asked) (fewer : ∀ value ∈ more, value ∈ values) :
    draft.Offers scope more asked :=
  ⟨fun value member => offers.shown value (fewer value member), offers.known⟩

/-- In a body inside, the arguments may be used as well. -/
theorem enter (offers : draft.Offers scope values asked) (arguments : List ValueId) :
    { draft with code := .nil }.Offers (fun value => value ∈ arguments ∨ draft.Shows scope value)
      (values ++ arguments) asked where
  shown value member :=
    .inr (.inr ((List.mem_append.mp member).elim (fun given => .inr (offers.shown value given)) .inl))
  known := offers.known

end Draft.Offers

namespace Build

/-- From a draft in order with a property, the step leads to a draft in order. If it succeeds, its result and
that draft have another property, and it does succeed if the values of the surroundings have types. -/
def Proceeds (scope : ValueId → Prop) (typed : Prop) (pre : Draft → Prop) (step : Build α)
    (post : α → Draft → Prop) : Prop :=
  ∀ draft : Draft, draft.Orderly scope typed → pre draft →
    draft.Leads scope typed (step.run draft).2 ∧
      (∀ value, (step.run draft).1 = .ok value → post value (step.run draft).2) ∧
      (typed → ∃ value, (step.run draft).1 = .ok value)

namespace Proceeds

variable {pre : Draft → Prop} {step : Build α} {between post : α → Draft → Prop} {last : β → Draft → Prop}

theorem pure {value : α} (holds : ∀ draft, pre draft → post value draft) :
    Proceeds scope typed pre (Pure.pure value) post :=
  fun draft orderly given =>
    ⟨.refl orderly, fun _ same => by cases same; exact holds draft given, fun _ => ⟨value, rfl⟩⟩

/-- A step that always succeeds. -/
theorem of_run (runs : ∀ draft : Draft, draft.Orderly scope typed → pre draft → ∃ value now,
    step.run draft = (.ok value, now) ∧ draft.Leads scope typed now ∧ post value now) :
    Proceeds scope typed pre step post := by
  intro draft orderly given
  obtain ⟨value, now, run, leads, holds⟩ := runs draft orderly given
  rw [run]
  exact ⟨leads, fun _ same => by cases same; exact holds, fun _ => ⟨value, rfl⟩⟩

theorem bind {next : α → Build β} (first : Proceeds scope typed pre step between)
    (later : ∀ value, Proceeds scope typed (between value) (next value) last) :
    Proceeds scope typed pre (step >>= next) last := by
  intro draft orderly given
  obtain ⟨leads, holds, succeeds⟩ := first draft orderly given
  rw [run_bind]
  revert leads holds succeeds
  -- A failure ends the run with the draft of the first step, which is in order as well.
  rcases step.run draft with ⟨error | value, middle⟩ <;> intro leads holds succeeds
  · refine ⟨leads, ?_, fun isTyped => ?_⟩
    · intro _ same
      cases same
    · obtain ⟨_, same⟩ := succeeds isTyped
      cases same
  · obtain ⟨further, ends, finishes⟩ := later value middle leads.orderly (holds value rfl)
    exact ⟨leads.trans further, ends, finishes⟩

/-- What is known beforehand and is not about drafts. -/
theorem of_fact {fact : Prop} (proceeds : fact → Proceeds scope typed pre step post) :
    Proceeds scope typed (fun draft => fact ∧ pre draft) step post :=
  fun draft orderly given => proceeds given.1 draft orderly given.2

theorem weaken (proceeds : Proceeds scope typed pre step between) {weaker : Draft → Prop}
    (before : ∀ draft, weaker draft → pre draft) (after : ∀ value draft, between value draft → post value draft) :
    Proceeds scope typed weaker step post := by
  intro draft orderly given
  obtain ⟨leads, holds, succeeds⟩ := proceeds draft orderly (before draft given)
  exact ⟨leads, fun value same => after value _ (holds value same), succeeds⟩

theorem ask (question : Program → α) (holds : ∀ draft, pre draft → post (question draft.program) draft) :
    Proceeds scope typed pre (Build.ask question) post :=
  of_run fun draft orderly given => ⟨_, draft, Build.run_ask question draft, .refl orderly, holds draft given⟩

end Proceeds

end Build

/-! ### Single operations -/

theorem Draft.Adds.prolongs {kind : OpKind} {operands : List ValueId} {attributes : Attributes} {types : List Ty}
    (adds : start.Adds kind operands attributes types now) :
    start.Prolongs (.single ⟨start.program.operations.size⟩ .nil) now where
  program := adds.reached trivial
  anchor := adds.anchor
  placement := adds.placement
  hoisted := adds.hoisted
  lead := adds.lead
  indices := adds.indices
  started := adds.started
  code := adds.code

/-- A further operation at the end of the body. -/
theorem Draft.Adds.leads {kind : OpKind} {operands : List ValueId} {attributes : Attributes} {types : List Ty}
    (adds : start.Adds kind operands attributes types now) (orderly : start.Orderly scope typed)
    (shown : ∀ operand ∈ operands, start.Shows scope operand) :
    start.Leads scope typed now ∧
      ∀ value ∈ start.program.freshValues types.length, now.Shows scope value := by
  have defines := adds.defines
  have reached := adds.prolongs.program
  have results : (Body.single ⟨start.program.operations.size⟩ .nil).results now.program =
      start.program.freshValues types.length := by
    rw [Body.single, Body.results, Body.results, List.append_nil, defines.results_eq]
  rw [← results]
  apply orderly.prolong adds.prolongs
  case knows =>
    intro part member
    rw [Body.single, Body.parts, Regions.parts, Body.parts, List.append_nil, List.mem_singleton] at member
    exact member ▸ reached.grows.knows_new ⟨le_rfl, defines.below⟩
  case visible =>
    rw [Body.single, Body.Visible, defines.operands_eq]
    exact ⟨shown, trivial, trivial⟩
  case types =>
    intro _ value member
    exact defines.typed value (results ▸ member)

namespace Build.Proceeds

variable {operands : List ValueId}

/-- An operation of its own. -/
theorem create {kind : OpKind} (types : List Ty) (attributes : Attributes)
    (among : ∀ operand ∈ operands, operand ∈ values) :
    Proceeds scope typed (Draft.Offers scope values asked) (Build.create kind operands types attributes)
      fun op draft => (draft.program.results op).length = types.length ∧
        draft.Offers scope (values ++ draft.program.results op) asked := by
  apply of_run
  intro draft orderly offers
  obtain ⟨now, run, adds⟩ := adds_create kind operands types attributes orderly.placed
  obtain ⟨leads, shown⟩ := adds.leads orderly fun operand member => offers.shown operand (among operand member)
  refine ⟨_, now, run, leads, ?_⟩
  rw [adds.defines.results_eq]
  exact ⟨by simp [Program.freshValues], (offers.furthers leads.furthers).append shown⟩

/-- An operation of its own, with the results that it has got. -/
theorem createAll {kind : OpKind} (types : List Ty) (attributes : Attributes)
    (among : ∀ operand ∈ operands, operand ∈ values) :
    Proceeds scope typed (Draft.Offers scope values asked)
      (do let op ← Build.create kind operands types attributes; Build.ask (·.results op))
      fun results draft => results.length = types.length ∧ draft.Offers scope (values ++ results) asked :=
  (create types attributes among).bind fun _ => .ask _ fun _ => id

/-- What adds an operation with one result gives this result. -/
theorem of_adds {kind : OpKind} (operands : List ValueId) {attributes : Attributes} {type : Ty}
    {step : Build ValueId} (among : ∀ operand ∈ operands, operand ∈ values)
    (builds : ∀ draft : Draft, draft.anchor ≠ draft.program.root → ∃ now,
      step.run draft = (.ok ⟨draft.program.values.size⟩, now) ∧ draft.Adds kind operands attributes [type] now) :
    Proceeds scope typed (Draft.Offers scope values asked) step
      fun value draft => draft.Offers scope (values ++ [value]) asked := by
  apply of_run
  intro draft orderly offers
  obtain ⟨now, run, adds⟩ := builds draft orderly.placed
  obtain ⟨leads, shown⟩ := adds.leads orderly fun operand member => offers.shown operand (among operand member)
  exact ⟨_, now, run, leads, (offers.furthers leads.furthers).append shown⟩

theorem value (kind : OpKind) (type : Ty) (attributes : Attributes)
    (among : ∀ operand ∈ operands, operand ∈ values) :
    Proceeds scope typed (Draft.Offers scope values asked) (Build.value kind operands type attributes)
      fun value draft => draft.Offers scope (values ++ [value]) asked :=
  of_adds operands among fun _ placed => adds_value kind operands type attributes placed

theorem named (supply : Namer → String × Namer) (kind : OpKind) (value : Option Attribute) (type : Ty) :
    Proceeds scope typed (Draft.Offers scope values asked)
      (Build.named supply >>= fun name => Build.constant kind name value type)
      fun value draft => draft.Offers scope (values ++ [value]) asked :=
  of_adds [] (fun _ member => absurd member List.not_mem_nil)
    fun _ placed => adds_namedConstant supply kind value type placed

theorem index (position : Int) :
    Proceeds scope typed (Draft.Offers scope values asked) (Build.index position)
      fun value draft => draft.Offers scope (values ++ [value]) (position :: asked) := by
  apply of_run
  intro draft orderly offers
  obtain ⟨value, now, run, leads, known⟩ := orderly.index position
  refine ⟨value, now, run, leads, ?_, ?_⟩
  · apply ((offers.furthers leads.furthers).append _).shown
    intro other member
    exact List.mem_singleton.mp member ▸ leads.orderly.shows_of_lookup known
  · rw [List.forall_mem_cons]
    exact ⟨known ▸ rfl, (offers.furthers leads.furthers).known⟩

end Build.Proceeds

/-! ### Literals -/

/-- The literal can become a constant of the type. -/
def Literal.hasConstant (literal : Literal) : Ty → Bool
  | .scalar type =>
    match literal, type.isFloat with
    | .float _, true | .int _, true | .int _, false | .bool _, false => true
    | _, _ => false
  | .torch type =>
    match literal, type with
    | .int _, .int | .float _, .float | .bool _, .bool | .str _, .str | .none, .none => true
    | _, _ => false
  | .shaped _ => false

namespace Build

/-- A literal becomes a constant under a name from the supply, unless it cannot have the type. -/
theorem literal_cases (literal : Literal) (type : Ty) :
    (literal.hasConstant type = true ∧ ∃ supply kind value, Build.literal literal type =
      some <$> (Build.named supply >>= fun name => Build.constant kind name value type)) ∨
    (literal.hasConstant type = false ∧ Build.literal literal type = pure none) := by
  cases type with
  | shaped type => exact .inr ⟨rfl, rfl⟩
  | scalar type =>
    unfold Build.literal Build.scalarLiteral
    dsimp only
    split
    case h_1 | h_2 | h_3 | h_4 => exact .inl ⟨by simp [Literal.hasConstant, *], _, _, _, rfl⟩
    case h_5 =>
      refine .inr ⟨?_, rfl⟩
      unfold Literal.hasConstant
      dsimp only
      split <;> simp_all
  | torch type =>
    have named (supply : Namer → String × Namer) (kind : TorchKind) (value : Option Attribute) :
        ∃ supply' kind' value', (do
          some <$> Build.constant (.torch kind) (← Build.named supply) value (.torch type)) =
            some <$> (Build.named supply' >>= fun name => Build.constant kind' name value' (.torch type)) :=
      ⟨supply, .torch kind, value, (map_bind ..).symm⟩
    unfold Build.literal Build.torchLiteral
    dsimp only
    split
    case h_1 | h_2 | h_3 | h_4 | h_5 => exact .inl ⟨rfl, named _ _ _⟩
    case h_6 =>
      refine .inr ⟨?_, rfl⟩
      unfold Literal.hasConstant
      dsimp only
      split <;> simp_all

theorem Proceeds.literal (literal : Literal) (type : Ty) :
    Proceeds scope typed (Draft.Offers scope values asked) (Build.literal literal type)
      fun found draft => found.toList.length = (literal.hasConstant type).toNat ∧
        draft.Offers scope (values ++ found.toList) asked := by
  rcases literal_cases literal type with ⟨can, supply, kind, value, same⟩ | ⟨cannot, same⟩
  · rw [same, map_eq_pure_bind, can]
    exact (named supply kind value type).bind fun value => .pure fun _ offers => ⟨rfl, offers⟩
  · rw [same, cannot]
    exact .pure fun _ offers => ⟨rfl, by rwa [Option.toList_none, List.append_nil]⟩

end Build

/-! ### Operations with bodies inside -/

namespace Draft

variable {op : OpId} {kind : OpKind} {operands arguments : List ValueId} {types : List Ty} {block : BlockId}
  {inside : Body}

/-- The operation has been defined and is going to stand behind what has been built in the body. -/
structure Awaits (draft : Draft) (op : OpId) (kind : OpKind) (operands : List ValueId) (types : List Ty) :
    Prop where
  known : draft.program.Knows (.op op)
  defines : ∃ attributes results, draft.program.Defines op kind operands attributes results types

/-- The block has arguments that have types. -/
structure Heads (draft : Draft) (block : BlockId) (arguments : List ValueId) : Prop where
  known : draft.program.Knows (.block block)
  arguments_eq : (draft.program.header block).arguments = arguments
  typed : ∀ value ∈ arguments, (draft.program.typeOf? value).isSome

/-- The body may stand in a block with the given arguments inside the next operation. -/
structure Houses (draft : Draft) (scope : ValueId → Prop) (arguments : List ValueId) (inside : Body) : Prop where
  knows : ∀ part ∈ inside.parts, draft.program.Knows part
  visible : inside.Visible draft.program fun value => value ∈ arguments ∨ draft.Shows scope value

theorem Awaits.furthers (awaits : start.Awaits op kind operands types) (reached : start.Furthers now) :
    now.Awaits op kind operands types where
  known := reached.program.grows.knows awaits.known
  defines := by
    obtain ⟨attributes, results, defines⟩ := awaits.defines
    exact ⟨attributes, results, defines.extend reached.program⟩

theorem Heads.furthers (heads : start.Heads block arguments) (reached : start.Furthers now) :
    now.Heads block arguments where
  known := reached.program.grows.knows heads.known
  arguments_eq := by rw [reached.program.header_eq block heads.known.1, heads.arguments_eq]
  typed value member := reached.program.typed (heads.typed value member)

theorem Houses.furthers (houses : start.Houses scope arguments inside) (reached : start.Furthers now) :
    now.Houses scope arguments inside where
  knows part member := reached.program.grows.knows (houses.knows part member)
  visible := by
    refine Body.visible_widen (fun value => Or.imp_right reached.shows) _ ?_
    exact (Body.visible_congr _ fun part member => reached.program.reads (houses.knows part member)).mpr
      houses.visible

/-- The property stays, whatever else is built. -/
def Lasts (holds : Draft → Prop) : Prop :=
  ∀ ⦃start now : Draft⦄, start.Furthers now → holds start → holds now

theorem Lasts.and {first second : Draft → Prop} (isFirst : Lasts first) (isSecond : Lasts second) :
    Lasts fun draft => first draft ∧ second draft :=
  fun _ _ reached => And.imp (isFirst reached) (isSecond reached)

theorem lasts_offers (scope : ValueId → Prop) (values : List ValueId) (asked : List Int) :
    Lasts (Offers scope values asked) :=
  fun _ _ reached offers => offers.furthers reached

theorem lasts_awaits : Lasts (Awaits · op kind operands types) :=
  fun _ _ reached awaits => awaits.furthers reached

theorem lasts_heads : Lasts (Heads · block arguments) :=
  fun _ _ reached heads => heads.furthers reached

theorem lasts_houses (scope : ValueId → Prop) (arguments : List ValueId) (inside : Body) :
    Lasts (Houses · scope arguments inside) :=
  fun _ _ reached houses => houses.furthers reached

theorem Houses.nil : draft.Houses scope arguments .nil :=
  ⟨fun _ member => absurd member List.not_mem_nil, trivial⟩

/-- A block with a body that may stand in it. -/
theorem Heads.house (heads : draft.Heads block arguments) (houses : draft.Houses scope arguments inside) :
    (∀ part ∈ (Blocks.cons block inside .nil).parts, draft.program.Knows part) ∧
      (Blocks.cons block inside .nil).Visible draft.program (draft.Shows scope) := by
  constructor
  · rw [Blocks.parts, Blocks.parts, List.append_nil, List.forall_mem_cons]
    exact ⟨heads.known, houses.knows⟩
  · rw [Blocks.Visible, heads.arguments_eq]
    exact ⟨houses.visible, trivial⟩

end Draft

namespace Build

namespace Proceeds

variable {pre : Draft → Prop} {operands arguments : List ValueId} {types : List Ty} {kind : OpKind}

/-- A step that leads to a draft with nothing new in its body. -/
theorem of_prolongs {step : Build α} {post : α → Draft → Prop}
    (runs : ∀ draft : Draft, draft.Orderly scope typed → pre draft → ∃ value now,
      step.run draft = (.ok value, now) ∧ draft.Prolongs .nil now ∧ (draft.Furthers now → post value now)) :
    Proceeds scope typed pre step post := by
  apply of_run
  intro draft orderly given
  obtain ⟨value, now, run, prolongs, holds⟩ := runs draft orderly given
  obtain ⟨leads, -⟩ := orderly.prolong prolongs (fun _ member => absurd member List.not_mem_nil) trivial
    fun _ _ member => absurd member List.not_mem_nil
  exact ⟨value, now, run, leads, holds leads.furthers⟩

/-- A new operation that is in no body yet. -/
theorem allocate (types : List Ty) (lasts : Draft.Lasts pre) :
    Proceeds scope typed pre (Build.allocate kind operands types)
      fun op draft => pre draft ∧ draft.Awaits op kind operands types := by
  apply of_prolongs
  intro draft orderly given
  obtain ⟨names, namer, length_eq, run⟩ := Build.run_freshNames types draft
  let operation : Operation := { kind, operands, location := (draft.program.operation draft.anchor).location }
  have reached : draft.program.Extends (fun _ => True)
      (draft.program.withDefinition operation (names.zip types)) := .withDefinition _ _ _ trivial
  have defines := draft.program.defines_withDefinition operation length_eq
  let now : Draft :=
    { draft with
      namer
      started := draft.started || draft.placement == .before
      program := draft.program.withDefinition operation (names.zip types) }
  refine ⟨⟨draft.program.operations.size⟩, now, ?run, ?prolongs, fun furthers => ⟨lasts furthers given, ?_, ?_⟩⟩
  case run =>
    unfold Build.allocate
    rw [run_bind, run]
    dsimp only
    rw [run_bind, Build.run_define]
    · rfl
    · exact orderly.placed
  case prolongs =>
    exact ⟨reached, rfl, rfl, rfl, rfl, rfl, fun isStarted => by simp [now, isStarted],
      (Body.append_nil _).symm⟩
  · exact reached.grows.knows_new ⟨le_rfl, defines.below⟩
  · exact ⟨_, _, defines⟩

/-- A new block, whose arguments have types. -/
theorem block (types : List Ty) (lasts : Draft.Lasts pre) :
    Proceeds scope typed pre (Build.block types) fun made draft =>
      made.2.length = types.length ∧ pre draft ∧ draft.Heads made.1 made.2 := by
  apply of_prolongs
  intro draft orderly given
  obtain ⟨names, namer, length_eq, run⟩ := Build.run_block types draft
  have reached : draft.program.Extends (fun _ => True) (draft.program.withBlock (names.zip types)) :=
    .withBlock _ _
  have isNew : (Part.block ⟨draft.program.headers.size⟩).IsNew draft.program
      (draft.program.withBlock (names.zip types)) := ⟨le_rfl, by simp [Program.withBlock]⟩
  refine ⟨_, _, run, ?prolongs, fun furthers => ⟨?_, lasts furthers given, ?_, ?_, ?_⟩⟩
  case prolongs => exact ⟨reached, rfl, rfl, rfl, rfl, rfl, id, (Body.append_nil _).symm⟩
  · simp [Program.freshValues]
  · exact reached.grows.knows_new isNew
  · simp [Program.withBlock, Program.header, length_eq]
  · intro value member
    rw [Program.freshValues, List.mem_map] at member
    obtain ⟨index, inRange, rfl⟩ := member
    rw [List.mem_range'_1] at inRange
    obtain ⟨offset, rfl⟩ := Nat.exists_eq_add_of_le inRange.1
    have below : offset < types.length := by omega
    have isNamed : offset < names.length := length_eq ▸ below
    simp [Program.typeOf?, Program.value, Program.withBlock, Program.namedArguments,
      Array.getD_eq_getD_getElem?, below, isNamed]

/-- A body that ends by passing on the values that a step gives. -/
theorem yielding {step : Build (List ValueId)}
    (proceeds : Proceeds scope typed pre step fun results draft => draft.Offers scope results asks) :
    Proceeds scope typed pre (Build.yielding step) fun _ draft => draft.Offers scope [] asks := by
  refine proceeds.bind fun results => ?_
  refine (create [] .empty fun operand member => member).bind fun _ => .pure fun draft offered => ?_
  exact offered.2.anti fun value member => absurd member List.not_mem_nil

/-- A step that fills a body of its own, which sees the arguments and everything that is visible outside. -/
theorem gather {step : Build (List ValueId)} (values arguments : List ValueId) (asked asks : List Int)
    (lasts : Draft.Lasts pre)
    (given : ∀ draft, pre draft → draft.Offers scope values asked ∧
      ∀ value ∈ arguments, (draft.program.typeOf? value).isSome)
    (inside : ∀ wider : ValueId → Prop, (∀ value, scope value → wider value) →
      Proceeds wider typed (Draft.Offers wider (values ++ arguments) asked) step
        fun results draft => draft.Offers wider results asks) :
    Proceeds scope typed pre (Build.gather (Build.yielding step)) fun made draft =>
      (pre draft ∧ draft.Houses scope arguments made.2) ∧ (typed → ∃ done, made.1 = .ok done) ∧
        ∀ done, made.1 = .ok done → draft.Offers scope values asks := by
  apply of_run
  intro draft orderly holds
  obtain ⟨offers, types⟩ := given draft holds
  obtain ⟨leads, ends, succeeds⟩ :=
    (inside _ fun value among => .inr (.inr (.inr among))).yielding _ (orderly.enter fun _ => types)
      (offers.enter arguments)
  -- Whether or not the step has failed, the body is what has been built until then.
  obtain ⟨further, visible⟩ := orderly.leave leads
  refine ⟨_, _, rfl, further, ⟨lasts further.furthers holds, ?_, visible⟩, succeeds, fun done same => ?_⟩
  · exact leads.orderly.knows_code
  · exact ⟨(offers.furthers further.furthers).shown, (ends done same).known⟩

/-- The operation that has been waiting stands in the body with the regions that have been filled. It gives its
results if what has filled them has succeeded. -/
theorem close (kind : OpKind) (asked : List Int) {op : OpId} {regions : Regions} {outcome : Except Error Unit}
    (among : ∀ operand ∈ operands, operand ∈ values) :
    Proceeds scope typed (fun draft => (draft.Offers scope values asked ∧ draft.Awaits op kind operands types) ∧
        ((∀ part ∈ regions.parts, draft.program.Knows part) ∧ regions.Visible draft.program (draft.Shows scope)) ∧
        (typed → ∃ done, outcome = .ok done) ∧ ∀ done, outcome = .ok done → draft.Offers scope values asks)
      (do Build.append op regions; let _ ← Build.settle outcome; Build.ask (·.results op))
      fun results draft => results.length = types.length ∧ draft.Offers scope (values ++ results) asks := by
  rintro draft orderly ⟨⟨offers, awaits⟩, ⟨knows, visible⟩, succeeds, ends⟩
  obtain ⟨attributes, results, defines⟩ := awaits.defines
  let now : Draft := { draft with code := draft.code.append (.single op regions) }
  have prolongs : draft.Prolongs (.single op regions) now := ⟨.refl _, rfl, rfl, rfl, rfl, rfl, id, rfl⟩
  have isResult : (Body.single op regions).results now.program = results := by
    rw [Body.single, Body.results, Body.results, List.append_nil]
    exact defines.results_eq
  have allKnown : ∀ part ∈ (Body.single op regions).parts, now.program.Knows part := by
    rw [Body.single, Body.parts, Body.parts, List.append_nil, List.forall_mem_cons]
    exact ⟨awaits.known, knows⟩
  have allVisible : (Body.single op regions).Visible now.program (draft.Shows scope) := by
    rw [Body.single, Body.Visible, defines.operands_eq]
    exact ⟨fun operand member => offers.shown operand (among operand member), visible, trivial⟩
  have allTyped : ∀ value ∈ (Body.single op regions).results now.program, (now.program.typeOf? value).isSome := by
    rw [isResult]
    exact defines.typed
  obtain ⟨leads, shown⟩ := orderly.prolong prolongs allKnown allVisible fun _ => allTyped
  -- The operation stands before the outcome is looked at, so that only the answer depends on it.
  have run : (do Build.append op regions; let _ ← Build.settle outcome; Build.ask (·.results op) :
      Build (List ValueId)).run draft = (outcome.map fun _ => results, now) := by
    cases outcome with
    | error error => rfl
    | ok done => exact congrArg (fun found => (Except.ok found, now)) defines.results_eq
  rw [run]
  refine ⟨leads, fun found same => ?_, fun isTyped => ?_⟩
  · cases outcome with
    | error error => cases same
    | ok done =>
      cases same
      refine ⟨?_, ((ends done rfl).furthers leads.furthers).append (isResult ▸ shown)⟩
      rw [← List.length_map (f := draft.program.typeOf?), defines.types_eq, List.length_map]
  · obtain ⟨done, rfl⟩ := succeeds isTyped
    exact ⟨results, rfl⟩

/-- The types of visible values are known where the values of the surroundings have types. -/
theorem typed_mapM (among : ∀ operand ∈ operands, operand ∈ values) :
    Proceeds scope typed (Draft.Offers scope values asked)
      (Build.askFor fun program => operands.mapM program.typed) fun types draft =>
        types.length = operands.length ∧ draft.Offers scope values asked := by
  intro draft orderly offers
  rw [Build.run_askFor]
  refine ⟨.refl orderly, fun types found => ⟨(forall₂_of_mapM_eq_ok found).length_eq.symm, offers⟩, fun isTyped => ?_⟩
  -- The operands are visible, and what is visible has a type.
  have each : ∀ value ∈ operands, ∃ type, draft.program.typed value = .ok type := by
    intro value member
    have shown := offers.shown value (among value member)
    obtain ⟨type, isType⟩ := Option.isSome_iff_exists.mp (orderly.types isTyped value shown)
    exact ⟨type, Program.typed_eq_ok.mpr isType⟩
  obtain ⟨types, found, -⟩ := exists_mapM_eq_ok each
  exact ⟨types, found⟩

/-- A loop, whose body may use what has been there before, the position and the carried values. -/
theorem forLoop {lower upper step : ValueId} {initial : List ValueId}
    {body : ValueId → List ValueId → Build (List ValueId)}
    (among : ∀ operand ∈ [lower, upper, step] ++ initial, operand ∈ values)
    (inside : ∀ (wider : ValueId → Prop) (position : ValueId) (carried : List ValueId),
      (∀ value, scope value → wider value) → carried.length = initial.length →
        Proceeds wider typed (Draft.Offers wider (values ++ position :: carried) asked) (body position carried)
          fun results draft => draft.Offers wider results asks) :
    Proceeds scope typed (Draft.Offers scope values asked) (Build.forLoop lower upper step initial body)
      fun results draft => results.length = initial.length ∧ draft.Offers scope (values ++ results) asks := by
  have initially : ∀ operand ∈ initial, operand ∈ values :=
    fun operand member => among operand (List.mem_append_right _ member)
  have waiting {op : OpId} {kind : OpKind} {operands : List ValueId} {types : List Ty} :
      Draft.Lasts fun draft => draft.Offers scope values asked ∧ draft.Awaits op kind operands types :=
    (Draft.lasts_offers ..).and Draft.lasts_awaits
  refine (typed_mapM initially).bind fun types => of_fact fun length_eq => ?_
  refine (allocate types (Draft.lasts_offers ..)).bind fun op => (block _ waiting).bind fun made => ?_
  obtain ⟨block, arguments⟩ := made
  refine of_fact fun count => ?_
  cases arguments with
  | nil => cases count
  | cons position carried =>
    refine (gather values (position :: carried) asked asks (waiting.and Draft.lasts_heads) ?given
      fun wider more => ?inside).bind fun made => ?_
    case given => exact fun _ holds => ⟨holds.1.1, holds.2.typed⟩
    case inside => exact inside wider position carried more ((Nat.succ.inj count).trans length_eq)
    obtain ⟨outcome, filled⟩ := made
    refine (close (.scf .forLoop) asked among).weaken (fun draft holds => ?_)
      fun _ _ given => ⟨given.1.trans length_eq, given.2⟩
    obtain ⟨⟨⟨waiting, heads⟩, houses⟩, ends⟩ := holds
    obtain ⟨knows, visible⟩ := heads.house houses
    refine ⟨waiting, ⟨?_, visible, trivial⟩, ends⟩
    rwa [Regions.single, Regions.parts, Regions.parts, List.append_nil]

/-- A branch that has been waiting is closed with both sides, of which the second may have failed. -/
theorem closeBranch {condition : ValueId} {op : OpId} {thenBlock elseBlock : BlockId}
    (outcome : Except Error Unit) (thenFilled elseFilled : Body) (asked : List Int) (among : condition ∈ values) :
    Proceeds scope typed
      (fun draft => (draft.Offers scope values asked ∧ draft.Awaits op (.scf .ifElse) [condition] types) ∧
        (draft.Heads thenBlock [] ∧ draft.Houses scope [] thenFilled) ∧
        (draft.Heads elseBlock [] ∧ draft.Houses scope [] elseFilled) ∧
        (typed → ∃ done, outcome = .ok done) ∧ ∀ done, outcome = .ok done → draft.Offers scope values asks)
      (do
        Build.append op (.cons (.cons thenBlock thenFilled .nil) (.single elseBlock elseFilled))
        let _ ← Build.settle outcome
        Build.ask (·.results op))
      fun results draft => results.length = types.length ∧ draft.Offers scope (values ++ results) asks := by
  have operands : ∀ operand ∈ [condition], operand ∈ values :=
    fun operand member => List.mem_singleton.mp member ▸ among
  refine (close (.scf .ifElse) asked operands).weaken (fun draft holds => ?_) fun _ _ => id
  obtain ⟨waiting, ⟨thenHeads, thenHouses⟩, ⟨elseHeads, elseHouses⟩, ends⟩ := holds
  obtain ⟨thenKnows, thenVisible⟩ := thenHeads.house thenHouses
  obtain ⟨elseKnows, elseVisible⟩ := elseHeads.house elseHouses
  refine ⟨waiting, ⟨?_, thenVisible, elseVisible, trivial⟩, ends⟩
  rw [Regions.parts, Regions.single, Regions.parts, Regions.parts, List.append_nil, List.forall_mem_append]
  exact ⟨thenKnows, elseKnows⟩

/-- A branch, whose second body may use the constant positions that the first one has asked for. -/
theorem ifElse {condition : ValueId} (types : List Ty) {thenBody elseBody : Build (List ValueId)}
    (between : List Int) (among : condition ∈ values)
    (first : ∀ wider : ValueId → Prop, (∀ value, scope value → wider value) →
      Proceeds wider typed (Draft.Offers wider values asked) thenBody
        fun results draft => draft.Offers wider results between)
    (second : ∀ wider : ValueId → Prop, (∀ value, scope value → wider value) →
      Proceeds wider typed (Draft.Offers wider values between) elseBody
        fun results draft => draft.Offers wider results asks) :
    Proceeds scope typed (Draft.Offers scope values asked) (Build.ifElse condition types thenBody elseBody)
      fun results draft => results.length = types.length ∧ draft.Offers scope (values ++ results) asks := by
  -- What is known of the operation and its blocks lasts while the bodies are filled.
  have waiting {op : OpId} {kind : OpKind} {operands : List ValueId} :
      Draft.Lasts fun draft => draft.Offers scope values asked ∧ draft.Awaits op kind operands types :=
    (Draft.lasts_offers ..).and Draft.lasts_awaits
  refine (allocate types (Draft.lasts_offers ..)).bind fun op => (block [] waiting).bind fun made => ?_
  obtain ⟨thenBlock, thenArguments⟩ := made
  refine of_fact fun noneThen => (block [] (waiting.and Draft.lasts_heads)).bind fun made => ?_
  obtain ⟨elseBlock, elseArguments⟩ := made
  refine of_fact fun noneElse => ?_
  cases List.length_eq_zero_iff.mp noneThen
  cases List.length_eq_zero_iff.mp noneElse
  have headed : Draft.Lasts fun draft => ((draft.Offers scope values asked ∧
      draft.Awaits op (.scf .ifElse) [condition] types) ∧ draft.Heads thenBlock []) ∧ draft.Heads elseBlock [] :=
    (waiting.and Draft.lasts_heads).and Draft.lasts_heads
  refine (gather values [] asked between headed ?given fun wider more => ?inside).bind fun made => ?_
  case given => exact fun _ holds => ⟨holds.1.1.1, holds.2.typed⟩
  case inside => rw [List.append_nil]; exact first wider more
  obtain ⟨thenOutcome, thenFilled⟩ := made
  cases thenOutcome with
  | error error =>
    -- The second body is left empty, and the failure is reported once the operation stands.
    refine (closeBranch (.error error) thenFilled .nil asked among).weaken (fun draft holds => ?_) fun _ _ => id
    obtain ⟨⟨⟨⟨waiting, thenHeads⟩, elseHeads⟩, houses⟩, succeeds, -⟩ := holds
    refine ⟨waiting, ⟨thenHeads, houses⟩, ⟨elseHeads, .nil⟩, fun isTyped => ?_, fun done same => ?_⟩
    · obtain ⟨done, same⟩ := succeeds isTyped
      cases same
    · cases same
  | ok done =>
    have lasts := (headed.and (Draft.lasts_houses scope [] thenFilled)).and (Draft.lasts_offers scope values between)
    refine ((gather values [] between asks lasts ?given fun wider more => ?inside).weaken
      (fun draft holds => ⟨holds.1, holds.2.2 done rfl⟩) fun _ _ => id).bind fun made => ?_
    case given => exact fun _ holds => ⟨holds.2, fun _ member => absurd member List.not_mem_nil⟩
    case inside => rw [List.append_nil]; exact second wider more
    obtain ⟨elseOutcome, elseFilled⟩ := made
    refine (closeBranch elseOutcome thenFilled elseFilled asked among).weaken (fun draft holds => ?_) fun _ _ => id
    obtain ⟨⟨⟨⟨⟨⟨waiting, thenHeads⟩, elseHeads⟩, thenHouses⟩, -⟩, elseHouses⟩, ends⟩ := holds
    exact ⟨waiting, ⟨thenHeads, thenHouses⟩, ⟨elseHeads, elseHouses⟩, ends⟩

end Proceeds

/-! ### Loops inside each other -/

/-- The constant positions that have been asked for where the innermost body begins, the last one first. -/
def nestPositions : List Int → List Int
  | [] => []
  | size :: sizes => nestPositions sizes ++ [1, size, 0]

namespace Proceeds

/-- What may be used beforehand may be used afterwards. -/
theorem keep {step : Build α} (proceeds : Proceeds scope typed (Draft.Offers scope values asked) step
      fun _ draft => draft.Offers scope [] asks) :
    Proceeds scope typed (Draft.Offers scope values asked) step fun _ draft => draft.Offers scope values asks := by
  intro draft orderly offers
  obtain ⟨leads, holds, succeeds⟩ := proceeds draft orderly offers
  exact ⟨leads, fun value same => ⟨(offers.furthers leads.furthers).shown, (holds value same).known⟩, succeeds⟩

/-- Loops over the sizes that are left, inside loops whose positions are given. -/
theorem loopNestFrom {body : List ValueId → Build Unit} (sizes : List Int) {scope : ValueId → Prop}
    {values positions : List ValueId} {asked : List Int}
    (inside : ∀ (wider : ValueId → Prop) (more : List ValueId), (∀ value, scope value → wider value) →
      more.length = sizes.length →
        Proceeds wider typed (Draft.Offers wider (values ++ more) (nestPositions sizes ++ asked))
          (body (positions ++ more)) fun _ draft => draft.Offers wider [] asks) :
    Proceeds scope typed (Draft.Offers scope values asked) (Build.loopNestFrom positions body sizes)
      fun _ draft => draft.Offers scope values asks := by
  induction sizes generalizing scope values positions asked with
  | nil =>
    have innermost := inside scope [] (fun _ => id) rfl
    rw [List.append_nil, List.append_nil] at innermost
    exact innermost.keep
  | cons size sizes ih =>
    refine (index 0).bind fun lower => (index size).bind fun upper => (index 1).bind fun step => ?_
    refine (forLoop ?among fun wider position carried more none => ?inside).bind fun results =>
      .pure fun draft offers => offers.2.anti ?fewer
    case among =>
      intro operand member
      simp only [List.append_nil, List.mem_cons, List.not_mem_nil, or_false] at member
      simp only [List.mem_append, List.mem_singleton]
      tauto
    case fewer =>
      intro value member
      simp only [List.mem_append, member, true_or]
    case inside =>
      -- The loops inside begin behind the position of this one, and its bounds have been asked for by then.
      have nested : Proceeds wider typed (Draft.Offers wider (values ++ [position]) (1 :: size :: 0 :: asked))
          (Build.loopNestFrom (positions ++ [position]) body sizes)
          fun _ draft => draft.Offers wider (values ++ [position]) asks := by
        refine ih fun widest others evenMore count => ?_
        have innermost := inside widest (position :: others) (fun value among => evenMore value (more value among))
          (congrArg Nat.succ count)
        simpa [nestPositions] using innermost
      refine (nested.weaken (fun draft offers => offers.anti fun value member => ?_) fun _ _ => id).bind fun _ =>
        .pure fun draft offers => offers.anti fun value member => absurd member List.not_mem_nil
      simp only [List.mem_append, List.mem_cons] at member ⊢
      tauto

/-- Loops over all positions of a shape. -/
theorem loopNest {body : List ValueId → Build Unit} (shape : List Int)
    (inside : ∀ (wider : ValueId → Prop) (positions : List ValueId), (∀ value, scope value → wider value) →
      positions.length = shape.length →
        Proceeds wider typed (Draft.Offers wider (values ++ positions) (nestPositions shape ++ asked))
          (body positions) fun _ draft => draft.Offers wider [] asks) :
    Proceeds scope typed (Draft.Offers scope values asked) (Build.loopNest shape body)
      fun _ draft => draft.Offers scope values asks :=
  loopNestFrom shape inside

end Proceeds

end Build

end TensorIR
