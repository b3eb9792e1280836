import TensorIR.Proofs.Scalar.LoopHead
import TensorIR.Proofs.Scalar.Rounds

/-!
# Lowering loops keeps what functions return

A loop that is known to run all its rounds is replaced by one that counts positions up to the number of
rounds. Each round passes on what it did before.

## Main results

* `Program.TakesPosition.eval` — a round of the new loop does what a round of the old one does
* `Program.Means.loopToLoops` — the lowering of a loop
-/

namespace TensorIR

variable {program after : Program} {op function : OpId} {arguments results : List Atom}

/-! ### Rounds -/

/-- Rounds that all go on are the rounds of a loop that always goes on. -/
theorem iterate?_always {round other : Int → List Atom → Option Exit} {goesOn : Exit → Bool}
    {width position : Int} {count : Nat} {carried final : List Atom}
    (follows : ∀ position carried exit, round position carried = some exit →
      goesOn exit = true ∧ other position carried = some exit)
    (run : iterate? round goesOn width count position carried = some final) :
    iterate? other (fun _ => true) width count position carried = some final := by
  induction count generalizing position carried with
  | zero => exact run
  | succ count ih =>
    rw [iterate?, Option.bind_eq_bind, Option.bind_eq_some_iff] at run
    obtain ⟨exit, isExit, later⟩ := run
    obtain ⟨continues, isOther⟩ := follows position carried exit isExit
    rw [if_pos continues] at later
    rw [iterate?, Option.bind_eq_bind, isOther, Option.bind_some, if_pos rfl]
    exact ih later

/-- A block whose last operation is known to continue the loop says so. -/
theorem Body.flag_of_last {last : OpId} {flag : ValueId} {exit : Exit} : (body : Body) →
    {environment : Environment} → body.parts.Nodup → (∀ part ∈ body.parts, program.Knows part) →
      body.last? = some last → program.kind last = .torch .primLoopCondition →
      (program.operands last)[0]? = some flag → program.foldBool? flag = some true →
      program.Admits body.parts environment → body.eval program environment = some exit →
      exit.flag = some true
  | .nil, _, _, _, _, _, _, _, _, ended => by cases ended
  | .cons first regions rest, environment, nodup, knows, isLast, isKind, isFlag, folded, admits,
      ended => by
    obtain ⟨inputs, isInputs, ⟨-, isEnd, isExit⟩ | ⟨-, outputs, behind, isOutputs, assigned, later⟩⟩ :=
      Body.eval_cons_iff.mp ended
    case inl =>
      subst isEnd
      cases isLast
      rw [isKind] at isExit
      unfold exit? at isExit
      split at isExit
      case h_1 taken atoms _ =>
        cases isExit
        obtain rfl := admits.operand_bool isInputs 0 rfl (by rw [isFlag]; exact folded)
        rfl
      case h_2 => cases isExit
      case h_3 other _ => exact absurd rfl other
    case inr =>
      -- The last operation is behind this one, so the body does not end here.
      cases rest with
      | nil => cases later
      | cons second inside others =>
        refine Body.flag_of_last (.cons second inside others) ?_ ?_ isLast isKind isFlag folded ?_ later
        · exact (List.nodup_append.mp (List.nodup_cons.mp nodup).2).2.1
        · exact fun part member => knows part (List.mem_cons_of_mem _ (List.mem_append_right _ member))
        · exact admits.step (knows _ List.mem_cons_self) nodup isInputs isOutputs assigned

/-- How the entry block of the first region ends. -/
theorem Regions.eval_entry_iff {regions : Regions} {block : BlockId} {body : Body} {given : List Atom}
    {environment : Environment} {exit : Exit} (entry : regions.entryBlock? = some (block, body)) :
    regions.eval program 0 given environment = some exit ↔
      ∃ inside, program.assign? environment (program.header block).arguments given = some inside ∧
        body.eval program inside = some exit := by
  cases regions with
  | nil => cases entry
  | cons blocks rest =>
    cases blocks with
    | nil => cases entry
    | cons first inner later =>
      cases entry
      rw [Regions.eval_cons_zero, Blocks.eval_cons_iff]

/-- What may be known inside the entry block of the first region. -/
theorem Program.Admits.entry {visit : Visit} {block : BlockId} {body : Body}
    {environment inside : Environment} {given : List Atom} (formed : program.WellFormed)
    (visited : visit ∈ program.visits)
    (admits : program.Admits (Body.cons visit.op visit.regions visit.rest).parts environment)
    (entry : visit.regions.entryBlock? = some (block, body))
    (assigned : program.assign? environment (program.header block).arguments given = some inside) :
    program.Admits body.parts inside := by
  have nodup := formed.nodup_inside visited
  have knows := formed.knows _ (Program.mem_parts_of_inside visited
    (Regions.parts_of_entryBlock? entry).1)
  have within : program.Admits visit.regions.parts environment :=
    admits.mono fun part member => List.mem_cons_of_mem _ (List.mem_append_left _ member)
  cases regions : visit.regions with
  | nil =>
    rw [regions] at entry
    cases entry
  | cons blocks rest =>
    rw [regions] at entry nodup within
    cases blocks with
    | nil => cases entry
    | cons first inner later =>
      cases entry
      have first : program.Admits (Blocks.cons block body later).parts environment :=
        within.mono fun part member => List.mem_append_left _ member
      exact first.enter knows (List.nodup_append.mp nodup).1 assigned

theorem Regions.nodup_of_entryBlock? {regions : Regions} {block : BlockId} {body : Body}
    (entry : regions.entryBlock? = some (block, body)) (nodup : regions.parts.Nodup) :
    (Part.block block :: body.parts).Nodup := by
  cases regions with
  | nil => cases entry
  | cons blocks rest =>
    cases blocks with
    | nil => cases entry
    | cons first inner later =>
      cases entry
      exact nodup.sublist ((List.sublist_append_left _ _).cons_cons _ |>.trans
        (List.sublist_append_left _ _))

theorem map_eq_of_zip {α β : Type} {find : α → Option β} {items : List α} {values : List β}
    (each : ∀ pair ∈ items.zip values, find pair.1 = some pair.2)
    (length_eq : items.length = values.length) : items.map find = values.map some := by
  induction items generalizing values with
  | nil =>
    cases values with
    | nil => rfl
    | cons => cases length_eq
  | cons item items ih =>
    cases values with
    | nil => cases length_eq
    | cons value values =>
      have first : find item = some value := each (item, value) List.mem_cons_self
      rw [List.map_cons, List.map_cons, first, ih
        (fun pair member => each pair (List.mem_cons_of_mem _ member)) (Nat.succ.inj length_eq)]

/-- The body of an operation stands once in a program that is well formed, and introduces none of its
arguments. -/
structure Program.Encloses (program : Program) (visit : Visit) (block : BlockId) (body : Body) : Prop where
  nodup : body.parts.Nodup
  absent : visit.op ∉ body.ops
  knows : ∀ part ∈ body.parts, program.Knows part
  outside : ∀ part ∈ body.parts, ∀ value, program.Introduces part value →
    value ∉ (program.header block).arguments

theorem Program.WellFormed.encloses {visit : Visit} {block : BlockId} {body : Body}
    (formed : program.WellFormed) (visited : visit ∈ program.visits)
    (entry : visit.regions.entryBlock? = some (block, body)) : program.Encloses visit block body := by
  obtain ⟨isBlock, within⟩ := Regions.parts_of_entryBlock? entry
  obtain ⟨-, owns⟩ := formed.knows _ (Program.mem_parts_of_inside visited isBlock)
  obtain ⟨notBlock, bodyNodup⟩ := List.nodup_cons.mp
    (Regions.nodup_of_entryBlock? entry (formed.nodup_inside visited))
  refine ⟨bodyNodup, fun member => ?_, fun part member => ?_, fun part member value introduces among => ?_⟩
  · exact formed.notMem_inside visited
      (Regions.op_mem_parts.mp (within _ (Body.op_mem_parts.mpr member)))
  · exact formed.knows part (Program.mem_parts_of_inside visited (within part member))
  · have isBlock : part = .block block :=
      Part.origin_inj (introduces.2.symm.trans (owns.origin_eq value among))
    exact notBlock (isBlock ▸ member)

section Round

variable {visit : Visit} {block : BlockId} {body : Body} {types : List Ty} {inner : Regions → Regions}
  {round : ValueId} {rest : List ValueId} {environment ready inside image : Environment} {position : Int}
  {carried : List Atom} {exit : Exit} {allowed : OpKind → Prop}

/-- What is known at the start of a round: the loop on integers has an integer where the loop on positions
has the position, and both have the same values otherwise. -/
structure Environment.StartsAt (inside image : Environment) (round : ValueId) (position : Int) : Prop where
  integer : inside round = some (.int position)
  index : image round = some (.index position)
  others : ∀ value atom, value ≠ round → inside value = some atom → image value = some atom

/-- A body that has been entered for integers can be entered for positions. -/
theorem Program.TakesPosition.enters (takes : program.TakesPosition visit block body types inner after)
    (owns : program.Owns (.argument block) (round :: rest))
    (isArguments : (program.header block).arguments = round :: rest)
    (sameArguments : (after.header block).arguments = (program.header block).arguments)
    (lowered : List.Forall₂ (fun value lowered => ∃ type, program.typed value = .ok type ∧
      Target.loops.lowered? type = .ok (some lowered)) (program.results visit.op) types)
    (carries : ∀ value atom, environment value = some atom → ready value = some atom)
    (fits : program.fitResults visit.op carried = true)
    (assigned : program.assign? environment (round :: rest) (.int position :: carried) = some inside) :
    ∃ image, after.assign? ready (after.header block).arguments (.index position :: carried) =
      some image ∧ inside.StartsAt image round position := by
  obtain ⟨isRound, areTyped⟩ := takes.arguments round rest isArguments
  rw [Program.assign?] at assigned
  split at assigned
  case isFalse => cases assigned
  obtain ⟨known, isKnown⟩ := Option.isSome_iff_exists.mp fits
  have widens : program.Widens after (program.results visit.op) rest := by
    refine Program.widens_of_lowered lowered (map_eq_of_zip areTyped ?_)
    rw [(Program.of_assign? assigned).1, ← (Program.of_assign? isKnown).1, lowered.length_eq]
  -- What fits the results of the old loop fits the arguments of the new body, which have their types.
  obtain ⟨image, isImage⟩ := widens.assign? (ready.set round (.index position)) isKnown
  obtain ⟨isFirst, restNodup⟩ := List.nodup_cons.mp owns.nodup
  obtain ⟨insideRest, insideOthers⟩ := Program.assign?_getElem restNodup assigned
  obtain ⟨imageRest, imageOthers⟩ := Program.assign?_getElem restNodup isImage
  refine ⟨image, ?_, ?_, ?_, fun value atom other found => ?_⟩
  · rw [sameArguments, isArguments, Program.assign?, isRound]
    exact isImage
  · rw [insideOthers round isFirst, Environment.set_self]
  · rw [imageOthers round isFirst, Environment.set_self]
  · by_cases member : value ∈ rest
    · obtain ⟨index, isValue⟩ := List.getElem?_of_mem member
      rwa [imageRest index value isValue, ← insideRest index value isValue]
    · rw [insideOthers value member, Environment.set_other _ _ other] at found
      rw [imageOthers value member, Environment.set_other _ _ other]
      exact carries value atom found

/-- A body that does not use the position does the same in the loop on positions. -/
theorem Body.eval_of_unused (encloses : program.Encloses visit block body)
    (grown : program.Grows allowed after)
    (sameType : ∀ part ∈ body.parts, ∀ value, program.Introduces part value →
      after.typeOf? value = program.typeOf? value)
    (unused : ∀ other ∈ body.ops, after.operands other = program.operands other ∧
      round ∉ program.operands other)
    (starts : inside.StartsAt image round position) (admits : program.Admits body.parts inside)
    (ended : body.eval program inside = some exit) : body.eval after image = some exit := by
  refine Body.eval_mapped [] visit.op (· ≠ round) encloses.nodup encloses.absent encloses.knows grown
    (fun other member => ⟨?_, fun operand among => ?_⟩) sameType (fun _ _ _ among => by cases among)
    (fun value atom alive found => starts.others value atom alive found) admits ended
  · rw [(unused other member).1]
    exact (List.map_id _).symm
  · rintro rfl
    exact (unused other member).2 among

/-- A body that uses a cast of the position does the same in the loop on positions. -/
theorem Body.eval_of_cast {id : OpId} {cast : ValueId} (encloses : program.Encloses visit block body)
    (among : round ∈ (program.header block).arguments) (grown : program.Grows allowed after)
    (sameType : ∀ part ∈ body.parts, ∀ value, program.Introduces part value →
      after.typeOf? value = program.typeOf? value)
    (defines : after.Defines id (.arith .indexCast) [round] .empty [cast] [.scalar .i64])
    (isNew : program.values.size ≤ cast.index)
    (mapped : ∀ other ∈ body.ops,
      after.operands other = (program.operands other).map (ValueId.swap round cast))
    (starts : inside.StartsAt image round position) (admits : program.Admits body.parts inside)
    (ended : body.eval program inside = some exit) :
    (Body.cons id .nil body).eval after image = some exit := by
  have isLiteral : after.literal? id [.index position] = some (.int position) := by
    unfold Program.literal?
    rw [defines.kind_eq]
  refine defines.eval_cons rfl (by simp [starts.index]) isLiteral rfl ?_
  refine Body.eval_mapped [(round, cast)] visit.op (fun _ => True) encloses.nodup encloses.absent
    encloses.knows grown (fun other member => ⟨mapped other member, fun _ _ => trivial⟩) sameType
    (fun part member pair isPair => ?_) (fun value atom _ found => ?_) admits ended
  · obtain rfl := List.mem_singleton.mp isPair
    exact ⟨fun introduces => encloses.outside part member round introduces among,
      fun introduces => absurd introduces.1 (not_lt.mpr isNew)⟩
  · change (image.set cast (.int position)) (ValueId.swap round cast value) = some atom
    by_cases isSame : value = round
    · rw [ValueId.swap, if_pos isSame, Environment.set_self, ← starts.integer, ← isSame, found]
    · have old := admits.lt value atom found
      rw [ValueId.swap, if_neg isSame, Environment.set_other]
      · exact starts.others value atom isSame found
      · rintro rfl
        exact absurd old (not_lt.mpr isNew)

/-- A round of a loop on positions does what a round of the loop on integers does. -/
theorem Program.TakesPosition.eval (takes : program.TakesPosition visit block body types inner after)
    (formed : program.WellFormed) (grown : program.Grows allowed after)
    (visited : visit ∈ program.visits) (entry : visit.regions.entryBlock? = some (block, body))
    (lowered : List.Forall₂ (fun value lowered => ∃ type, program.typed value = .ok type ∧
      Target.loops.lowered? type = .ok (some lowered)) (program.results visit.op) types)
    (carries : ∀ value atom, environment value = some atom → ready value = some atom)
    (admits : program.Admits (Body.cons visit.op visit.regions visit.rest).parts environment)
    (fits : program.fitResults visit.op carried = true)
    (ended : visit.regions.eval program 0 (.int position :: carried) environment = some exit) :
    (inner visit.regions).eval after 0 (.index position :: carried) ready = some exit := by
  obtain ⟨inside, assigned, bodyEnds⟩ := (Regions.eval_entry_iff entry).mp ended
  have admitsInside := admits.entry formed visited entry assigned
  have isBlock := (Regions.parts_of_entryBlock? entry).1
  obtain ⟨below, owns⟩ := formed.knows _ (Program.mem_parts_of_inside visited isBlock)
  have encloses := formed.encloses visited entry
  have sameType (part : Part) (member : part ∈ body.parts) (value : ValueId)
      (introduces : program.Introduces part value) : after.typeOf? value = program.typeOf? value :=
    takes.sameType value introduces.1 (encloses.outside part member value introduces)
  cases isArguments : (program.header block).arguments with
  | nil =>
    rw [isArguments] at assigned
    cases assigned
  | cons round rest =>
    rw [isArguments] at assigned owns
    obtain ⟨image, enters, starts⟩ := takes.enters owns isArguments (grown.arguments_eq block below)
      lowered carries fits assigned
    rcases takes.casts round rest isArguments with ⟨same, unused⟩ |
      ⟨id, cast, converted, defines, -, isNew, mapped⟩
    · rw [same]
      exact (Regions.eval_entry_iff entry).mpr ⟨image, enters,
        Body.eval_of_unused encloses grown sameType unused starts admitsInside bodyEnds⟩
    · have among : round ∈ (program.header block).arguments := isArguments ▸ List.mem_cons_self
      exact (Regions.eval_entry_iff converted).mpr ⟨image, enters,
        Body.eval_of_cast encloses among grown sameType defines isNew mapped starts admitsInside bodyEnds⟩

end Round

/-! ### The steps -/

theorem finished_draft (program : Program) (op : OpId) :
    (program.draft op .before).finished = program := by
  rw [Draft.finished_eq]
  exact program.alterAt_self op

theorem builds_buildLoop (types : List Ty) : BuildsTarget (buildLoop op types) :=
  builds_tripCount.bind fun _ => Loops.builds_index.bind fun _ => Loops.builds_index.bind fun _ =>
    (builds_ask _).bind fun _ => builds_create OpKind.isTarget_scf _ _ _

/-- The steps of lowering a loop. -/
theorem of_loopToLoops_eq_ok (run : (Change.loopToLoops op).run program = (.ok (), after)) :
    ∃ block body types, program.entryOf? op = some (block, body) ∧ program.isForLike op = true ∧
      List.Forall₂ (fun value lowered => ∃ type, program.typed value = .ok type ∧
        Target.loops.lowered? type = .ok (some lowered)) (program.results op) types ∧
      (Change.replaceHead op (buildLoop op types) (Change.convertBody block body types)).run program =
        (.ok (), after) := by
  unfold Change.loopToLoops at run
  rw [run_bind, Change.run_program] at run
  simp only [] at run
  cases entry : program.entryOf? op with
  | none =>
    rw [entry] at run
    cases run
  | some found =>
    obtain ⟨block, body⟩ := found
    rw [entry] at run
    simp only [] at run
    split at run
    case isFalse => cases run
    case isTrue isForLike =>
      obtain ⟨types, middle, typed, replaced⟩ := of_run_bind_eq_ok run
      obtain ⟨draft, isTypes, rfl⟩ := of_build_eq_ok typed
      obtain ⟨lowered, rfl⟩ := Loops.of_resultTypes_eq_ok isTypes
      rw [finished_draft] at replaced
      exact ⟨block, body, types, rfl, isForLike, lowered, replaced⟩

/-- What is known about a loop that runs all its rounds. -/
theorem of_isForLike {block : BlockId} {body : Body} (entry : program.entryOf? op = some (block, body))
    (isForLike : program.isForLike op = true) :
    ((program.operands op)[1]?).bind program.foldBool? = some true ∧ ∃ last flag,
      body.last? = some last ∧ program.kind last = .torch .primLoopCondition ∧
      (program.operands last)[0]? = some flag ∧ program.foldBool? flag = some true := by
  rw [Program.isForLike, Bool.and_eq_true, beq_iff_eq, beq_iff_eq] at isForLike
  refine ⟨isForLike.1, ?_⟩
  obtain ⟨flag, continues, folded⟩ := Option.bind_eq_some_iff.mp isForLike.2
  unfold Program.continues? at continues
  rw [entry] at continues
  simp only [Option.bind_eq_bind, Option.bind_some, Option.bind_eq_some_iff] at continues
  obtain ⟨last, isLast, isFlag⟩ := continues
  split at isFlag
  case isTrue isKind => exact ⟨last, flag, isLast, isKind, isFlag, folded⟩
  case isFalse => cases isFlag

/-- Operations that stand once in a block are apart. -/
theorem Body.apart_of_nodup {front rest : Body} {inside : Regions} {new : OpId}
    (nodup : (front.append (.cons new .nil (.cons op inside rest))).parts.Nodup) :
    new ∉ front.ops ∧ op ∉ front.ops ∧ op ≠ new ∧ op ∉ inside.ops := by
  have ops := Body.nodup_ops nodup
  rw [Body.ops_append, List.nodup_append] at ops
  obtain ⟨-, behind, apart⟩ := ops
  simp only [Body.ops, Regions.ops, List.nil_append, List.nodup_cons, List.mem_cons,
    List.mem_append] at behind apart
  refine ⟨fun member => apart new member new (.inl rfl) rfl,
    fun member => apart op member op (.inr (.inl rfl)) rfl, ?_, fun member => ?_⟩
  · rintro rfl
    exact behind.1 (.inl rfl)
  · exact behind.2.1 (.inl member)

/-- A new loop has taken the place of an old one, with the body of the old one for positions. -/
structure Program.LoopMoves (program : Program) (visit : Visit) (block : BlockId) (body : Body)
    (types : List Ty) (rounds : ValueId) (front : Body) (new : OpId) (inner : Regions → Regions)
    (draft : Draft) (finished after : Program) : Prop where
  isRounds : program.operand visit.op 0 = .ok rounds
  places : Draft.PlacesLoop program visit.op rounds types front new draft
  extended : (program.draft visit.op .before).Extends OpKind.IsTarget [] draft
  converts : draft.finished.ConvertsBody visit block body types inner finished
  evolved : draft.finished.Evolves OpKind.IsTarget finished
  converted : (Change.convertBody block body types).run draft.finished = (.ok (), finished)
  moves : program.MovesTo visit front new (inner visit.regions) finished after

theorem loopMoves_of_eq_ok {visit : Visit} {block : BlockId} {body : Body} {types : List Ty}
    (formed : program.WellFormed) (visited : visit ∈ program.visits)
    (notRoot : visit.op ≠ program.root) (notFunction : program.kind visit.op ≠ .func .func)
    (entry : visit.regions.entryBlock? = some (block, body))
    (run : (Change.replaceHead visit.op (buildLoop visit.op types)
      (Change.convertBody block body types)).run program = (.ok (), after)) :
    ∃ rounds front new inner draft finished,
      program.LoopMoves visit block body types rounds front new inner draft finished after := by
  have present := Program.mem_ops_of_visits visited
  have known := formed.knows _ (Body.op_mem_parts.mpr present)
  obtain ⟨new, middle, finished, built, converted, moved⟩ := of_replaceHead_eq_ok run
  obtain ⟨draft, isNew, rfl⟩ := of_build_eq_ok built
  have builds : BuildsTarget (buildLoop visit.op types) := builds_buildLoop types
  have extended := builds (program.draft visit.op .before)
  rw [isNew] at extended
  obtain ⟨rounds, front, isRounds, places⟩ := of_loopHead_eq_ok known.1 notRoot isNew
  have reached : program.Evolves OpKind.IsTarget draft.finished := extended.evolves formed
  have middleFormed := reached.wellFormed formed
  have visitedMiddle := extended.visited formed notRoot visited rfl
  have rootMiddle : draft.finished.root = program.root := reached.root
  obtain ⟨inner, converts⟩ := convertsBody_of_eq_ok middleFormed visitedMiddle
    (rootMiddle ▸ notRoot) entry converted
  obtain ⟨isBlock, -⟩ := Regions.parts_of_entryBlock? entry
  have placed := keeps_convertBody OpKind.isTarget_arith body types middleFormed
    (Program.mem_parts_of_inside visitedMiddle isBlock) _
    (placed_self middleFormed (Program.mem_ops_of_visits visitedMiddle))
  rw [converted] at placed
  obtain ⟨⟨finishedFormed, evolved⟩, -⟩ := placed
  have among (value : ValueId) (member : value ∈ (draft.finished.header block).arguments) :
      program.Owned visit.op value := by
    obtain ⟨below, owns⟩ := formed.knows _ (Program.mem_parts_of_inside visited isBlock)
    have same : (draft.finished.header block).arguments = (program.header block).arguments :=
      congrArg BlockHeader.arguments (extended.program.header_eq block below)
    refine ⟨.block block, ?_, owns.origin_eq value (same ▸ member)⟩
    rw [formed.regionsOf_eq visited]
    exact List.mem_cons_of_mem _ (List.mem_append_left _ isBlock)
  -- The tree changes three times: the new loop is built in front, the body is converted, the body moves.
  have altersMiddle : program.Alters (program.Owned visit.op) visit.op draft.change draft.finished :=
    alters_build extended
  have middleParts := formed.nodup_change middleFormed visited notRoot altersMiddle.regions
  rw [places.change_eq] at middleParts
  obtain ⟨notFront, apart, distinct, -⟩ := Body.apart_of_nodup middleParts
  have alters := altersMiddle.trans (converts.alters (program.Owned visit.op) among)
  have change_eq : (draft.change visit.regions visit.rest).alterAt visit.op
      (fun regions rest => .cons visit.op (inner regions) rest) =
        front.append (.cons new .nil (.cons visit.op (inner visit.regions) visit.rest)) := by
    rw [places.change_eq, Body.alterAt_behind _ apart distinct List.not_mem_nil]
  have parts := formed.nodup_change finishedFormed visited notRoot alters.regions
  rw [change_eq] at parts
  obtain ⟨-, -, -, notInside⟩ := Body.apart_of_nodup parts
  have toFinished : program.Evolves OpKind.IsTarget finished := reached.trans evolved
  have isInside : finished.regionsOf visit.op = inner visit.regions :=
    finishedFormed.regionsOf_eq
      (formed.visits_behind visited notRoot toFinished.root alters.regions change_eq)
  rw [isInside] at moved
  exact ⟨rounds, front, new, inner, draft, finished, isRounds, places, extended, converts, evolved, converted,
    movesTo_of_supersedeAll formed visited notRoot notFunction toFinished alters change_eq places.isNew
      notFront apart notInside moved isInside⟩

section Moves

variable {visit : Visit} {block : BlockId} {body : Body} {types : List Ty} {rounds : ValueId}
  {front : Body} {new : OpId} {inner : Regions → Regions} {draft : Draft} {finished : Program}

namespace Program.LoopMoves

/-- What stands in front of a new loop is new. -/
theorem new_of_heads (moves : program.LoopMoves visit block body types rounds front new inner draft
    finished after) {id : OpId} (member : id ∈ front.heads ∨ id = new) :
    program.operations.size ≤ id.index := by
  rcases member with among | rfl
  · have isPart : Part.op id ∈ draft.built :=
      moves.places.built _ (Body.op_mem_parts.mpr (Body.mem_ops_of_heads front among))
    have count := moves.extended.count_le (.op id)
    by_contra old
    have notNew : ¬(Part.op id).IsNew program draft.program := fun isNew => old isNew.1
    rw [show (program.draft visit.op .before).program = program from rfl, if_neg notNew] at count
    have positive := List.count_pos_iff.mpr isPart
    simp only [Program.draft, Draft.built, Body.parts, List.append_nil, List.count_nil] at count positive
    omega
  · exact moves.places.isNew

theorem arguments_eq (moves : program.LoopMoves visit block body types rounds front new inner draft
    finished after) (below : block.index < program.headers.size) :
    (draft.finished.header block).arguments = (program.header block).arguments :=
  congrArg BlockHeader.arguments (moves.extended.program.header_eq block below)

/-- What is built for a new loop is the same in the end. -/
theorem keeps (moves : program.LoopMoves visit block body types rounds front new inner draft finished
    after) (formed : program.WellFormed) (visited : visit ∈ program.visits)
    (entry : visit.regions.entryBlock? = some (block, body)) {id : OpId} {kind : OpKind}
    {operands values : List ValueId} {attributes : Attributes} {types : List Ty}
    (member : id ∈ front.heads ∨ id = new)
    (defines : draft.program.Defines id kind operands attributes values types)
    (notFunction : kind ≠ .func .func) : after.Defines id kind operands attributes values types := by
  have isNew := moves.new_of_heads member
  have old (other : OpId) (inTree : .op other ∈ program.tree.parts) : other ≠ id := by
    rintro rfl
    exact absurd (formed.knows (.op other) inTree).1 (not_lt.mpr isNew)
  obtain ⟨isBlock, inBody⟩ := Regions.parts_of_entryBlock? entry
  have notBody : id ∉ body.ops := fun among => old id (Program.mem_parts_of_inside visited
    (inBody _ (Body.op_mem_parts.mpr among))) rfl
  have notRest : id ∉ visit.rest.ops := fun among => old id (Program.mem_parts_of_rest visited
    (Body.op_mem_parts.mpr among)) rfl
  have fresh := moves.extended.program.results_new id ⟨isNew, defines.below⟩
  obtain ⟨below, owns⟩ := formed.knows _ (Program.mem_parts_of_inside visited isBlock)
  have placed : draft.finished.Defines id kind operands attributes values types := defines.placed
  refine moves.moves.defines (placed.grown moves.evolved.toGrows notFunction
    (moves.converts.operands id placed.below notBody) fun value among => ?_) notFunction notRest
  rw [← defines.results_eq] at among
  refine moves.converts.sameType value (fresh.lt value among) fun isArgument => ?_
  rw [moves.arguments_eq below] at isArgument
  exact absurd (owns.lt value isArgument) (not_lt.mpr (fresh.new value among))

/-- The body of the new loop takes a position in the end. -/
theorem takesPosition (moves : program.LoopMoves visit block body types rounds front new inner draft
    finished after) (formed : program.WellFormed) (visited : visit ∈ program.visits)
    (entry : visit.regions.entryBlock? = some (block, body)) :
    program.TakesPosition visit block body types inner after := by
  have extended := moves.extended.program
  obtain ⟨isBlock, inBody⟩ := Regions.parts_of_entryBlock? entry
  have known := formed.knows _ (Program.mem_parts_of_inside visited isBlock)
  have sameArguments := moves.arguments_eq known.1
  have sameType (value : ValueId) : after.typeOf? value = finished.typeOf? value := by
    rw [Program.typeOf?, Program.value, moves.moves.values_eq]
    rfl
  have notBehind (other : OpId) (member : other ∈ body.ops) : other ∉ visit.rest.ops := fun behind =>
    formed.disjoint_rest visited (inBody _ (Body.op_mem_parts.mpr member)) (Body.op_mem_parts.mpr behind)
  have sameOperands (other : OpId) (member : other ∈ body.ops) :
      after.operands other = finished.operands other ∧
        draft.finished.operands other = program.operands other := by
    refine ⟨?_, congrArg Operation.operands (extended.operation_eq other
      (formed.knows (.op other) (Program.mem_parts_of_inside visited
        (inBody _ (Body.op_mem_parts.mpr member)))).1)⟩
    rw [moves.moves.mapped, if_neg (notBehind other member)]
  refine ⟨fun value below outside => ?_, fun round rest isArguments => ?_,
    fun round rest isArguments => ?_⟩
  · rw [sameType, moves.converts.sameType value (below.trans_le extended.values_le)
      (by rwa [sameArguments])]
    exact congrArg Value.type (extended.value_eq value below)
  · obtain ⟨isRound, others⟩ := moves.converts.arguments round rest (sameArguments.trans isArguments)
    exact ⟨(sameType round).trans isRound, fun pair member => (sameType pair.1).trans (others pair member)⟩
  -- The counter is not used as a number, or all such uses read one conversion of it.
  · rcases moves.converts.casts round rest (sameArguments.trans isArguments) with ⟨same, kept⟩ |
      ⟨id, cast, isEntry, defines, isNew, isFresh, mapped⟩
    · refine .inl ⟨same, fun other member => ?_⟩
      obtain ⟨first, second⟩ := sameOperands other member
      rw [first, ← second]
      exact kept other member
    · refine .inr ⟨id, cast, isEntry, moves.moves.defines defines (by simp) fun behind => ?_,
        extended.operations_le.trans isNew, extended.values_le.trans isFresh, fun other member => ?_⟩
      · have below := (formed.knows (.op id) (Program.mem_parts_of_rest visited
          (Body.op_mem_parts.mpr behind))).1
        exact absurd below (not_lt.mpr (extended.operations_le.trans isNew))
      · obtain ⟨first, second⟩ := sameOperands other member
        rw [first, ← second]
        exact mapped other member

theorem fresh (moves : program.LoopMoves visit block body types rounds front new inner draft finished
    after) (formed : program.WellFormed) (visited : visit ∈ program.visits)
    (entry : visit.regions.entryBlock? = some (block, body))
    (grown : program.Grows OpKind.IsTarget after) {id : OpId} (member : id ∈ front.heads) :
    Program.AreFresh program after (.result id) (after.results id) := by
  have isNew := moves.new_of_heads (.inl member)
  have result {kind : OpKind} {operands values : List ValueId} {attributes : Attributes}
      {types : List Ty} (defines : draft.program.Defines id kind operands attributes values types)
      (notFunction : kind ≠ .func .func) : after.kind id ≠ .func .func ∧
        id.index < after.operations.size := by
    have isAfter := moves.keeps formed visited entry (.inl member) defines notFunction
    exact ⟨by rwa [isAfter.kind_eq], isAfter.below⟩
  rcases moves.places.heads id member with ⟨position, value, isPosition⟩ | ⟨value, isCast⟩
  · obtain ⟨notFunction, below⟩ := result isPosition (by simp)
    exact grown.results_new id ⟨isNew, below⟩ notFunction
  · obtain ⟨notFunction, below⟩ := result isCast (by simp)
    exact grown.results_new id ⟨isNew, below⟩ notFunction

/-- What stands behind the loop uses what it did. -/
theorem operands_rest (moves : program.LoopMoves visit block body types rounds front new inner draft
    finished after) (formed : program.WellFormed) (visited : visit ∈ program.visits)
    (entry : visit.regions.entryBlock? = some (block, body)) {other : OpId}
    (member : other ∈ visit.rest.ops) : finished.operands other = program.operands other := by
  have extended := moves.extended.program
  have isPart := Body.op_mem_parts.mpr member
  have below := (formed.knows _ (Program.mem_parts_of_rest visited isPart)).1
  have notBody : other ∉ body.ops := fun among =>
    formed.disjoint_rest visited ((Regions.parts_of_entryBlock? entry).2 _ (Body.op_mem_parts.mpr among))
      isPart
  rw [moves.converts.operands other (below.trans_le extended.operations_le) notBody]
  exact congrArg Operation.operands (extended.operation_eq other below)

/-- What stands behind the loop introduces values of the same types. -/
theorem typeOf?_rest (moves : program.LoopMoves visit block body types rounds front new inner draft
    finished after) (formed : program.WellFormed) (visited : visit ∈ program.visits)
    (entry : visit.regions.entryBlock? = some (block, body)) {part : Part}
    (member : part ∈ visit.rest.parts) {value : ValueId} (introduces : program.Introduces part value) :
    finished.typeOf? value = program.typeOf? value := by
  have extended := moves.extended.program
  have isBlock := (Regions.parts_of_entryBlock? entry).1
  obtain ⟨below, owns⟩ := formed.knows _ (Program.mem_parts_of_inside visited isBlock)
  rw [moves.converts.sameType value (introduces.1.trans_le extended.values_le) fun isArgument => ?_]
  · exact congrArg Value.type (extended.value_eq value introduces.1)
  · rw [moves.arguments_eq below] at isArgument
    have same : part = .block block :=
      Part.origin_inj (introduces.2.symm.trans (owns.origin_eq value isArgument))
    exact formed.disjoint_rest visited isBlock (same ▸ member)

end Program.LoopMoves

/-- The rounds of the new loop are those of the old one, all of which go on. -/
theorem Program.TakesPosition.iterate (takes : program.TakesPosition visit block body types inner after)
    (formed : program.WellFormed) (grown : program.Grows OpKind.IsTarget after)
    (visited : visit ∈ program.visits) (entry : visit.regions.entryBlock? = some (block, body))
    (lowered : List.Forall₂ (fun value lowered => ∃ type, program.typed value = .ok type ∧
      Target.loops.lowered? type = .ok (some lowered)) (program.results visit.op) types)
    (widens : program.Widens after (program.results visit.op) (after.results new))
    (isForLike : program.isForLike visit.op = true) {environment ready : Environment}
    (carries : ∀ value atom, environment value = some atom → ready value = some atom)
    (admits : program.Admits (Body.cons visit.op visit.regions visit.rest).parts environment)
    {count : Nat} {carried outputs : List Atom}
    (iterated : iterate? (fun position => program.round? visit.op
      (fun index arguments => visit.regions.eval program index arguments environment) (.int position))
      (·.flag ≠ some false) 1 count 0 carried = some outputs) :
    iterate? (fun position => after.round? new
      (fun index arguments => (inner visit.regions).eval after index arguments ready) (.index position))
      (fun _ => true) 1 count 0 carried = some outputs := by
  have isEntry : program.entryOf? visit.op = some (block, body) := by
    rw [Program.entryOf?, formed.regionsOf_eq visited]
    exact entry
  obtain ⟨-, last, flag, isLast, isKind, isFlag, folded⟩ := of_isForLike isEntry isForLike
  refine iterate?_always (fun position carried exit isRound => ?_) iterated
  rw [Program.round?] at isRound
  split at isRound
  case isFalse => cases isRound
  case isTrue fits =>
    refine ⟨?_, ?_⟩
    · obtain ⟨inside, assigned, ended⟩ := (Regions.eval_entry_iff entry).mp isRound
      have encloses := formed.encloses visited entry
      have continues := Body.flag_of_last body encloses.nodup encloses.knows isLast isKind isFlag folded
        (admits.entry formed visited entry assigned) ended
      rw [continues]
      rfl
    · rw [Program.round?, if_pos (widens.fitResults fits)]
      exact takes.eval formed grown visited entry lowered carries admits fits isRound

end Moves

/-- The lowering of a loop. -/
theorem Program.Means.loopToLoops (means : program.Means function arguments results)
    (present : op ∈ program.tree.ops) (isLoop : program.kind op = .torch .primLoop)
    (run : (Change.loopToLoops op).run program = (.ok (), after)) :
    after.Means function arguments results := by
  have formed := means.formed
  have notModule : program.kind op ≠ .module := by simp [isLoop]
  have notFunction : program.kind op ≠ .func .func := by simp [isLoop]
  have notRoot : op ≠ program.root := means.ne_root notModule
  have evolved : program.Evolves OpKind.IsTarget after :=
    evolvingAt_loopToLoops.of_run formed present run
  obtain ⟨visit, visited, rfl⟩ := Program.exists_visit present
  have known := formed.knows _ (Body.op_mem_parts.mpr present)
  obtain ⟨block, body, types, isEntry, isForLike, lowered, replaced⟩ := of_loopToLoops_eq_ok run
  have entry : visit.regions.entryBlock? = some (block, body) := by
    rwa [Program.entryOf?, formed.regionsOf_eq visited] at isEntry
  obtain ⟨rounds, front, new, inner, draft, finished, moves⟩ :=
    loopMoves_of_eq_ok formed visited notRoot notFunction entry replaced
  obtain ⟨starts, -⟩ := of_isForLike isEntry isForLike
  have isRounds := Program.getElem?_of_operand moves.isRounds
  have takes := moves.takesPosition formed visited entry
  refine means.alter_at False visited notModule notFunction (evolved.wellFormed formed)
    evolved.toGrows moves.moves.alters False.elim fun environment image exit carries admits ended => ?_
  rw [moves.moves.change_eq]
  obtain ⟨inputs, outputs, behind, isInputs, isOutputs, assigned, later⟩ :=
    Body.eval_cons_of_not_exit (by rw [isLoop]; rfl) ended
  obtain ⟨count, start, carried, rfl, iterated⟩ := (Program.outputs?_loop_iff isLoop).mp isOutputs
  obtain rfl := admits.operand_bool isInputs 1 rfl starts
  rw [if_pos rfl] at iterated
  obtain ⟨atom, isCount, same⟩ := known_of_mapM isInputs isRounds
  cases same
  obtain ⟨ready, lower, upper, step, last, through, carriesReady, isLower, isUpper, isStep, isLast,
      defines⟩ := moves.places.through (fun _ _ _ _ _ _ => moves.keeps formed visited entry)
    (fun _ => moves.fresh formed visited entry evolved.toGrows) admits.lt carries isCount
    fun fixed folded => admits.operand_int isInputs 0 rfl (by rw [isRounds]; exact folded)
  have widens : program.Widens after (program.results visit.op) (after.results new) :=
    defines.results_eq ▸ Program.widens_of_lowered lowered defines.types_eq
  -- The new loop starts from the positions and from what the old one carries.
  have isReady : (after.operands new).mapM ready =
      some (.index 0 :: .index last :: .index 1 :: carried) := by
    rw [defines.operands_eq]
    have others := mapM_carries carriesReady (mapM_drop_two isInputs)
    simp [isLower, isUpper, isStep, others]
  have computes : after.outputs? new (.index 0 :: .index last :: .index 1 :: carried)
      (fun index arguments => (inner visit.regions).eval after index arguments ready) = some outputs := by
    refine (Program.outputs?_for_iff defines.kind_eq).mpr
      ⟨0, last, 1, carried, rfl, Int.one_pos, ?_⟩
    rw [isLast]
    exact takes.iterate formed evolved.toGrows visited entry lowered widens isForLike carriesReady
      admits iterated
  refine ⟨exit, ?_, .refl ..⟩
  refine moves.moves.eval formed visited notFunction evolved.toGrows (by rw [defines.kind_eq]; rfl)
    (moves.moves.results_eq defines (by simp))
    (evolved.results_new _ ⟨moves.new_of_heads (.inr rfl), defines.below⟩
      (by simp [defines.kind_eq])) (fun _ => moves.operands_rest formed visited entry)
    (fun _ member _ => moves.typeOf?_rest formed visited entry member) widens through carriesReady
    admits.lt isReady computes assigned
    (admits.step known (formed.nodup_of_visits visited) isInputs isOutputs assigned) later

end TensorIR
