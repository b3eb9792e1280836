import TensorIR.Proofs.Scalar.Known

/-!
# One function follows another

Two programs are compared on the same tree, or on trees that differ at one operation. Wherever they
do not differ, the second program uses values that correspond to those of the first. If it follows the
first also from the operation on at which they differ, it follows it everywhere.

## Main definitions

* `Correspondence` — which values stand for which, and which are never known
* `Program.Follows` — a part of a tree does in the second program what it does in the first
* `Body.around` — the parts of a tree outside of what begins at one operation

## Main results

* `Body.eval_alterAt` — a change at one operation that is followed there is followed in the tree
* `Body.eval_follows` — a tree that is the same in both programs
-/

namespace TensorIR

/-- Which values of a second program stand for which of a first, and which values of the first are
never known. -/
structure Correspondence where
  relates : ValueId → ValueId → Prop
  dead : ValueId → Prop

namespace Correspondence

variable (correspondence : Correspondence)

/-- What is known in the first program is known of the corresponding values in the second. -/
structure Holds (environment image : Environment) : Prop where
  carries : ∀ old new atom, correspondence.relates old new → environment old = some atom →
    image new = some atom
  unknown : ∀ value, correspondence.dead value → environment value = none

/-- The value stands for itself and for nothing else. -/
structure Fixes (value : ValueId) : Prop where
  alive : ¬correspondence.dead value
  iff : ∀ old new, correspondence.relates old new → (old = value ↔ new = value)

/-- A value of the second program is used where the first uses a corresponding one. -/
def Uses (old new : ValueId) : Prop :=
  correspondence.relates old new ∨ correspondence.dead old

/-- Every value stands for itself. -/
def same : Correspondence := ⟨fun old new => old = new, fun _ => False⟩

theorem fixes_same (value : ValueId) : same.Fixes value := by
  refine ⟨nofun, ?_⟩
  rintro old new rfl
  exact Iff.rfl

variable {correspondence} {environment image : Environment}

theorem holds_same (carries : ∀ value atom, environment value = some atom → image value = some atom) :
    same.Holds environment image where
  carries _ _ atom related found := related ▸ carries _ atom found
  unknown _ dead := dead.elim

theorem holds_empty (correspondence : Correspondence) : correspondence.Holds .empty .empty where
  carries _ _ _ _ found := by cases found
  unknown _ _ := rfl

theorem Holds.set (holds : correspondence.Holds environment image) {value : ValueId}
    (fixed : correspondence.Fixes value) (atom : Atom) :
    correspondence.Holds (environment.set value atom) (image.set value atom) where
  carries old new known related found := by
    unfold Environment.set at found ⊢
    rw [if_congr (fixed.iff old new related).symm rfl rfl]
    split
    case isTrue here => rwa [if_pos here] at found
    case isFalse elsewhere =>
      rw [if_neg elsewhere] at found
      exact holds.carries old new known related found
  unknown other dead := by
    rw [Environment.set_other]
    · exact holds.unknown other dead
    · rintro rfl
      exact fixed.alive dead

theorem Holds.mapM (holds : correspondence.Holds environment image) {old new : List ValueId}
    {atoms : List Atom} (uses : List.Forall₂ correspondence.Uses old new)
    (found : old.mapM environment = some atoms) : new.mapM image = some atoms := by
  induction uses generalizing atoms with
  | nil => exact found
  | cons first _ ih =>
    simp only [List.mapM_cons, Option.bind_eq_bind, Option.bind_eq_some_iff, Option.pure_def,
      Option.some.injEq] at found ⊢
    obtain ⟨atom, isAtom, later, isLater, rfl⟩ := found
    refine ⟨atom, ?_, later, ih isLater, rfl⟩
    rcases first with related | dead
    · exact holds.carries _ _ atom related isAtom
    · rw [holds.unknown _ dead] at isAtom
      cases isAtom

end Correspondence

variable {start now : Program} {correspondence : Correspondence} {environment image : Environment}

/-- Values that are assigned in both programs keep what corresponds. -/
theorem Correspondence.Holds.assign (holds : correspondence.Holds environment image)
    {values : List ValueId} {atoms : List Atom} {after : Environment}
    (fixed : ∀ value ∈ values, correspondence.Fixes value)
    (fits : ∀ value ∈ values, ∀ atom : Atom, (start.typeOf? value).any atom.fits = true →
      (now.typeOf? value).any atom.fits = true)
    (assigned : start.assign? environment values atoms = some after) :
    ∃ imageAfter, now.assign? image values atoms = some imageAfter ∧
      correspondence.Holds after imageAfter := by
  induction values generalizing environment image atoms with
  | nil =>
    cases atoms with
    | nil =>
      cases assigned
      exact ⟨image, rfl, holds⟩
    | cons => cases assigned
  | cons value values ih =>
    cases atoms with
    | nil => cases assigned
    | cons atom atoms =>
      rw [Program.assign?] at assigned ⊢
      split at assigned
      case isFalse => cases assigned
      case isTrue fit =>
        rw [if_pos (fits value List.mem_cons_self atom fit)]
        exact ih (holds.set (fixed value List.mem_cons_self) atom)
          (fun other member => fixed other (List.mem_cons_of_mem _ member))
          (fun other member => fits other (List.mem_cons_of_mem _ member)) assigned

/-! ### How blocks end -/

/-- The ends of two blocks pass on the same values. Whether a loop continues may be told only by the
first of them, if that is of no importance. -/
structure Exit.Refines (loose : Prop) (exit other : Exit) : Prop where
  atoms : other.atoms = exit.atoms
  flag : other.flag = exit.flag ∨ loose ∧ other.flag = none

theorem Exit.Refines.refl (loose : Prop) (exit : Exit) : exit.Refines loose exit :=
  ⟨rfl, .inl rfl⟩

theorem Exit.Refines.eq {exit other : Exit} (refines : exit.Refines False other) : other = exit := by
  obtain ⟨atoms, flag | impossible⟩ := refines
  · cases exit
    cases other
    cases atoms
    cases flag
    rfl
  · exact impossible.1.elim

theorem Exit.Refines.passed? {loose : Prop} {exit other : Exit} {atoms : List Atom}
    (refines : exit.Refines loose other) (passed : exit.passed? = some atoms) :
    other.passed? = some atoms := by
  obtain ⟨flag, _⟩ := exit
  cases flag with
  | some => cases passed
  | none =>
    cases passed
    obtain ⟨otherFlag, _⟩ := other
    obtain ⟨rfl, same⟩ := refines
    obtain rfl : otherFlag = none := same.elim id And.right
    rfl

/-- Rounds that are followed one by one are followed together. -/
theorem iterate?_follows {loose : Prop} {round other : Int → List Atom → Option Exit}
    {goesOn : Exit → Bool} {width position : Int} {count : Nat} {carried final : List Atom}
    (follows : ∀ position carried exit, round position carried = some exit →
      ∃ after, other position carried = some after ∧ exit.Refines loose after)
    (same : ∀ exit after : Exit, exit.Refines loose after → goesOn after = goesOn exit)
    (run : iterate? round goesOn width count position carried = some final) :
    iterate? other goesOn width count position carried = some final := by
  induction count generalizing position carried with
  | zero => exact run
  | succ count ih =>
    simp only [iterate?, Option.bind_eq_bind, Option.bind_eq_some_iff] at run ⊢
    obtain ⟨exit, isExit, later⟩ := run
    obtain ⟨after, isAfter, refines⟩ := follows position carried exit isExit
    refine ⟨after, isAfter, ?_⟩
    rw [same exit after refines, refines.atoms]
    split at later
    case isTrue goes => rw [if_pos goes]; exact ih later
    case isFalse stops => rw [if_neg stops]; exact later

/-- An operation computes the same if its regions are followed. Only a loop before lowering looks at
whether a block says to continue. -/
theorem Program.outputs?_follows (loose : Prop) {op : OpId} {inputs outputs : List Atom}
    {enter follow : Nat → List Atom → Option Exit} (kind : now.kind op = start.kind op)
    (literal : now.literal? op inputs = start.literal? op inputs)
    (type : now.resultType? op 0 = start.resultType? op 0)
    (fit : ∀ atoms, now.fitResults op atoms = start.fitResults op atoms)
    (strict : loose → start.kind op ≠ .torch .primLoop)
    (follows : ∀ index arguments exit, enter index arguments = some exit →
      ∃ after, follow index arguments = some after ∧ exit.Refines loose after)
    (computed : start.outputs? op inputs enter = some outputs) :
    now.outputs? op inputs follow = some outputs := by
  -- A branch enters one region once, and a loop enters its region in every round.
  have side (index : Nat) (entered : (enter index []).bind Exit.passed? = some outputs) :
      (follow index []).bind Exit.passed? = some outputs := by
    obtain ⟨exit, isExit, passed⟩ := Option.bind_eq_some_iff.mp entered
    obtain ⟨after, isAfter, refines⟩ := follows index [] exit isExit
    rw [isAfter, Option.bind_some, refines.passed? passed]
  have round (position : Atom) (carried : List Atom) (exit : Exit)
      (ran : start.round? op enter position carried = some exit) :
      ∃ after, now.round? op follow position carried = some after ∧ exit.Refines loose after := by
    unfold Program.round? at ran ⊢
    rw [fit]
    split at ran
    case isTrue fits => rw [if_pos fits]; exact follows 0 _ exit ran
    case isFalse => cases ran
  unfold Program.outputs? at computed ⊢
  rw [kind, literal, type]
  split at computed
  case h_1 | h_2 => exact side _ computed
  case h_3 isLoop =>
    split at computed
    case isFalse stops => rwa [if_neg stops]
    case isTrue starts =>
      rw [if_pos starts]
      refine iterate?_follows (fun position => round _) (fun exit after refines => ?_) computed
      rcases refines.flag with flag | isLoose
      · rw [flag]
      · exact absurd isLoop (strict isLoose.1)
  case h_4 =>
    split at computed
    case isFalse => cases computed
    case isTrue positive =>
      rw [if_pos positive]
      exact iterate?_follows (fun position => round _) (fun exit after refines => rfl) computed
  case h_5 => exact computed

/-! ### Parts of a tree -/

/-- A part of a tree does in the second program what it does in the first, with corresponding
values. -/
def Program.Follows (start now : Program) (correspondence : Correspondence) : Part → Prop
  | .op op => now.kind op = start.kind op ∧ (start.kind op ≠ .func .func →
      now.attributes op = start.attributes op ∧ now.results op = start.results op ∧
      List.Forall₂ correspondence.Uses (start.operands op) (now.operands op) ∧
      ∀ value ∈ start.results op, correspondence.Fixes value ∧
        now.typeOf? value = start.typeOf? value)
  | .block block => (now.header block).arguments = (start.header block).arguments ∧
      ∀ value ∈ (start.header block).arguments, correspondence.Fixes value ∧
        ∀ atom : Atom, (start.typeOf? value).any atom.fits = true →
          (now.typeOf? value).any atom.fits = true

theorem Program.resultType?_eq {op : OpId} (results : now.results op = start.results op)
    (types : ∀ value ∈ start.results op, now.typeOf? value = start.typeOf? value) (index : Nat) :
    now.resultType? op index = start.resultType? op index := by
  rw [Program.resultType?, Program.resultType?, results]
  cases found : (start.results op)[index]? with
  | none => rfl
  | some value => exact types value (List.mem_of_getElem? found)

/-- Values fit the results of an operation if they have the types that they had. -/
theorem Program.assign?_isSome {values : List ValueId} {atoms : List Atom}
    {environment image : Environment}
    (types : ∀ value ∈ values, now.typeOf? value = start.typeOf? value) :
    (now.assign? image values atoms).isSome = (start.assign? environment values atoms).isSome := by
  induction values generalizing environment image atoms with
  | nil => cases atoms <;> rfl
  | cons value values ih =>
    cases atoms with
    | nil => rfl
    | cons atom atoms =>
      rw [Program.assign?, Program.assign?, types value List.mem_cons_self]
      split
      · exact ih fun other member => types other (List.mem_cons_of_mem _ member)
      · rfl

theorem Program.literal?_eq {op : OpId} (inputs : List Atom) (kind : now.kind op = start.kind op)
    (attributes : now.attributes op = start.attributes op)
    (type : now.resultType? op 0 = start.resultType? op 0) :
    now.literal? op inputs = start.literal? op inputs := by
  unfold Program.literal? Program.constantValue? Program.torchConstant? Program.stringOf
  rw [kind, attributes, type]

/-- An operation that is followed computes the same, and what is known behind it corresponds. -/
theorem Program.Follows.step {op : OpId} (follows : start.Follows now correspondence (.op op))
    (holds : correspondence.Holds environment image) (loose : Prop)
    {enter follow : Nat → List Atom → Option Exit} (strict : loose → start.kind op ≠ .torch .primLoop)
    (entered : ∀ index arguments exit, enter index arguments = some exit →
      ∃ after, follow index arguments = some after ∧ exit.Refines loose after)
    {inputs outputs : List Atom} {after : Environment}
    (isInputs : (start.operands op).mapM environment = some inputs)
    (isOutputs : start.outputs? op inputs enter = some outputs)
    (assigned : start.assign? environment (start.results op) outputs = some after) :
    (now.operands op).mapM image = some inputs ∧ now.outputs? op inputs follow = some outputs ∧
      ∃ imageAfter, now.assign? image (now.results op) outputs = some imageAfter ∧
        correspondence.Holds after imageAfter := by
  obtain ⟨kind, matters⟩ := follows
  have notFunction : start.kind op ≠ .func .func := by
    intro isFunction
    rw [Program.outputs?_of_function isFunction] at isOutputs
    cases isOutputs
  obtain ⟨attributes, results, uses, each⟩ := matters notFunction
  have type := Program.resultType?_eq results (fun value member => (each value member).2) 0
  have fit (atoms : List Atom) : now.fitResults op atoms = start.fitResults op atoms := by
    rw [Program.fitResults, results]
    exact Program.assign?_isSome fun value member => (each value member).2
  refine ⟨holds.mapM uses isInputs, ?_, ?_⟩
  · exact Program.outputs?_follows loose kind (Program.literal?_eq inputs kind attributes type) type
      fit strict entered isOutputs
  · rw [results]
    exact holds.assign (fun value member => (each value member).1)
      (fun value member atom fits => by rwa [(each value member).2]) assigned

/-- The parts of a tree outside of what begins at an operation. -/
def Body.around (op : OpId) (body : Body) : List Part :=
  (body.alterAt op fun _ _ => .nil).parts

/-- The parts of blocks outside of what begins at an operation. -/
def Blocks.around (op : OpId) (blocks : Blocks) : List Part :=
  (blocks.alterAt op fun _ _ => .nil).parts

/-- The parts of regions outside of what begins at an operation. -/
def Regions.around (op : OpId) (regions : Regions) : List Part :=
  (regions.alterAt op fun _ _ => .nil).parts

/-- A change at an operation is followed there, and no loop before lowering has it inside, if blocks
may end without saying whether to continue. -/
def Program.FollowsAt (start now : Program) (correspondence : Correspondence) (op : OpId)
    (change : Regions → Body → Body) (loose : Prop) (visit : Visit) : Prop :=
  (visit.op = op → ∀ environment image exit, correspondence.Holds environment image →
    start.Admits (Body.cons op visit.regions visit.rest).parts environment →
    (Body.cons op visit.regions visit.rest).eval start environment = some exit →
    ∃ after, (change visit.regions visit.rest).eval now image = some after ∧
      exit.Refines loose after) ∧
  (loose → op ∈ visit.regions.ops → start.kind visit.op ≠ .torch .primLoop)

section Alteration

variable {op : OpId} {change : Regions → Body → Body}

mutual

/-- A change at one operation that is followed there is followed in the tree. -/
theorem Body.eval_alterAt {loose : Prop} {environment image : Environment} {exit : Exit}
    (block : Option BlockId) (parent : Option OpId) (depth : Nat) :
    (body : Body) → body.parts.Nodup → (∀ part ∈ body.parts, start.Knows part) →
      (∀ part ∈ body.around op, start.Follows now correspondence part) →
      (∀ visit ∈ body.visits block parent depth,
        start.FollowsAt now correspondence op change loose visit) →
      correspondence.Holds environment image → start.Admits body.parts environment →
      body.eval start environment = some exit →
      ∃ after, (body.alterAt op change).eval now image = some after ∧ exit.Refines loose after
  | .nil, _, _, _, _, _, _, ended => by cases ended
  | .cons other regions rest, nodup, knows, follows, followsAt, holds, admits, ended => by
    have here := followsAt _ List.mem_cons_self
    rw [Body.alterAt]
    by_cases isOp : other = op
    case pos =>
      rw [if_pos isOp]
      subst isOp
      exact here.1 rfl environment image exit holds admits ended
    case neg =>
      rw [if_neg isOp]
      rw [Body.around, Body.alterAt, if_neg isOp] at follows
      have followsHere := follows _ List.mem_cons_self
      have ⟨kind, matters⟩ := followsHere
      obtain ⟨absent, apart⟩ := List.nodup_cons.mp nodup
      obtain ⟨inside, behind, disjoint⟩ := List.nodup_append.mp apart
      obtain ⟨inputs, isInputs, ends | ⟨continues, outputs, after, isOutputs, assigned, later⟩⟩ :=
        Body.eval_cons_iff.mp ended
      case inl =>
        obtain ⟨isExit, isLast, ends⟩ := ends
        have notFunction : start.kind other ≠ .func .func := by
          intro isFunction
          rw [isFunction] at isExit
          cases isExit
        obtain ⟨-, -, uses, -⟩ := matters notFunction
        refine ⟨exit, Body.eval_cons_iff.mpr ⟨inputs, holds.mapM uses isInputs, .inl ?_⟩, .refl ..⟩
        rw [kind, isLast]
        exact ⟨isExit, rfl, ends⟩
      case inr =>
        have within (part : Part) (member : part ∈ regions.parts) :
            part ∈ (Body.cons other regions rest).parts :=
          List.mem_cons_of_mem _ (List.mem_append_left _ member)
        -- Only the regions that have the operation inside may leave out whether to continue.
        obtain ⟨imageInputs, computed, imageAfter, imageAssigned, holdsAfter⟩ :=
          followsHere.step holds (loose ∧ op ∈ regions.ops) (fun both => here.2 both.1 both.2)
            (fun index arguments exit entered => Regions.eval_alterAt other (depth + 1) index regions
              inside (fun part member => knows part (within part member))
              (fun part member => follows part
                (List.mem_cons_of_mem _ (List.mem_append_left _ member)))
              (fun visit member => by
                obtain ⟨followed, strict⟩ :=
                  followsAt visit (List.mem_cons_of_mem _ (List.mem_append_left _ member))
                refine ⟨fun isVisit environment image exit holds admits ended => ?_,
                  fun both => strict both.1⟩
                obtain ⟨after, isAfter, same, flag⟩ :=
                  followed isVisit environment image exit holds admits ended
                refine ⟨after, isAfter, same, flag.imp_right fun both => ⟨⟨both.1, ?_⟩, both.2⟩⟩
                rw [← Regions.map_op_visits other (depth + 1), ← isVisit]
                exact List.mem_map_of_mem member)
              holds (admits.mono within) entered) isInputs isOutputs assigned
        obtain ⟨final, isFinal, refines⟩ := Body.eval_alterAt block parent depth rest behind
          (fun part member => knows part
            (List.mem_cons_of_mem _ (List.mem_append_right _ member)))
          (fun part member => follows part
            (List.mem_cons_of_mem _ (List.mem_append_right _ member)))
          (fun visit member => followsAt visit
            (List.mem_cons_of_mem _ (List.mem_append_right _ member)))
          holdsAfter (admits.step (knows _ List.mem_cons_self) nodup isInputs isOutputs assigned)
          later
        refine ⟨final, Body.eval_cons_iff.mpr ⟨inputs, imageInputs, .inr ⟨?_, outputs, imageAfter,
          computed, imageAssigned, isFinal⟩⟩, refines⟩
        rwa [kind]

/-- A change at one operation that is followed there is followed in blocks. -/
theorem Blocks.eval_alterAt {loose : Prop} {environment image : Environment} {exit : Exit}
    {arguments : List Atom} (parent : OpId) (depth : Nat) :
    (blocks : Blocks) → blocks.parts.Nodup → (∀ part ∈ blocks.parts, start.Knows part) →
      (∀ part ∈ blocks.around op, start.Follows now correspondence part) →
      (∀ visit ∈ blocks.visits parent depth,
        start.FollowsAt now correspondence op change loose visit) →
      correspondence.Holds environment image → start.Admits blocks.parts environment →
      blocks.eval start arguments environment = some exit →
      ∃ after, (blocks.alterAt op change).eval now arguments image = some after ∧
        exit.Refines loose after
  | .nil, _, _, _, _, _, _, ended => by cases ended
  | .cons block body rest, nodup, knows, follows, followsAt, holds, admits, ended => by
    obtain ⟨after, assigned, later⟩ := Blocks.eval_cons_iff.mp ended
    obtain ⟨-, apart⟩ := List.nodup_cons.mp nodup
    obtain ⟨inside, -, -⟩ := List.nodup_append.mp apart
    obtain ⟨same, each⟩ := follows _ List.mem_cons_self
    obtain ⟨imageAfter, imageAssigned, holdsAfter⟩ : ∃ imageAfter,
        now.assign? image (start.header block).arguments arguments = some imageAfter ∧
          correspondence.Holds after imageAfter :=
      holds.assign (fun value member => (each value member).1)
        (fun value member => (each value member).2) assigned
    obtain ⟨final, isFinal, refines⟩ := Body.eval_alterAt (some block) (some parent) depth body inside
      (fun part member => knows part (List.mem_cons_of_mem _ (List.mem_append_left _ member)))
      (fun part member => follows part (List.mem_cons_of_mem _ (List.mem_append_left _ member)))
      (fun visit member => followsAt visit (List.mem_append_left _ member))
      holdsAfter (admits.enter (knows _ List.mem_cons_self) nodup assigned) later
    refine ⟨final, Blocks.eval_cons_iff.mpr ⟨imageAfter, ?_, isFinal⟩, refines⟩
    rw [same]
    exact imageAssigned

/-- A change at one operation that is followed there is followed in regions. -/
theorem Regions.eval_alterAt {loose : Prop} {environment image : Environment} {exit : Exit}
    {arguments : List Atom} (parent : OpId) (depth : Nat) (index : Nat) :
    (regions : Regions) → regions.parts.Nodup → (∀ part ∈ regions.parts, start.Knows part) →
      (∀ part ∈ regions.around op, start.Follows now correspondence part) →
      (∀ visit ∈ regions.visits parent depth,
        start.FollowsAt now correspondence op change loose visit) →
      correspondence.Holds environment image → start.Admits regions.parts environment →
      regions.eval start index arguments environment = some exit →
      ∃ after, (regions.alterAt op change).eval now index arguments image = some after ∧
        exit.Refines loose after
  | .nil, _, _, _, _, _, _, ended => by cases ended
  | .cons blocks rest, nodup, knows, follows, followsAt, holds, admits, ended => by
    obtain ⟨inside, behind, -⟩ := List.nodup_append.mp nodup
    cases index with
    | zero =>
      exact Blocks.eval_alterAt parent depth blocks inside
        (fun part member => knows part (List.mem_append_left _ member))
        (fun part member => follows part (List.mem_append_left _ member))
        (fun visit member => followsAt visit (List.mem_append_left _ member)) holds
        (admits.mono fun part member => List.mem_append_left _ member) ended
    | succ index =>
      exact Regions.eval_alterAt parent depth index rest behind
        (fun part member => knows part (List.mem_append_right _ member))
        (fun part member => follows part (List.mem_append_right _ member))
        (fun visit member => followsAt visit (List.mem_append_right _ member)) holds
        (admits.mono fun part member => List.mem_append_right _ member) ended

end

/-- A tree whose parts all do the same ends the same way. -/
theorem Body.eval_follows {exit : Exit} {body : Body} (nodup : body.parts.Nodup)
    (knows : ∀ part ∈ body.parts, start.Knows part)
    (follows : ∀ part ∈ body.parts, start.Follows now correspondence part) (absent : op ∉ body.ops)
    (holds : correspondence.Holds environment image) (admits : start.Admits body.parts environment)
    (ended : body.eval start environment = some exit) : body.eval now image = some exit := by
  obtain ⟨after, isAfter, refines⟩ : ∃ after, (body.alterAt op (.cons op)).eval now image = some after ∧
      exit.Refines False after := by
    refine Body.eval_alterAt none none 0 body nodup knows (fun part around => follows part ?_)
      (fun visit member => ⟨fun isOp => ?_, nofun⟩) holds admits ended
    · rwa [Body.around, Body.alterAt_of_notMem body absent] at around
    · rw [← Body.map_op_visits none none 0, ← isOp] at absent
      exact absurd (List.mem_map_of_mem member) absent
  rw [Body.alterAt_self] at isAfter
  rw [isAfter, refines.eq]

/-- Regions whose parts all do the same end the same way. -/
theorem Regions.eval_follows {exit : Exit} {regions : Regions} {index : Nat} {arguments : List Atom}
    (nodup : regions.parts.Nodup) (knows : ∀ part ∈ regions.parts, start.Knows part)
    (follows : ∀ part ∈ regions.parts, start.Follows now correspondence part)
    (absent : op ∉ regions.ops) (holds : correspondence.Holds environment image)
    (admits : start.Admits regions.parts environment)
    (ended : regions.eval start index arguments environment = some exit) :
    regions.eval now index arguments image = some exit := by
  obtain ⟨after, isAfter, refines⟩ : ∃ after,
      (regions.alterAt op (.cons op)).eval now index arguments image = some after ∧
        exit.Refines False after := by
    refine Regions.eval_alterAt op 0 index regions nodup knows (fun part around => follows part ?_)
      (fun visit member => ⟨fun isOp => ?_, nofun⟩) holds admits ended
    · rwa [Regions.around, Regions.alterAt_of_notMem regions absent] at around
    · have among := List.mem_map_of_mem (f := Visit.op) member
      rw [Regions.map_op_visits, isOp] at among
      exact absurd among absent
  rw [Regions.alterAt_self] at isAfter
  rw [isAfter, refines.eq]

end Alteration

end TensorIR
