import TensorIR.Proofs.Scalar.Place
import TensorIR.Proofs.Scalar.Simulation

/-!
# Changes at one operation

A rewriting step changes a program at one operation: it puts something else in the place of what
begins there, it lets operations use other values in place of those that the operation introduces, and
it may give the latter other types. Nothing else changes. A function that does the same from that
operation on does the same as a whole.

## Main definitions

* `Program.Owned` — the values that an operation introduces, or what is inside it
* `Program.Alters` — a program that has been changed at one operation
* `Program.Means` — a function of the program returns given values

## Main results

* `Program.Alters.trans` — changes at one operation one after the other
* `Program.Means.alter` — a change that is followed at its operation keeps what a function returns
-/

namespace TensorIR

theorem Part.origin_inj {first second : Part} (same : first.origin = second.origin) :
    first = second := by
  cases first <;> cases second <;> cases same <;> rfl

/-- The values that an operation introduces, or what is inside it. -/
def Program.Owned (program : Program) (op : OpId) (value : ValueId) : Prop :=
  ∃ part ∈ (Body.cons op (program.regionsOf op) .nil).parts,
    (program.value value).origin = part.origin

/-- A program that has been changed at one operation: there is something else in its place, other
values are used for those in `owned`, and their types may be others. -/
structure Program.Alters (start : Program) (owned : ValueId → Prop) (op : OpId)
    (change : Regions → Body → Body) (now : Program) : Prop where
  operations_le : start.operations.size ≤ now.operations.size
  values_le : start.values.size ≤ now.values.size
  operands : ∀ other : OpId, other.index < start.operations.size →
    List.Forall₂ (fun old new => old = new ∨ owned old) (start.operands other) (now.operands other)
  types : ∀ value : ValueId, value.index < start.values.size → ¬owned value →
    now.typeOf? value = start.typeOf? value
  regions : now.regions = start.regions.alterAt op change
  keeps : KeepsEntries op change

mutual

theorem Body.alterAt_alterAt (op : OpId) (first second : Regions → Body → Body) : (body : Body) →
    (body.alterAt op first).alterAt op second =
      body.alterAt op fun regions rest => (first regions rest).alterAt op second
  | .nil => rfl
  | .cons other regions rest => by
    rw [Body.alterAt, Body.alterAt]
    split
    case isTrue => rfl
    case isFalse different =>
      rw [Body.alterAt, if_neg different, Regions.alterAt_alterAt op first second regions,
        Body.alterAt_alterAt op first second rest]

theorem Blocks.alterAt_alterAt (op : OpId) (first second : Regions → Body → Body) :
    (blocks : Blocks) → (blocks.alterAt op first).alterAt op second =
      blocks.alterAt op fun regions rest => (first regions rest).alterAt op second
  | .nil => rfl
  | .cons block body rest => by
    rw [Blocks.alterAt, Blocks.alterAt, Blocks.alterAt, Body.alterAt_alterAt op first second body,
      Blocks.alterAt_alterAt op first second rest]

theorem Regions.alterAt_alterAt (op : OpId) (first second : Regions → Body → Body) :
    (regions : Regions) → (regions.alterAt op first).alterAt op second =
      regions.alterAt op fun regions rest => (first regions rest).alterAt op second
  | .nil => rfl
  | .cons blocks rest => by
    rw [Regions.alterAt, Regions.alterAt, Regions.alterAt,
      Blocks.alterAt_alterAt op first second blocks, Regions.alterAt_alterAt op first second rest]

end

variable {start middle now : Program} {owned : ValueId → Prop} {op : OpId}
  {change : Regions → Body → Body}

theorem keepsEntries_cons (op : OpId) : KeepsEntries op (.cons op) :=
  fun _ _ _ _ _ _ member => List.mem_cons_of_mem _ member

theorem KeepsEntries.alterAt {second : Regions → Body → Body} (first : KeepsEntries op change)
    (later : KeepsEntries op second) :
    KeepsEntries op fun regions rest => (change regions rest).alterAt op second :=
  fun regions rest function inside other absent member =>
    Body.entries_alterAt_of_notMem other absent later _
      (first regions rest function inside other absent member)

theorem forall₂_same {items : List ValueId} {related : ValueId → Prop} :
    List.Forall₂ (fun old new => old = new ∨ related old) items items :=
  List.forall₂_same.mpr fun _ _ => .inl rfl

namespace Program.Alters

theorem refl (program : Program) (owned : ValueId → Prop) (op : OpId) :
    program.Alters owned op (.cons op) program where
  operations_le := le_rfl
  values_le := le_rfl
  operands _ _ := forall₂_same
  types _ _ _ := rfl
  regions := (Regions.alterAt_self _).symm
  keeps := keepsEntries_cons op

theorem trans {second : Regions → Body → Body} (first : start.Alters owned op change middle)
    (later : middle.Alters owned op second now) :
    start.Alters owned op (fun regions rest => (change regions rest).alterAt op second) now where
  operations_le := first.operations_le.trans later.operations_le
  values_le := first.values_le.trans later.values_le
  operands other below := by
    have early := first.operands other below
    have late := later.operands other (below.trans_le first.operations_le)
    generalize start.operands other = initial at early ⊢
    generalize middle.operands other = between at early late
    generalize now.operands other = final at late ⊢
    induction early generalizing final with
    | nil => cases late; exact .nil
    | cons head _ ih =>
      cases late with
      | cons isHead isTail =>
        refine .cons ?_ (ih _ isTail)
        rcases head with rfl | among
        · exact isHead
        · exact .inr among
  types value below outside :=
    (later.types value (below.trans_le first.values_le) outside).trans (first.types value below outside)
  regions := by rw [later.regions, first.regions, Regions.alterAt_alterAt]
  keeps := first.keeps.alterAt later.keeps

/-- A change of the tables alone. -/
theorem of_regions (operations_le : start.operations.size ≤ now.operations.size)
    (values_le : start.values.size ≤ now.values.size)
    (operands : ∀ other : OpId, other.index < start.operations.size →
      List.Forall₂ (fun old new => old = new ∨ owned old) (start.operands other)
        (now.operands other))
    (types : ∀ value : ValueId, value.index < start.values.size → ¬owned value →
      now.typeOf? value = start.typeOf? value)
    (regions : now.regions = start.regions) : start.Alters owned op (.cons op) now where
  operations_le := operations_le
  values_le := values_le
  operands := operands
  types := types
  regions := by rw [regions, Regions.alterAt_self]
  keeps := keepsEntries_cons op

/-- A change of the tree alone. -/
theorem alterAt (program : Program) (owned : ValueId → Prop) (keeps : KeepsEntries op change) :
    program.Alters owned op change (program.alterAt op change) where
  operations_le := le_rfl
  values_le := le_rfl
  operands _ _ := forall₂_same
  types _ _ _ := rfl
  regions := rfl
  keeps := keeps

theorem keep (program : Program) (owned : ValueId → Prop) (other : OpId) (inside : Regions) :
    program.Alters owned op (.cons op) (program.keep other inside) := by
  cases inside <;>
    exact of_regions le_rfl le_rfl (fun _ _ => forall₂_same) (fun _ _ _ => rfl) rfl

end Program.Alters

/-! ### What a function returns -/

/-- A function stands at the top of a well-formed program and returns given values for given
arguments. -/
structure Program.Means (program : Program) (function : OpId) (arguments results : List Atom) :
    Prop where
  formed : program.WellFormed
  isModule : program.kind program.root = .module
  isFunction : program.kind function = .func .func
  returns : ∃ inside, (function, inside) ∈ program.regions.entries ∧
    (inside.eval program 0 arguments .empty).map Exit.atoms = some results

section Means

variable {function : OpId} {inside : Regions} {arguments results : List Atom}

theorem Program.Means.ne_root {program : Program} {op : OpId}
    (means : program.Means function arguments results) (notModule : program.kind op ≠ .module) :
    op ≠ program.root := by
  rintro rfl
  exact notModule means.isModule

theorem Program.WellFormed.regions_nodup {program : Program} (formed : program.WellFormed) :
    program.regions.parts.Nodup := by
  have nodup := formed.nodup
  simp only [Program.tree, Body.parts, List.append_nil, List.nodup_cons] at nodup
  exact nodup.2

theorem Program.mem_visits {program : Program} {visit : Visit}
    (member : visit ∈ program.regions.visits program.root 1) : visit ∈ program.visits :=
  List.mem_cons_of_mem _ (List.mem_append_left _ member)

/-- What stands at the top of a program is visited. -/
theorem Program.visits_of_entries {program : Program}
    (member : (function, inside) ∈ program.regions.entries) :
    (∀ visit ∈ inside.visits function 2, visit ∈ program.visits) ∧
      ∃ visit ∈ program.visits, visit.op = function ∧ visit.regions = inside := by
  obtain ⟨within, visit, found, same⟩ :=
    Regions.visits_of_entries program.root 1 program.regions member
  exact ⟨fun visit member => Program.mem_visits (within visit member), visit,
    Program.mem_visits found, same⟩

/-- What a function means is what it returns. -/
theorem Program.Means.meaning?_eq {program : Program}
    (means : program.Means function arguments results) :
    program.meaning? function arguments = some results := by
  obtain ⟨inside, member, returns⟩ := means.returns
  obtain ⟨-, visit, visited, rfl, rfl⟩ := Program.visits_of_entries member
  rw [Program.meaning?, means.formed.regionsOf_eq visited]
  exact returns

theorem Regions.mem_of_around {regions : Regions} {part : Part} (nodup : regions.parts.Nodup)
    (around : part ∈ regions.around op) : part ∈ regions.parts := by
  by_cases within : op ∈ regions.ops
  case pos =>
    obtain ⟨visit, -, outside, same⟩ := regions.exists_focus op 0 nodup within
    have isOutside := (same fun _ _ => .nil).mem_iff.mp around
    have original := same (.cons op)
    simp only [Regions.alterAt_self] at original
    rw [original.mem_iff, List.mem_append]
    exact .inl (by simpa [Body.parts] using isOutside)
  case neg => rwa [Regions.around, Regions.alterAt_of_notMem _ within] at around

/-- Outside of what begins at an operation, nothing is introduced that the operation owns. -/
theorem Program.WellFormed.not_owned_of_around {program : Program} (formed : program.WellFormed)
    (member : (function, inside) ∈ program.regions.entries) (other : function ≠ op)
    (notRoot : op ≠ program.root) {visit : Visit} (visited : visit ∈ program.visits)
    (isVisit : visit.op = op) {part : Part} (around : part ∈ inside.around op) {value : ValueId}
    (origin : (program.value value).origin = part.origin) : ¬program.Owned op value := by
  rintro ⟨owner, among, isOwner⟩
  obtain rfl := Part.origin_inj (origin.symm.trans isOwner)
  rw [← isVisit, formed.regionsOf_eq visited, isVisit] at among
  have nodup : inside.parts.Nodup := by
    obtain ⟨-, found, isFound, -, rfl⟩ := Program.visits_of_entries member
    have whole := formed.nodup_of_visits isFound
    exact (List.nodup_append.mp (List.nodup_cons.mp whole).2).1
  -- The operation is inside the function and apart from what is around it there, or outside, and then all
  -- of the function is around it.
  by_cases within : op ∈ inside.ops
  case pos =>
    obtain ⟨found, isFound, outside, same⟩ := inside.exists_focus function 2 nodup within
    have isSame : found = visit := by
      have isOp : found.op = op := by simpa using List.find?_some isFound
      have first := formed.visit?_eq
        ((Program.visits_of_entries member).1 found (List.mem_of_find?_eq_some isFound))
      have second := formed.visit?_eq visited
      rw [isOp] at first
      rw [isVisit, first, Option.some.injEq] at second
      exact second
    subst isSame
    have isOutside : part ∈ outside := by
      have parts := (same fun _ _ => .nil).mem_iff.mp around
      simpa [Body.parts] using parts
    have original := same (.cons op)
    simp only [Regions.alterAt_self] at original
    refine (List.nodup_append.mp (original.nodup_iff.mp nodup)).2.2 part isOutside part ?_ rfl
    rw [Body.parts, List.mem_cons, List.mem_append] at among ⊢
    rcases among with here | common | none
    · exact .inl here
    · exact .inr (.inl common)
    · cases none
  case neg =>
    rw [Regions.around, Regions.alterAt_of_notMem _ within] at around
    rw [Body.parts, List.mem_cons, Body.parts, List.append_nil] at among
    rcases among with rfl | common
    · exact within (Regions.op_mem_parts.mp around)
    · rw [Program.visits, Program.tree, Body.visits, Body.visits, List.append_nil, List.mem_cons]
        at visited
      rcases visited with rfl | inner
      · exact notRoot isVisit.symm
      · exact Regions.apart_of_entries program.root 1 program.regions formed.regions_nodup member inner
          (isVisit ▸ other.symm) (isVisit ▸ within) around common

/-- The values that an operation owns are out of use while it has not been reached. -/
def Program.outside (program : Program) (op : OpId) : Correspondence where
  relates := (· = ·)
  dead := program.Owned op

theorem Program.fixes_of_not_owned {program : Program} {value : ValueId}
    (outside : ¬program.Owned op value) : (program.outside op).Fixes value where
  alive := outside
  iff old new related := by rw [show old = new from related]

/-- What is outside of an operation does the same after a change at the operation. -/
theorem Program.Alters.follows {allowed : OpKind → Prop}
    (grown : start.Grows allowed now) (alters : start.Alters (start.Owned op) op change now)
    {part : Part} (known : start.Knows part)
    (free : ∀ value, (start.value value).origin = part.origin → ¬start.Owned op value) :
    start.Follows now (start.outside op) part := by
  cases part with
  | op id =>
    obtain ⟨below, owns⟩ := known
    refine ⟨grown.kind_eq id below, fun notFunction => ⟨grown.attributes_eq id below,
      grown.results_eq id below notFunction, alters.operands id below, fun value isResult => ?_⟩⟩
    have outside := free value ((owns notFunction).origin_eq value isResult)
    exact ⟨Program.fixes_of_not_owned outside,
      alters.types value ((owns notFunction).lt value isResult) outside⟩
  | block id =>
    obtain ⟨below, owns⟩ := known
    refine ⟨grown.arguments_eq id below, fun value isArgument => ?_⟩
    have outside := free value (owns.origin_eq value isArgument)
    refine ⟨Program.fixes_of_not_owned outside, fun atom fits => ?_⟩
    rwa [alters.types value (owns.lt value isArgument) outside]

/-- A change that is followed at its operation keeps what a function returns. -/
theorem Program.Means.alter {allowed : OpKind → Prop}
    (means : start.Means function arguments results) (loose : Prop) (formed : now.WellFormed)
    (grown : start.Grows allowed now) (alters : start.Alters (start.Owned op) op change now)
    (other : function ≠ op) (notRoot : op ≠ start.root) (present : op ∈ start.tree.ops)
    (followsAt : ∀ visit ∈ start.visits,
      start.FollowsAt now (start.outside op) op change loose visit) :
    now.Means function arguments results := by
  obtain ⟨inside, member, returns⟩ := means.returns
  obtain ⟨within, visit, visited, rfl, rfl⟩ := Program.visits_of_entries member
  obtain ⟨place, isPlace, isOp⟩ := Program.exists_visit present
  have inTree (part : Part) (among : part ∈ visit.regions.parts) : part ∈ start.tree.parts :=
    List.mem_cons_of_mem _ (List.mem_append_left _ (Regions.parts_of_entries _ member part among))
  have nodup : visit.regions.parts.Nodup := means.formed.nodup_inside visited
  refine ⟨formed, ?_, ?_, visit.regions.alterAt op change, ?_, ?_⟩
  · rw [grown.root, grown.kind_eq _ (means.formed.knows (.op start.root) List.mem_cons_self).1]
    exact means.isModule
  · have isPart : Part.op visit.op ∈ start.tree.parts :=
      Body.op_mem_parts.mpr (Program.mem_ops_of_visits visited)
    rw [grown.kind_eq _ (means.formed.knows _ isPart).1]
    exact means.isFunction
  · rw [alters.regions]
    refine Regions.entries_alterAt other alters.keeps _ ?_ member
    have distinct := Body.nodup_ops means.formed.nodup
    simp only [Program.tree, Body.ops, List.append_nil, List.nodup_cons] at distinct
    exact distinct.2
  · obtain ⟨exit, isExit, rfl⟩ := Option.map_eq_some_iff.mp returns
    obtain ⟨after, isAfter, refines⟩ := Regions.eval_alterAt visit.op 2 0 visit.regions nodup
      (fun part among => means.formed.knows part (inTree part among))
      (fun part around => alters.follows grown
        (means.formed.knows part (inTree part (Regions.mem_of_around nodup around)))
        fun value origin =>
          means.formed.not_owned_of_around member other notRoot isPlace isOp around origin)
      (fun other among => followsAt other (within other among))
      (start.outside op).holds_empty (start.admits_empty _) isExit
    rw [isAfter, Option.map_some, refines.atoms]

/-- A change that is followed at the place of its operation keeps what a function returns. -/
theorem Program.Means.alter_at {allowed : OpKind → Prop}
    (means : start.Means function arguments results) (loose : Prop) {visit : Visit}
    (visited : visit ∈ start.visits) (notModule : start.kind visit.op ≠ .module)
    (notFunction : start.kind visit.op ≠ .func .func) (formed : now.WellFormed)
    (grown : start.Grows allowed now)
    (alters : start.Alters (start.Owned visit.op) visit.op change now)
    (strict : loose → ∀ other ∈ start.visits, visit.op ∈ other.regions.ops →
      start.kind other.op ≠ .torch .primLoop)
    (follows : ∀ environment image exit,
      (∀ value atom, environment value = some atom → image value = some atom) →
      start.Admits (Body.cons visit.op visit.regions visit.rest).parts environment →
      (Body.cons visit.op visit.regions visit.rest).eval start environment = some exit →
      ∃ after, (change visit.regions visit.rest).eval now image = some after ∧
        exit.Refines loose after) :
    now.Means function arguments results := by
  refine means.alter loose formed grown alters ?_ ?_ (Program.mem_ops_of_visits visited)
    fun other among => ⟨fun isOp environment image exit holds admits ended => ?_,
      fun isLoose => strict isLoose other among⟩
  · rintro rfl
    exact notFunction means.isFunction
  · intro isRoot
    exact notModule (isRoot ▸ means.isModule)
  · have same : other = visit := by
      have first := means.formed.visit?_eq among
      rw [isOp, means.formed.visit?_eq visited, Option.some.injEq] at first
      exact first.symm
    subst same
    exact follows environment image exit (fun value atom => holds.carries value value atom rfl)
      admits ended

end Means

end TensorIR
