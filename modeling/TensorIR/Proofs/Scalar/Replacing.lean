import TensorIR.Proofs.Scalar.Steps

/-!
# Values in place of results

When an operation is taken away, other values are used in place of its results. What follows it in its
block then does the same, provided that the other values are known by then and are what the results
were.

## Main definitions

* `swapAll` — values in place of others, one after the other
* `Program.replaceAll` — the program with these values
* `Program.Introduces` — a part of a tree introduces a value

## Main results

* `Program.operands_replaceAll` — what operations use afterwards
* `Body.eval_mapped` — operations that use corresponding values
* `known_swapAll` — the values in place of results are what the results were
-/

namespace TensorIR

variable {start now program after : Program} {op : OpId} {owned : ValueId → Prop}
  {environment image : Environment}

/-! ### Replacing several values -/

/-- Values in place of others, one after the other. -/
def swapAll (pairs : List (ValueId × ValueId)) (value : ValueId) : ValueId :=
  pairs.foldl (fun value pair => ValueId.swap pair.1 pair.2 value) value

theorem swapAll_of_notMem {pairs : List (ValueId × ValueId)} {value : ValueId}
    (absent : ∀ pair ∈ pairs, pair.1 ≠ value) : swapAll pairs value = value := by
  induction pairs with
  | nil => rfl
  | cons pair pairs ih =>
    have first : ValueId.swap pair.1 pair.2 value = value :=
      if_neg (Ne.symm (absent pair List.mem_cons_self))
    rw [swapAll, List.foldl_cons, first]
    exact ih fun other member => absent other (List.mem_cons_of_mem _ member)

/-- Each result becomes the value in its place. -/
theorem swapAll_getElem {results values : List ValueId} (nodup : results.Nodup)
    (apart : ∀ value ∈ values, value ∉ results) {index : Nat} {result value : ValueId}
    (isResult : results[index]? = some result) (isValue : values[index]? = some value) :
    swapAll (results.zip values) result = value := by
  induction results generalizing values index with
  | nil => cases isResult
  | cons first results ih =>
    cases values with
    | nil => cases isValue
    | cons target values =>
      obtain ⟨absent, nodup⟩ := List.nodup_cons.mp nodup
      rw [List.zip_cons_cons, swapAll, List.foldl_cons]
      cases index with
      | zero =>
        cases isResult
        cases isValue
        rw [ValueId.swap, if_pos rfl]
        refine swapAll_of_notMem fun pair member => ?_
        rintro rfl
        exact apart _ List.mem_cons_self (List.mem_cons_of_mem _ (List.of_mem_zip member).1)
      | succ index =>
        rw [List.getElem?_cons_succ] at isResult isValue
        have other : ValueId.swap first target result = result := by
          refine if_neg ?_
          rintro rfl
          exact absent (List.mem_of_getElem? isResult)
        rw [other]
        exact ih nodup (fun value member inside => apart value (List.mem_cons_of_mem _ member)
          (List.mem_cons_of_mem _ inside)) isResult isValue

/-- A value that is neither replaced nor put in place of another one comes from itself only. -/
theorem swapAll_eq_iff {pairs : List (ValueId × ValueId)} {value : ValueId}
    (apart : ∀ pair ∈ pairs, pair.1 ≠ value ∧ pair.2 ≠ value) (old : ValueId) :
    swapAll pairs old = value ↔ old = value := by
  induction pairs generalizing old with
  | nil => exact Iff.rfl
  | cons pair pairs ih =>
    obtain ⟨first, second⟩ := apart pair List.mem_cons_self
    rw [swapAll, List.foldl_cons]
    refine (ih (fun other member => apart other (List.mem_cons_of_mem _ member)) _).trans ?_
    unfold ValueId.swap
    split
    case isTrue here =>
      subst here
      exact ⟨fun same => absurd same second, fun same => absurd same first⟩
    case isFalse => exact Iff.rfl

/-- The program with values in place of others. -/
def Program.replaceAll (program : Program) (pairs : List (ValueId × ValueId)) : Program :=
  pairs.foldl (fun changed pair => changed.replaceUses pair.1 pair.2) program

theorem Program.scopeOf_replaceUses (program : Program) (old new value : ValueId) :
    (program.replaceUses old new).scopeOf value = program.scopeOf value := by
  unfold Program.replaceUses
  generalize program.usesOf old = uses
  induction uses generalizing program with
  | nil => rfl
  | cons use uses ih =>
    rw [List.foldl_cons, ih]
    rfl

/-- What an operation uses after values have been put in place of others that are all seen by the same
operations. -/
theorem Program.operands_replaceAll {pairs : List (ValueId × ValueId)} {scope : List OpId}
    (program : Program) (seen : ∀ pair ∈ pairs, program.scopeOf pair.1 = scope) (other : OpId) :
    (program.replaceAll pairs).operands other =
      if other ∈ scope then (program.operands other).map (swapAll pairs)
      else program.operands other := by
  induction pairs generalizing program with
  | nil => simp [Program.replaceAll, show swapAll [] = id from rfl]
  | cons pair pairs ih =>
    have later := ih (program.replaceUses pair.1 pair.2) fun next member => by
      rw [Program.scopeOf_replaceUses]
      exact seen next (List.mem_cons_of_mem _ member)
    rw [Program.replaceAll, List.foldl_cons]
    change ((program.replaceUses pair.1 pair.2).replaceAll pairs).operands other = _
    rw [later, Program.operands_replaceUses, seen pair List.mem_cons_self]
    split
    · rw [List.map_map]
      rfl
    · rfl

theorem alters_replaceAll {pairs : List (ValueId × ValueId)}
    (among : ∀ pair ∈ pairs, owned pair.1) :
    program.Alters owned op (.cons op) (program.replaceAll pairs) := by
  induction pairs generalizing program with
  | nil => exact .refl program owned op
  | cons pair pairs ih =>
    have first : program.Alters owned op (.cons op) (program.replaceUses pair.1 pair.2) :=
      alters_replaceUses (among pair List.mem_cons_self) pair.2
    have both := first.trans (ih fun next member => among next (List.mem_cons_of_mem _ member))
    simp only [Body.alterAt, if_true] at both
    exact both

theorem grows_replaceAll {allowed : OpKind → Prop} (program : Program)
    (pairs : List (ValueId × ValueId)) : program.Grows allowed (program.replaceAll pairs) := by
  induction pairs generalizing program with
  | nil => exact .refl program
  | cons pair pairs ih => exact (grows_replaceUses program pair.1 pair.2).trans (ih _)

theorem values_replaceAll (program : Program) (pairs : List (ValueId × ValueId)) :
    (program.replaceAll pairs).values = program.values := by
  induction pairs generalizing program with
  | nil => rfl
  | cons pair pairs ih => exact (ih _).trans (tables_setUses (program.usesOf pair.1) pair.2 program).2.1

/-! ### What follows an operation -/

/-- A part of a tree introduces a value. -/
def Program.Introduces (program : Program) (part : Part) (value : ValueId) : Prop :=
  value.index < program.values.size ∧ (program.value value).origin = part.origin

theorem Program.Admits.not_introduces {parts : List Part} {value : ValueId} {atom : Atom}
    (admits : program.Admits parts environment) (known : environment value = some atom) {part : Part}
    (member : part ∈ parts) : ¬program.Introduces part value :=
  fun introduces => admits.elsewhere value atom known part member introduces.2

/-- A part of a tree does the same if its operands are the same. -/
theorem Program.Grows.follows_same {allowed : OpKind → Prop} (grown : start.Grows allowed now)
    {part : Part} (known : start.Knows part)
    (operands : ∀ id, part = .op id → now.operands id = start.operands id)
    (types : ∀ value, start.Introduces part value → now.typeOf? value = start.typeOf? value) :
    start.Follows now .same part := by
  cases part with
  | op id =>
    obtain ⟨below, owns⟩ := known
    refine ⟨grown.kind_eq id below, fun notFunction => ⟨grown.attributes_eq id below,
      grown.results_eq id below notFunction, ?_, fun value isResult => ⟨Correspondence.fixes_same value,
        types value ⟨(owns notFunction).lt value isResult, (owns notFunction).origin_eq value isResult⟩⟩⟩⟩
    rw [operands id rfl]
    exact List.forall₂_same.mpr fun _ _ => .inl rfl
  | block id =>
    obtain ⟨below, owns⟩ := known
    refine ⟨grown.arguments_eq id below, fun value isArgument =>
      ⟨Correspondence.fixes_same value, fun atom fits => ?_⟩⟩
    rwa [types value ⟨owns.lt value isArgument, owns.origin_eq value isArgument⟩]

/-- Operations that use corresponding values do the same. -/
theorem Body.eval_mapped {allowed : OpKind → Prop} {body : Body} {exit : Exit}
    (pairs : List (ValueId × ValueId)) (op : OpId) (live : ValueId → Prop) (nodup : body.parts.Nodup)
    (absent : op ∉ body.ops) (knows : ∀ part ∈ body.parts, start.Knows part)
    (grown : start.Grows allowed now)
    (mapped : ∀ other ∈ body.ops, now.operands other = (start.operands other).map (swapAll pairs) ∧
      ∀ operand ∈ start.operands other, live operand)
    (types : ∀ part ∈ body.parts, ∀ value, start.Introduces part value →
      now.typeOf? value = start.typeOf? value)
    (apart : ∀ part ∈ body.parts, ∀ pair ∈ pairs,
      ¬start.Introduces part pair.1 ∧ ¬start.Introduces part pair.2)
    (related : ∀ value atom, live value → environment value = some atom →
      image (swapAll pairs value) = some atom)
    (admits : start.Admits body.parts environment)
    (ended : body.eval start environment = some exit) : body.eval now image = some exit := by
  -- A live value stands for what replaces it. Nothing that is introduced here is replaced.
  let correspondence : Correspondence :=
    ⟨fun old new => live old ∧ new = swapAll pairs old, fun _ => False⟩
  have fixed (part : Part) (member : part ∈ body.parts) (value : ValueId)
      (introduces : start.Introduces part value) : correspondence.Fixes value := by
    refine ⟨nofun, ?_⟩
    rintro old new ⟨-, rfl⟩
    refine (swapAll_eq_iff (fun pair among => ?_) old).symm
    obtain ⟨first, second⟩ := apart part member pair among
    exact ⟨fun same => first (same ▸ introduces), fun same => second (same ▸ introduces)⟩
  have holds : correspondence.Holds environment image := by
    refine ⟨?_, nofun⟩
    rintro old new atom ⟨alive, rfl⟩ known
    exact related old atom alive known
  refine Body.eval_follows nodup knows (fun part member => ?_) absent holds admits ended
  cases part with
  | op id =>
    obtain ⟨below, owns⟩ := knows _ member
    refine ⟨grown.kind_eq id below, fun notFunction => ⟨grown.attributes_eq id below,
      grown.results_eq id below notFunction, ?_, fun value isResult => ?_⟩⟩
    · obtain ⟨isMapped, alive⟩ := mapped id (Body.op_mem_parts.mp member)
      rw [isMapped, List.forall₂_map_right_iff]
      exact List.forall₂_same.mpr fun operand isOperand => .inl ⟨alive operand isOperand, rfl⟩
    · have introduces : start.Introduces (.op id) value :=
        ⟨(owns notFunction).lt value isResult, (owns notFunction).origin_eq value isResult⟩
      exact ⟨fixed _ member value introduces, types _ member value introduces⟩
  | block id =>
    obtain ⟨below, owns⟩ := knows _ member
    refine ⟨grown.arguments_eq id below, fun value isArgument => ?_⟩
    have introduces : start.Introduces (.block id) value :=
      ⟨owns.lt value isArgument, owns.origin_eq value isArgument⟩
    refine ⟨fixed _ member value introduces, fun atom fits => ?_⟩
    rwa [types _ member value introduces]

/-- Values that are assigned are known, one for each, and others stay as they are. -/
theorem Program.assign?_getElem {values : List ValueId} {atoms : List Atom} {after : Environment}
    (nodup : values.Nodup)
    (assigned : program.assign? environment values atoms = some after) :
    (∀ (index : Nat) value, values[index]? = some value → after value = atoms[index]?) ∧
      ∀ value ∉ values, after value = environment value := by
  induction values generalizing environment atoms with
  | nil =>
    cases atoms with
    | nil =>
      cases assigned
      exact ⟨nofun, fun _ _ => rfl⟩
    | cons => cases assigned
  | cons first values ih =>
    cases atoms with
    | nil => cases assigned
    | cons atom atoms =>
      obtain ⟨absent, nodup⟩ := List.nodup_cons.mp nodup
      rw [Program.assign?] at assigned
      split at assigned
      case isFalse => cases assigned
      case isTrue =>
        obtain ⟨inside, outside⟩ := ih nodup assigned
        constructor
        · intro index value found
          cases index with
          | zero =>
            cases found
            rw [outside _ absent, Environment.set_self]
            rfl
          | succ index => exact inside index value found
        · intro value other
          rw [List.mem_cons, not_or] at other
          rw [outside value other.2, Environment.set_other _ _ other.1]

/-- The values in place of the results of an operation are what the results were. -/
theorem known_swapAll {results values : List ValueId} {atoms : List Atom} {known : Environment}
    (nodup : results.Nodup)
    (assigned : program.assign? environment results atoms = some known)
    (length_eq : results.length = values.length) (apart : ∀ value ∈ values, value ∉ results)
    (carries : ∀ value atom, environment value = some atom → image value = some atom)
    (targets : ∀ (index : Nat) value, values[index]? = some value → image value = atoms[index]?)
    (value : ValueId) (atom : Atom) (found : known value = some atom) :
    image (swapAll (results.zip values) value) = some atom := by
  obtain ⟨inside, outside⟩ := Program.assign?_getElem nodup assigned
  by_cases member : value ∈ results
  case pos =>
    obtain ⟨index, isResult⟩ := List.getElem?_of_mem member
    have below := (List.getElem?_eq_some_iff.mp isResult).1
    have isTarget : values[index]? = some values[index] := List.getElem?_eq_getElem (length_eq ▸ below)
    rw [swapAll_getElem nodup apart isResult isTarget, targets index _ isTarget,
      ← inside index value isResult, found]
  case neg =>
    have same : swapAll (results.zip values) value = value := by
      refine swapAll_of_notMem ?_
      rintro pair among rfl
      exact member (List.of_mem_zip among).1
    rw [same]
    exact carries value atom ((outside value member).symm.trans found)

end TensorIR
