import TensorIR.Proofs.Evolution
import TensorIR.Proofs.Scalar.Meaning

/-!
# What is known agrees with what is computed

Folding tells the value of a result without running the program. If a result gets a value in a run,
it is the value that folding tells. This needs that a value is known only after the operation that
introduces it, so what is known is kept apart from what the operations to come introduce.

## Main definitions

* `Program.Admits` — an environment that may stand before a part of the tree

## Main results

* `Body.eval_cons_iff`, `Blocks.eval_cons_iff` — the ways to come to the end of a block
* `Program.outputs?_branch_iff`, `Program.outputs?_loop_iff` — what control flow computes
* `Program.Admits.outputs` — what an operation computes is what folding tells
* `Program.Admits.step`, `Program.Admits.enter` — behind an operation, and inside a block
-/

namespace TensorIR

variable {program : Program} {environment : Environment}

/-! ### Evaluation step by step -/

theorem Body.eval_cons_iff {op : OpId} {regions : Regions} {rest : Body} {exit : Exit} :
    (Body.cons op regions rest).eval program environment = some exit ↔
      ∃ inputs, (program.operands op).mapM environment = some inputs ∧
        ((program.kind op).isExit = true ∧ rest = .nil ∧ exit? (program.kind op) inputs = some exit ∨
          (program.kind op).isExit = false ∧ ∃ outputs after,
            program.outputs? op inputs (fun index arguments =>
              regions.eval program index arguments environment) = some outputs ∧
            program.assign? environment (program.results op) outputs = some after ∧
            rest.eval program after = some exit) := by
  rw [Body.eval, Option.bind_eq_bind, Option.bind_eq_some_iff]
  refine exists_congr fun inputs => and_congr_right fun _ => ?_
  cases (program.kind op).isExit with
  | true => cases rest <;> simp [Body.isEmpty]
  | false => simp [Option.bind_eq_some_iff]

/-- An operation that does not end its block computes its results, and the block goes on. -/
theorem Body.eval_cons_of_not_exit {op : OpId} {regions : Regions} {rest : Body} {exit : Exit}
    (notExit : (program.kind op).isExit = false)
    (ended : (Body.cons op regions rest).eval program environment = some exit) :
    ∃ inputs outputs after, (program.operands op).mapM environment = some inputs ∧
      program.outputs? op inputs (fun index arguments =>
        regions.eval program index arguments environment) = some outputs ∧
      program.assign? environment (program.results op) outputs = some after ∧
      rest.eval program after = some exit := by
  obtain ⟨inputs, isInputs, ⟨isExit, -⟩ | ⟨-, outputs, after, goesOn⟩⟩ := Body.eval_cons_iff.mp ended
  · cases notExit.symm.trans isExit
  · exact ⟨inputs, outputs, after, isInputs, goesOn⟩

theorem Blocks.eval_cons_iff {arguments : List Atom} {block : BlockId} {body : Body} {rest : Blocks}
    {exit : Exit} :
    (Blocks.cons block body rest).eval program arguments environment = some exit ↔
      ∃ after, program.assign? environment (program.header block).arguments arguments = some after ∧
        body.eval program after = some exit := by
  simp [Blocks.eval, Option.bind_eq_some_iff]

theorem Regions.eval_cons_zero {arguments : List Atom} {blocks : Blocks} {rest : Regions} :
    (Regions.cons blocks rest).eval program 0 arguments environment =
      blocks.eval program arguments environment := rfl

namespace Environment

theorem set_self (environment : Environment) (value : ValueId) (atom : Atom) :
    environment.set value atom value = some atom := if_pos rfl

theorem set_other (environment : Environment) {value other : ValueId} (atom : Atom)
    (distinct : other ≠ value) : environment.set value atom other = environment other :=
  if_neg distinct

end Environment

/-- Assigning gives each value its atom, and no other value changes. -/
theorem Program.of_assign? {values : List ValueId} {atoms : List Atom} {after : Environment}
    (assigned : program.assign? environment values atoms = some after) :
    values.length = atoms.length ∧ ∀ value, after value = environment value ∨
      ∃ atom, (value, atom) ∈ values.zip atoms ∧ after value = some atom ∧
        (program.typeOf? value).any atom.fits = true := by
  induction values generalizing environment atoms with
  | nil =>
    cases atoms with
    | nil =>
      obtain rfl : environment = after := by simpa [Program.assign?] using assigned
      exact ⟨rfl, fun value => .inl rfl⟩
    | cons => simp [Program.assign?] at assigned
  | cons first values ih =>
    cases atoms with
    | nil => simp [Program.assign?] at assigned
    | cons atom atoms =>
      rw [Program.assign?] at assigned
      split at assigned
      case isFalse => cases assigned
      case isTrue fits =>
        obtain ⟨length_eq, each⟩ := ih assigned
        refine ⟨by simp [length_eq], fun value => ?_⟩
        rcases each value with same | ⟨later, member, known, laterFits⟩
        · rw [same]
          by_cases here : value = first
          · subst here
            exact .inr ⟨atom, by simp, Environment.set_self .., fits⟩
          · exact .inl (Environment.set_other _ _ here)
        · exact .inr ⟨later, by simp [member], known, laterFits⟩

/-! ### Control flow -/

section Control

variable {op : OpId} {inputs outputs : List Atom} {enter : Nat → List Atom → Option Exit}

/-- An operation with control flow computes no literal. -/
theorem Program.literal?_of_control
    (isControl : program.kind op = .torch .primIf ∨ program.kind op = .torch .primLoop ∨
      ∃ kind, program.kind op = .scf kind) : program.literal? op inputs = none := by
  unfold Program.literal?
  split
  case h_8 => rfl
  all_goals
    rename_i isKind
    rcases isControl with same | same | ⟨_, same⟩ <;> cases isKind.symm.trans same <;> rfl

/-- A branch takes the side of its condition. -/
theorem Program.outputs?_branch_iff
    (isBranch : program.kind op = .torch .primIf ∨ program.kind op = .scf .ifElse) :
    program.outputs? op inputs enter = some outputs ↔ ∃ condition, inputs = [.bool condition] ∧
      (enter (if condition then 0 else 1) []).bind Exit.passed? = some outputs := by
  constructor
  · intro computed
    unfold Program.outputs? at computed
    split at computed
    case h_1 condition _ => exact ⟨condition, rfl, computed⟩
    case h_2 condition _ => exact ⟨condition, rfl, computed⟩
    case h_3 isLoop => rcases isBranch with same | same <;> cases same.symm.trans isLoop
    case h_4 isLoop => rcases isBranch with same | same <;> cases same.symm.trans isLoop
    case h_5 =>
      rw [Program.literal?_of_control (isBranch.imp_right fun same => .inr ⟨_, same⟩)] at computed
      simp at computed
  · rintro ⟨condition, rfl, entered⟩
    rcases isBranch with same | same <;> simpa only [Program.outputs?, same] using entered

/-- A loop before lowering counts its rounds and may be stopped by each of them. -/
theorem Program.outputs?_loop_iff (isLoop : program.kind op = .torch .primLoop) :
    program.outputs? op inputs enter = some outputs ↔
      ∃ count start carried, inputs = .int count :: .bool start :: carried ∧
        (if start then
          iterate? (fun position => program.round? op enter (.int position)) (·.flag ≠ some false) 1
            count.toNat 0 carried
        else some carried) = some outputs := by
  constructor
  · intro computed
    unfold Program.outputs? at computed
    split at computed
    case h_3 count start carried _ => exact ⟨count, start, carried, rfl, computed⟩
    case h_5 =>
      rw [Program.literal?_of_control (.inr (.inl isLoop))] at computed
      simp at computed
    case h_1 same => cases isLoop.symm.trans same
    case h_2 same => cases isLoop.symm.trans same
    case h_4 same => cases isLoop.symm.trans same
  · rintro ⟨count, start, carried, rfl, iterated⟩
    simpa only [Program.outputs?, isLoop] using iterated

/-- A loop after lowering goes on up to its last position. -/
theorem Program.outputs?_for_iff (isFor : program.kind op = .scf .forLoop) :
    program.outputs? op inputs enter = some outputs ↔
      ∃ first last width carried,
        inputs = .index first :: .index last :: .index width :: carried ∧ 0 < width ∧
        iterate? (fun position => program.round? op enter (.index position)) (fun _ => true) width
          (Run.rounds first last width) first carried = some outputs := by
  constructor
  · intro computed
    unfold Program.outputs? at computed
    split at computed
    case h_4 first last width carried _ =>
      rw [Option.ite_none_right_eq_some] at computed
      exact ⟨first, last, width, carried, rfl, computed⟩
    case h_5 =>
      rw [Program.literal?_of_control (.inr (.inr ⟨_, isFor⟩))] at computed
      simp at computed
    case h_1 same => cases isFor.symm.trans same
    case h_2 same => cases isFor.symm.trans same
    case h_3 same => cases isFor.symm.trans same
  · rintro ⟨first, last, width, carried, rfl, positive, iterated⟩
    simpa only [Program.outputs?, isFor, if_pos positive] using iterated

end Control

/-! ### Folding -/

/-- The value of a type that a literal stands for is the integer that the literal stands for. -/
theorem Literal.int?_of_atom? {literal : Literal} {type : Ty} {atom : Atom}
    (isAtom : literal.atom? type = some atom) : literal.int? = some atom.toInt := by
  unfold Literal.atom? at isAtom
  split at isAtom <;> cases isAtom <;> rfl

theorem Literal.fits_of_atom? {literal : Literal} {type : Ty} {atom : Atom}
    (isAtom : literal.atom? type = some atom) : atom.fits type = true := by
  unfold Literal.atom? at isAtom
  split at isAtom <;> cases isAtom <;> rfl

/-- What folding tells about an operation, given what it tells about the operands. -/
def Program.foldFrom (program : Program) (op : OpId) (known : Nat → Option Literal) :
    Option Literal :=
  match program.kind op with
  | .arith .constant => program.constantValue? op
  | .arith .indexCast => ((known 0).bind Literal.integer?).map .int
  | .arith kind => do
    let compute ← kind.onInts?
    let a ← (known 0).bind Literal.integer?
    let b ← (known 1).bind Literal.integer?
    (compute a b).map .int
  | .torch .derefine => known 0
  | .torch .sizeInt => do
    let tensor ← (program.operands op)[0]?
    let dim ← (known 1).bind Literal.integer?
    (program.knownSize? tensor dim).map .int
  | .torch kind =>
    if kind.isConst then program.torchConstant? op kind
    else do
      let compute ← kind.onInts?
      let a ← (known 0).bind Literal.integer?
      let b ← (known 1).bind Literal.integer?
      return compute a b
  | _ => none

/-- What folding tells about an operand. -/
def Program.foldOperand (program : Program) (fuel : Nat) (op : OpId) (index : Nat) :
    Option Literal :=
  ((program.operands op)[index]?).bind fun value =>
    (program.definingOp? value).bind (program.foldWithin fuel)

theorem Program.foldWithin_succ_eq (program : Program) (fuel : Nat) (op : OpId) :
    program.foldWithin (fuel + 1) op = program.foldFrom op (program.foldOperand fuel op) := rfl

/-- The more is known about the operands, the more is known about the result. -/
theorem Program.foldFrom_mono {op : OpId} {known more : Nat → Option Literal} {literal : Literal}
    (widens : ∀ index, known index = none ∨ more index = known index)
    (folded : program.foldFrom op known = some literal) :
    program.foldFrom op more = some literal := by
  unfold Program.foldFrom at folded ⊢
  rcases widens 0 with unknown | same <;> rcases widens 1 with unknown' | same'
  all_goals split at folded <;> simp_all [Option.bind_eq_some_iff]

/-- Following more operations back does not change what is known. -/
theorem Program.foldWithin_succ {fuel : Nat} {op : OpId} {literal : Literal}
    (folded : program.foldWithin fuel op = some literal) :
    program.foldWithin (fuel + 1) op = some literal := by
  induction fuel generalizing op literal with
  | zero => cases folded
  | succ fuel ih =>
    rw [Program.foldWithin_succ_eq] at folded ⊢
    refine Program.foldFrom_mono (fun index => ?_) folded
    unfold Program.foldOperand
    cases (program.operands op)[index]? with
    | none => exact .inl rfl
    | some value =>
      simp only [Option.bind_some]
      cases program.definingOp? value with
      | none => exact .inl rfl
      | some producer =>
        simp only [Option.bind_some]
        cases known : program.foldWithin fuel producer with
        | none => exact .inl rfl
        | some literal => exact .inr (ih known)

section Folding

variable {op : OpId} {known : Nat → Option Literal} {inputs : List Atom} {folded computed : Literal}
  (agrees : ∀ index literal atom, known index = some literal → inputs[index]? = some atom →
    literal.int? = some atom.toInt)
include agrees

theorem toInt_of_integer? {index : Nat} {value : Int} {atom : Atom}
    (isKnown : (known index).bind Literal.integer? = some value) (isInput : inputs[index]? = some atom) :
    atom.toInt = value := by
  obtain ⟨literal, found, isInt⟩ := Option.bind_eq_some_iff.mp isKnown
  have same := agrees index literal atom found isInput
  cases literal <;> cases isInt
  exact (Option.some.inj same).symm

/-- Two known integers are the inputs, so folding computes with what the operation computes with. -/
theorem eq_of_integers {compute : Int → Int → Option Literal} {a b : Atom} (areInputs : inputs = [a, b])
    (folds : ((known 0).bind Literal.integer?).bind (fun x =>
      ((known 1).bind Literal.integer?).bind fun y => compute x y) = some folded)
    (computes : compute a.toInt b.toInt = some computed) : folded = computed := by
  subst areInputs
  obtain ⟨x, isFirst, folds⟩ := Option.bind_eq_some_iff.mp folds
  obtain ⟨y, isSecond, folds⟩ := Option.bind_eq_some_iff.mp folds
  rw [← toInt_of_integer? agrees isFirst rfl, ← toInt_of_integer? agrees isSecond rfl] at folds
  exact Option.some.inj (folds.symm.trans computes)

/-- Folding tells what is computed, if what it tells about the operands is what they are. -/
theorem Program.foldFrom_eq (isFolded : program.foldFrom op known = some folded)
    (isComputed : program.literal? op inputs = some computed) : folded = computed := by
  unfold Program.literal? at isComputed
  split at isComputed
  case h_1 isConstant =>
    simp only [Program.foldFrom, isConstant] at isFolded
    exact Option.some.inj (isFolded.symm.trans isComputed)
  case h_2 value isCast | h_3 value isCast =>
    simp only [Program.foldFrom, isCast, Option.map_eq_some_iff] at isFolded
    obtain ⟨other, isKnown, rfl⟩ := isFolded
    cases isComputed
    rw [← toInt_of_integer? agrees isKnown rfl, Atom.toInt]
  -- Comparisons of lowered integers are never folded.
  case h_4 a b isCompare =>
    simp [Program.foldFrom, isCompare, ArithKind.onInts?] at isFolded
  case h_5 kind a b _ isArith =>
    simp only [Option.bind_eq_bind, Option.bind_eq_some_iff] at isComputed
    obtain ⟨compute, isCompute, computes⟩ := isComputed
    have folds : ((known 0).bind Literal.integer?).bind (fun x =>
        ((known 1).bind Literal.integer?).bind fun y => (compute x y).map .int) = some folded := by
      rw [Program.foldFrom, isArith] at isFolded
      cases kind <;> simp only [ArithKind.onInts?, Option.some.injEq, reduceCtorEq] at isCompute <;>
        subst isCompute <;> exact isFolded
    exact eq_of_integers agrees rfl folds computes
  case h_6 kind isTorch =>
    have isConst : kind.isConst = true := by
      cases kind <;> first | rfl | cases isComputed
    have folds : program.torchConstant? op kind = some folded := by
      cases kind <;> simp_all [Program.foldFrom, TorchKind.isConst]
    exact Option.some.inj (folds.symm.trans isComputed)
  case h_7 kind a b isTorch =>
    simp only [Option.bind_eq_bind, Option.bind_eq_some_iff] at isComputed
    obtain ⟨compute, isCompute, computes⟩ := isComputed
    have folds : ((known 0).bind Literal.integer?).bind (fun x =>
        ((known 1).bind Literal.integer?).bind fun y => some (compute x y)) = some folded := by
      rw [Program.foldFrom, isTorch] at isFolded
      cases kind <;> simp only [TorchKind.onInts?, Option.some.injEq, reduceCtorEq] at isCompute <;>
        subst isCompute <;> exact isFolded
    exact eq_of_integers agrees rfl folds computes
  case h_8 => cases isComputed

end Folding

/-! ### Environments in a run -/

/-- Where the values come from that a part of a tree introduces. -/
def Part.origin : Part → Origin
  | op id => .result id
  | block id => .argument (some id)

/-- What may be known before a part of a tree is run: values of their types, as folding tells them,
and none that is introduced there. -/
structure Program.Admits (program : Program) (parts : List Part) (environment : Environment) :
    Prop where
  lt : ∀ value atom, environment value = some atom → value.index < program.values.size
  fits : ∀ value atom, environment value = some atom →
    (program.typeOf? value).any atom.fits = true
  known : ∀ value atom literal, environment value = some atom →
    program.foldValue? value = some literal → literal.int? = some atom.toInt
  elsewhere : ∀ value atom, environment value = some atom →
    ∀ part ∈ parts, (program.value value).origin ≠ part.origin

theorem Program.admits_empty (program : Program) (parts : List Part) :
    program.Admits parts .empty where
  lt _ _ found := by cases found
  fits _ _ found := by cases found
  known _ _ _ found := by cases found
  elsewhere _ _ found := by cases found

/-- The operands at a position have the value at that position. -/
theorem getElem?_of_mapM {values : List ValueId} {atoms : List Atom}
    (found : values.mapM environment = some atoms) (index : Nat) :
    atoms[index]? = (values[index]?).bind environment := by
  induction values generalizing atoms index with
  | nil =>
    cases found
    simp
  | cons value values ih =>
    simp only [List.mapM_cons, Option.bind_eq_bind, Option.bind_eq_some_iff, Option.pure_def,
      Option.some.injEq] at found
    obtain ⟨atom, isAtom, later, isLater, rfl⟩ := found
    cases index with
    | zero => simp [isAtom]
    | succ index => simpa using ih isLater index

theorem length_of_mapM {values : List ValueId} {atoms : List Atom}
    (found : values.mapM environment = some atoms) : atoms.length = values.length := by
  induction values generalizing atoms with
  | nil =>
    cases found
    rfl
  | cons value values ih =>
    simp only [List.mapM_cons, Option.bind_eq_bind, Option.bind_eq_some_iff, Option.pure_def,
      Option.some.injEq] at found
    obtain ⟨atom, -, later, isLater, rfl⟩ := found
    rw [List.length_cons, List.length_cons, ih isLater]

/-- Values that are known together are known one by one. -/
theorem known_of_mapM {values : List ValueId} {atoms : List Atom}
    (found : values.mapM environment = some atoms) {index : Nat} {value : ValueId}
    (isValue : values[index]? = some value) :
    ∃ atom, environment value = some atom ∧ atoms[index]? = some atom := by
  have same := getElem?_of_mapM found index
  rw [isValue, Option.bind_some] at same
  have below : index < atoms.length := by
    rw [length_of_mapM found]
    exact (List.getElem?_eq_some_iff.mp isValue).1
  rw [List.getElem?_eq_getElem below] at same
  exact ⟨atoms[index], same.symm, List.getElem?_eq_getElem below⟩

/-- A function inside a function computes nothing. -/
theorem Program.outputs?_of_function {op : OpId} {inputs : List Atom}
    {enter : Nat → List Atom → Option Exit} (isFunction : program.kind op = .func .func) :
    program.outputs? op inputs enter = none := by
  unfold Program.outputs?
  split
  case h_5 => simp [Program.literal?, isFunction]
  all_goals simp_all

namespace Program.Admits

variable {parts fewer : List Part}

theorem mono (admits : program.Admits parts environment) (subset : ∀ part ∈ fewer, part ∈ parts) :
    program.Admits fewer environment where
  lt := admits.lt
  fits := admits.fits
  known := admits.known
  elsewhere value atom found part member := admits.elsewhere value atom found part (subset part member)

/-- What an operation computes is the literal that folding tells about it. -/
theorem outputs_eq (admits : program.Admits parts environment) {op : OpId}
    {inputs outputs : List Atom} {enter : Nat → List Atom → Option Exit} {literal : Literal}
    (isInputs : (program.operands op).mapM environment = some inputs)
    (isOutputs : program.outputs? op inputs enter = some outputs)
    (folded : program.fold? op = some literal) :
    ∃ type atom, program.resultType? op 0 = some type ∧ literal.atom? type = some atom ∧
      outputs = [atom] := by
  rw [Program.fold?, Program.foldWithin_succ_eq] at folded
  unfold Program.outputs? at isOutputs
  split at isOutputs
  case h_5 inputs _ _ _ _ _ _ =>
    simp only [Option.bind_eq_bind, Option.bind_eq_some_iff, Option.ite_none_right_eq_some,
      Option.some.injEq] at isOutputs
    obtain ⟨type, isType, computed, isComputed, result, isResult, -, rfl⟩ := isOutputs
    have agrees (index : Nat) (inner : Literal) (input : Atom)
        (isKnown : program.foldOperand program.operations.size op index = some inner)
        (isInput : inputs[index]? = some input) : inner.int? = some input.toInt := by
      rw [getElem?_of_mapM isInputs, Option.bind_eq_some_iff] at isInput
      obtain ⟨value, isOperand, found⟩ := isInput
      rw [Program.foldOperand, isOperand, Option.bind_some] at isKnown
      refine admits.known value input inner found ?_
      obtain ⟨producer, defined, followed⟩ := Option.bind_eq_some_iff.mp isKnown
      rw [Program.foldValue?, defined, Option.bind_some, Program.fold?]
      exact Program.foldWithin_succ followed
    refine ⟨type, result, isType, ?_, rfl⟩
    rwa [Program.foldFrom_eq agrees folded isComputed]
  all_goals
    rename_i isKind
    rw [Program.foldFrom, isKind] at folded
    cases folded

/-- What an operation computes is what folding tells about it. -/
theorem outputs (admits : program.Admits parts environment) {op : OpId} {inputs outputs : List Atom}
    {enter : Nat → List Atom → Option Exit} {literal : Literal} {atom : Atom}
    (isInputs : (program.operands op).mapM environment = some inputs)
    (isOutputs : program.outputs? op inputs enter = some outputs)
    (folded : program.fold? op = some literal) (member : atom ∈ outputs) :
    literal.int? = some atom.toInt := by
  obtain ⟨type, result, -, isAtom, rfl⟩ := admits.outputs_eq isInputs isOutputs folded
  rw [List.mem_singleton.mp member]
  exact Literal.int?_of_atom? isAtom

/-- What is known after values that belong together have been introduced. -/
theorem assign (admits : program.Admits parts environment) {origin : Origin} {values : List ValueId}
    {atoms : List Atom} {after : Environment} (owns : program.Owns origin values)
    (assigned : program.assign? environment values atoms = some after)
    (agrees : ∀ value ∈ values, ∀ atom ∈ atoms, ∀ literal,
      program.foldValue? value = some literal → literal.int? = some atom.toInt)
    (apart : ∀ part ∈ fewer, part ∈ parts ∧ part.origin ≠ origin) :
    program.Admits fewer after := by
  obtain ⟨-, each⟩ := Program.of_assign? assigned
  -- What is known afterwards was known before or has been assigned.
  have cases_of {value : ValueId} {atom : Atom} (found : after value = some atom) :
      environment value = some atom ∨ value ∈ values ∧ atom ∈ atoms ∧
        (program.typeOf? value).any atom.fits = true := by
    rcases each value with same | ⟨other, member, isOther, fits⟩
    · exact .inl (same.symm.trans found)
    · rw [isOther, Option.some.injEq] at found
      subst found
      exact .inr ⟨(List.of_mem_zip member).1, (List.of_mem_zip member).2, fits⟩
  constructor
  case lt =>
    intro value atom found
    rcases cases_of found with old | ⟨new, -, -⟩
    · exact admits.lt value atom old
    · exact owns.lt value new
  case fits =>
    intro value atom found
    rcases cases_of found with old | ⟨-, -, fits⟩
    · exact admits.fits value atom old
    · exact fits
  case known =>
    intro value atom literal found folded
    rcases cases_of found with old | ⟨new, member, -⟩
    · exact admits.known value atom literal old folded
    · exact agrees value new atom member literal folded
  case elsewhere =>
    intro value atom found part member
    rcases cases_of found with old | ⟨new, -, -⟩
    · exact admits.elsewhere value atom old part (apart part member).1
    · rw [owns.origin_eq value new]
      exact Ne.symm (apart part member).2

/-- What is known behind an operation. -/
theorem step {op : OpId} {regions : Regions} {rest : Body} {inputs outputs : List Atom}
    {enter : Nat → List Atom → Option Exit} {after : Environment}
    (admits : program.Admits (Body.cons op regions rest).parts environment)
    (known : program.Knows (.op op)) (nodup : (Body.cons op regions rest).parts.Nodup)
    (isInputs : (program.operands op).mapM environment = some inputs)
    (isOutputs : program.outputs? op inputs enter = some outputs)
    (assigned : program.assign? environment (program.results op) outputs = some after) :
    program.Admits rest.parts after := by
  have other : program.kind op ≠ .func .func := by
    intro isFunction
    rw [Program.outputs?_of_function isFunction] at isOutputs
    cases isOutputs
  have owns := known.2 other
  refine admits.assign owns assigned (fun value isResult atom member literal folded => ?_)
    fun part member => ⟨?_, ?_⟩
  · rw [Program.foldValue?, Program.definingOp?, owns.origin_eq value isResult] at folded
    exact admits.outputs isInputs isOutputs folded member
  · exact List.mem_cons_of_mem _ (List.mem_append_right _ member)
  · intro same
    obtain ⟨absent, -⟩ := List.nodup_cons.mp nodup
    cases part with
    | op id =>
      cases same
      exact absent (List.mem_append_right _ member)
    | block id => cases same

/-- What is known inside a block. -/
theorem enter {block : BlockId} {body : Body} {rest : Blocks} {arguments : List Atom}
    {after : Environment} (admits : program.Admits (Blocks.cons block body rest).parts environment)
    (known : program.Knows (.block block)) (nodup : (Blocks.cons block body rest).parts.Nodup)
    (assigned : program.assign? environment (program.header block).arguments arguments = some after) :
    program.Admits body.parts after := by
  refine admits.assign known.2 assigned (fun value isArgument atom member literal folded => ?_)
    fun part member => ⟨?_, ?_⟩
  · rw [Program.foldValue?, Program.definingOp?, known.2.origin_eq value isArgument] at folded
    cases folded
  · exact List.mem_cons_of_mem _ (List.mem_append_left _ member)
  · intro same
    obtain ⟨absent, -⟩ := List.nodup_cons.mp nodup
    cases part with
    | op id => cases same
    | block id =>
      cases same
      exact absent (List.mem_append_left _ member)

end Program.Admits

end TensorIR
