import Mathlib.Data.List.Perm.Subperm
import TensorIR.Program.Names
import TensorIR.Program.Parse
import TensorIR.Proofs.Execution.Scope
import TensorIR.Proofs.Scalar.Rounds
import TensorIR.Proofs.Texts.Integers

/-!
# Fresh names

A supply of names is asked for one name after the other, by number or by word, and tries candidates until one is
free. All candidates of one search are different, so that no more of them are taken than there are names in use, and
the search comes to an end. What has been given is in use from then on. So names are given once, in whatever order
numbers and words are asked for, and none of them is in use when the supply is set up.

## Main definitions

* `Namer.Finds` — a search without a bound comes to an end
* `Namer.Request`, `Namer.answer` — a name is asked for
* `Namer.Gives`, `Namer.Serves` — a name, or several, are given by searches without a bound

## Main results

* `Namer.finds_firstFree` — every search comes to an end
* `Namer.Gives.used_eq`, `Namer.Gives.notMem_used` — a name that is given has been free and is in use afterwards
* `Namer.Serves.nodup_and_notMem_used` — all names that are given are different, and different from those in use
* `Program.serves_namer` — names for the inside of an operation
-/

namespace TensorIR

namespace Namer

variable {namer next last : Namer} {candidate : Nat → String} {index found : Nat}

/-! ### Candidates -/

theorem repr_injective : Function.Injective Nat.repr := by
  intro first second same
  rw [← Number.ofDigitChars_repr first, same, Number.ofDigitChars_repr]

theorem numbered_injective : Function.Injective fun index : Nat => s!"%{index}" := by
  intro first second same
  have letters := congrArg String.toList same
  simp only [String.toList_append, toString] at letters
  exact repr_injective (String.toList_inj.mp (List.append_cancel_left letters))

theorem suffixed_injective (base : String) : Function.Injective fun index : Nat => s!"%{base}_{index}" := by
  intro first second same
  have letters := congrArg String.toList same
  simp only [String.toList_append, toString] at letters
  exact repr_injective (String.toList_inj.mp (List.append_cancel_left letters))

theorem isFree_iff {name : String} : namer.isFree name = true ↔ name ∉ namer.used := by
  simp [isFree]

/-! ### The search -/

/-- Candidates are tried from an index on, and the first one that is free is at the index that is found. The search is
not bounded. -/
inductive Finds (namer : Namer) (candidate : Nat → String) : Nat → Nat → Prop
  | free {index : Nat} : namer.isFree (candidate index) = true → Finds namer candidate index index
  | taken {index found : Nat} : namer.isFree (candidate index) = false → Finds namer candidate (index + 1) found →
      Finds namer candidate index found

theorem Finds.isFree (finds : namer.Finds candidate index found) : namer.isFree (candidate found) = true := by
  induction finds with
  | free isFree => exact isFree
  | taken _ _ ih => exact ih

/-- A search with a bound ends as the one without, unless all candidates within the bound are taken. -/
theorem finds_firstFree_or (attempts index : Nat) :
    namer.Finds candidate index (namer.firstFree candidate attempts index) ∨
      ∀ tried ∈ List.range' index attempts, candidate tried ∈ namer.used := by
  induction attempts generalizing index with
  | zero => exact .inr (by simp)
  | succ attempts ih =>
    rw [firstFree]
    by_cases isFree : namer.isFree (candidate index) = true
    · rw [if_pos isFree]
      exact .inl (.free isFree)
    rw [if_neg isFree]
    refine (ih (index + 1)).imp (.taken (Bool.eq_false_of_not_eq_true isFree)) fun later => ?_
    rw [List.range'_succ, List.forall_mem_cons]
    exact ⟨not_not.mp (mt isFree_iff.mpr isFree), later⟩

/-- Different candidates cannot all be taken, if there are more of them than names in use. -/
theorem finds_firstFree (injective : Function.Injective candidate) (namer : Namer) (index : Nat) :
    namer.Finds candidate index (namer.firstFree candidate (namer.used.length + 1) index) := by
  refine (finds_firstFree_or (namer.used.length + 1) index).resolve_right fun taken => ?_
  have distinct : ((List.range' index (namer.used.length + 1)).map candidate).Nodup :=
    (List.nodup_range' _).map injective
  have subset : (List.range' index (namer.used.length + 1)).map candidate ⊆ namer.used :=
    fun name member => by
      obtain ⟨tried, inRange, rfl⟩ := List.mem_map.mp member
      exact taken tried inRange
  -- One candidate more than there are names in use.
  have fewer := (List.subperm_of_subset distinct subset).length_le
  rw [List.length_map, List.length_range'] at fewer
  omega

/-! ### Requests -/

/-- A name is asked for, by number or by word. -/
inductive Request where
  | number
  | word (base : String)

/-- The name that is given, and the supply afterwards. -/
def answer (namer : Namer) : Request → String × Namer
  | .number => namer.fresh
  | .word base => namer.freshNamed base

/-- The names that are given one after the other, and the supply afterwards. -/
def answers (namer : Namer) : List Request → List String × Namer
  | [] => ([], namer)
  | request :: requests =>
    let (name, next) := namer.answer request
    let (names, last) := next.answers requests
    (name :: names, last)

/-- A name is given, and the search for it comes to an end. A number is tried from the counter on, which goes on behind
it; a word is tried alone first, and then with numbers behind it. -/
inductive Gives (namer : Namer) : Request → String → Namer → Prop
  | number {found : Nat} : namer.Finds (fun index => s!"%{index}") namer.next found →
      Gives namer .number s!"%{found}" ⟨s!"%{found}" :: namer.used, found + 1⟩
  | plain {base : String} : namer.isFree s!"%{base}" = true →
      Gives namer (.word base) s!"%{base}" { namer with used := s!"%{base}" :: namer.used }
  | suffixed {base : String} {found : Nat} : namer.isFree s!"%{base}" = false →
      namer.Finds (fun index => s!"%{base}_{index}") 0 found →
        Gives namer (.word base) s!"%{base}_{found}" { namer with used := s!"%{base}_{found}" :: namer.used }

/-- Names are given one after the other. -/
inductive Serves : Namer → List Request → List String → Namer → Prop
  | nil {namer : Namer} : Serves namer [] [] namer
  | cons {namer next last : Namer} {request : Request} {requests : List Request} {name : String}
      {names : List String} : namer.Gives request name next → Serves next requests names last →
        Serves namer (request :: requests) (name :: names) last

section Gives

variable {request : Request} {requests : List Request} {name : String} {names : List String}

theorem Gives.notMem_used (gives : namer.Gives request name next) : name ∉ namer.used := by
  cases gives with
  | number finds => exact isFree_iff.mp finds.isFree
  | plain isFree => exact isFree_iff.mp isFree
  | suffixed _ finds => exact isFree_iff.mp finds.isFree

theorem Gives.used_eq (gives : namer.Gives request name next) : next.used = name :: namer.used := by
  cases gives <;> rfl

/-- Every request is answered. -/
theorem gives_answer (namer : Namer) (request : Request) :
    namer.Gives request (namer.answer request).1 (namer.answer request).2 := by
  cases request with
  | number => exact .number (finds_firstFree numbered_injective namer namer.next)
  | word base =>
    rw [answer, freshNamed]
    split
    case isTrue isFree => exact .plain isFree
    case isFalse isTaken =>
      exact .suffixed (Bool.eq_false_of_not_eq_true isTaken) (finds_firstFree (suffixed_injective base) namer 0)

theorem serves_answers (namer : Namer) (requests : List Request) :
    namer.Serves requests (namer.answers requests).1 (namer.answers requests).2 := by
  induction requests generalizing namer with
  | nil => exact .nil
  | cons request requests ih => exact .cons (namer.gives_answer request) (ih _)

/-- The names that are given are different from each other, and none of them was in use before. -/
theorem Serves.nodup_and_notMem_used (serves : namer.Serves requests names last) :
    names.Nodup ∧ ∀ name ∈ names, name ∉ namer.used := by
  induction serves with
  | nil => simp
  | cons gives _ ih =>
    obtain ⟨nodup, unused⟩ := ih
    -- The later names avoid what is in use after the first one has been given, which is that name and the names before.
    rw [gives.used_eq] at unused
    refine ⟨List.nodup_cons.mpr ⟨fun again => unused _ again List.mem_cons_self, nodup⟩, ?_⟩
    exact List.forall_mem_cons.mpr ⟨gives.notMem_used, fun name member used =>
      unused name member (List.mem_cons_of_mem _ used)⟩

end Gives

end Namer

/-! ### Names inside of an operation -/

namespace Program

variable {program : Program} {scope : OpId}

/-- A supply for the inside of an operation has the names of all results and arguments there in use. -/
theorem mem_used_namer {part : Part} {value : ValueId} {name : String}
    (inside : part ∈ .op scope :: (program.regionsOf scope).parts) (given : value ∈ program.given part)
    (named : (program.value value).name = some name) : name ∈ (program.namer scope).used := by
  refine List.mem_filterMap.mpr ⟨value, ?_, named⟩
  rw [List.mem_append, List.mem_flatMap, List.mem_flatMap]
  cases part with
  | op op =>
    refine .inl ⟨op, ?_, given⟩
    simpa using inside
  | block block =>
    refine .inr ⟨block, ?_, given⟩
    rw [← Regions.filterMap_block]
    exact List.mem_filterMap.mpr ⟨.block block, by simpa using inside, rfl⟩

/-- However often a supply for the inside of an operation is asked for names, by number or by word: every search comes
to an end, the names are different from each other, and no result of the operation and no result or argument inside
of it has one of them. -/
theorem serves_namer (program : Program) (scope : OpId) (requests : List Namer.Request) :
    let supply := program.namer scope
    let served := supply.answers requests
    supply.Serves requests served.1 served.2 ∧ served.1.Nodup ∧
      ∀ part ∈ .op scope :: (program.regionsOf scope).parts, ∀ value ∈ program.given part, ∀ name ∈ served.1,
        (program.value value).name ≠ some name := by
  have serves := (program.namer scope).serves_answers requests
  obtain ⟨nodup, unused⟩ := serves.nodup_and_notMem_used
  exact ⟨serves, nodup, fun part inside value given name among named =>
    unused name among (mem_used_namer inside given named)⟩

/-- The result of the second addition has a name as it would be made from a word. -/
def namesakes : String :=
  "func.func @f(%x: index) \x7b
    %0 = arith.addi %x, %x : index, index -> index
    %1_0 = arith.addi %0, %x : index, index -> index
    return
  \x7d"

/-- Some of the words look like numbers. -/
def namesakeRequests : List Namer.Request :=
  [.number, .word "1", .word "x", .number, .word "3", .number]

/-- Words that look like numbers are passed over by the counter, too. -/
theorem serves_namer_namesakes : ∃ program, read namesakes = .ok program ∧
    let names := ["%1", "%1_1", "%x_0", "%2", "%3", "%4"]
    ((program.namer ⟨0⟩).answers namesakeRequests).1 = names ∧
      names.Nodup ∧ ∀ value ∈ program.given (.block ⟨0⟩), ∀ name ∈ names, (program.value value).name ≠ some name := by
  have found : (read namesakes).toOption.map (fun program =>
      (((program.namer ⟨0⟩).answers namesakeRequests).1,
        decide (.block ⟨0⟩ ∈ .op ⟨0⟩ :: (program.regionsOf ⟨0⟩).parts))) =
      some (["%1", "%1_1", "%x_0", "%2", "%3", "%4"], true) := by decide +kernel
  cases reads : read namesakes with
  | error =>
    rw [reads] at found
    cases found
  | ok program =>
    rw [reads] at found
    obtain ⟨given, inside⟩ := Prod.mk.inj (Option.some.inj found)
    obtain ⟨-, nodup, unused⟩ := serves_namer program ⟨0⟩ namesakeRequests
    rw [given] at nodup unused
    exact ⟨program, rfl, given, nodup, unused _ (of_decide_eq_true inside)⟩

end Program

end TensorIR
