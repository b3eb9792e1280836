import TensorIR.Program.Basic

/-!
# Fresh names

New values get names that no value of the surrounding function has: a number one greater than all
numbers in use and counting up, or a given word, with a counter behind it if the word is taken.

## Main definitions

* `Namer` — the names in use and the next number
* `Namer.fresh`, `Namer.freshNamed` — a new name, by number or by word
* `Program.namer`, `Program.namerAround` — the names inside an operation
-/

namespace TensorIR

/-- The names in use and the next number to try. -/
structure Namer where
  used : List String
  next : Nat
  deriving Inhabited

namespace Namer

/-- The number that a name consists of, after its signs. -/
def numberOf? (name : String) : Option Nat :=
  match Number.readCount (name.toList.dropWhile (· = '%')) with
  | .ok number => some number.toNat
  | .error _ => none

/-- A supply of names that avoids the given ones. -/
def ofUsed (used : List String) : Namer :=
  ⟨used, used.foldl (fun next name => max next (((numberOf? name).map (· + 1)).getD 0)) 0⟩

/-- The name has not been used. -/
def isFree (namer : Namer) (name : String) : Bool :=
  !namer.used.contains name

/-- The first free name among those numbered from `index` on, trying at most `attempts`. -/
def firstFree (namer : Namer) (name : Nat → String) : Nat → Nat → Nat
  | 0, index => index
  | attempts + 1, index =>
    if namer.isFree (name index) then index else firstFree namer name attempts (index + 1)

/-- A new numbered name. -/
def fresh (namer : Namer) : String × Namer :=
  let name (index : Nat) : String := s!"%{index}"
  let index := namer.firstFree name (namer.used.length + 1) namer.next
  (name index, ⟨name index :: namer.used, index + 1⟩)

/-- A new name made from a word. -/
def freshNamed (namer : Namer) (base : String) : String × Namer :=
  let plain := s!"%{base}"
  if namer.isFree plain then (plain, { namer with used := plain :: namer.used })
  else
    let name (index : Nat) : String := s!"%{base}_{index}"
    let index := namer.firstFree name (namer.used.length + 1) 0
    (name index, { namer with used := name index :: namer.used })

end Namer

namespace Program

variable (program : Program)

/-- The names of the results of operations and the arguments of blocks, given with the operations
around them. -/
def namesOf (ops : List OpId) (blocks : List BlockId) : List String :=
  (ops.flatMap program.results ++ blocks.flatMap fun block => (program.header block).arguments)
    |>.filterMap fun value => (program.value value).name

/-- A supply of names for the inside of an operation. -/
def namer (scope : OpId) : Namer :=
  let regions := program.regionsOf scope
  Namer.ofUsed <|
    program.namesOf (scope :: regions.ops) (regions.blockBodies.map Prod.fst)

/-- The operation around a given one that lies directly in a module, looking up at most `fuel`
times. -/
def outermost : Nat → OpId → OpId
  | 0, op => op
  | fuel + 1, op =>
    match program.parent? op with
    | none => op
    | some parent => if program.kind parent = .module then op else outermost fuel parent

/-- A supply of names for the function that holds an operation. -/
def namerAround (op : OpId) : Namer :=
  program.namer (program.outermost program.operations.size op)

end Program

end TensorIR
