import TensorIR.Run

/-!
# The meaning of functions on scalars

A function on integers and truth values has a meaning before it is lowered, after that, and at every
point in between: what it returns for given arguments. Integers are those of 64 bits, a branch takes
the side of its condition, and a loop counts its rounds from zero. A value is known from the operation
that introduces it to the end of the block, so what happens inside an operation is forgotten behind
it. An operation that is not about scalars has no meaning, and neither has what runs it.

## Main definitions

* `Atom` — a value of such a function
* `Program.outputs?` — what a single operation computes
* `Body.eval` — the operations of a block
* `Program.meaning?` — a function
-/

namespace TensorIR

/-- A value of a function on scalars: an integer, a truth value or a position. -/
inductive Atom where
  | int (value : Int)
  | bool (value : Bool)
  | index (value : Int)
  deriving DecidableEq, Repr

namespace Atom

/-- The value as an integer; truth values count as one and zero. -/
def toInt : Atom → Int
  | int value | index value => value
  | bool value => if value then 1 else 0

/-- The value is one of a type. -/
def fits : Atom → Ty → Bool
  | int _, .torch .int | int _, .scalar .i64 => true
  | bool _, .torch .bool | bool _, .scalar .i1 => true
  | index _, .scalar .index => true
  | _, _ => false

end Atom

/-- The value of a type that a literal stands for. -/
def Literal.atom? : Literal → Ty → Option Atom
  | .int value, .torch .int | .int value, .scalar .i64 => some (.int value)
  | .int value, .scalar .index => some (.index value)
  | .bool value, .torch .bool | .bool value, .scalar .i1 => some (.bool value)
  | _, _ => Option.none

/-- What is known about values. -/
abbrev Environment := ValueId → Option Atom

/-- Nothing is known. -/
def Environment.empty : Environment := fun _ => none

/-- One more value is known. -/
def Environment.set (environment : Environment) (value : ValueId) (atom : Atom) : Environment :=
  fun other => if other = value then some atom else environment other

/-- How a block ends: what it passes on, and before a loop is lowered whether the loop continues. -/
structure Exit where
  flag : Option Bool
  atoms : List Atom
  deriving DecidableEq, Repr

/-- What a block passes on that does not tell whether a loop continues. -/
def Exit.passed? : Exit → Option (List Atom)
  | ⟨none, atoms⟩ => some atoms
  | ⟨some _, _⟩ => none

/-- The values after a number of rounds, each of which gets its position and the values of the round
before. The rounds end early as soon as one of them does not go on. -/
def iterate? (round : Int → List Atom → Option Exit) (goesOn : Exit → Bool) (width : Int) :
    Nat → Int → List Atom → Option (List Atom)
  | 0, _, carried => some carried
  | count + 1, position, carried => do
    let exit ← round position carried
    if goesOn exit then iterate? round goesOn width count (position + width) exit.atoms
    else some exit.atoms

/-- How a block ends with an operation that passes on values. -/
def exit? : OpKind → List Atom → Option Exit
  | .torch .primLoopCondition, .bool flag :: atoms => some ⟨some flag, atoms⟩
  | .torch .primLoopCondition, _ => none
  | _, atoms => some ⟨none, atoms⟩

/-- The operation ends a block of a function. -/
def OpKind.isExit : OpKind → Bool
  | .func .ret | .scf .yield | .torch .primIfYield | .torch .primLoopCondition => true
  | _ => false

/-- What an operation computes before it is lowered has a type of a program before lowering. -/
def OpKind.suits (kind : OpKind) (type : Ty) : Bool :=
  !kind.isTorch || type.torch?.isSome

namespace Program

variable (program : Program)

/-- What an operation without control flow computes. -/
def literal? (op : OpId) (inputs : List Atom) : Option Literal :=
  match program.kind op, inputs with
  | .arith .constant, [] => program.constantValue? op
  | .arith .indexCast, [.int value] | .arith .indexCast, [.index value] => some (.int value)
  | .arith .cmpi, [.int a, .int b] =>
    (compareInts (program.stringOf op "predicate") .i64 a b).toOption.map .bool
  | .arith kind, [.int a, .int b] => do ((← kind.onInts?) a b).map .int
  | .torch kind, [] => program.torchConstant? op kind
  | .torch kind, [.int a, .int b] => do return (← kind.onInts?) a b
  | _, _ => none

/-- The values are known from now on, provided that they are of their types. -/
def assign? : Environment → List ValueId → List Atom → Option Environment
  | environment, [], [] => some environment
  | environment, value :: values, atom :: atoms =>
    if (program.typeOf? value).any atom.fits then
      assign? (environment.set value atom) values atoms
    else none
  | _, _, _ => none

/-- The values are of the types of the results of an operation. -/
def fitResults (op : OpId) (atoms : List Atom) : Bool :=
  (program.assign? .empty (program.results op) atoms).isSome

/-- A round of a loop. What a loop carries is of the types of its results. -/
def round? (op : OpId) (enter : Nat → List Atom → Option Exit) (position : Atom)
    (carried : List Atom) : Option Exit :=
  if program.fitResults op carried then enter 0 (position :: carried) else none

/-- What an operation computes, where `enter` says how the entry block of a region ends. A loop runs
no round if it is not to start; `scf.for` is a loop that always goes on. -/
def outputs? (op : OpId) (inputs : List Atom) (enter : Nat → List Atom → Option Exit) :
    Option (List Atom) :=
  match program.kind op, inputs with
  | .torch .primIf, [.bool condition] | .scf .ifElse, [.bool condition] =>
    (enter (if condition then 0 else 1) []).bind Exit.passed?
  | .torch .primLoop, .int count :: .bool start :: carried =>
    if start then
      iterate? (fun position => program.round? op enter (.int position)) (·.flag ≠ some false) 1
        count.toNat 0 carried
    else some carried
  | .scf .forLoop, .index first :: .index last :: .index width :: carried =>
    if 0 < width then
      iterate? (fun position => program.round? op enter (.index position)) (fun _ => true) width
        (Run.rounds first last width) first carried
    else none
  | _, _ => do
    let type ← program.resultType? op 0
    let atom ← (← program.literal? op inputs).atom? type
    if (program.kind op).suits type then some [atom] else none

end Program

mutual

/-- How a block with the given operations ends. -/
def Body.eval (program : Program) : Body → Environment → Option Exit
  | .nil, _ => none
  | .cons op regions rest, environment => do
    let inputs ← (program.operands op).mapM environment
    if (program.kind op).isExit then
      if rest.isEmpty then exit? (program.kind op) inputs else none
    else
      let outputs ← program.outputs? op inputs fun index arguments =>
        Regions.eval program index arguments regions environment
      Body.eval program rest (← program.assign? environment (program.results op) outputs)

/-- How the entry block of a region ends. -/
def Blocks.eval (program : Program) (arguments : List Atom) : Blocks → Environment → Option Exit
  | .nil, _ => none
  | .cons block body _, environment => do
    Body.eval program body (← program.assign? environment (program.header block).arguments arguments)

/-- How the entry block of the region at a position ends. -/
def Regions.eval (program : Program) (index : Nat) (arguments : List Atom) :
    Regions → Environment → Option Exit
  | .nil, _ => none
  | .cons blocks rest, environment =>
    match index with
    | 0 => Blocks.eval program arguments blocks environment
    | index + 1 => Regions.eval program index arguments rest environment

end

namespace Program

variable (program : Program)

/-- What a function returns. -/
def meaning? (function : OpId) (arguments : List Atom) : Option (List Atom) :=
  ((program.regionsOf function).eval program 0 arguments .empty).map Exit.atoms

end Program

end TensorIR
