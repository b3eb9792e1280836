import TensorIR.Lower

/-!
# Passes

A pass is known by a name, which may be given with dashes in front, as on the command line. Passes
run one after the other.

## Main definitions

* `Pass` — what a name stands for
* `Pass.ofArguments` — the names of passes among the arguments of a command
* `Change.runPasses` — runs passes by name
-/

namespace TensorIR

/-- What the name of a pass stands for. -/
inductive Pass where
  | canonicalize
  | refineTypes
  | convert (target : Target)
  | verify
  deriving DecidableEq, Repr

namespace Pass

/-- The name of a pass. -/
def name : Pass → String
  | canonicalize => "canonicalize"
  | refineTypes => "torch-refine-types"
  | convert .loops => "convert-torch-to-loops"
  | convert .tosa => "convert-torch-to-tosa"
  | verify => "verify"

/-- All passes. -/
def all : List Pass := [canonicalize, refineTypes, convert .loops, convert .tosa, verify]

/-- The pass with a given name. -/
def ofName? (name : String) : Option Pass :=
  all.find? (·.name == name)

/-- The text without pairs of dashes in front. -/
def withoutDashes : List Char → List Char
  | '-' :: '-' :: rest => withoutDashes rest
  | text => text

/-- The name of a pass that may be given with dashes in front. -/
def nameOf (argument : String) : String :=
  String.ofList (withoutDashes argument.toList)

/-- The argument of a command asks for a pass. -/
def isFlag (argument : String) : Bool :=
  (Text.afterPrefix? "--convert-".toList argument.toList).isSome ||
    ["--canonicalize", "--torch-refine-types", "--verify"].contains argument

/-- The names of the passes that the arguments of a command ask for, in their order. -/
def ofArguments (arguments : List String) : List String :=
  (arguments.filter isFlag).map nameOf

theorem mem_all (pass : Pass) : pass ∈ all := by
  rcases pass with _ | _ | (_ | _) | _ <;> decide

theorem ofName?_name (pass : Pass) : ofName? pass.name = some pass := by
  rcases pass with _ | _ | (_ | _) | _ <;> rfl

end Pass

namespace Change

/-- Runs a pass. The answer is whether the program was changed. -/
def runPass : Pass → Change Bool
  | .canonicalize => canonicalize
  | .refineTypes => refineTypes
  | .convert target => do
    convertSignatures target
    let (changed, _) ← convert target
    return changed
  | .verify => do
    verify
    return false

/-- Runs passes by name, one after the other. The answer is whether any of them changed the
program. -/
def runPasses : List String → Change Bool
  | [] => return false
  | name :: names => do
    match Pass.ofName? name with
    | none => throw (.failure s!"Unknown pass: {name}")
    | some pass =>
      let changed ← runPass pass
      let later ← runPasses names
      return changed || later

end Change

end TensorIR
