import TensorIR.Lower.Loops
import TensorIR.Lower.Tosa
import TensorIR.Rewrite.Canonicalize
import TensorIR.Rewrite.Refine
import TensorIR.Verify

/-!
# Lowering whole programs

A program is verified, brought into a form that can be lowered, checked against the target, and then
lowered. It is verified again at the end. Lowering a program that is lowered already leaves it as it
is.

## Main definitions

* `LowerOptions` — the target and what is done before
* `Change.prepare`, `Change.finish` — what is done before and after
* `Change.lower` — the lowering of a program
* `Lowered.ofEach` — the lowering of independent programs
-/

namespace TensorIR

/-- How a program is lowered. -/
structure LowerOptions where
  target : Target := .loops
  /-- The program is brought into canonical form before and after. -/
  canonicalize : Bool := true
  /-- Types are made as precise as they follow before, so that more can be lowered. -/
  refineTypes : Bool := true

/-- What is told about a program that has been lowered. -/
structure Lowered where
  /-- The text of the program is another one than before. -/
  changed : Bool
  /-- The parameters of quantized values. -/
  quant : QuantTable

namespace Change

/-- Fails with all violations unless the program is valid. -/
def verify : Change Unit :=
  askFor Program.verify

/-- Takes all torch operations to a target and keeps the parameters of quantized values. -/
def convert (target : Target) : Change (Bool × QuantTable) :=
  match target with
  | .loops => Lowering.toLoops.run {}
  | .tosa => Lowering.toTosa.run {}

/-- Makes a program ready to be lowered: it is verified, brought into a form that can be lowered and
checked, and functions and calls get their types. -/
def prepare (options : LowerOptions) : Change Unit := do
  verify
  if options.canonicalize then
    let _ ← canonicalize
  if options.refineTypes then
    let _ ← refineTypes
  askFor fun program => program.ensureLegal options.target
  convertSignatures options.target

/-- Brings a lowered program into canonical form, as far as that is wanted, and verifies it. -/
def finish (options : LowerOptions) : Change Unit := do
  let _ ← if options.canonicalize then canonicalize else dropDead
  askFor fun program => program.ensureLowered options.target
  verify

/-- Lowers a program. -/
def lower (options : LowerOptions) : Change Lowered := do
  let before ← ask Program.text
  prepare options
  let (_, quant) ← convert options.target
  finish options
  return ⟨(← ask Program.text) ≠ before, quant⟩

end Change

/-- Lowers independent programs. Each is given with what has become of it, also if that failed. -/
def Lowered.ofEach (options : LowerOptions) (programs : List Program) :
    List (Except Error Lowered × Program) :=
  programs.map (Change.lower options).run

end TensorIR
