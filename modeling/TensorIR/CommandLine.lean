import TensorIR.Pass
import TensorIR.Program.Parse

/-!
# The command line

A command reads a program, runs the passes that its flags name, in the order of the flags, lowers
the program if asked to, and writes the result.

## Main definitions

* `Command` — what the arguments ask for
* `Command.ofArguments` — the arguments of a command
* `Command.run` — a command on a source text
-/

namespace TensorIR

/-- Why a command does not run. -/
inductive UsageFault where
  | displayHelp
  | displayVersion
  | unknownArgument
  | argumentConflict
  | invalidValue
  | tooManyValues
  deriving DecidableEq, Repr

namespace UsageFault

/-- The name of a fault. -/
def name : UsageFault → String
  | displayHelp => "DisplayHelp"
  | displayVersion => "DisplayVersion"
  | unknownArgument => "UnknownArgument"
  | argumentConflict => "ArgumentConflict"
  | invalidValue => "InvalidValue"
  | tooManyValues => "TooManyValues"

end UsageFault

/-- What the arguments of a command ask for. -/
structure Command where
  /-- The flags that have been given. -/
  flags : List String := []
  /-- The names of the passes to run. -/
  passes : List String := []
  /-- The target to lower to after the passes. -/
  lower : Option Target := none
  /-- The file to read. -/
  input : Option String := none

/-- The arguments that have been read so far. -/
structure Arguments where
  command : Command := {}
  /-- An option whose value has still to be checked, with the value if it has been given. -/
  pending : Option (Option String) := none
  /-- Everything that follows is a file. -/
  filesOnly : Bool := false

namespace Arguments

/-- The flags without a value. -/
def flagNames : List String :=
  ["canonicalize", "torch-refine-types", "convert-torch-to-loops", "convert-torch-to-tosa",
    "verify", "debug"]

/-- Sets the target to lower to, which may be given once. -/
def setTarget (arguments : Arguments) (value : String) : Except UsageFault Arguments :=
  if arguments.command.lower.isSome then .error .argumentConflict
  else
    match value with
    | "loops" => .ok { arguments with command.lower := some .loops }
    | "tosa" => .ok { arguments with command.lower := some .tosa }
    | _ => .error .invalidValue

/-- Checks the value of an option that waits for it. -/
def settle (arguments : Arguments) : Except UsageFault Arguments :=
  match arguments.pending with
  | none => .ok arguments
  | some none => .error .invalidValue
  | some (some value) => { arguments with pending := none }.setTarget value

/-- Sets a flag, which may be given once. -/
def setFlag (arguments : Arguments) (name : String) : Except UsageFault Arguments :=
  if arguments.command.flags.contains name then .error .argumentConflict
  else .ok { arguments with command.flags := arguments.command.flags ++ [name] }

/-- Reads an argument that begins with two dashes, without them. -/
def long (arguments : Arguments) (name : String) (value : Option String) :
    Except UsageFault Arguments :=
  if name = "lower" then do
    let settled ← arguments.settle
    match value with
    | some value => settled.setTarget value
    | none => return { settled with pending := some none }
  else if (["help", "version"] ++ flagNames).contains name then
    if value.isSome then .error .tooManyValues
    else do
      let settled ← arguments.settle
      match name with
      | "help" => throw .displayHelp
      | "version" => throw .displayVersion
      | _ => settled.setFlag name
  else .error .unknownArgument

/-- Reads an argument that begins with one dash, by the character after it. -/
def short (arguments : Arguments) (letter : Char) : Except UsageFault Arguments :=
  if letter = 'h' ∨ letter = 'V' then do
    let _ ← arguments.settle
    throw (if letter = 'h' then .displayHelp else .displayVersion)
  else .error .unknownArgument

/-- Reads the name of a file, which may be given once. -/
def file (arguments : Arguments) (name : String) : Except UsageFault Arguments :=
  if arguments.command.input.isSome then .error .unknownArgument
  else do
    let settled ← arguments.settle
    return { settled with command.input := some name }

/-- The name of a long argument, and the value behind an equals sign. -/
def nameAndValue (text : List Char) : String × Option String :=
  let name := text.takeWhile (· ≠ '=')
  match text.drop name.length with
  | [] => (String.ofList name, none)
  | _ :: value => (String.ofList name, some (String.ofList value))

/-- Reads one argument. -/
def read (arguments : Arguments) (argument : String) : Except UsageFault Arguments :=
  if arguments.filesOnly then arguments.file argument
  else
    match argument.toList with
    | ['-', '-'] => .ok { arguments with filesOnly := true }
    | '-' :: '-' :: rest =>
      let (name, value) := nameAndValue rest
      arguments.long name value
    | '-' :: letter :: _ => arguments.short letter
    | _ =>
      -- An option that still waits for its value takes this one.
      if arguments.pending = some none then .ok { arguments with pending := some (some argument) }
      else arguments.file argument

end Arguments

namespace Command

/-- What the arguments of a command ask for. -/
def ofArguments (arguments : List String) : Except UsageFault Command := do
  let read ← arguments.foldlM Arguments.read {}
  let settled ← read.settle
  return { settled.command with passes := Pass.ofArguments arguments }

/-- What a command does with a program. -/
def change (command : Command) : Change Unit := do
  let _ ← Change.runPasses command.passes
  match command.lower with
  | some target =>
    let _ ← Change.lower { target }
  | none => pure ()

/-- What a command writes for a source text. -/
def run (command : Command) (source : String) : Except Error String := do
  let program ← Program.read source
  match command.change.run program with
  | (.ok _, changed) => return changed.text
  | (.error error, _) => throw error

end Command

end TensorIR
