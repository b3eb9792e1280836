import TensorIR.CommandLine

/-!
# The command

Reads a program from a file or from standard input, does what the arguments ask for, and writes the
result to standard output. Errors go to standard error.

## Main definitions

* `main` — the command
-/

open TensorIR

/-- How the command is used. -/
def usage : String :=
  "Parse, verify, and lower torch dialect programs. Passes run in the order of their flags.\n\n" ++
    "Usage: tensor-ir [OPTIONS] [INPUT]\n\n" ++
    "  [INPUT]                   the file to read; - stands for standard input\n" ++
    "  --canonicalize            fold constants and remove dead code\n" ++
    "  --torch-refine-types      make result types as precise as the operands tell\n" ++
    "  --convert-torch-to-loops  lower torch operations to loops over buffers\n" ++
    "  --convert-torch-to-tosa   lower torch operations to operations on whole tensors\n" ++
    "  --verify                  only verify the input\n" ++
    "  --lower <loops|tosa>      run the whole lowering\n" ++
    "  --debug                   accepted without effect\n" ++
    "  -h, --help                show this text\n" ++
    "  -V, --version             show the version"

/-- The text of a file, or of standard input. -/
def readSource (input : Option String) : IO String := do
  match input.getD "-" with
  | "-" => (← IO.getStdin).readToEnd
  | path => IO.FS.readFile path

/-- Does what the arguments of a command ask for. -/
def main (arguments : List String) : IO UInt32 := do
  match Command.ofArguments arguments with
  | .error .displayHelp =>
    IO.println usage
    return 0
  | .error .displayVersion =>
    IO.println "tensor-ir 0.1.0"
    return 0
  | .error fault =>
    IO.eprintln s!"error: {fault.name}\n\n{usage}"
    return 2
  | .ok command =>
    match command.run (← readSource command.input) with
    | .ok text =>
      IO.println text
      return 0
    | .error error =>
      IO.eprintln s!"error: {error.message}"
      return 1
