import AddressCodec.CommandLine.Command

/-!
# The program

Passes the arguments, the environment and the files that the arguments name to the command line, and
prints what it gives.
-/

open AddressCodec

/-- The content of a file that can be read as text. -/
def readText? (path : String) : IO (Option String) := do
  try
    return some (← IO.FS.readFile path)
  catch _ =>
    return none

/-- Runs the command line that the program was started with. -/
def main (arguments : List String) : IO UInt32 := do
  let environment : CommandLine.Environment :=
    ⟨← IO.getEnv "XELIS_NETWORK", ← IO.getEnv "XELIS_OUTPUT_FORMAT"⟩
  let files ← (CommandLine.pathsIn arguments).mapM fun path => return (path, ← readText? path)
  match CommandLine.run environment (fun path => (files.lookup path).join) arguments with
  | .ok output =>
    IO.println output
    return 0
  | .error failure =>
    IO.eprintln s!"Error: {failure.message}"
    return 1
