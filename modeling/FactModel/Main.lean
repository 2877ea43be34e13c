import FactModel.CommandLine
set_option autoImplicit false

/-!
# The program

Reads what the command line asks for, and writes what it comes to.
-/

open FactModel

/-- The environment variables that override settings. -/
def overridingVariables : List String :=
  ["CLAUSAL_VOCABULARY", "CLAUSAL_ALLOWED_FORWARD_TERMS", "CLAUSAL_CONTRACTION", "CLAUSAL_PRETTY",
    "CLAUSAL_LOG_FILTER"]

/-- The text of a file, if it can be read. -/
def textOf (name : String) : IO (Option (String × String)) := do
  try
    pure (some (name, ← IO.FS.readFile name))
  catch _ => pure none

/-- The value of an environment variable, if it is set. -/
def valueOf (name : String) : IO (Option (String × String)) := do
  pure ((← IO.getEnv name).map (name, ·))

/-- Runs the command line on the files and the environment of the process. -/
def main (arguments : List String) : IO UInt32 := do
  let texts ← (CommandLine.filesRead arguments).filterMapM textOf
  let environment ← overridingVariables.filterMapM valueOf
  let report := CommandLine.run { read? := fun name => texts.lookup name, environment } arguments
  IO.print report.output
  pure report.exitCode
