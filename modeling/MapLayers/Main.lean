import MapLayers.CommandLine

/-!
# Entry point

Reads the file that is named first on the command line, if any, runs the program on its text, and
prints what it comes to.  A file that cannot be read ends the run as a text does that is no
description.

Nothing is decided here.  What is printed, and the exit code, are those of the outcome of
`CommandLine.run`.
-/

set_option autoImplicit false

namespace MapLayers

/-- Print the outcome of a run and give its exit code. -/
def printOutcome (o : Outcome) : IO UInt32 := do
  let out ← IO.getStdout
  out.putStr o.output
  out.flush
  match o.ending, o.errorOutput with
  | _, some text => IO.eprint text
  | .brokenOff, none => IO.eprintln "the service description cannot be read or shown"
  | _, none => pure ()
  return UInt32.ofNat o.ending.exitCode

/-- The text of a file, if it can be read. -/
def readText (path : String) : IO (Option String) := do
  try
    return some (← IO.FS.readFile path)
  catch _ =>
    return none

/-- The outcome of a run with the given arguments, of which only the first counts. -/
def runWith : List String → IO Outcome
  | [] => return CommandLine.run none
  | path :: _ => do
    match ← readText path with
    | some text => return CommandLine.run (some text)
    | none => return { ending := .brokenOff, output := "" }

end MapLayers

/-- Evaluate the service description in the first argument, or the sample service. -/
def main (args : List String) : IO UInt32 := do
  MapLayers.printOutcome (← MapLayers.runWith args)
