import PatternTree.CommandLine
/-!
# The program

Runs the command line and writes what it comes to.
-/

/-- Reads the pattern that the arguments give and writes its outline. -/
def main (args : List String) : IO UInt32 := do
  let outcome := PatternTree.Outcome.ofArgs args
  IO.print outcome.output
  IO.eprint outcome.errors
  return outcome.status
