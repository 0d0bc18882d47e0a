import PatternTree.Parse
import PatternTree.Text.Quoted
import PatternTree.Tree.Outline
/-!
# The command line

`-E PATTERN` gives the pattern and `--lenient` accepts inverted ranges and bounds. The last `-E`
counts, and one without a pattern behind it takes the pattern back. The outline of the pattern goes
to the standard output; faults go to the standard error output.

## Main definitions

* `Request`, `UsageError` — what the arguments ask for, or why they ask for nothing.
* `Outcome`, `Outcome.ofArgs` — what a run of the program comes to.
-/

namespace PatternTree

/-- Why arguments cannot be understood. -/
inductive UsageError where
  /-- An argument that is no option. -/
  | unexpectedArgument (arg : String)
  /-- No pattern is given. -/
  | missingPattern
deriving DecidableEq, Repr

/-- What is wrong with the arguments, in words. -/
def UsageError.message : UsageError → String
  | unexpectedArgument arg => "unexpected argument " ++ quotedText arg
  | missingPattern => "expected '-E <pattern>'"

/-- What arguments ask for. -/
structure Request where
  /-- The pattern to read. -/
  pattern : String
  /-- How to read it. -/
  options : Options
deriving DecidableEq, Repr

/-- Reads the arguments from left to right, given the options and the pattern so far. -/
def Request.ofArgsFrom (options : Options) (pattern? : Option String) :
    List String → Except UsageError Request
  | [] =>
    match pattern? with
    | some pattern => .ok { pattern, options }
    | none => .error .missingPattern
  | arg :: args =>
    if arg = "-E" then
      match args with
      | [] => .error .missingPattern
      | pattern :: args => ofArgsFrom options (some pattern) args
    else if arg = "--lenient" then ofArgsFrom .lenient pattern? args
    else .error (.unexpectedArgument arg)

/-- What the arguments ask for. -/
def Request.ofArgs (args : List String) : Except UsageError Request :=
  ofArgsFrom {} none args

/-- What a run of the program comes to. -/
structure Outcome where
  /-- The exit status. -/
  status : UInt32
  /-- What is written to the standard output. -/
  output : String := ""
  /-- What is written to the standard error output. -/
  errors : String := ""
deriving DecidableEq, Repr

/-- What a request comes to. -/
def Outcome.ofRequest (r : Request) : Outcome :=
  match parse r.pattern r.options with
  | .ok tree => { status := 0, output := tree.outline }
  | .error e =>
    { status := 1
      errors := "failed to parse pattern " ++ quotedText r.pattern ++ ": " ++ e.message ++ "\n" }

/-- What the arguments come to. -/
def Outcome.ofArgs (args : List String) : Outcome :=
  match Request.ofArgs args with
  | .ok r => .ofRequest r
  | .error e =>
    { status := 2
      errors := e.message ++ "\nusage: regex-ast -E <pattern> [--lenient]\n" }

end PatternTree
