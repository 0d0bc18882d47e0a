import PatternTree.Text.Layout
/-!
# Options of the reader

## Main definitions

* `Options` — how strict the reader is about inverted bounds, and how deep a pattern may nest.
* `Options.lenient` — the options that accept inverted ranges and bounds as written.
-/

namespace PatternTree

/-- How a pattern is read. -/
structure Options where
  /-- Whether a range or a repetition whose lower end is above its upper end is refused. -/
  rejectInverted : Bool := true
  /-- How many levels may be open at once. Each group and each quantifier takes one level. -/
  nestLimit : UInt32 := 250
deriving DecidableEq, Repr

namespace Options

instance : Inhabited Options := ⟨{}⟩

/-- Accepts inverted ranges and bounds, and nests as deep as by default. -/
def lenient : Options where
  rejectInverted := false

/-- The options as constructor text. -/
def inspect (l : Layout) (o : Options) : String :=
  l.record "ParseOptions"
    [("reject_inverted", if o.rejectInverted then "true" else "false"),
      ("nest_limit", toString o.nestLimit.toNat)]

end Options

end PatternTree
