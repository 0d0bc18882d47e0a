import PatternTree.Cursor
import PatternTree.Unfinished.Pattern
/-!
# Reading patterns

## Main definitions

* `parse` — the tree of a pattern, or its first fault.
-/

namespace PatternTree

/-- The tree of a pattern, or its first fault. -/
def parse (pattern : String) (o : Options := {}) : Except SyntaxError Chain := do
  let (s, stop) ← (Cursor.ofString pattern).foldlM (UnfinishedPattern.step o) {}
  s.finish o stop

end PatternTree
