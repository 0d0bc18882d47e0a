/-!
# Progress of reading

## Main definitions

* `Progress` — what reading one more character leads to.
-/

namespace PatternTree

/-- The state of a part of a pattern after one more character. -/
inductive Progress (α β : Type) where
  /-- The part goes on, and `a` has been read of it. -/
  | going (a : α)
  /-- The character was the final one of the part, which is `b`. -/
  | done (b : β)
deriving DecidableEq, Repr

end PatternTree
