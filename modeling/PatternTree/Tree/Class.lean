import PatternTree.Tree.Basic
/-!
# Character classes among pattern trees

A class has no node of its own: it is an alternation in which every branch is a single character or
a single range.

## Main definitions

* `Chain.isEntry`, `Node.isClass` — entries of a class, and classes.
-/

namespace PatternTree

/-- Whether a chain is an entry of a class: a single character or range. -/
def Chain.isEntry : Chain → Bool
  | .last (.literal _) | .last (.range _ _) => true
  | _ => false

/-- Whether a node is a class: an alternation of one or more entries. -/
def Node.isClass : Node → Bool
  | .alternation branches => !branches.isEmpty && branches.all Chain.isEntry
  | _ => false

end PatternTree
