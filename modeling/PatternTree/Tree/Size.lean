import PatternTree.Tree.Basic
/-!
# Measures of pattern trees

The size of a tree counts its nodes. Its height counts the nodes on the longest way down, on which a
node is followed by a node of what it stands over, and never by the next node of its own chain.

## Main definitions

* `Node.size`, `Chain.size` — the number of nodes.
* `Node.height`, `Chain.height` — the number of nodes on the longest way down.
* `Node.repetitionDepth`, `Chain.repetitionDepth` — the largest number of repetitions on a way down.
-/

namespace PatternTree

mutual

/-- The number of nodes of a node: itself and every node below it. -/
def Node.size : Node → Nat
  | .empty | .dot | .literal _ | .range _ _ => 1
  | .complement inner => inner.size + 1
  | .alternation branches => Chain.sizeAll branches + 1
  | .repetition inner _ _ => inner.size + 1

/-- The number of nodes of a chain. -/
def Chain.size : Chain → Nat
  | .last n => n.size
  | .link n next => n.size + next.size

/-- The number of nodes of a list of chains. -/
def Chain.sizeAll : List Chain → Nat
  | [] => 0
  | c :: cs => c.size + Chain.sizeAll cs

end

mutual

/-- The number of nodes on the longest way down from a node, itself included. -/
def Node.height : Node → Nat
  | .empty | .dot | .literal _ | .range _ _ => 1
  | .complement inner => inner.height + 1
  | .alternation branches => Chain.heightAll branches + 1
  | .repetition inner _ _ => inner.height + 1

/-- The height of the highest node of a chain. -/
def Chain.height : Chain → Nat
  | .last n => n.height
  | .link n next => max n.height next.height

/-- The height of the highest of some chains. -/
def Chain.heightAll : List Chain → Nat
  | [] => 0
  | c :: cs => max c.height (Chain.heightAll cs)

end

mutual

/-- The largest number of repetitions on a way down from a node, itself included. -/
def Node.repetitionDepth : Node → Nat
  | .empty | .dot | .literal _ | .range _ _ => 0
  | .complement inner => inner.repetitionDepth
  | .alternation branches => Chain.repetitionDepthAll branches
  | .repetition inner _ _ => inner.repetitionDepth + 1

/-- The largest number of repetitions on a way down from a node of a chain. -/
def Chain.repetitionDepth : Chain → Nat
  | .last n => n.repetitionDepth
  | .link n next => max n.repetitionDepth next.repetitionDepth

/-- The largest number of repetitions on a way down from a node of some chains. -/
def Chain.repetitionDepthAll : List Chain → Nat
  | [] => 0
  | c :: cs => max c.repetitionDepth (Chain.repetitionDepthAll cs)

end

end PatternTree
