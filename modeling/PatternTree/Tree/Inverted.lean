import PatternTree.SyntaxError
import PatternTree.Tree.Basic
/-!
# Inverted ranges and bounds of pattern trees

A range is inverted when it starts behind its end, and a repetition when its lower bound is above
its upper bound. The faults of a tree are listed from left to right, and what a node stands over
comes before the node itself, which is the order in which a pattern completes them.

## Main definitions

* `Bound.fault?` — the fault of a pair of bounds.
* `Node.faults`, `Chain.faults` — the faults of a tree, in order.
-/

namespace PatternTree

/-- The fault of the range from `start` to `stop`, if it is inverted. -/
def rangeFault? (start stop : Char) : Option Cause :=
  if stop < start then some (.invertedRange start stop) else none

/-- The fault of the bounds from `min` to `max`, if they are inverted. -/
def Bound.fault? (min : UInt32) (max : Bound) : Option Cause :=
  match max with
  | .bounded n => if n < min then some (.invertedBounds min n) else none
  | .unbounded => none

mutual

/-- The faults of a node and of everything below it, in order. -/
def Node.faults : Node → List Cause
  | .empty | .dot | .literal _ => []
  | .range start stop => (rangeFault? start stop).toList
  | .complement inner => inner.faults
  | .alternation branches => Chain.faultsAll branches
  | .repetition inner min max => inner.faults ++ (Bound.fault? min max).toList

/-- The faults of a chain, in order. -/
def Chain.faults : Chain → List Cause
  | .last n => n.faults
  | .link n next => n.faults ++ next.faults

/-- The faults of a list of chains, in order. -/
def Chain.faultsAll : List Chain → List Cause
  | [] => []
  | c :: cs => c.faults ++ Chain.faultsAll cs

end

end PatternTree
