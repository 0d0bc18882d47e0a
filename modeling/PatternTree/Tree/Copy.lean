import PatternTree.Tree.Basic
/-!
# Copies of pattern trees

`Chain.copy` builds a tree again, node by node. The copies of the nodes of a chain are collected
first and linked from the end, so a chain of any length is copied in constant stack.

## Main definitions

* `Node.copy`, `Chain.copy`, `Chain.copyAll` — the copy of a node, a chain and a list of chains.
-/

namespace PatternTree

mutual

/-- A copy of a node and of everything below it. -/
def Node.copy : Node → Node
  | .empty => .empty
  | .dot => .dot
  | .literal c => .literal c
  | .range start stop => .range start stop
  | .complement inner => .complement (inner.copyOnto [])
  | .alternation branches => .alternation (Chain.copyAll branches)
  | .repetition inner min max => .repetition (inner.copyOnto []) min max

/-- Copies the nodes of a chain behind the nodes in `done`, which are given latest first. -/
def Chain.copyOnto (done : List Node) : Chain → Chain
  | .last n => Chain.prepend done (.last n.copy)
  | .link n next => next.copyOnto (n.copy :: done)

/-- Copies each chain of a list. -/
def Chain.copyAll : List Chain → List Chain
  | [] => []
  | c :: cs => c.copyOnto [] :: Chain.copyAll cs

end

/-- A copy of a chain and of everything below it. -/
def Chain.copy (c : Chain) : Chain :=
  c.copyOnto []

end PatternTree
