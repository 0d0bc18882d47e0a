import PatternTree.Tree.Basic
/-!
# Which trees match the empty text

A chain matches the empty text when each of its nodes does, an alternation when one of its branches
does, and a repetition when it may be left out or its inner chain does. A complement always takes
exactly one character, like the class that it stands over.

## Main definitions

* `Node.nullable`, `Chain.nullable` — whether a node, or a chain, can match the empty text.
-/

namespace PatternTree

mutual

/-- Whether a node, without what follows it, can match the empty text. -/
def Node.nullable : Node → Bool
  | .empty => true
  | .dot | .literal _ | .range _ _ | .complement _ => false
  | .alternation branches => Chain.anyNullable branches
  | .repetition inner min _ => min == 0 || inner.nullable

/-- Whether a chain can match the empty text. -/
def Chain.nullable : Chain → Bool
  | .last n => n.nullable
  | .link n next => n.nullable && next.nullable

/-- Whether one of the chains can match the empty text. -/
def Chain.anyNullable : List Chain → Bool
  | [] => false
  | c :: cs => c.nullable || Chain.anyNullable cs

end

theorem Chain.nullable_eq_all (c : Chain) : c.nullable = c.nodes.all Node.nullable := by
  cases c with
  | last n => rw [Chain.nullable, nodes_last, List.all_cons, List.all_nil, Bool.and_true]
  | link n next =>
    have ih := Chain.nullable_eq_all next
    rw [Chain.nullable, nodes_link, List.all_cons, ih]

end PatternTree
