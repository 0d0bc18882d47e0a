import PatternTree.Options
import PatternTree.Tree.Class
import PatternTree.Tree.Inverted
/-!
# Trees that a pattern can express

A pattern is always read as an alternation. Below it, a range stands in a class only, a complement
over a class only, and a repetition over a single node. A group and a quantifier each take a level,
and no level is beyond the limit of the options; a class takes no level. Strict options leave no
inverted range and no inverted bounds.

## Main definitions

* `Node.fits`, `Chain.fits` — whether a part of a tree can be read inside some groups.
* `Chain.expressible` — whether some pattern is read as the tree.
-/

namespace PatternTree

mutual

/-- Whether a node can be read inside `depth` groups when `quantifiers` quantifiers follow it. -/
def Node.fits (limit depth quantifiers : Nat) : Node → Bool
  | .empty | .dot | .literal _ => true
  | .range _ _ => false
  | .complement inner => inner.next?.isNone && inner.head.isClass
  | .alternation branches =>
    (Node.alternation branches).isClass ||
      depth + 1 ≤ limit && !branches.isEmpty && Chain.allFit limit (depth + 1) branches
  | .repetition inner _ _ =>
    depth + quantifiers + 1 ≤ limit && inner.next?.isNone &&
      inner.fits limit depth (quantifiers + 1)

/-- Whether each node of a chain can be read inside `depth` groups when `quantifiers` quantifiers
follow it. -/
def Chain.fits (limit depth quantifiers : Nat) : Chain → Bool
  | .last n => n.fits limit depth quantifiers
  | .link n next => n.fits limit depth quantifiers && next.fits limit depth quantifiers

/-- Whether each of some branches can be read inside `depth` groups. -/
def Chain.allFit (limit depth : Nat) : List Chain → Bool
  | [] => true
  | c :: cs => c.fits limit depth 0 && Chain.allFit limit depth cs

end

/-- Whether some pattern is read as the tree. -/
def Chain.expressible (o : Options) (c : Chain) : Bool :=
  (!o.rejectInverted || c.faults.isEmpty) &&
    match c with
    | .last (.alternation branches) =>
      !branches.isEmpty && Chain.allFit o.nestLimit.toNat 0 branches
    | _ => false

end PatternTree
