import PatternTree.Tree.Basic
import PatternTree.Text.Quoted
import PatternTree.Text.Layout
/-!
# Outlines of pattern trees

The outline of a tree has one line per node, indented by two blanks for each level. The nodes of a
chain stand one below the other, what a node stands over is one level deeper, and each branch of an
alternation begins with a line of its own, below which the branch is one level deeper still:

    alternation
      branch
        literal 'a'
        repeat{0,inf}
          literal 'b'
      branch
        dot

## Main definitions

* `Bound.text` — a bound as it stands in an outline.
* `Chain.outline` — the outline of a chain, each line ended by a line feed.
-/

namespace PatternTree

/-- A bound as it stands in an outline. -/
def Bound.text : Bound → String
  | .bounded n => toString n.toNat
  | .unbounded => "inf"

/-- Adds a line to an outline. -/
def lineOnto (depth : Nat) (done line : String) : String :=
  done ++ blanks (2 * depth) ++ line ++ "\n"

mutual

/-- Adds the lines of a node to an outline. -/
def Node.outlineOnto (depth : Nat) (done : String) : Node → String
  | .empty => lineOnto depth done "empty"
  | .dot => lineOnto depth done "dot"
  | .literal c => lineOnto depth done ("literal " ++ quotedChar c)
  | .range start stop =>
    lineOnto depth done ("range " ++ quotedChar start ++ "-" ++ quotedChar stop)
  | .complement inner => inner.outlineOnto (depth + 1) (lineOnto depth done "complement")
  | .alternation branches =>
    Chain.outlineAllOnto (depth + 1) (lineOnto depth done "alternation") branches
  | .repetition inner min max =>
    inner.outlineOnto (depth + 1)
      (lineOnto depth done
        ("repeat\x7b" ++ toString min.toNat ++ "," ++ max.text ++ "\x7d"))

/-- Adds the lines of a chain to an outline. -/
def Chain.outlineOnto (depth : Nat) (done : String) : Chain → String
  | .last n => n.outlineOnto depth done
  | .link n next => next.outlineOnto depth (n.outlineOnto depth done)

/-- Adds the lines of the branches of an alternation to an outline. -/
def Chain.outlineAllOnto (depth : Nat) (done : String) : List Chain → String
  | [] => done
  | c :: cs =>
    Chain.outlineAllOnto depth (c.outlineOnto (depth + 1) (lineOnto depth done "branch")) cs

end

/-- The outline of a chain. -/
def Chain.outline (c : Chain) : String :=
  c.outlineOnto 0 ""

end PatternTree
