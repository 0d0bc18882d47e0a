import PatternTree.Tree.Basic
import PatternTree.Text.Quoted
import PatternTree.Text.Layout
/-!
# Pattern trees as constructor text

A chain is written as the list of its nodes between square brackets, a node as the name of its kind
with its parts, and an alternation as the list of its branches. An empty list is `[]` in every
layout.

## Main definitions

* `Bound.inspect`, `Chain.inspect` — a bound and a chain in a given layout.
-/

namespace PatternTree

/-- A bound as constructor text. -/
def Bound.inspect (l : Layout) : Bound → String
  | .bounded n => l.tuple "Bounded" (toString n.toNat)
  | .unbounded => "Unbounded"

mutual

/-- Writes a node behind `done`. -/
def Node.inspectOnto (l : Layout) (done : String) : Node → String
  | .empty => done ++ "Empty"
  | .dot => done ++ "Dot"
  | .literal c => done ++ l.tuple "Literal" (quotedChar c)
  | .range start stop =>
    done ++ l.record "CharRange" [("start", quotedChar start), ("end", quotedChar stop)]
  | .complement inner =>
    let done := l.openOnto .round (done ++ "Complement")
    l.closeOnto .round <| l.deeper.closeOnto .square <|
      inner.inspectNodesOnto l.deeper (l.deeper.openOnto .square done)
  | .alternation branches =>
    let done := l.openOnto .round (done ++ "Alternation")
    l.closeOnto .round <| Chain.inspectAllOnto l.deeper done branches
  | .repetition inner min max =>
    let done := l.openOnto .curly (done ++ "Repeat") ++ "node: "
    let done := l.deeper.closeOnto .square <|
      inner.inspectNodesOnto l.deeper (l.deeper.openOnto .square done)
    let done := l.nextOnto done ++ "min: " ++ toString min.toNat
    l.closeOnto .curly (l.nextOnto done ++ "max: " ++ max.inspect l.deeper)

/-- Writes the nodes of a chain behind `done`, as items of a list of layout `l`. -/
def Chain.inspectNodesOnto (l : Layout) (done : String) : Chain → String
  | .last n => n.inspectOnto l.deeper done
  | .link n next => next.inspectNodesOnto l (l.nextOnto (n.inspectOnto l.deeper done))

/-- Writes a list of chains behind `done`. -/
def Chain.inspectAllOnto (l : Layout) (done : String) : List Chain → String
  | [] => done ++ "[]"
  | c :: cs =>
    let done := l.deeper.openOnto .square (l.openOnto .square done)
    let done := l.deeper.closeOnto .square (c.inspectNodesOnto l.deeper done)
    l.closeOnto .square (Chain.inspectMoreOnto l done cs)

/-- Writes the chains of a list of layout `l` that come after its first chain. -/
def Chain.inspectMoreOnto (l : Layout) (done : String) : List Chain → String
  | [] => done
  | c :: cs =>
    let done := l.deeper.openOnto .square (l.nextOnto done)
    let done := l.deeper.closeOnto .square (c.inspectNodesOnto l.deeper done)
    Chain.inspectMoreOnto l done cs

end

/-- A chain as constructor text. -/
def Chain.inspect (l : Layout) (c : Chain) : String :=
  l.closeOnto .square (c.inspectNodesOnto l (l.openOnto .square ""))

end PatternTree
