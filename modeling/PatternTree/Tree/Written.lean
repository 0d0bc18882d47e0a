import PatternTree.Tree.Class
/-!
# Pattern trees as patterns

Every tree has one written form. A character has a backslash in front of it, whether it needs one or
not, and a repetition gives its bounds in braces. An alternation of characters and ranges is written
as a class, any other alternation as a group, and the outermost alternation without parentheses.

## Main definitions

* `Node.written`, `Chain.written` — a part of a tree as a part of a pattern.
* `Chain.pattern` — the pattern of a tree.
-/

namespace PatternTree

/-- A character or a range as an entry of a class. -/
def Node.entry : Node → List Char
  | .literal c => ['\\', c]
  | .range start stop => ['\\', start, '-', '\\', stop]
  | _ => []

/-- The branches of an alternation as the entries of a class. -/
def Node.entries : Node → List Char
  | .alternation branches => branches.flatMap fun c => c.head.entry
  | _ => []

/-- The bounds of a repetition between braces. -/
def Bound.written (min : UInt32) (max : Bound) : List Char :=
  let top := match max with
    | .bounded n => Nat.toDigits 10 n.toNat
    | .unbounded => []
  '{' :: Nat.toDigits 10 min.toNat ++ ',' :: top ++ ['}']

mutual

/-- A node as a part of a pattern. -/
def Node.written : Node → List Char
  | .empty => ['(', ')']
  | .dot => ['.']
  | .literal c => ['\\', c]
  | .range start stop => '[' :: (Node.range start stop).entry ++ [']']
  | .complement inner => '[' :: '^' :: inner.head.entries ++ [']']
  | .alternation branches =>
    if (Node.alternation branches).isClass then '[' :: (Node.alternation branches).entries ++ [']']
    else '(' :: Chain.writtenAll branches ++ [')']
  | .repetition inner min max => inner.written ++ max.written min

/-- A chain as a part of a pattern. -/
def Chain.written : Chain → List Char
  | .last n => n.written
  | .link n next => n.written ++ next.written

/-- The branches of an alternation with bars between them. -/
def Chain.writtenAll : List Chain → List Char
  | [] => []
  | [c] => c.written
  | c :: cs => c.written ++ '|' :: Chain.writtenAll cs

end

/-- The pattern of a tree. -/
def Chain.pattern (c : Chain) : String :=
  String.ofList <|
    match c with
    | .last (.alternation branches) => Chain.writtenAll branches
    | c => c.written

end PatternTree
