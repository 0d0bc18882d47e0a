import PatternTree.Unfinished.Bounds
import PatternTree.Unfinished.Class
/-!
# Patterns of which a part has been read

A pattern is read from left to right, one character at a time, and nothing is read twice. What has
been read is kept as an `UnfinishedPattern`: the branches and elements that are complete, in the
innermost open group and in each group around it, and a `Focus` that says what comes next.

Where a branch begins, every character begins an element, so `)`, `|` and the quantifiers stand for
themselves there; elsewhere they end the group, end the branch, and repeat the element before them.
A quantifier behind a quantifier repeats the repetition.

Levels are counted in 32 bits. A group takes one level for what it holds, and each quantifier of an
element takes one more level than the one before it, starting from the level of the group around.
Opening a level beyond the limit is a fault at the character that opens it. `()` takes no level.

## Main definitions

* `Frame` — what is complete of a group that is still open, or of the whole pattern.
* `Focus`, `UnfinishedPattern` — what has been read of a pattern.
* `UnfinishedPattern.step` — reads one more character.
* `UnfinishedPattern.finish` — the tree at the end of the pattern.
-/

namespace PatternTree

/-- What is complete of a group that is still open, or of the whole pattern. -/
structure Frame where
  /-- The branches before the current one, latest first. -/
  branches : List Chain := []
  /-- The elements of the current branch that nothing can be added to, latest first. -/
  elements : List Node := []

namespace Frame

/-- The branches up to the current one, latest first, when `n` is its final element. -/
def close (f : Frame) (n : Node) : List Chain :=
  Chain.prepend f.elements (.last n) :: f.branches

/-- The alternation of all branches when `n` is the final element. -/
def node (f : Frame) (n : Node) : Node :=
  .alternation (f.close n).reverse

end Frame

/-- What comes next in a pattern. -/
inductive Focus where
  /-- The first element of a branch. -/
  | branch
  /-- Whatever may follow the element `n`: a quantifier, another element, or the end of the branch.
  The element and its quantifiers have taken the levels up to `level`. -/
  | element (n : Node) (level : UInt32)
  /-- The character behind a backslash. -/
  | escape
  /-- What follows the parenthesis at `offset`. -/
  | group (offset : Nat)
  /-- The rest of a class. -/
  | inClass (k : UnfinishedClass)
  /-- The rest of the bounds of a quantifier of `n`, which has taken `level`. -/
  | inBounds (n : Node) (level : UInt32) (b : UnfinishedBounds)

/-- What has been read of a pattern. -/
structure UnfinishedPattern where
  /-- The frames around the innermost one, innermost first: one for each group that is open. -/
  outer : List Frame := []
  /-- The level of the innermost frame. -/
  depth : UInt32 := 0
  /-- The innermost frame. -/
  frame : Frame := {}
  /-- What comes next. -/
  focus : Focus := .branch

/-- Fails at `offset` if `level` is beyond the limit. -/
def checkLevel (o : Options) (level : UInt32) (offset : Nat) : Except SyntaxError Unit :=
  if o.nestLimit < level then .error ⟨.nestLimitExceeded o.nestLimit, offset⟩ else .ok ()

/-- The bounds that a quantifier of a single character stands for. -/
def quantifier? (c : Char) : Option (UInt32 × Bound) :=
  if c = '?' then some (0, .bounded 1)
  else if c = '*' then some (0, .unbounded)
  else if c = '+' then some (1, .unbounded)
  else none

namespace UnfinishedPattern

/-- Completes an element without quantifiers. -/
def complete (s : UnfinishedPattern) (n : Node) : UnfinishedPattern :=
  { s with focus := .element n s.depth }

/-- Reads `c`, which stands at `offset`, as the first character of an element. -/
def beginElement (s : UnfinishedPattern) (offset : Nat) (c : Char) : UnfinishedPattern :=
  if c = '.' then s.complete .dot
  else if c = '(' then { s with focus := .group offset }
  else if c = '[' then { s with focus := .inClass { bracket := offset } }
  else if c = '\\' then { s with focus := .escape }
  else s.complete (.literal c)

/-- Opens the group whose parenthesis stands at `offset`. -/
def openGroup (o : Options) (s : UnfinishedPattern) (offset : Nat) :
    Except SyntaxError UnfinishedPattern := do
  let depth := s.depth + 1
  checkLevel o depth offset
  return { outer := s.frame :: s.outer, depth }

/-- Closes the innermost group, whose final element is `n`, by a parenthesis at `offset`. -/
def closeGroup (s : UnfinishedPattern) (offset : Nat) (n : Node) :
    Except SyntaxError UnfinishedPattern :=
  match s.outer with
  | [] => .error ⟨.unmatchedClose, offset⟩
  | f :: outer =>
    .ok (complete { outer, depth := s.depth - 1, frame := f } (s.frame.node n))

/-- Begins a branch behind the current one, whose final element is `n`. -/
def nextBranch (s : UnfinishedPattern) (n : Node) : UnfinishedPattern :=
  { s with frame := { branches := s.frame.close n }, focus := .branch }

/-- Adds the element `n`, which has all its quantifiers. -/
def add (s : UnfinishedPattern) (n : Node) : UnfinishedPattern :=
  { s with frame := { s.frame with elements := n :: s.frame.elements } }

/-- Completes a repetition of `n` that has taken `level`. -/
def completeRepetition (s : UnfinishedPattern) (n : Node) (level : UInt32)
    (bounds : UInt32 × Bound) : UnfinishedPattern :=
  { s with focus := .element (.repetition (.last n) bounds.1 bounds.2) level }

/-- Reads `c`, which stands at `offset`, behind the element `n`. -/
def afterElement (o : Options) (s : UnfinishedPattern) (n : Node) (level : UInt32) (offset : Nat)
    (c : Char) : Except SyntaxError UnfinishedPattern :=
  if c = '|' then .ok (s.nextBranch n)
  else if c = ')' then s.closeGroup offset n
  else if c = '{' then do
    checkLevel o (level + 1) offset
    return { s with focus := .inBounds n (level + 1) { brace := offset } }
  else
    match quantifier? c with
    | some bounds => do
      checkLevel o (level + 1) offset
      return s.completeRepetition n (level + 1) bounds
    | none => .ok ((s.add n).beginElement offset c)

/-- Reads the character `c`, which stands at `offset`. -/
def step (o : Options) (s : UnfinishedPattern) (offset : Nat) (c : Char) :
    Except SyntaxError UnfinishedPattern :=
  match s.focus with
  | .branch => .ok (s.beginElement offset c)
  | .element n level => s.afterElement o n level offset c
  | .escape => .ok (s.complete (.literal c))
  | .group paren =>
    if c = ')' then .ok (s.complete .empty)
    else do return (← s.openGroup o paren).beginElement offset c
  | .inClass k => do
    match ← k.step o offset c with
    | .going k => return { s with focus := .inClass k }
    | .done n => return s.complete n
  | .inBounds n level b => do
    match ← b.step o offset c with
    | .going b => return { s with focus := .inBounds n level b }
    | .done bounds => return s.completeRepetition n level bounds

/-- The tree of a pattern that ends at `stop`. It is always an alternation, even of one branch. A
group that the end of the pattern leaves empty has been opened before it is missed. -/
def finish (o : Options) (s : UnfinishedPattern) (stop : Nat) : Except SyntaxError Chain :=
  match s.focus with
  | .element n _ =>
    if s.outer.isEmpty then .ok (.last (s.frame.node n)) else .error ⟨.unterminatedGroup, stop⟩
  | .branch | .escape => .error ⟨.unexpectedEnd, stop⟩
  | .group paren => do
    checkLevel o (s.depth + 1) paren
    throw ⟨.unexpectedEnd, stop⟩
  | .inClass k => .error ⟨k.endCause, stop⟩
  | .inBounds _ _ _ => .error ⟨.malformedQuantifier, stop⟩

end UnfinishedPattern

end PatternTree
