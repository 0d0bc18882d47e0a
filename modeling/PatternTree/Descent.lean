import PatternTree.Unfinished.Pattern
/-!
# Reading patterns by recursive descent

A second way to read a pattern: a procedure for each part of the grammar, which calls those of the
parts inside. A union calls a branch for each of its branches, a branch calls an element for each of
its elements, an element is a class or an atom with its quantifiers, and an atom calls a union for
what a group holds. What is inside the brackets of a class and inside the braces of a quantifier
holds no group, and is read as it is elsewhere.

How deep the calls of `union` go is up to the pattern. The stack has room for some number of them,
and a run that needs more has no result. Each other procedure is given the one that reads what a
group holds. A loop ends when all characters have been read, since each turn takes at least one.

The procedures share a cursor and the counter of the levels of the groups around it. They leave a
trace of what they do, which nothing depends on: each call with the counter as it found it, each
return from a call with the counter as it is then, the groups that are opened and closed, and the
counts that are raised and lowered.

## Main definitions

* `Descent.Event` — what the procedures do, as far as it is traced.
* `Descent.activeCalls`, `Descent.openGroups` — the calls and groups that a trace leaves open.
* `Descent.unions` — how many of some calls are calls of `union`.
* `Descent` — the type of procedures, and `Descent.run`, which runs one.
* `Descent.atom`, `Descent.single`, `Descent.element`, `Descent.branch`, `Descent.union` — the
  procedures.
* `Descent.pattern` — reads a whole pattern.
-/

namespace PatternTree

namespace Descent

/-- The procedures that call one another. -/
inductive Procedure where
  | union
  | branch
  | element
  | single
  | atom
deriving DecidableEq, Repr

/-- A call of a procedure. -/
structure Call where
  /-- What is called. -/
  procedure : Procedure
  /-- The offset of the next character at the call. -/
  offset : Nat
  /-- The counter at the call. -/
  depth : UInt32
deriving DecidableEq, Repr

/-- What the procedures do, as far as it is traced. -/
inductive Event where
  /-- A procedure is called. -/
  | called (call : Call)
  /-- The innermost call returns a result, with the counter at `depth`. -/
  | returned (depth : UInt32)
  /-- A group is opened: its parenthesis has been read, and the next character is not the one that
  would close it. -/
  | opened
  /-- A group is closed: its closing parenthesis has been read. -/
  | closed
  /-- A count that stands at `level` is raised by one. -/
  | raised (level : UInt32)
  /-- A count that stands at `level` is lowered by one. -/
  | lowered (level : UInt32)
deriving DecidableEq, Repr

/-- The calls that have not returned after the events of a trace, innermost first. A trace has its
latest event first. -/
def activeCalls : List Event → List Call
  | [] => []
  | .called call :: trace => call :: activeCalls trace
  | .returned _ :: trace => (activeCalls trace).tail
  | _ :: trace => activeCalls trace

/-- The number of calls of `union` among some calls. -/
def unions (calls : List Call) : Nat :=
  calls.countP fun call => call.procedure = .union

/-- The number of groups that have been opened and not closed after the events of a trace. -/
def openGroups : List Event → Nat
  | [] => 0
  | .opened :: trace => openGroups trace + 1
  | .closed :: trace => openGroups trace - 1
  | _ :: trace => openGroups trace

/-- What the procedures share. -/
structure State where
  /-- The place in the pattern. -/
  cursor : Cursor
  /-- The counter: the level of the innermost open group. -/
  depth : UInt32 := 0
  /-- The events so far, latest first. -/
  trace : List Event := []
deriving DecidableEq, Repr

end Descent

/-- A procedure that reads a part of a pattern, or finds a fault. -/
abbrev Descent :=
  ExceptT SyntaxError (StateT Descent.State Option)

namespace Descent

variable {α β : Type}

/-- The result of a procedure that is called in the state `d`, with the state that it leaves; none
if there is no result. -/
def run (m : Descent α) (d : State) : Option (Except SyntaxError α × State) :=
  (ExceptT.run m).run d

/-! ### Reading characters -/

/-- The offset of the next character. -/
def position : Descent Nat := do
  return (← get).cursor.position

/-- Fails at the next character. -/
def fail (cause : Cause) : Descent α := do
  throw ⟨cause, ← position⟩

/-- Reads the next character, or fails at the end of the pattern. -/
def next : Descent Char := do
  let (c, cursor) ← (← get).cursor.next
  modify fun d => { d with cursor }
  return c

/-- Reads the next character if it is one of `allowed`. -/
def nextIn? (allowed : List Char) : Descent (Option Char) := do
  match (← get).cursor.nextIn? allowed with
  | none => return none
  | some (c, cursor) =>
    modify fun d => { d with cursor }
    return some c

/-- Reads the next character if it is `c`, and says whether it was. -/
def skip (c : Char) : Descent Bool := do
  return (← nextIn? [c]).isSome

/-- Reads the rest of a class whose opening bracket stands at `bracket`. -/
def inClass (o : Options) (bracket : Nat) : Descent Node := do
  let d ← get
  let (n, cursor) ← UnfinishedClass.read o { bracket } d.cursor.position d.cursor.rest
  modify fun d => { d with cursor }
  return n

/-- Reads the rest of the bounds of a quantifier whose brace stands at `brace`. -/
def inBounds (o : Options) (brace : Nat) : Descent (UInt32 × Bound) := do
  let d ← get
  let (bounds, cursor) ← UnfinishedBounds.read o { brace } d.cursor.position d.cursor.rest
  modify fun d => { d with cursor }
  return bounds

/-! ### Calls, levels and groups -/

/-- Traces an event. -/
def log (event : Event) : Descent Unit :=
  modify fun d => { d with trace := event :: d.trace }

/-- Begins a procedure. -/
def enter (procedure : Procedure) : Descent Unit := do
  let d ← get
  log (.called ⟨procedure, d.cursor.position, d.depth⟩)

/-- Ends a procedure with the result `a`. -/
def leave (a : α) : Descent α := do
  log (.returned (← get).depth)
  return a

/-- Raises the counter by one. -/
def raise : Descent Unit := do
  log (.raised (← get).depth)
  modify fun d => { d with depth := d.depth + 1 }

/-- Lowers the counter by one. -/
def lower : Descent Unit := do
  log (.lowered (← get).depth)
  modify fun d => { d with depth := d.depth - 1 }

/-- Opens the group whose parenthesis stands at `paren`. -/
def openGroup (o : Options) (paren : Nat) : Descent Unit := do
  log .opened
  raise
  checkLevel o (← get).depth paren

/-- Closes the group that holds the branches of `n`. The counter is lowered even if the parenthesis
is missing. -/
def closeGroup (n : Node) : Descent Node := do
  lower
  if ← skip ')' then
    log .closed
    return n
  else
    fail .unterminatedGroup

/-! ### Loops -/

/-- Ends without a result: there is no room for what comes next. -/
def overrun : Descent α :=
  liftM (none : Option α)

/-- Takes turns from `b` on until one of them gives a result, at most `turns` of them. -/
def iterate (turn : β → Descent (β ⊕ α)) : (turns : Nat) → β → Descent α
  | 0, _ => overrun
  | turns + 1, b => do
    match ← turn b with
    | .inl b => iterate turn turns b
    | .inr a => return a

/-- Takes turns from `b` on until one of them gives a result. All turns but the last one take a
character. -/
def loop (turn : β → Descent (β ⊕ α)) (b : β) : Descent α := do
  iterate turn ((← get).cursor.rest.length + 1) b

/-! ### Quantifiers -/

/-- Reads what is left of a quantifier that begins with `c` at `offset`. -/
def bounds (o : Options) (offset : Nat) (c : Char) : Descent (UInt32 × Bound) :=
  match quantifier? c with
  | some bounds => return bounds
  | none => inBounds o offset

/-- Reads a quantifier of `n`, which has taken the levels up to `level`, or ends with `n`. -/
def quantifier (o : Options) (n : Node) (level : UInt32) : Descent ((Node × UInt32) ⊕ Node) := do
  let offset ← position
  let some c ← nextIn? ['?', '*', '+', '{'] | return .inr n
  log (.raised level)
  checkLevel o (level + 1) offset
  let (min, max) ← bounds o offset c
  return .inl (.repetition (.last n) min max, level + 1)

/-- Reads the quantifiers behind the element `n`. -/
def quantifiers (o : Options) (n : Node) : Descent Node := do
  loop (fun (n, level) => quantifier o n level) (n, (← get).depth)

/-! ### Procedures -/

section

variable (o : Options) (inner : Descent Node)

/-- Reads the rest of a group whose parenthesis stands at `paren`. -/
def group (paren : Nat) : Descent Node := do
  if ← skip ')' then
    return .empty
  else
    openGroup o paren
    let n ← inner
    closeGroup n

/-- Reads a dot, a group or a character. -/
def atom : Descent Node := do
  enter .atom
  if ← skip '.' then
    leave .dot
  else
    let paren ← position
    if ← skip '(' then
      leave (← group o inner paren)
    else
      let _ ← skip '\\'
      leave (.literal (← next))

/-- Reads a class or an atom. -/
def single : Descent Node := do
  enter .single
  let bracket ← position
  if ← skip '[' then
    leave (← inClass o bracket)
  else
    leave (← atom o inner)

/-- Reads an element with its quantifiers. -/
def element : Descent Node := do
  enter .element
  let n ← single o inner
  leave (← quantifiers o n)

/-- Reads an element behind `n` and those in `done`, which are given latest first, or ends with all
of them. -/
def nextElement (done : List Node) (n : Node) : Descent ((List Node × Node) ⊕ Chain) := do
  let d ← get
  if d.cursor.hasNext && !d.cursor.peekIn [')', '|'] then
    return .inl (n :: done, ← element o inner)
  else
    return .inr (Chain.prepend done (.last n))

/-- Reads elements up to the end of a branch. The first one begins with any character. -/
def branch : Descent Chain := do
  enter .branch
  let n ← element o inner
  leave (← loop (fun (done, n) => nextElement o inner done n) ([], n))

/-- Reads a branch behind those in `done`, which are given latest first, or ends with all of
them. -/
def nextBranch (done : List Chain) : Descent (List Chain ⊕ List Chain) := do
  if ← skip '|' then
    return .inl ((← branch o inner) :: done)
  else
    return .inr done.reverse

end

/-- Reads branches and the bars between them. The stack has room for `stack` calls. -/
def union (o : Options) : (stack : Nat) → Descent Node
  | 0 => overrun
  | stack + 1 => do
    enter .union
    let c ← branch o (union o stack)
    let branches ← loop (nextBranch o (union o stack)) [c]
    leave (.alternation branches)

/-- Reads a whole pattern. -/
def pattern (o : Options) (stack : Nat) : Descent Chain := do
  let n ← union o stack
  if (← get).cursor.hasNext then
    fail .unmatchedClose
  else
    return .last n

end Descent

end PatternTree
