import PatternTree.Cursor
import PatternTree.Options
import PatternTree.Tree.Basic
import PatternTree.Unfinished.Progress
/-!
# Character classes of which a part has been read

A class is written `[…]`, or `[^…]` for its complement, with at least one entry between the
brackets. An entry is a character or a range `a-b`. A backslash takes the meaning from the character
behind it; without one, `]` ends the class wherever an entry could begin. A hyphen in front of the
closing bracket is an entry of its own.

## Main definitions

* `ClassFocus` — what comes next in a class.
* `UnfinishedClass` — what has been read of a class.
* `UnfinishedClass.step` — reads one more character.
* `UnfinishedClass.read` — reads up to the bracket that closes the class.
-/

namespace PatternTree

/-- What comes next in a class. The offsets are those at which the entry began that is being
read. -/
inductive ClassFocus where
  /-- The class has just been opened; a circumflex makes it a complement. -/
  | start
  /-- An entry, or the end of the class. -/
  | entry
  /-- The character behind the backslash that begins an entry. -/
  | escape (offset : Nat)
  /-- A hyphen, or whatever follows the entry `c`. -/
  | single (offset : Nat) (c : Char)
  /-- The end of a range that starts with `c`, or the end of the class. -/
  | hyphen (offset : Nat) (c : Char)
  /-- The character behind the backslash at the end of a range that starts with `c`. -/
  | hyphenEscape (offset : Nat) (c : Char)
deriving DecidableEq, Repr

/-- What has been read of a class. -/
structure UnfinishedClass where
  /-- The offset of the opening bracket. -/
  bracket : Nat
  /-- Whether the class is a complement. -/
  negated : Bool := false
  /-- The entries that are complete, latest first. -/
  entries : List Node := []
  /-- What comes next. -/
  focus : ClassFocus := .start

namespace UnfinishedClass

/-- The node of a class with the entries read so far. -/
def node (k : UnfinishedClass) : Node :=
  let union := .alternation (k.entries.reverse.map .last)
  if k.negated then .complement (.last union) else union

/-- Adds an entry; another one may follow. -/
def add (k : UnfinishedClass) (entry : Node) : UnfinishedClass :=
  { k with entries := entry :: k.entries, focus := .entry }

/-- Adds the range from `start` to `stop` as an entry that began at `offset`. -/
def addRange (o : Options) (k : UnfinishedClass) (offset : Nat) (start stop : Char) :
    Except SyntaxError UnfinishedClass :=
  if o.rejectInverted && stop < start then .error ⟨.invertedRange start stop, offset⟩
  else .ok (k.add (.range start stop))

/-- Reads `c` where an entry could begin. -/
def beginEntry (k : UnfinishedClass) (offset : Nat) (c : Char) :
    Except SyntaxError (Progress UnfinishedClass Node) :=
  if c = ']' then
    if k.entries.isEmpty then .error ⟨.emptyClass, k.bracket⟩ else .ok (.done k.node)
  else if c = '\\' then .ok (.going { k with focus := .escape offset })
  else .ok (.going { k with focus := .single offset c })

/-- Reads the character `c`, which stands at `offset`. -/
def step (o : Options) (k : UnfinishedClass) (offset : Nat) (c : Char) :
    Except SyntaxError (Progress UnfinishedClass Node) :=
  match k.focus with
  | .start =>
    if c = '^' then .ok (.going { k with negated := true, focus := .entry })
    else k.beginEntry offset c
  | .entry => k.beginEntry offset c
  | .escape start => .ok (.going { k with focus := .single start c })
  | .single start a =>
    if c = '-' then .ok (.going { k with focus := .hyphen start a })
    else (k.add (.literal a)).beginEntry offset c
  | .hyphen start a =>
    if c = ']' then .ok (.done ((k.add (.literal a)).add (.literal '-')).node)
    else if c = '\\' then .ok (.going { k with focus := .hyphenEscape start a })
    else do return .going (← k.addRange o start a c)
  | .hyphenEscape start a => do return .going (← k.addRange o start a c)

/-- What is wrong with a pattern that ends inside a class: the class is not closed, unless a
character is missing. -/
def endCause (k : UnfinishedClass) : Cause :=
  match k.focus with
  | .start | .entry | .single _ _ => .unterminatedClass
  | .escape _ | .hyphen _ _ | .hyphenEscape _ _ => .unexpectedEnd

/-- Reads the class in the text `p`, the first character of which stands at `offset`, up to the
bracket that closes it. The node comes with the place behind that bracket. -/
def read (o : Options) : UnfinishedClass → (offset : Nat) → (p : List Char) →
    Except SyntaxError (Node × Cursor)
  | k, offset, [] => .error ⟨k.endCause, offset⟩
  | k, offset, c :: p => do
    match ← k.step o offset c with
    | .going k => read o k (offset + c.utf8Size) p
    | .done n => return (n, ⟨p, offset + c.utf8Size⟩)

end UnfinishedClass

end PatternTree
