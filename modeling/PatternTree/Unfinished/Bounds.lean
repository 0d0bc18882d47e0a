import PatternTree.Cursor
import PatternTree.Options
import PatternTree.Tree.Basic
import PatternTree.Unfinished.Progress
/-!
# Bounds of which a part has been read

The bounds of a quantifier are written `{n}`, `{n,}` or `{n,m}` with decimal numbers. Leading zeros
are allowed, and a number has to fit 32 bits; it is refused at the digit that makes it too large,
and the fault points at its first digit.

## Main definitions

* `DigitRun` — the digits of a number, as far as they have been read.
* `UnfinishedBounds` — what has been read behind a brace.
* `UnfinishedBounds.step` — reads one more character.
* `UnfinishedBounds.read` — reads up to the brace that closes the bounds.
-/

namespace PatternTree

/-- The value of a decimal digit. -/
def digit? (c : Char) : Option Nat :=
  if c.isDigit then some (c.toNat - '0'.toNat) else none

/-- Decimal digits that have been read in a row. -/
structure DigitRun where
  /-- The offset of the first digit. -/
  start : Nat
  /-- The value of the digits. -/
  value : UInt32
deriving DecidableEq, Repr

/-- The run of digits `run?`, if one has begun, with the digit `d` at `offset` behind it. -/
def DigitRun.extend (run? : Option DigitRun) (offset d : Nat) : Except SyntaxError DigitRun :=
  match run? with
  | none => .ok ⟨offset, .ofNat d⟩
  | some run =>
    let value := 10 * run.value.toNat + d
    if value < UInt32.size then .ok ⟨run.start, .ofNat value⟩
    else .error ⟨.malformedQuantifier, run.start⟩

/-- What has been read of the bounds of a quantifier. -/
structure UnfinishedBounds where
  /-- The offset of the brace. -/
  brace : Nat
  /-- The lower bound, once the comma behind it has been read. -/
  min? : Option UInt32 := none
  /-- The digits of the number that is being read, once one has been read. -/
  run? : Option DigitRun := none
deriving DecidableEq, Repr

namespace UnfinishedBounds

/-- Ends the bounds from `min` to the number that has been read, or without an upper bound if there
is none. -/
def close (o : Options) (b : UnfinishedBounds) (min : UInt32) :
    Except SyntaxError (UInt32 × Bound) :=
  match b.run? with
  | none => .ok (min, .unbounded)
  | some run =>
    if o.rejectInverted && run.value < min then .error ⟨.invertedBounds min run.value, b.brace⟩
    else .ok (min, .bounded run.value)

/-- Reads the character `c`, which stands at `offset`. -/
def step (o : Options) (b : UnfinishedBounds) (offset : Nat) (c : Char) :
    Except SyntaxError (Progress UnfinishedBounds (UInt32 × Bound)) :=
  match digit? c with
  | some d => do
    let run ← DigitRun.extend b.run? offset d
    return .going { b with run? := some run }
  | none =>
    match b.min?, b.run? with
    | none, none => .error ⟨.malformedQuantifier, offset⟩
    | none, some run =>
      if c = ',' then .ok (.going { b with min? := some run.value, run? := none })
      else if c = '}' then .ok (.done (run.value, .bounded run.value))
      else .error ⟨.malformedQuantifier, offset⟩
    | some min, _ =>
      if c = '}' then do return .done (← b.close o min)
      else .error ⟨.malformedQuantifier, offset⟩

/-- Reads the bounds in the text `p`, the first character of which stands at `offset`, up to the
brace that closes them. The result comes with the place behind that brace. -/
def read (o : Options) : UnfinishedBounds → (offset : Nat) → (p : List Char) →
    Except SyntaxError ((UInt32 × Bound) × Cursor)
  | _, offset, [] => .error ⟨.malformedQuantifier, offset⟩
  | b, offset, c :: p => do
    match ← b.step o offset c with
    | .going b => read o b (offset + c.utf8Size) p
    | .done bounds => return (bounds, ⟨p, offset + c.utf8Size⟩)

end UnfinishedBounds

end PatternTree
