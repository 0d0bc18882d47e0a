import PatternTree.Text.Quoted
import PatternTree.Text.Layout
/-!
# Faults of a pattern

A pattern that cannot be read has a first fault: its cause, and the offset at which it was found.
Offsets count the bytes of the pattern in UTF-8.

## Main definitions

* `Cause`, `SyntaxError` — what is wrong, and where.
* `SyntaxError.message` — the sentence that reports a fault.
* `SyntaxError.inspect` — a fault as constructor text.
-/

namespace PatternTree

/-- What is wrong with a pattern. -/
inductive Cause where
  /-- A character is missing at the end. -/
  | unexpectedEnd
  /-- A character class is not closed. -/
  | unterminatedClass
  /-- A group is not closed. -/
  | unterminatedGroup
  /-- The bounds of a quantifier are not of the form `{n}`, `{n,}` or `{n,m}`, or too large. -/
  | malformedQuantifier
  /-- A character class has no entries. -/
  | emptyClass
  /-- A closing parenthesis has no group to close. -/
  | unmatchedClose
  /-- More levels are open than the limit allows. -/
  | nestLimitExceeded (limit : UInt32)
  /-- A range starts behind its end. -/
  | invertedRange (start stop : Char)
  /-- A repetition has a lower bound above its upper bound. -/
  | invertedBounds (min max : UInt32)
deriving DecidableEq, Repr

/-- A fault of a pattern. -/
structure SyntaxError where
  /-- What is wrong. -/
  cause : Cause
  /-- Where it was found. -/
  offset : Nat
deriving DecidableEq, Repr

namespace Cause

/-- The name of a kind of fault. -/
def name : Cause → String
  | unexpectedEnd => "UnexpectedEndOfInput"
  | unterminatedClass => "UnterminatedCharacterClass"
  | unterminatedGroup => "UnterminatedGroup"
  | malformedQuantifier => "MalformedQuantifier"
  | emptyClass => "EmptyCharacterClass"
  | unmatchedClose => "UnmatchedGroupClose"
  | nestLimitExceeded _ => "NestLimitExceeded"
  | invertedRange _ _ => "InvertedRange"
  | invertedBounds _ _ => "InvertedRepeat"

/-- What is wrong, in words. -/
def description : Cause → String
  | unexpectedEnd => "unexpected end of pattern"
  | unterminatedClass => "character class is missing its closing ']'"
  | unterminatedGroup => "group is missing its closing ')'"
  | malformedQuantifier => "malformed repetition quantifier"
  | emptyClass => "empty character class"
  | unmatchedClose => "unmatched ')'"
  | nestLimitExceeded limit => "pattern nests deeper than " ++ toString limit.toNat ++ " levels"
  | invertedRange start stop =>
    "character range " ++ quotedChar start ++ "-" ++ quotedChar stop ++ " is out of order"
  | invertedBounds min max =>
    "repetition \x7b" ++ toString min.toNat ++ "," ++ toString max.toNat ++
      "\x7d has min greater than max"

/-- The details of a fault, each with its name. -/
def details : Cause → List (String × String)
  | nestLimitExceeded limit => [("limit", toString limit.toNat)]
  | invertedRange start stop => [("start", quotedChar start), ("end", quotedChar stop)]
  | invertedBounds min max => [("min", toString min.toNat), ("max", toString max.toNat)]
  | _ => []

end Cause

namespace SyntaxError

/-- The sentence that reports a fault. -/
def message (e : SyntaxError) : String :=
  e.cause.description ++ " at offset " ++ toString e.offset

instance : ToString SyntaxError := ⟨message⟩

/-- A fault as constructor text. -/
def inspect (l : Layout) (e : SyntaxError) : String :=
  l.record e.cause.name (("offset", toString e.offset) :: e.cause.details)

end SyntaxError

end PatternTree
