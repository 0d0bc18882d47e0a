import PatternTree.SyntaxError
/-!
# Reading a text forward

A `Cursor` stands in a text, in front of the characters that are left. It moves forward only, one
character at a time, and its position is the offset in bytes, in UTF-8, of the next character.

## Main definitions

* `Cursor.ofString` — stands at the start of a text.
* `Cursor.next`, `Cursor.nextIn?`, `Cursor.skip?` — read a character: any one, one of a set, or a
  given one.
* `Cursor.peekIn` — looks at the next character without reading it.
* `Cursor.foldlM` — reads everything that is left.
-/

namespace PatternTree

/-- A place in a text. -/
structure Cursor where
  /-- The characters that are left. -/
  rest : List Char
  /-- The offset of the next character. -/
  position : Nat
deriving DecidableEq, Repr

namespace Cursor

/-- Stands at the start of `s`. -/
def ofString (s : String) : Cursor :=
  ⟨s.toList, 0⟩

/-- Whether a character is left. -/
def hasNext (cur : Cursor) : Bool :=
  !cur.rest.isEmpty

/-- Reads the next character, or fails at the end of the text. -/
def next (cur : Cursor) : Except SyntaxError (Char × Cursor) :=
  match cur.rest with
  | [] => .error ⟨.unexpectedEnd, cur.position⟩
  | c :: rest => .ok (c, ⟨rest, cur.position + c.utf8Size⟩)

/-- Reads the next character if it is one of `allowed`. -/
def nextIn? (cur : Cursor) (allowed : List Char) : Option (Char × Cursor) :=
  match cur.rest with
  | [] => none
  | c :: rest => if c ∈ allowed then some (c, ⟨rest, cur.position + c.utf8Size⟩) else none

/-- Whether the next character is one of `allowed`. -/
def peekIn (cur : Cursor) (allowed : List Char) : Bool :=
  (cur.nextIn? allowed).isSome

/-- Reads the next character if it is `c`. -/
def skip? (cur : Cursor) (c : Char) : Option Cursor :=
  (cur.nextIn? [c]).map (·.2)

/-- Reads every character that is left. Each is handed to `f` with its offset, and the result comes
with the offset of the end of the text. -/
@[specialize] def foldlM {σ ε : Type} (f : σ → Nat → Char → Except ε σ) (init : σ) (cur : Cursor) :
    Except ε (σ × Nat) :=
  cur.rest.foldlM (fun (s, offset) c => do return (← f s offset c, offset + c.utf8Size))
    (init, cur.position)

end Cursor

end PatternTree
