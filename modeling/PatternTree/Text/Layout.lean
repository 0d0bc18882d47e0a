/-!
# Layouts of bracketed text

A value is written as a name and a bracketed group of items. A `Layout` says how such a group is
spread: on one line, or with every item on a line of its own, indented by four blanks for each level
and followed by a comma. Nested groups are laid out one level deeper.

Text is built from left to right: the functions that end in `Onto` take what has been written and
add to its end.

## Main definitions

* `Layout`, `Bracket` — how a group is spread, and what surrounds it.
* `Layout.openOnto`, `Layout.nextOnto`, `Layout.closeOnto` — begin a group, go on to its next item,
  and end it.
* `Layout.tuple`, `Layout.record` — a name with one item, and a name with named fields.
-/

namespace PatternTree

/-- A text of `n` blanks. -/
def blanks (n : Nat) : String :=
  String.ofList (List.replicate n ' ')

/-- How a bracketed group is spread over lines. -/
inductive Layout where
  /-- Everything on one line. -/
  | compact
  /-- Every item on its own line; the group itself stands at the given level. -/
  | spread (level : Nat)
deriving DecidableEq, Repr

/-- The marks around a group. -/
structure Bracket where
  /-- What begins the group. -/
  opening : String
  /-- What ends the group. -/
  closing : String
  /-- What keeps the items of a group on one line apart from its marks. -/
  margin : String

namespace Bracket

/-- Marks around the items of a list. -/
def square : Bracket := ⟨"[", "]", ""⟩

/-- Marks around unnamed parts. -/
def round : Bracket := ⟨"(", ")", ""⟩

/-- Marks around named parts. -/
def curly : Bracket := ⟨" \x7b", "\x7d", " "⟩

end Bracket

namespace Layout

/-- The layout of a group inside a group of layout `l`. -/
def deeper : Layout → Layout
  | compact => compact
  | spread level => spread (level + 1)

/-- What separates two items of a group. -/
def separator : Layout → String
  | compact => ", "
  | spread level => ",\n" ++ blanks (4 * (level + 1))

/-- What stands between the opening mark of a group and its first item. -/
def lead (b : Bracket) : Layout → String
  | compact => b.margin
  | spread level => "\n" ++ blanks (4 * (level + 1))

/-- What stands between the final item of a group and its closing mark. -/
def trail (b : Bracket) : Layout → String
  | compact => b.margin
  | spread level => ",\n" ++ blanks (4 * level)

/-- Begins a group behind `done`. -/
def openOnto (l : Layout) (b : Bracket) (done : String) : String :=
  done ++ b.opening ++ l.lead b

/-- Goes on to the next item of the group at whose end `done` stands. -/
def nextOnto (l : Layout) (done : String) : String :=
  done ++ l.separator

/-- Ends the group at whose end `done` stands. -/
def closeOnto (l : Layout) (b : Bracket) (done : String) : String :=
  done ++ l.trail b ++ b.closing

/-- A name with one unnamed part. -/
def tuple (l : Layout) (name item : String) : String :=
  l.closeOnto .round (l.openOnto .round name ++ item)

/-- A name with named fields, each given with the text of its value. -/
def record (l : Layout) (name : String) (fields : List (String × String)) : String :=
  let items := fields.map fun (field, value) => field ++ ": " ++ value
  l.closeOnto .curly (l.openOnto .curly name ++ l.separator.intercalate items)

end Layout

end PatternTree
