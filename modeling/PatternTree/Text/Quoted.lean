import PatternTree.Text.Unprintable
/-!
# Quoted characters and texts

A character is quoted with `'` and a text with `"`. Inside quotes the null character, tab, line
feed, carriage return and the backslash have a letter or mark behind a backslash, and so has the
quote that surrounds them. An unprintable character is written by its number in hexadecimal.
Everything else stands for itself.

## Main definitions

* `escaped` — one character as it is written inside quotes.
* `quotedChar`, `quotedText` — a character and a text with their quotes.
-/

namespace PatternTree

/-- The number `n` in lower-case hexadecimal. -/
def hexadecimal (n : Nat) : String :=
  String.ofList (Nat.toDigits 16 n)

/-- The character `c` as it is written between two `quote` marks. -/
def escaped (quote c : Char) : String :=
  if c = '\x00' then "\\0"
  else if c = '\t' then "\\t"
  else if c = '\n' then "\\n"
  else if c = '\r' then "\\r"
  else if c = '\\' || c = quote then String.ofList ['\\', c]
  else if unprintable c then "\\u\x7b" ++ hexadecimal c.toNat ++ "\x7d"
  else String.singleton c

/-- A character between single quotes. -/
def quotedChar (c : Char) : String :=
  "'" ++ escaped '\x27' c ++ "'"

/-- A text between double quotes. -/
def quotedText (s : String) : String :=
  s.toList.foldl (fun done c => done ++ escaped '\x22' c) "\"" ++ "\""

end PatternTree
