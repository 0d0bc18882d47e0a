import PatternTree.Options
import PatternTree.Tree.Basic
/-!
# The grammar of patterns

The grammar says which texts are patterns and what tree each of them has, without saying how the
tree is found. Every relation holds between a part of a pattern and a part of a tree. Where a text
could be taken apart in two ways, the conditions of a rule leave one of them: a hyphen behind an
entry of a class makes a range unless the class ends behind it, a circumflex at the start of a class
makes a complement, and an opening parenthesis makes a group unless it is closed at once.

The relations of elements, branches and unions also say how many groups are open around the text,
and those of elements and branches whether it starts a branch, where fewer characters have a meaning
of their own.

## Main definitions

* `Numeral`, `Quantifier` — decimal numbers, and quantifiers with the bounds they stand for.
* `ClassChar`, `Entries`, `Class` — the parts of a character class.
* `Base`, `Element`, `Branch`, `Union` — the parts of a pattern.
* `Derives` — the trees of a whole pattern.
-/

namespace PatternTree

namespace Grammar

/-- The value of decimal digits. -/
def value (digits : List Char) : Nat :=
  digits.foldl (fun n d => 10 * n + (d.toNat - '0'.toNat)) 0

/-- One or more decimal digits whose value `n` fits 32 bits. -/
structure Numeral (digits : List Char) (n : UInt32) : Prop where
  /-- There is a digit. -/
  ne_nil : digits ≠ []
  /-- There is nothing but digits. -/
  isDigit : ∀ d ∈ digits, d.isDigit
  /-- The digits have the value `n`. -/
  value_eq : value digits = n.toNat

/-- A quantifier, and the bounds that it stands for. -/
inductive Quantifier (o : Options) : List Char → UInt32 → Bound → Prop
  | optional : Quantifier o ['?'] 0 (.bounded 1)
  | star : Quantifier o ['*'] 0 .unbounded
  | plus : Quantifier o ['+'] 1 .unbounded
  | exactly {p n} (h : Numeral p n) : Quantifier o ('{' :: p ++ ['}']) n (.bounded n)
  | atLeast {p n} (h : Numeral p n) : Quantifier o ('{' :: p ++ [',', '}']) n .unbounded
  | between {p q m n} (hp : Numeral p m) (hq : Numeral q n) (ordered : o.rejectInverted → m ≤ n) :
      Quantifier o ('{' :: p ++ ',' :: q ++ ['}']) m (.bounded n)

/-- A character in a class, alone or behind a backslash. -/
inductive ClassChar : List Char → Char → Prop
  | plain {c} (notEscape : c ≠ '\\') (notEnd : c ≠ ']') : ClassChar [c] c
  | escaped (c) : ClassChar ['\\', c] c

/-- The entries of a class. -/
inductive Entries (o : Options) : List Char → List Node → Prop
  | nil : Entries o [] []
  | single {p q c ns} (hp : ClassChar p c) (hq : Entries o q ns) (notRange : q.head? ≠ some '-') :
      Entries o (p ++ q) (.literal c :: ns)
  | range {p q r a b ns} (hp : ClassChar p a) (hq : ClassChar q b) (hr : Entries o r ns)
      (ordered : o.rejectInverted → a ≤ b) : Entries o (p ++ '-' :: q ++ r) (.range a b :: ns)
  | hyphen {p c} (hp : ClassChar p c) : Entries o (p ++ ['-']) [.literal c, .literal '-']

/-- A class. -/
inductive Class (o : Options) : List Char → Node → Prop
  | positive {p ns} (hp : Entries o p ns) (nonempty : ns ≠ []) (notNegated : p.head? ≠ some '^') :
      Class o ('[' :: p ++ [']']) (.alternation (ns.map .last))
  | negated {p ns} (hp : Entries o p ns) (nonempty : ns ≠ []) :
      Class o ('[' :: '^' :: p ++ [']']) (.complement (.last (.alternation (ns.map .last))))

mutual

/-- An element without quantifiers, inside `depth` groups, that starts a branch if `first` holds. -/
inductive Base (o : Options) : (depth : Nat) → (first : Bool) → List Char → Node → Prop
  | dot {depth first} : Base o depth first ['.'] .dot
  | empty {depth first} : Base o depth first ['(', ')'] .empty
  | group {depth first p cs} (hp : Union o (depth + 1) p cs) (notEmpty : p.head? ≠ some ')')
      (withinLimit : depth + 1 ≤ o.nestLimit.toNat) :
      Base o depth first ('(' :: p ++ [')']) (.alternation cs)
  | ofClass {depth first p n} (hp : Class o p n) : Base o depth first p n
  | escaped {depth first} (c) : Base o depth first ['\\', c] (.literal c)
  | plain {depth first c} (notSpecial : c ∉ ['.', '(', '[', '\\'])
      (notReserved : first = false → c ∉ [')', '|', '?', '*', '+', '{']) :
      Base o depth first [c] (.literal c)

/-- An element with its quantifiers, which take the levels from `depth` up to the last index. -/
inductive Element (o : Options) : (depth : Nat) → (first : Bool) → List Char → Node → Nat → Prop
  | base {depth first p n} (hp : Base o depth first p n) : Element o depth first p n depth
  | quantified {depth first p q n level min max} (hp : Element o depth first p n level)
      (hq : Quantifier o q min max) (withinLimit : level + 1 ≤ o.nestLimit.toNat) :
      Element o depth first (p ++ q) (.repetition (.last n) min max) (level + 1)

/-- One or more elements that follow one another. -/
inductive Branch (o : Options) : (depth : Nat) → (first : Bool) → List Char → Chain → Prop
  | last {depth first p n level} (hp : Element o depth first p n level) :
      Branch o depth first p (.last n)
  | link {depth first p q n level c} (hp : Element o depth first p n level)
      (hq : Branch o depth false q c) : Branch o depth first (p ++ q) (.link n c)

/-- One or more branches with bars between them. -/
inductive Union (o : Options) : (depth : Nat) → List Char → List Chain → Prop
  | last {depth p c} (hp : Branch o depth true p c) : Union o depth p [c]
  | more {depth p q c cs} (hp : Branch o depth true p c) (hq : Union o depth q cs) :
      Union o depth (p ++ '|' :: q) (c :: cs)

end

end Grammar

/-- Whether the pattern `p` has the tree `c`. -/
def Derives (o : Options) (p : String) (c : Chain) : Prop :=
  ∃ branches, Grammar.Union o 0 p.toList branches ∧ c = .last (.alternation branches)

end PatternTree
