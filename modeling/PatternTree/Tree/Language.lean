import PatternTree.Tree.Basic
/-!
# Languages of pattern trees

What a tree matches is a set of texts. A chain matches what its nodes match one behind the other, an
alternation what one of its branches matches, and a repetition what its inner chain matches as many
times in a row as the bounds allow. A complement takes one character, and only one that is not, as a
text of its own, matched by what the complement stands over.

## Main definitions

* `Language`, `Language.join`, `Language.power` — sets of texts, their products and powers.
* `Bound.Allows` — which numbers of times a bound allows.
* `Node.language`, `Chain.language` — what a node, or a chain, matches.
-/

namespace PatternTree

/-- A set of texts. -/
abbrev Language := List Char → Prop

namespace Language

/-- A text of `l` and a text of `m` behind it. -/
def join (l m : Language) : Language :=
  fun w => ∃ u v, w = u ++ v ∧ l u ∧ m v

/-- The texts made of `n` texts of `l`, one behind the other. -/
def power (l : Language) : Nat → Language
  | 0 => fun w => w = []
  | n + 1 => l.join (l.power n)

end Language

/-- Whether an upper bound allows `n` times. -/
def Bound.Allows : Bound → Nat → Prop
  | .bounded max, n => n ≤ max.toNat
  | .unbounded, _ => True

mutual

/-- What a node matches, without what follows it. -/
def Node.language : Node → Language
  | .empty => fun w => w = []
  | .dot => fun w => ∃ c, w = [c]
  | .literal c => fun w => w = [c]
  | .range start stop => fun w => ∃ c, w = [c] ∧ start ≤ c ∧ c ≤ stop
  | .complement inner => fun w => ∃ c, w = [c] ∧ ¬ inner.language [c]
  | .alternation branches => Chain.languageAny branches
  | .repetition inner min max =>
    fun w => ∃ n, min.toNat ≤ n ∧ max.Allows n ∧ inner.language.power n w

/-- What a chain matches. -/
def Chain.language : Chain → Language
  | .last n => n.language
  | .link n next => n.language.join next.language

/-- What one of the chains matches. -/
def Chain.languageAny : List Chain → Language
  | [] => fun _ => False
  | c :: cs => fun w => c.language w ∨ Chain.languageAny cs w

end

end PatternTree
