/-!
# Pattern trees

A pattern is read into a tree. A `Node` is what stands at one place of a pattern; a `Chain` is one
or more nodes that follow one another, so concatenation has no node of its own. An alternation holds
one chain per branch, and a character class is an alternation of single characters and ranges.

Nothing is assumed of a tree beyond its shape: an alternation may have no branches, a complement
may stand over any chain, and ranges and bounds may be inverted.

## Main definitions

* `Bound`, `Node`, `Chain` — the trees.
* `Chain.nodes` — the nodes of a chain in order; `Chain.foldl` runs over them in constant stack.
* `Chain.prepend` — puts nodes in front of a chain.
* `Chain.append` — puts one chain behind another.
* `Chain.followedBy`, `Chain.alone` — replace or drop what follows the first node.
* `Chain.branch?`, `Chain.inner?`, `Chain.suffix?` — take a tree apart.
-/

namespace PatternTree

/-- The upper bound of a repetition. -/
inductive Bound where
  /-- At most `n` times. -/
  | bounded (n : UInt32)
  /-- Any number of times. -/
  | unbounded
deriving DecidableEq, Repr

mutual

/-- What stands at one place of a pattern. -/
inductive Node where
  /-- The empty text. -/
  | empty
  /-- Any one character. -/
  | dot
  /-- The character `c`. -/
  | literal (c : Char)
  /-- One character from `start` to `stop`, both included. -/
  | range (start stop : Char)
  /-- One character that `inner` does not match. -/
  | complement (inner : Chain)
  /-- One of the branches. -/
  | alternation (branches : List Chain)
  /-- The chain `inner`, at least `min` times and at most `max` times. -/
  | repetition (inner : Chain) (min : UInt32) (max : Bound)

/-- Nodes that follow one another; a chain is never empty. -/
inductive Chain where
  /-- A node that nothing follows. -/
  | last (node : Node)
  /-- A node and what follows it. -/
  | link (node : Node) (next : Chain)

end

instance : Inhabited Node := ⟨.empty⟩

instance : Inhabited Chain := ⟨.last .empty⟩

namespace Chain

/-! ### The nodes of a chain -/

/-- The nodes of a chain, first node first. -/
def nodes : Chain → List Node
  | last n => [n]
  | link n next => n :: next.nodes

/-- Folds `f` over the nodes of a chain, first node first. -/
@[specialize] def foldl {β : Type} (f : β → Node → β) (b : β) : Chain → β
  | last n => f b n
  | link n next => next.foldl f (f b n)

/-- The number of nodes of a chain. -/
def length (c : Chain) : Nat :=
  c.foldl (fun k _ => k + 1) 0

/-- Puts nodes in front of a chain. They are given latest first: the first of the list ends up next
to the chain. -/
def prepend (before : List Node) (c : Chain) : Chain :=
  before.foldl (fun next n => link n next) c

/-- The nodes of `c` and then those of `d`. -/
def append : (c d : Chain) → Chain
  | last n, d => link n d
  | link n next, d => link n (next.append d)

instance : Append Chain := ⟨append⟩

@[simp] theorem nodes_last (n : Node) : (last n).nodes = [n] := rfl

@[simp] theorem nodes_link (n : Node) (next : Chain) :
    (link n next).nodes = n :: next.nodes := rfl

theorem foldl_eq {β : Type} (f : β → Node → β) : ∀ (c : Chain) (b : β),
    c.foldl f b = c.nodes.foldl f b
  | last _, _ => rfl
  | link n next, b => foldl_eq f next (f b n)

@[simp] theorem length_eq (c : Chain) : c.length = c.nodes.length := by
  rw [length, foldl_eq, List.foldl_add_const, Nat.one_mul, Nat.zero_add]

@[simp] theorem nodes_prepend (before : List Node) (c : Chain) :
    (prepend before c).nodes = before.reverse ++ c.nodes := by
  induction before generalizing c with
  | nil => rfl
  | cons n before ih =>
    change (prepend before (link n c)).nodes = _
    rw [ih, nodes_link, List.reverse_cons, List.append_assoc, List.singleton_append]

@[simp] theorem nodes_append : ∀ c d : Chain, (c ++ d).nodes = c.nodes ++ d.nodes
  | last _, _ => rfl
  | link n next, d => congrArg (n :: ·) (nodes_append next d)

/-- A chain is determined by its nodes. -/
theorem nodes_injective : ∀ {c d : Chain}, c.nodes = d.nodes → c = d
  | last _, last _, h => by rw [List.head_eq_of_cons_eq h]
  | last _, link _ (last _), h => by simp at h
  | last _, link _ (link _ _), h => by simp at h
  | link _ (last _), last _, h => by simp at h
  | link _ (link _ _), last _, h => by simp at h
  | link _ _, link _ _, h => by
    rw [nodes_link, nodes_link, List.cons.injEq] at h
    rw [h.1, nodes_injective h.2]

/-! ### Taking chains and trees apart -/

/-- The first node. -/
def head : Chain → Node
  | last n => n
  | link n _ => n

/-- What follows the first node, if anything does. -/
def next? : Chain → Option Chain
  | last _ => none
  | link _ next => some next

/-- The first node of `c`, followed by `next` in place of what followed it before. -/
def followedBy (c next : Chain) : Chain :=
  link c.head next

/-- The first node on its own. -/
def alone (c : Chain) : Chain :=
  last c.head

/-- The chain from its `k`-th node on, counted from 0. -/
def suffix? : Nat → Chain → Option Chain
  | 0, c => some c
  | _ + 1, last _ => none
  | k + 1, link _ next => next.suffix? k

/-- The `i`-th branch, counted from 0, of the alternation that the chain starts with. -/
def branch? (c : Chain) (i : Nat) : Option Chain :=
  match c.head with
  | .alternation branches => branches[i]?
  | _ => none

/-- What the complement or repetition stands over that the chain starts with. -/
def inner? (c : Chain) : Option Chain :=
  match c.head with
  | .complement inner => some inner
  | .repetition inner _ _ => some inner
  | _ => none

end Chain

end PatternTree
