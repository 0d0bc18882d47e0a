import PatternTree.Tree.Basic
/-!
# Equality of pattern trees

Two chains are compared node by node, side by side, and a chain that ends before the other is not
equal to it. Two nodes are compared by their kind and by everything that stands below them.

## Main definitions

* `Node.beq`, `Chain.beq`, `Chain.beqAll` — the comparison, for nodes, chains and lists of chains.

## Main results

* `LawfulBEq Chain`, `LawfulBEq Node` — the comparison decides equality of trees.
-/

namespace PatternTree

mutual

/-- Compares two nodes. -/
def Node.beq : Node → Node → Bool
  | .empty, .empty => true
  | .dot, .dot => true
  | .literal c, .literal d => c == d
  | .range a b, .range c d => a == c && b == d
  | .complement c, .complement d => c.beq d
  | .alternation bs, .alternation cs => Chain.beqAll bs cs
  | .repetition c m x, .repetition d n y => m == n && x == y && c.beq d
  | _, _ => false

/-- Compares two chains node by node. -/
def Chain.beq : Chain → Chain → Bool
  | .last a, .last b => a.beq b
  | .link a r, .link b s => a.beq b && r.beq s
  | _, _ => false

/-- Compares two lists of chains. -/
def Chain.beqAll : List Chain → List Chain → Bool
  | [], [] => true
  | b :: bs, c :: cs => b.beq c && Chain.beqAll bs cs
  | _, _ => false

end

instance : BEq Node := ⟨Node.beq⟩

instance : BEq Chain := ⟨Chain.beq⟩

mutual

theorem Node.eq_of_beq {m n : Node} (h : m.beq n = true) : m = n := by
  cases m <;> cases n <;> simp_all [Node.beq]
  · exact Chain.eq_of_beq h
  · exact Chain.eq_of_beqAll h
  · exact Chain.eq_of_beq h.2

theorem Chain.eq_of_beq {c d : Chain} (h : c.beq d = true) : c = d := by
  cases c <;> cases d <;> simp_all [Chain.beq]
  · exact Node.eq_of_beq h
  · exact ⟨Node.eq_of_beq h.1, Chain.eq_of_beq h.2⟩

theorem Chain.eq_of_beqAll {bs cs : List Chain} (h : Chain.beqAll bs cs = true) : bs = cs := by
  cases bs <;> cases cs <;> simp_all [Chain.beqAll]
  exact ⟨Chain.eq_of_beq h.1, Chain.eq_of_beqAll h.2⟩

end

mutual

theorem Node.beq_self : ∀ n : Node, n.beq n = true
  | .empty | .dot => rfl
  | .literal _ | .range _ _ => by simp [Node.beq]
  | .complement c => by rw [Node.beq, Chain.beq_self c]
  | .alternation bs => by rw [Node.beq, Chain.beqAll_self bs]
  | .repetition c _ _ => by simp [Node.beq, Chain.beq_self c]

theorem Chain.beq_self : ∀ c : Chain, c.beq c = true
  | .last n => by rw [Chain.beq, Node.beq_self n]
  | .link n next => by rw [Chain.beq, Node.beq_self n, Chain.beq_self next, Bool.and_self]

theorem Chain.beqAll_self : ∀ bs : List Chain, Chain.beqAll bs bs = true
  | [] => rfl
  | b :: bs => by rw [Chain.beqAll, Chain.beq_self b, Chain.beqAll_self bs, Bool.and_self]

end

instance : LawfulBEq Node where
  eq_of_beq := Node.eq_of_beq
  rfl := Node.beq_self _

instance : LawfulBEq Chain where
  eq_of_beq := Chain.eq_of_beq
  rfl := Chain.beq_self _

instance : DecidableEq Node := fun m n => decidable_of_iff (m == n) beq_iff_eq

instance : DecidableEq Chain := fun c d => decidable_of_iff (c == d) beq_iff_eq

end PatternTree
