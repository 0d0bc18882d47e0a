import Mathlib.Data.List.Forall2
import PatternTree.Tree.Equality
/-!
# Comparing pattern trees

Two trees are compared along their chains: the nodes that stand at the same place are compared with
each other, and none may be left over on either side. Two nodes are compared by their kind and by
all that stands below them, so the comparison finds a difference wherever it is, and trees that are
not told apart are one tree.

## Main results

* `Chain.beq_iff_forall₂`, `Chain.beqAll_iff_forall₂` — chains are compared node by node, and
  branches chain by chain.
* `Chain.beq_iff_eq_and_equivalence` — the comparison is equality of trees.
-/

namespace PatternTree

namespace Chain

theorem nodes_ne_nil (c : Chain) : c.nodes ≠ [] := by
  cases c <;> exact List.cons_ne_nil _ _

/-- Chains are compared node by node, up to the end of both. -/
theorem beq_iff_forall₂ : ∀ {c d : Chain},
    c.beq d = true ↔ List.Forall₂ (fun m n => m.beq n = true) c.nodes d.nodes
  | last m, last n => by simp [Chain.beq]
  | last m, link n s => by simp [Chain.beq, s.nodes_ne_nil]
  | link m r, last n => by simp [Chain.beq, r.nodes_ne_nil]
  | link m r, link n s => by simp [Chain.beq, beq_iff_forall₂ (c := r) (d := s)]

/-- The branches of alternations are compared one by one, up to the end of both. -/
theorem beqAll_iff_forall₂ {bs cs : List Chain} :
    beqAll bs cs = true ↔ List.Forall₂ (fun b c => b.beq c = true) bs cs := by
  induction bs generalizing cs with
  | nil => cases cs <;> simp [beqAll]
  | cons b bs ih => cases cs <;> simp [beqAll, ih]

/-- A chain that goes on behind another one is not that chain. -/
theorem append_ne (c d : Chain) : c ++ d ≠ c := by
  intro h
  have hnodes := congrArg nodes h
  rw [nodes_append, List.append_right_eq_self] at hnodes
  exact d.nodes_ne_nil hnodes

/-- The comparison goes along both chains, and along the branches of both alternations. It decides
equality of trees, so it is an equivalence, and it tells a tree from each that goes on behind it. -/
theorem beq_iff_eq_and_equivalence :
    (∀ c d : Chain,
      c.beq d = true ↔ List.Forall₂ (fun m n => m.beq n = true) c.nodes d.nodes) ∧
    (∀ bs cs : List Chain, (Node.alternation bs).beq (.alternation cs) = true ↔
      List.Forall₂ (fun b c => b.beq c = true) bs cs) ∧
    (∀ c d : Chain, c.beq d = true ↔ c = d) ∧
    Equivalence (fun c d : Chain => c.beq d = true) ∧
    ∀ c d : Chain, c.beq (c ++ d) = false ∧ (c ++ d).beq c = false := by
  have hiff (c d : Chain) : c.beq d = true ↔ c = d := ⟨eq_of_beq, fun h => h ▸ beq_self c⟩
  refine ⟨fun _ _ => beq_iff_forall₂, fun _ _ => ?_, hiff, ⟨?_, ?_, ?_⟩, fun c d => ⟨?_, ?_⟩⟩
  · rw [Node.beq]
    exact beqAll_iff_forall₂
  · exact fun c => (hiff c c).mpr rfl
  · exact fun h => (hiff _ _).mpr ((hiff _ _).mp h).symm
  · exact fun h h' => (hiff _ _).mpr (((hiff _ _).mp h).trans ((hiff _ _).mp h'))
  · rw [Bool.eq_false_iff, ne_eq, hiff]
    exact (append_ne c d).symm
  · rw [Bool.eq_false_iff, ne_eq, hiff]
    exact append_ne c d

end Chain

end PatternTree
