import PatternTree.Proofs.Strictness
import PatternTree.Tree.Language
import PatternTree.Tree.Nullable
/-!
# Nullable trees match the empty text

A tree that matches the empty text is nullable. The converse needs bounds that are not inverted: a
repetition of a nullable chain is nullable, but with inverted bounds no number of times is allowed
and it matches nothing. Strict options leave no inverted bounds, so for the trees that they give the
two are the same.

## Main definitions

* `BoundsOrdered` — no inverted bounds among the faults of a tree.

## Main results

* `Language.join_nil`, `Language.power_nil` — when products and powers hold the empty text.
* `Chain.nullable_of_language` — a tree that matches the empty text is nullable.
* `Chain.language_of_nullable` — the converse, without inverted bounds.
* `Chain.nullable_iff_language_nil` — both, and the trees that strict options give.
-/

namespace PatternTree

/-! ### The empty text in products and powers -/

namespace Language

variable {l m : Language} {n : Nat}

theorem join_nil : l.join m [] ↔ l [] ∧ m [] := by
  constructor
  · rintro ⟨u, v, huv, hu, hv⟩
    obtain ⟨rfl, rfl⟩ := List.append_eq_nil_iff.mp huv.symm
    exact ⟨hu, hv⟩
  · rintro ⟨hl, hm⟩
    exact ⟨[], [], rfl, hl, hm⟩

theorem power_nil : l.power n [] ↔ n = 0 ∨ l [] := by
  induction n with
  | zero => exact iff_of_true rfl (Or.inl rfl)
  | succ n ih =>
    rw [power, join_nil, ih, or_iff_right n.succ_ne_zero]
    exact and_iff_left_of_imp Or.inr

end Language

/-! ### Trees that match the empty text -/

mutual

theorem Node.nullable_of_language : ∀ n : Node, n.language [] → n.nullable
  | .empty, _ => rfl
  | .dot, h | .literal _, h | .range _ _, h | .complement _, h => by
    simp [Node.language] at h
  | .alternation branches, h => by
    rw [Node.nullable]
    exact Chain.anyNullable_of_language branches h
  | .repetition inner min max, ⟨k, hmin, _, hpower⟩ => by
    rw [Node.nullable, Bool.or_eq_true, beq_iff_eq]
    rcases Language.power_nil.mp hpower with rfl | hinner
    · exact Or.inl (UInt32.toNat_inj.mp (Nat.le_zero.mp hmin))
    · exact Or.inr (inner.nullable_of_language hinner)

/-- A chain that matches the empty text is nullable. -/
theorem Chain.nullable_of_language : ∀ c : Chain, c.language [] → c.nullable
  | .last n, h => n.nullable_of_language h
  | .link n next, h => by
    obtain ⟨hn, hnext⟩ := Language.join_nil.mp h
    rw [Chain.nullable, Bool.and_eq_true]
    exact ⟨n.nullable_of_language hn, next.nullable_of_language hnext⟩

theorem Chain.anyNullable_of_language :
    ∀ cs : List Chain, Chain.languageAny cs [] → Chain.anyNullable cs
  | c :: cs, h => by
    rw [Chain.anyNullable, Bool.or_eq_true]
    exact h.imp c.nullable_of_language (Chain.anyNullable_of_language cs)

end

/-! ### Trees without inverted bounds -/

/-- No inverted bounds are among the faults. -/
def BoundsOrdered (faults : List Cause) : Prop :=
  ∀ min max, Cause.invertedBounds min max ∉ faults

section BoundsOrdered

variable {fs gs : List Cause}

theorem boundsOrdered_append : BoundsOrdered (fs ++ gs) ↔ BoundsOrdered fs ∧ BoundsOrdered gs := by
  simp only [BoundsOrdered, List.mem_append, not_or, forall_and]

/-- Bounds are not inverted just when the upper one allows the lower one. -/
theorem boundsOrdered_fault? {min : UInt32} {max : Bound} :
    BoundsOrdered (max.fault? min).toList ↔ max.Allows min.toNat := by
  cases max with
  | unbounded => exact iff_of_true (fun _ _ => List.not_mem_nil) trivial
  | bounded n =>
    by_cases hlt : n < min
    · have hnot : ¬ min.toNat ≤ n.toNat := Nat.not_le_of_lt (UInt32.lt_iff_toNat_lt.mp hlt)
      refine iff_of_false (fun h => h min n ?_) hnot
      simp [Bound.fault?, hlt]
    · have hle : min.toNat ≤ n.toNat := Nat.le_of_not_lt (mt UInt32.lt_iff_toNat_lt.mpr hlt)
      refine iff_of_true (fun _ _ => ?_) hle
      simp [Bound.fault?, hlt]

end BoundsOrdered

mutual

theorem Node.language_of_nullable : ∀ n : Node, BoundsOrdered n.faults → n.nullable → n.language []
  | .empty, _, _ => rfl
  | .alternation branches, hfaults, h => Chain.language_of_anyNullable branches hfaults h
  | .repetition inner min max, hfaults, h => by
    obtain ⟨hinner, hbounds⟩ := boundsOrdered_append.mp hfaults
    rw [Node.nullable, Bool.or_eq_true, beq_iff_eq] at h
    rcases h with rfl | hnullable
    · have hzero : max.Allows 0 := boundsOrdered_fault?.mp hbounds
      exact ⟨0, Nat.le_refl 0, hzero, rfl⟩
    · have hnil := inner.language_of_nullable hinner hnullable
      exact ⟨min.toNat, Nat.le_refl _, boundsOrdered_fault?.mp hbounds,
        Language.power_nil.mpr (Or.inr hnil)⟩

/-- A nullable chain matches the empty text if it has no inverted bounds. -/
theorem Chain.language_of_nullable :
    ∀ c : Chain, BoundsOrdered c.faults → c.nullable → c.language []
  | .last n, hfaults, h => n.language_of_nullable hfaults h
  | .link n next, hfaults, h => by
    obtain ⟨hfn, hfnext⟩ := boundsOrdered_append.mp hfaults
    obtain ⟨hn, hnext⟩ := (Bool.and_eq_true _ _).mp h
    exact Language.join_nil.mpr
      ⟨n.language_of_nullable hfn hn, next.language_of_nullable hfnext hnext⟩

theorem Chain.language_of_anyNullable : ∀ cs : List Chain, BoundsOrdered (Chain.faultsAll cs) →
    Chain.anyNullable cs → Chain.languageAny cs []
  | c :: cs, hfaults, h => by
    obtain ⟨hc, hcs⟩ := boundsOrdered_append.mp hfaults
    rcases (Bool.or_eq_true _ _).mp h with hnullable | hnullable
    · exact Or.inl (c.language_of_nullable hc hnullable)
    · exact Or.inr (Chain.language_of_anyNullable cs hcs hnullable)

end

/-- A tree that matches the empty text is nullable, and a nullable tree matches the empty text if no
bounds in it are inverted, which holds of each tree that strict options give. -/
theorem Chain.nullable_iff_language_nil (t : Chain) :
    (t.language [] → t.nullable) ∧
    (BoundsOrdered t.faults → (t.nullable ↔ t.language [])) ∧
    ∀ p o, o.rejectInverted → parse p o = .ok t → (t.nullable ↔ t.language []) := by
  have hiff : BoundsOrdered t.faults → (t.nullable ↔ t.language []) :=
    fun hfaults => ⟨t.language_of_nullable hfaults, t.nullable_of_language⟩
  refine ⟨t.nullable_of_language, hiff, fun p o strict hp => hiff ?_⟩
  rw [faults_eq_nil_of_parse strict hp]
  exact fun min max => List.not_mem_nil

/-- A starred range that is inverted has no inverted bounds, so it matches the empty text since it
is nullable. Strict options accept `(a*|b)+`, and its tree matches the empty text too. -/
theorem language_nil_of_starred_range :
    (BoundsOrdered (Node.repetition (.last (.range 'z' 'a')) 0 .unbounded).faults ∧
      (Node.repetition (.last (.range 'z' 'a')) 0 .unbounded).language [] ∧
      (Node.repetition (.last (.range 'z' 'a')) 0 .unbounded).nullable) ∧
    ∃ t, parse "(a*|b)+" {} = .ok t ∧ t.language [] := by
  have hrange : BoundsOrdered [.invertedRange 'z' 'a'] := by simp [BoundsOrdered]
  have hstar := Chain.nullable_iff_language_nil
    (.last (.repetition (.last (.range 'z' 'a')) 0 .unbounded))
  have hgroup := Chain.nullable_iff_language_nil (.last (.alternation [.last (.repetition (.last
    (.alternation [.last (.repetition (.last (.literal 'a')) 0 .unbounded), .last (.literal 'b')]))
    1 .unbounded)]))
  have hnil := (hstar.2.1 hrange).mp rfl
  exact ⟨⟨hrange, hnil, hstar.1 hnil⟩, _, rfl, (hgroup.2.2 "(a*|b)+" {} rfl rfl).mp rfl⟩

end PatternTree
