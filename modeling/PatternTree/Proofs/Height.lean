import Mathlib.Data.Nat.Choose.Basic
import PatternTree.Proofs.Expressible
import PatternTree.Tree.Size
/-!
# The height of the trees of patterns

A quantifier takes a level of the element that it repeats, but none of what a group holds: inside a
group the count starts again from the level of the group. So with `m` levels to go, `m` quantifiers
can repeat a group, inside which `m - 1` levels are left, and so on: a way down meets up to
`m + (m - 1) + ... + 1` repetitions, and not only `m`. Every group on the way adds its alternation,
and the outermost alternation, a complement, its class and a character are the four nodes besides.

The bounds are reached by groups inside one another, each with as many quantifiers as its level
leaves, around a complement.

## Main definitions

* `levelSum` — the sum of the levels up to a number.
* `Node.tallest` — a node that uses up a number of levels.

## Main results

* `Node.height_add_le` — the height and the repetitions of a node that fits.
* `Node.height_tallest` — the bounds are reached.
* `height_le_of_parse` — the height and the repetitions of the tree of a pattern.
-/

namespace PatternTree

/-- The sum of the numbers up to `m`. -/
def levelSum (m : Nat) : Nat :=
  m * (m + 1) / 2

theorem levelSum_succ (m : Nat) : levelSum (m + 1) = levelSum m + (m + 1) := by
  have h := Nat.triangle_succ (m + 1)
  rwa [Nat.add_sub_cancel, Nat.add_sub_cancel, Nat.mul_comm, Nat.mul_comm (m + 1) m] at h

/-! ### Trees that fit are not higher -/

theorem Chain.heightAll_le {cs : List Chain} {b : Nat} (h : ∀ c ∈ cs, c.height ≤ b) :
    Chain.heightAll cs ≤ b := by
  induction cs with
  | nil => exact Nat.zero_le b
  | cons c cs ih =>
    rw [Chain.heightAll]
    exact Nat.max_le.mpr ⟨h c List.mem_cons_self, ih fun d hd => h d (List.mem_cons_of_mem c hd)⟩

theorem Chain.repetitionDepthAll_eq_zero {cs : List Chain} (h : ∀ c ∈ cs, c.repetitionDepth = 0) :
    Chain.repetitionDepthAll cs = 0 := by
  induction cs with
  | nil => rfl
  | cons c cs ih =>
    rw [Chain.repetitionDepthAll, h c List.mem_cons_self,
      ih fun d hd => h d (List.mem_cons_of_mem c hd), Nat.max_self]

/-- A class is two nodes high and holds no repetition. -/
theorem Node.height_le_of_isClass {n : Node} (h : n.isClass) :
    n.height ≤ 2 ∧ n.repetitionDepth = 0 := by
  obtain ⟨cs, rfl, -, hentry⟩ := Grammar.exists_of_isClass h
  have hcs : ∀ c ∈ cs, c.height ≤ 1 ∧ c.repetitionDepth = 0 := by
    intro c hc
    rcases Grammar.exists_of_isEntry (hentry c hc) with ⟨a, rfl⟩ | ⟨a, b, rfl⟩
    · exact ⟨Nat.le_refl 1, rfl⟩
    · exact ⟨Nat.le_refl 1, rfl⟩
  have hheight := Chain.heightAll_le fun c hc => (hcs c hc).1
  have hdepth := Chain.repetitionDepthAll_eq_zero fun c hc => (hcs c hc).2
  rw [Node.height, Node.repetitionDepth]
  exact ⟨Nat.succ_le_succ hheight, hdepth⟩

theorem le_levelSum (m : Nat) : m ≤ levelSum m := by
  cases m with
  | zero => exact Nat.le_refl 0
  | succ m =>
    rw [levelSum_succ]
    exact Nat.le_add_left (m + 1) _

mutual

/-- Together with the `k` quantifiers that follow it, a node with `m` levels to go is within the
bounds. -/
theorem Node.height_add_le : ∀ (n : Node) {limit depth k m : Nat}, n.fits limit depth k →
    depth + m = limit → k ≤ m →
      n.height + k ≤ levelSum m + m + 3 ∧ n.repetitionDepth + k ≤ levelSum m
  | .empty, _, _, _, m, _, _, hk | .dot, _, _, _, m, _, _, hk
  | .literal _, _, _, _, m, _, _, hk => by
    have hm := le_levelSum m
    simp only [Node.height, Node.repetitionDepth]
    omega
  | .range _ _, _, _, _, _, hfit, _, _ => by simp [Node.fits] at hfit
  | .complement (.link _ _), _, _, _, _, hfit, _, _ => by simp [Node.fits, Chain.next?] at hfit
  | .complement (.last n), _, _, _, m, hfit, _, hk => by
    have hclass : n.isClass := by simpa [Node.fits, Chain.next?, Chain.head] using hfit
    obtain ⟨hheight, hdepth⟩ := Node.height_le_of_isClass hclass
    have hm := le_levelSum m
    simp only [Node.height, Node.repetitionDepth, Chain.height, Chain.repetitionDepth, hdepth]
    omega
  | .alternation cs, limit, depth, k, m, hfit, hm, hk => by
    rw [Node.fits, Bool.or_eq_true] at hfit
    rcases hfit with hclass | hgroup
    · obtain ⟨hheight, hdepth⟩ := Node.height_le_of_isClass hclass
      have hle := le_levelSum m
      omega
    · simp only [Bool.and_eq_true, decide_eq_true_eq] at hgroup
      obtain ⟨⟨withinLimit, -⟩, hcs⟩ := hgroup
      -- The group takes one of the levels, and the quantifiers inside it count from there.
      obtain ⟨m, rfl⟩ : ∃ m', m = m' + 1 := ⟨m - 1, by omega⟩
      have hinside : depth + 1 + m = limit := by omega
      obtain ⟨hheight, hdepth⟩ := Chain.heightAll_le_of_allFit cs hcs hinside
      rw [levelSum_succ, Node.height, Node.repetitionDepth]
      omega
  | .repetition inner _ _, _, _, _, _, hfit, hm, hk => by
    simp only [Node.fits, Bool.and_eq_true, decide_eq_true_eq] at hfit
    obtain ⟨⟨withinLimit, -⟩, hinner⟩ := hfit
    obtain ⟨hheight, hdepth⟩ := Chain.height_add_le inner hinner hm (by omega)
    rw [Node.height, Node.repetitionDepth]
    omega

theorem Chain.height_add_le : ∀ (c : Chain) {limit depth k m : Nat}, c.fits limit depth k →
    depth + m = limit → k ≤ m →
      c.height + k ≤ levelSum m + m + 3 ∧ c.repetitionDepth + k ≤ levelSum m
  | .last n, _, _, _, _, hfit, hm, hk => n.height_add_le hfit hm hk
  | .link n next, _, _, _, _, hfit, hm, hk => by
    rw [Chain.fits, Bool.and_eq_true] at hfit
    obtain ⟨hheight, hdepth⟩ := n.height_add_le hfit.1 hm hk
    obtain ⟨hheight', hdepth'⟩ := Chain.height_add_le next hfit.2 hm hk
    rw [Chain.height, Chain.repetitionDepth]
    omega

theorem Chain.heightAll_le_of_allFit : ∀ (cs : List Chain) {limit depth m : Nat},
    Chain.allFit limit depth cs → depth + m = limit →
      Chain.heightAll cs ≤ levelSum m + m + 3 ∧ Chain.repetitionDepthAll cs ≤ levelSum m
  | [], _, _, _, _, _ => ⟨Nat.zero_le _, Nat.zero_le _⟩
  | c :: cs, _, _, _, hfit, hm => by
    rw [Chain.allFit, Bool.and_eq_true] at hfit
    obtain ⟨hheight, hdepth⟩ := Chain.height_add_le c hfit.1 hm (Nat.zero_le _)
    obtain ⟨hheights, hdepths⟩ := Chain.heightAll_le_of_allFit cs hfit.2 hm
    rw [Chain.heightAll, Chain.repetitionDepthAll]
    exact ⟨Nat.max_le.mpr ⟨hheight, hheights⟩, Nat.max_le.mpr ⟨hdepth, hdepths⟩⟩

end

/-! ### Trees that reach the bounds -/

namespace Node

/-- The node `n` with `k` quantifiers. -/
def repeated : Nat → Node → Node
  | 0, n => n
  | k + 1, n => .repetition (.last (repeated k n)) 0 .unbounded

/-- A node that uses up `m` levels: groups inside one another around a complement, each with as many
quantifiers as there are levels to go. -/
def tallest : Nat → Node
  | 0 => .complement (.last (.alternation [.last (.literal 'a')]))
  | m + 1 => repeated (m + 1) (.alternation [.last (tallest m)])

variable {limit depth : Nat}

theorem height_group (n : Node) :
    (Node.alternation [.last n]).height = n.height + 1 ∧
      (Node.alternation [.last n]).repetitionDepth = n.repetitionDepth := by
  simp only [Node.height, Node.repetitionDepth, Chain.heightAll, Chain.repetitionDepthAll,
    Chain.height, Chain.repetitionDepth, Nat.max_zero, and_self]

theorem height_repeated (k : Nat) (n : Node) :
    (repeated k n).height = n.height + k ∧
      (repeated k n).repetitionDepth = n.repetitionDepth + k := by
  induction k with
  | zero => exact ⟨rfl, rfl⟩
  | succ k ih =>
    rw [repeated, Node.height, Node.repetitionDepth, Chain.height, Chain.repetitionDepth, ih.1,
      ih.2]
    exact ⟨rfl, rfl⟩

theorem faults_repeated (k : Nat) (n : Node) : (repeated k n).faults = n.faults := by
  induction k with
  | zero => rfl
  | succ k ih => rw [repeated, Node.faults, Chain.faults, ih, Bound.fault?, Option.toList_none,
      List.append_nil]

/-- Quantifiers fit as long as there are levels for them. -/
theorem fits_repeated {n : Node} (hn : ∀ k, n.fits limit depth k) :
    ∀ j k, depth + k + j ≤ limit → (repeated j n).fits limit depth k
  | 0, k, _ => hn k
  | j + 1, k, h => by
    have hinner := fits_repeated hn j (k + 1) (by omega)
    simp only [repeated, Node.fits, Chain.next?, Chain.fits, hinner, Option.isNone_none,
      Bool.and_true, decide_eq_true_eq]
    omega

theorem fits_tallest : ∀ (m : Nat) {depth : Nat}, depth + m = limit →
    (tallest m).fits limit depth 0
  | 0, _, _ => rfl
  | m + 1, depth, h => by
    have hinside : depth + 1 + m = limit := by omega
    have hinner := fits_tallest m hinside
    have hgroup (k : Nat) : (Node.alternation [.last (tallest m)]).fits limit depth k := by
      have withinLimit : depth + 1 ≤ limit := by omega
      simp [Node.fits, Chain.allFit, Chain.fits, hinner, withinLimit]
    exact fits_repeated hgroup (m + 1) 0 (by omega)

theorem faults_tallest (m : Nat) : (tallest m).faults = [] := by
  induction m with
  | zero => rfl
  | succ m ih =>
    rw [tallest, faults_repeated, Node.faults, Chain.faultsAll, Chain.faults, ih]
    rfl

theorem height_tallest (m : Nat) :
    (tallest m).height = levelSum m + m + 3 ∧ (tallest m).repetitionDepth = levelSum m := by
  induction m with
  | zero => exact ⟨rfl, rfl⟩
  | succ m ih =>
    obtain ⟨hheight, hdepth⟩ := height_group (tallest m)
    obtain ⟨hheights, hdepths⟩ := height_repeated (m + 1) (.alternation [.last (tallest m)])
    rw [tallest, hheights, hdepths, hheight, hdepth, ih.1, ih.2, levelSum_succ]
    omega

end Node

/-! ### The trees of patterns -/

theorem Chain.height_le_of_expressible {o : Options} {t : Chain} (h : t.expressible o) :
    t.height ≤ levelSum o.nestLimit.toNat + o.nestLimit.toNat + 4 ∧
      t.repetitionDepth ≤ levelSum o.nestLimit.toNat := by
  obtain ⟨branches, rfl, -, hfit, -⟩ := Chain.expressible_iff.mp h
  obtain ⟨hheight, hdepth⟩ := Chain.heightAll_le_of_allFit branches hfit (Nat.zero_add _)
  rw [Chain.height, Chain.repetitionDepth, Node.height, Node.repetitionDepth]
  exact ⟨Nat.succ_le_succ hheight, hdepth⟩

theorem Chain.expressible_tallest (o : Options) :
    (Chain.last (.alternation [.last (Node.tallest o.nestLimit.toNat)])).expressible o := by
  refine Chain.expressible_iff.mpr ⟨_, rfl, List.cons_ne_nil _ _, ?_, fun _ => ?_⟩
  · simp only [Chain.allFit, Chain.fits, Node.fits_tallest _ (Nat.zero_add _), Bool.and_true]
  · simp only [Chain.faultsAll, Chain.faults, Node.faults_tallest, List.append_nil]

/-- The tree of a pattern is no higher than the limit allows, with no more repetitions inside one
another, and some pattern reaches both bounds. -/
theorem height_le_of_parse (strict : Bool) (limit : UInt32) :
    (limit.toNat < 2 ^ 32 - 1 → ∀ p t, parse p ⟨strict, limit⟩ = .ok t →
      t.height ≤ limit.toNat * (limit.toNat + 1) / 2 + limit.toNat + 4 ∧
        t.repetitionDepth ≤ limit.toNat * (limit.toNat + 1) / 2) ∧
    ∃ p t, parse p ⟨strict, limit⟩ = .ok t ∧
      t.height = limit.toNat * (limit.toNat + 1) / 2 + limit.toNat + 4 ∧
        t.repetitionDepth = limit.toNat * (limit.toNat + 1) / 2 := by
  constructor
  · intro hlimit p t ht
    have hexpressible : t.expressible ⟨strict, limit⟩ :=
      Chain.expressible_of_derives (derives_of_parse (.inl hlimit) ht)
    exact Chain.height_le_of_expressible hexpressible
  · obtain ⟨hheight, hdepth⟩ := Node.height_tallest limit.toNat
    have hwritten := parse_of_derives (Chain.derives_pattern
      (Chain.expressible_tallest ⟨strict, limit⟩))
    obtain ⟨hroot, hrootDepth⟩ := Node.height_group (Node.tallest limit.toNat)
    refine ⟨_, _, hwritten, ?_, ?_⟩
    · rw [Chain.height, hroot, hheight]
      rfl
    · rw [Chain.repetitionDepth, hrootDepth, hdepth]
      rfl

/-- With two levels, a way down meets up to three repetitions. -/
theorem height_le_of_parse_two_levels :
    (2 : UInt32).toNat < 2 ^ 32 - 1 ∧ ∃ t, parse "(([^a])*)+?" ⟨true, 2⟩ = .ok t ∧
      t.height ≤ 2 * (2 + 1) / 2 + 2 + 4 ∧ t.repetitionDepth ≤ 2 * (2 + 1) / 2 :=
  ⟨by decide, _, rfl, (height_le_of_parse true 2).1 (by decide) "(([^a])*)+?" _ rfl⟩

end PatternTree
