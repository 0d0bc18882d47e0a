import PatternTree.Proofs.Derivation
import PatternTree.Tree.Expressible
import PatternTree.Tree.Written
/-!
# The trees that patterns have

A tree is expressible when its shape and its levels are those of a pattern. What the grammar derives
is expressible, by induction on the derivation, and the written form of an expressible tree is
derived, by induction on the tree. Together with reading along derivations this says which trees
parsing gives, and that each of them is read back from its written form.

## Main results

* `Chain.expressible_of_derives` — the trees of patterns are expressible.
* `Grammar.element_written` — the written form of a node that fits is an element.
* `Chain.derives_pattern` — the written form of an expressible tree derives it.
* `exists_parse_eq_ok_iff_expressible` — the trees that parsing gives are the expressible ones.
-/

namespace PatternTree

namespace Grammar

/-! ### Trees of patterns are expressible -/

section Fits

variable {o : Options} {p : List Char} {n : Node} {ns : List Node} {limit depth k : Nat}

theorem Entries.isEntry (h : Entries o p ns) : ∀ n ∈ ns, (Chain.last n).isEntry := by
  induction h with
  | nil => simp
  | single _ _ _ ih | range _ _ _ _ ih => simpa [Chain.isEntry] using ih
  | hyphen => simp [Chain.isEntry]

theorem Entries.isClass (h : Entries o p ns) (nonempty : ns ≠ []) :
    (Node.alternation (ns.map .last)).isClass := by
  simp only [Node.isClass, List.all_map, Bool.and_eq_true, List.all_eq_true, Function.comp_apply,
    Bool.not_eq_true', List.isEmpty_eq_false_iff, ne_eq, List.map_eq_nil_iff]
  exact ⟨nonempty, h.isEntry⟩

theorem Class.fits (h : Class o p n) : n.fits limit depth k := by
  cases h with
  | positive hp nonempty => simp [Node.fits, hp.isClass nonempty]
  | negated hp nonempty => simp [Node.fits, Chain.next?, Chain.head, hp.isClass nonempty]

mutual

theorem Base.fits : ∀ {depth first p n}, Base o depth first p n →
    ∀ k, n.fits o.nestLimit.toNat depth k
  | _, _, _, _, .dot, _ | _, _, _, _, .empty, _ | _, _, _, _, .escaped _, _
  | _, _, _, _, .plain _ _, _ => rfl
  | _, _, _, _, .ofClass hp, _ => hp.fits
  | _, _, _, _, .group hp _ withinLimit, _ => by
    obtain ⟨hne, hfit⟩ := hp.allFit
    simp [Node.fits, withinLimit, hne, hfit]

/-- The quantifiers behind an element have room above its own. -/
theorem Element.fits : ∀ {depth first p n level}, Element o depth first p n level →
    ∀ k, level = depth ∨ level + k ≤ o.nestLimit.toNat → n.fits o.nestLimit.toNat depth k
  | _, _, _, _, _, .base hp, k, _ => hp.fits k
  | depth, _, _, _, _, .quantified hp _ _, k, h => by
    have hle := hp.depth_le
    have hk : depth + k + 1 ≤ o.nestLimit.toNat := by omega
    have hinner := hp.fits (k + 1) (by omega)
    simp [Node.fits, Chain.next?, Chain.fits, hk, hinner]

theorem Branch.fits : ∀ {depth first p c}, Branch o depth first p c →
    c.fits o.nestLimit.toNat depth 0
  | _, _, _, _, .last hp => hp.fits 0 hp.level_le
  | _, _, _, _, .link hp hq => by
    rw [Chain.fits, hp.fits 0 hp.level_le, hq.fits, Bool.and_self]

theorem Union.allFit : ∀ {depth p cs}, Union o depth p cs →
    cs ≠ [] ∧ Chain.allFit o.nestLimit.toNat depth cs
  | _, _, _, .last hp => ⟨List.cons_ne_nil _ _, by simp [Chain.allFit, hp.fits]⟩
  | _, _, _, .more hp hq => ⟨List.cons_ne_nil _ _, by simp [Chain.allFit, hp.fits, hq.allFit.2]⟩

end

end Fits

/-! ### Strict options leave nothing inverted -/

section Faults

variable {o : Options} {p : List Char} {n : Node} {ns : List Node}

theorem Entries.faults_eq_nil (h : Entries o p ns) (strict : o.rejectInverted) :
    Chain.faultsAll (ns.map .last) = [] := by
  induction h with
  | nil => rfl
  | single _ _ _ ih => simpa [Chain.faultsAll, Chain.faults, Node.faults] using ih
  | range _ _ _ ordered ih =>
    have hrange := Char.not_lt.mpr (ordered strict)
    simpa [Chain.faultsAll, Chain.faults, Node.faults, rangeFault?, hrange] using ih
  | hyphen => rfl

theorem Class.faults_eq_nil (h : Class o p n) (strict : o.rejectInverted) : n.faults = [] := by
  cases h with
  | positive hp _ => simpa [Node.faults] using hp.faults_eq_nil strict
  | negated hp _ => simpa [Node.faults, Chain.faults] using hp.faults_eq_nil strict

theorem Quantifier.fault?_eq_none {min : UInt32} {max : Bound} (h : Quantifier o p min max)
    (strict : o.rejectInverted) : max.fault? min = none := by
  cases h with
  | optional | star | plus | exactly | atLeast => simp [Bound.fault?]
  | between _ _ ordered => simp [Bound.fault?, UInt32.not_lt.mpr (ordered strict)]

mutual

theorem Base.faults_eq_nil (strict : o.rejectInverted) : ∀ {depth first p n},
    Base o depth first p n → n.faults = []
  | _, _, _, _, .dot | _, _, _, _, .empty | _, _, _, _, .escaped _
  | _, _, _, _, .plain _ _ => by rw [Node.faults]
  | _, _, _, _, .ofClass hp => hp.faults_eq_nil strict
  | _, _, _, _, .group hp _ _ => by rw [Node.faults, hp.faultsAll_eq_nil strict]

theorem Element.faults_eq_nil (strict : o.rejectInverted) : ∀ {depth first p n level},
    Element o depth first p n level → n.faults = []
  | _, _, _, _, _, .base hp => hp.faults_eq_nil strict
  | _, _, _, _, _, .quantified hp hq _ => by
    rw [Node.faults, Chain.faults, hp.faults_eq_nil strict, hq.fault?_eq_none strict]
    rfl

theorem Branch.faults_eq_nil (strict : o.rejectInverted) : ∀ {depth first p c},
    Branch o depth first p c → c.faults = []
  | _, _, _, _, .last hp => by rw [Chain.faults, hp.faults_eq_nil strict]
  | _, _, _, _, .link hp hq => by
    rw [Chain.faults, hp.faults_eq_nil strict, hq.faults_eq_nil strict, List.append_nil]

/-- Strict options let no branch of a union hold a fault. -/
theorem Union.faultsAll_eq_nil (strict : o.rejectInverted) : ∀ {depth p cs},
    Union o depth p cs → Chain.faultsAll cs = []
  | _, _, _, .last hp => by
    rw [Chain.faultsAll, hp.faults_eq_nil strict, Chain.faultsAll, List.append_nil]
  | _, _, _, .more hp hq => by
    rw [Chain.faultsAll, hp.faults_eq_nil strict, hq.faultsAll_eq_nil strict, List.append_nil]

end

end Faults

/-! ### Written forms are derived -/

section Written

variable {o : Options}

theorem numeral_toDigits (n : UInt32) : Numeral (Nat.toDigits 10 n.toNat) n where
  ne_nil := Nat.toDigits_ne_nil
  isDigit _ hd := Nat.isDigit_of_mem_toDigits (by decide) (by decide) hd
  value_eq := by rw [value_eq_ofDigitChars, Nat.ofDigitChars_ten_toDigits]

theorem quantifier_written {min : UInt32} {max : Bound}
    (h : o.rejectInverted → max.fault? min = none) : Quantifier o (max.written min) min max := by
  cases max with
  | unbounded =>
    rw [Bound.written, List.append_assoc]
    exact .atLeast (numeral_toDigits min)
  | bounded n =>
    have ordered : o.rejectInverted → min ≤ n := fun strict =>
      UInt32.not_lt.mp fun hlt => by simpa [Bound.fault?, hlt] using h strict
    exact .between (numeral_toDigits min) (numeral_toDigits n) ordered

theorem eq_backslash_of_head?_entry {n : Node} {d : Char} (hd : n.entry.head? = some d) :
    d = '\\' := by
  cases n with
  | literal | range => exact (Option.some.inj hd).symm
  | empty | dot | complement | alternation | repetition => cases hd

/-- The entries of a class are written with a backslash in front. -/
theorem eq_backslash_of_head? {cs : List Chain} {d : Char}
    (hd : (cs.flatMap fun c => c.head.entry).head? = some d) : d = '\\' := by
  induction cs with
  | nil => cases hd
  | cons c cs ih =>
    rw [List.flatMap_cons, List.head?_append, Option.or_eq_some_iff] at hd
    rcases hd with hd | ⟨-, hd⟩
    · exact eq_backslash_of_head?_entry hd
    · exact ih hd

theorem exists_of_isEntry {c : Chain} (h : c.isEntry) :
    (∃ a, c = .last (.literal a)) ∨ ∃ a b, c = .last (.range a b) := by
  rw [Chain.isEntry.eq_def] at h
  split at h
  · exact Or.inl ⟨_, rfl⟩
  · exact Or.inr ⟨_, _, rfl⟩
  · cases h

theorem exists_of_isClass {n : Node} (h : n.isClass) :
    ∃ cs, n = .alternation cs ∧ cs ≠ [] ∧ ∀ c ∈ cs, c.isEntry := by
  cases n with
  | alternation cs =>
    simp only [Node.isClass, Bool.and_eq_true, Bool.not_eq_true', List.isEmpty_eq_false_iff,
      List.all_eq_true] at h
    exact ⟨cs, rfl, h⟩
  | empty | dot | literal | range | complement | repetition => cases h

theorem map_last_map_head {cs : List Chain} (h : ∀ c ∈ cs, c.isEntry) :
    (cs.map Chain.head).map Chain.last = cs := by
  have hlast : ∀ c ∈ cs, Chain.last c.head = c := by
    intro c hc
    rcases exists_of_isEntry (h c hc) with ⟨a, rfl⟩ | ⟨a, b, rfl⟩ <;> rfl
  rw [List.map_map]
  exact (List.map_congr_left hlast).trans (List.map_id' cs)

theorem entries_written {cs : List Chain} (hentry : ∀ c ∈ cs, c.isEntry)
    (hfaults : o.rejectInverted → Chain.faultsAll cs = []) :
    Entries o (cs.flatMap fun c => c.head.entry) (cs.map Chain.head) := by
  induction cs with
  | nil => exact .nil
  | cons c cs ih =>
    have hnil (strict : o.rejectInverted) : c.faults = [] ∧ Chain.faultsAll cs = [] := by
      simpa [Chain.faultsAll] using hfaults strict
    have hrest := ih (fun d hd => hentry d (List.mem_cons_of_mem c hd))
      fun strict => (hnil strict).2
    rcases exists_of_isEntry (hentry c List.mem_cons_self) with ⟨a, rfl⟩ | ⟨a, b, rfl⟩
    · have notRange : (cs.flatMap fun c => c.head.entry).head? ≠ some '-' := fun h =>
        absurd (eq_backslash_of_head? h) (by decide)
      exact .single (.escaped a) hrest notRange
    · have ordered (strict : o.rejectInverted) : a ≤ b := Char.not_lt.mp fun hlt => by
        simpa [Chain.faults, Node.faults, rangeFault?, hlt] using (hnil strict).1
      exact .range (.escaped a) (.escaped b) hrest ordered

/-- A class is written as a class, and so is its complement. -/
theorem class_written {n : Node} (hn : n.isClass) (hfaults : o.rejectInverted → n.faults = []) :
    Class o ('[' :: n.entries ++ [']']) n ∧
      Class o ('[' :: '^' :: n.entries ++ [']']) (.complement (.last n)) := by
  obtain ⟨cs, rfl, hne, hentry⟩ := exists_of_isClass hn
  have hp := entries_written hentry fun strict => by simpa [Node.faults] using hfaults strict
  have nonempty : cs.map Chain.head ≠ [] := by simpa using hne
  have notNegated : (Node.alternation cs).entries.head? ≠ some '^' := fun h =>
    absurd (eq_backslash_of_head? h) (by decide)
  have hpositive := Class.positive hp nonempty notNegated
  have hnegated := Class.negated hp nonempty
  rw [map_last_map_head hentry] at hpositive hnegated
  exact ⟨hpositive, hnegated⟩

/-- Where a branch may go on, it does not start like the end of a group. -/
theorem Branch.head?_append_ne {depth : Nat} {p q : List Char} {c : Chain}
    (h : Branch o depth false p c) : (p ++ q).head? ≠ some ')' := by
  obtain ⟨d, hd, hmem⟩ := h.exists_head
  rw [List.head?_append, hd]
  rintro heq
  cases heq
  exact hmem (by decide)

mutual

/-- A node that fits is written as an element with room for the quantifiers that follow it. -/
theorem element_written : ∀ (n : Node) {depth k : Nat}, n.fits o.nestLimit.toNat depth k →
    (o.rejectInverted → n.faults = []) → ∀ first, ∃ level,
      Element o depth first n.written n level ∧ (level = depth ∨ level + k ≤ o.nestLimit.toNat)
  | .empty, depth, _, _, _, first => ⟨depth, .base .empty, Or.inl rfl⟩
  | .dot, depth, _, _, _, first => ⟨depth, .base .dot, Or.inl rfl⟩
  | .literal c, depth, _, _, _, first => ⟨depth, .base (.escaped c), Or.inl rfl⟩
  | .range _ _, _, _, hfit, _, _ => by simp [Node.fits] at hfit
  | .complement (.link _ _), _, _, hfit, _, _ => by simp [Node.fits, Chain.next?] at hfit
  | .complement (.last m), depth, _, hfit, hfaults, first => by
    have hclass : m.isClass := by simpa [Node.fits, Chain.next?, Chain.head] using hfit
    have hm := class_written hclass fun strict => by
      simpa [Node.faults, Chain.faults] using hfaults strict
    exact ⟨depth, .base (.ofClass hm.2), Or.inl rfl⟩
  | .alternation cs, depth, _, hfit, hfaults, first => by
    refine ⟨depth, .base ?_, Or.inl rfl⟩
    rcases hclass : (Node.alternation cs).isClass with _ | _
    · simp only [Node.fits, hclass, Bool.false_or, Bool.and_eq_true, decide_eq_true_eq,
        Bool.not_eq_true', List.isEmpty_eq_false_iff] at hfit
      obtain ⟨⟨withinLimit, hne⟩, hfit⟩ := hfit
      obtain ⟨hp, hhead⟩ := union_written cs hne hfit hfaults
      rw [Node.written, hclass]
      exact .group hp hhead withinLimit
    · rw [Node.written, hclass]
      exact .ofClass (class_written hclass hfaults).1
  | .repetition (.link _ _) _ _, _, _, hfit, _, _ => by simp [Node.fits, Chain.next?] at hfit
  | .repetition (.last m) min max, depth, k, hfit, hfaults, first => by
    simp only [Node.fits, Bool.and_eq_true, decide_eq_true_eq, Chain.fits] at hfit
    obtain ⟨⟨hk, -⟩, hfit⟩ := hfit
    have hnil (strict : o.rejectInverted) : m.faults = [] ∧ max.fault? min = none := by
      simpa [Node.faults, Chain.faults] using hfaults strict
    obtain ⟨level, hp, hlevel⟩ := element_written m hfit (fun strict => (hnil strict).1) first
    -- The node below has taken no level, and `hk` leaves one, or it has left one for each
    -- quantifier.
    have withinLimit : level + 1 ≤ o.nestLimit.toNat := by omega
    exact ⟨level + 1, .quantified hp (quantifier_written fun strict => (hnil strict).2) withinLimit,
      Or.inr (by omega)⟩

theorem branch_written : ∀ (c : Chain) {depth : Nat}, c.fits o.nestLimit.toNat depth 0 →
    (o.rejectInverted → c.faults = []) → ∀ first, Branch o depth first c.written c
  | .last n, depth, hfit, hfaults, first => by
    obtain ⟨level, hp, -⟩ := element_written n hfit hfaults first
    exact .last hp
  | .link n next, depth, hfit, hfaults, first => by
    simp only [Chain.fits, Bool.and_eq_true] at hfit
    obtain ⟨hn, hnext⟩ := hfit
    have hnil (strict : o.rejectInverted) : n.faults = [] ∧ next.faults = [] := by
      simpa [Chain.faults] using hfaults strict
    obtain ⟨level, hp, -⟩ := element_written n hn (fun strict => (hnil strict).1) first
    exact .link hp (branch_written next hnext (fun strict => (hnil strict).2) false)

/-- Branches that fit are written as a union that does not start like the end of a group. -/
theorem union_written : ∀ (cs : List Chain) {depth : Nat}, cs ≠ [] →
    Chain.allFit o.nestLimit.toNat depth cs → (o.rejectInverted → Chain.faultsAll cs = []) →
      Union o depth (Chain.writtenAll cs) cs ∧ (Chain.writtenAll cs).head? ≠ some ')'
  | [], _, hne, _, _ => absurd rfl hne
  | [c], depth, _, hfit, hfaults => by
    have hc : c.fits o.nestLimit.toNat depth 0 := by simpa [Chain.allFit] using hfit
    have hnil (strict : o.rejectInverted) : c.faults = [] := by
      simpa [Chain.faultsAll] using hfaults strict
    have hhead := (branch_written c hc hnil false).head?_append_ne (q := [])
    rw [List.append_nil] at hhead
    exact ⟨.last (branch_written c hc hnil true), hhead⟩
  | c :: d :: cs, depth, _, hfit, hfaults => by
    rw [Chain.allFit, Bool.and_eq_true] at hfit
    obtain ⟨hc, hcs⟩ := hfit
    have hnil (strict : o.rejectInverted) : c.faults = [] ∧ Chain.faultsAll (d :: cs) = [] := by
      rw [← List.append_eq_nil_iff]
      exact hfaults strict
    have hrest := union_written (d :: cs) (List.cons_ne_nil d cs) hcs fun strict => (hnil strict).2
    have hbranch := branch_written c hc fun strict => (hnil strict).1
    exact ⟨.more (hbranch true) hrest.1, (hbranch false).head?_append_ne⟩

end

end Written

end Grammar

/-- An expressible tree is an alternation whose branches fit, without faults if options are
strict. -/
theorem Chain.expressible_iff {o : Options} {t : Chain} : t.expressible o ↔
    ∃ branches, t = .last (.alternation branches) ∧ branches ≠ [] ∧
      allFit o.nestLimit.toNat 0 branches ∧ (o.rejectInverted → faultsAll branches = []) := by
  constructor
  · intro h
    rw [expressible.eq_def, Bool.and_eq_true] at h
    obtain ⟨hfaults, hshape⟩ := h
    split at hshape
    · rw [Bool.and_eq_true, Bool.not_eq_true', List.isEmpty_eq_false_iff] at hshape
      refine ⟨_, rfl, hshape.1, hshape.2, fun strict => ?_⟩
      simpa [strict, faults, Node.faults] using hfaults
    · cases hshape
  · rintro ⟨branches, rfl, hne, hfit, hfaults⟩
    have hnil : o.rejectInverted = false ∨ faultsAll branches = [] := by
      rcases hstrict : o.rejectInverted with _ | _
      · exact Or.inl rfl
      · exact Or.inr (hfaults hstrict)
    simpa [expressible, faults, Node.faults, hne, hfit] using hnil

/-- The trees of patterns are expressible. -/
theorem Chain.expressible_of_derives {o : Options} {p : String} {t : Chain} (h : Derives o p t) :
    t.expressible o := by
  obtain ⟨branches, hp, rfl⟩ := h
  obtain ⟨hne, hfit⟩ := hp.allFit
  exact expressible_iff.mpr ⟨branches, rfl, hne, hfit, fun strict => hp.faultsAll_eq_nil strict⟩

/-- The written form of an expressible tree derives it. -/
theorem Chain.derives_pattern {o : Options} {t : Chain} (h : t.expressible o) :
    Derives o t.pattern t := by
  obtain ⟨branches, rfl, hne, hfit, hfaults⟩ := expressible_iff.mp h
  have hp := (Grammar.union_written branches hne hfit hfaults).1
  exact ⟨branches, by rwa [pattern, String.toList_ofList], rfl⟩

/-- The trees that parsing gives are exactly the expressible ones, and each of them is read back
from its written form. -/
theorem exists_parse_eq_ok_iff_expressible (o : Options) (t : Chain)
    (h : o.nestLimit.toNat < 2 ^ 32 - 1) :
    ((∃ p, parse p o = .ok t) ↔ t.expressible o) ∧
      (t.expressible o → parse t.pattern o = .ok t) := by
  have hwritten (ht : t.expressible o) : parse t.pattern o = .ok t :=
    parse_of_derives (Chain.derives_pattern ht)
  refine ⟨⟨?_, fun ht => ⟨t.pattern, hwritten ht⟩⟩, hwritten⟩
  rintro ⟨p, hp⟩
  exact Chain.expressible_of_derives (derives_of_parse (Or.inl h) hp)

/-- Two quantifiers take two levels: their tree is read with a limit of 2, but not with one of 1. -/
theorem exists_parse_eq_ok_two_quantifiers :
    let t : Chain := .last (.alternation
      [.last (.repetition (.last (.repetition (.last (.complement
        (.last (.alternation [.last (.range 'a' 'z'), .last (.literal ']')])))) 2 (.bounded 5)))
          0 .unbounded)])
    (∃ p, parse p { nestLimit := 2 } = .ok t) ∧ ¬∃ p, parse p { nestLimit := 1 } = .ok t :=
  ⟨(exists_parse_eq_ok_iff_expressible _ _ (by decide)).1.mpr (by decide),
    fun h => absurd ((exists_parse_eq_ok_iff_expressible _ _ (by decide)).1.mp h) (by decide)⟩
end PatternTree
