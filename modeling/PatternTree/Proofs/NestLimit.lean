import Mathlib.Order.WellFounded
import PatternTree.Proofs.ValidPrefix
/-!
# Reading with another limit

The limit on levels decides only whether reading goes on at a character that opens a level. A step
that one limit allows is allowed by every greater limit, and a fault of another kind does not depend
on the limit, so a greater limit changes the result only where the smaller one has been reached.
There the greater limit reads on: what it finds wrong stands at the same character or behind it.

A parenthesis is found to open a level too many only at the character behind it. The text in front
of it has opened every level that it needs, so that text alone does not reach the limit.

## Main definitions

* `UnfinishedPattern.ReachesLimit` — a text and the offset in it at which the limit is reached.

## Main results

* `UnfinishedPattern.read_of_le` — what one limit reads, every greater limit reads.
* `UnfinishedPattern.reachesLimit_of_parse` — where the limit is reached.
* `parse_of_le_nestLimit` — how the result depends on the limit.
-/

open String (utf8Len utf8Len_toList)

namespace PatternTree

variable {strict : Bool} {l l' : UInt32} {offset x : Nat} {c : Char} {e : SyntaxError}

/-! ### One step with two limits -/

theorem UnfinishedBounds.Step.relimit {b : UnfinishedBounds}
    {r : Progress UnfinishedBounds (UInt32 × Bound)} (h : b.Step ⟨strict, l⟩ offset c r) :
    b.Step ⟨strict, l'⟩ offset c r :=
  step_eq_ok_iff.mp h.step_eq

theorem UnfinishedBounds.Fault.relimit {b : UnfinishedBounds}
    (h : b.Fault ⟨strict, l⟩ offset c e) : b.Fault ⟨strict, l'⟩ offset c e :=
  step_eq_error_iff.mp h.step_eq

theorem UnfinishedClass.Step.relimit {k : UnfinishedClass} {r : Progress UnfinishedClass Node}
    (h : k.Step ⟨strict, l⟩ offset c r) : k.Step ⟨strict, l'⟩ offset c r :=
  step_eq_ok_iff.mp h.step_eq

theorem UnfinishedClass.Fault.relimit {k : UnfinishedClass}
    (h : k.Fault ⟨strict, l⟩ offset c e) : k.Fault ⟨strict, l'⟩ offset c e :=
  step_eq_error_iff.mp h.step_eq

namespace UnfinishedPattern

variable {s s' : UnfinishedPattern} {p q : List Char} {stop : Nat}

/-- A greater limit allows every step that a limit allows. -/
theorem Step.of_le (h : s.Step ⟨strict, l⟩ offset c s') (hl : l ≤ l') :
    s.Step ⟨strict, l'⟩ offset c s' := by
  cases h with
  | first hs => exact .first hs
  | bar hs => exact .bar hs
  | close hs houter => exact .close hs houter
  | brace hs withinLimit => exact .brace hs (UInt32.le_trans withinLimit hl)
  | quantifier hs hc withinLimit => exact .quantifier hs hc (UInt32.le_trans withinLimit hl)
  | next hs hc => exact .next hs hc
  | escaped hs => exact .escaped hs
  | emptyGroup hs => exact .emptyGroup hs
  | group hs hc withinLimit => exact .group hs hc (UInt32.le_trans withinLimit hl)
  | inClass hs hk => exact .inClass hs hk.relimit
  | ofClass hs hk => exact .ofClass hs hk.relimit
  | inBounds hs hb => exact .inBounds hs hb.relimit
  | ofBounds hs hb => exact .ofBounds hs hb.relimit

/-- A fault of another kind does not depend on the limit. -/
theorem Fault.relimit (h : s.Fault ⟨strict, l⟩ offset c e) (he : e.cause ≠ .nestLimitExceeded l) :
    s.Fault ⟨strict, l'⟩ offset c e := by
  cases h with
  | unmatched hs houter => exact .unmatched hs houter
  | quantifier | group => exact absurd rfl he
  | inClass hs hk => exact .inClass hs hk.relimit
  | inBounds hs hb => exact .inBounds hs hb.relimit

/-- With a greater limit an end has the same fault, unless it is the limit. -/
theorem EndFault.of_le (h : s.EndFault ⟨strict, l⟩ stop e) (he : e.cause ≠ .nestLimitExceeded l)
    (hl : l ≤ l') : s.EndFault ⟨strict, l'⟩ stop e := by
  cases h with
  | openGroup hs houter => exact .openGroup hs houter
  | branch hs => exact .branch hs
  | escape hs => exact .escape hs
  | group hs withinLimit => exact .group hs (UInt32.le_trans withinLimit hl)
  | limit => exact absurd rfl he
  | inClass hs => exact .inClass hs
  | inBounds hs => exact .inBounds hs

/-- What one limit reads, every greater limit reads. -/
theorem read_of_le (h : s.read ⟨strict, l⟩ offset p = .ok s') (hl : l ≤ l') :
    s.read ⟨strict, l'⟩ offset p = .ok s' := by
  induction p generalizing s offset with
  | nil => exact h
  | cons c p ih =>
    obtain ⟨t, ht, hs'⟩ := exists_of_read_cons h
    rw [read_cons_of_step ((step_eq_ok_iff.mp ht).of_le hl).step_eq]
    exact ih hs'

/-! ### Where the limit is reached -/

/-- A text whose level at the offset is beyond the limit: a quantifier stands there, or a
parenthesis. -/
inductive ReachesLimit (o : Options) : List Char → Nat → Prop
  | quantifier {q r s n level} (hread : read o {} 0 q = .ok s) (hs : s.focus = .element n level) :
      ReachesLimit o (q ++ r) (utf8Len q)
  | group {q r s s'} (hread : read o {} 0 q = .ok s) (hstep : s.Step o (utf8Len q) '(' s')
      (hs' : s'.focus = .group (utf8Len q)) : ReachesLimit o (q ++ '(' :: r) (utf8Len q)

variable {o : Options}

theorem reachesLimit_of_group {paren : Nat} (h : read o {} 0 p = .ok s)
    (hs : s.focus = .group paren) (r : List Char) : ReachesLimit o (p ++ r) paren := by
  obtain ⟨q, rfl, rfl⟩ := exists_of_read_group h hs
  obtain ⟨t, ht, hstep⟩ := exists_of_read_snoc h
  rw [Nat.zero_add, step_eq_ok_iff] at hstep
  rw [List.append_assoc, List.singleton_append]
  exact .group ht hstep hs

/-- The limit is found to be exceeded where it is reached. -/
theorem Fault.reachesLimit (h : s.Fault o (utf8Len p) c e) (he : e.cause = .nestLimitExceeded l)
    (hread : read o {} 0 p = .ok s) (r : List Char) : ReachesLimit o (p ++ c :: r) e.offset := by
  cases h with
  | unmatched => cases he
  | quantifier hs => exact .quantifier hread hs
  | group hs => exact reachesLimit_of_group hread hs _
  | inClass _ hk => cases hk <;> cases he
  | inBounds _ hb => cases hb <;> cases he

theorem EndFault.reachesLimit (h : s.EndFault o stop e) (he : e.cause = .nestLimitExceeded l)
    (hread : read o {} 0 p = .ok s) : ReachesLimit o p e.offset := by
  cases h with
  | limit hs =>
    rw [← List.append_nil p]
    exact reachesLimit_of_group hread hs []
  | inClass =>
    rw [UnfinishedClass.endCause] at he
    split at he <;> cases he
  | openGroup | branch | escape | group | inBounds => cases he

/-- An end does not exceed the limit if the level of a parenthesis in front of it is within. -/
theorem EndFault.cause_ne_limit (h : s.EndFault o stop e)
    (hs : ∀ paren, s.focus = .group paren → s.depth + 1 ≤ o.nestLimit) :
    e.cause ≠ .nestLimitExceeded l := by
  cases h with
  | limit hfocus beyondLimit => exact absurd (hs _ hfocus) (UInt32.not_le.mpr beyondLimit)
  | inClass =>
    rw [UnfinishedClass.endCause]
    split <;> nofun
  | openGroup | branch | escape | group | inBounds => nofun

/-- A parenthesis that another character than its closing one follows opens a level. -/
theorem Step.level_le {paren : Nat} (h : s.Step o offset c s') (hc : c ≠ ')')
    (hs : s.focus = .group paren) : s.depth + 1 ≤ o.nestLimit := by
  cases h with
  | group _ _ withinLimit => exact withinLimit
  | emptyGroup => exact absurd rfl hc
  | first hs' | bar hs' | close hs' | brace hs' | quantifier hs' | next hs' | escaped hs'
  | inClass hs' | ofClass hs' | inBounds hs' | ofBounds hs' => cases hs.symm.trans hs'

/-- The text in front of the offset does not exceed the limit. -/
theorem ReachesLimit.exists_read (h : ReachesLimit o p x) :
    ∃ q r s, p = q ++ r ∧ utf8Len q = x ∧ read o {} 0 q = .ok s ∧
      ∀ paren, s.focus = .group paren → s.depth + 1 ≤ o.nestLimit := by
  cases h with
  | @quantifier q r s _ _ hread hs =>
    exact ⟨q, r, s, rfl, rfl, hread, fun _ hgroup => by rw [hs] at hgroup; cases hgroup⟩
  | @group q r s s' hread hstep =>
    exact ⟨q, '(' :: r, s, rfl, rfl, hread, fun _ => hstep.level_le (by decide)⟩

/-- With a greater limit, the text up to the offset leaves no earlier one at which a fault is
reported. -/
theorem ReachesLimit.exists_read_of_le (h : ReachesLimit ⟨strict, l⟩ p x) (hl : l ≤ l') :
    ∃ q r s, p = q ++ r ∧ x ≤ utf8Len q ∧ read ⟨strict, l'⟩ {} 0 q = .ok s ∧
      ∀ y, s.focus.Reportable ⟨strict, l'⟩ y → x ≤ y := by
  cases h with
  | @quantifier q r s _ _ hread hs =>
    exact ⟨q, r, s, rfl, Nat.le_refl _, read_of_le hread hl, fun y hy => by rw [hs] at hy; cases hy⟩
  | @group q r s s' hread hstep hs' =>
    refine ⟨q ++ ['('], r, s', by simp, by simp, read_of_le ?_ hl, fun y hy => ?_⟩
    · rw [read_append_of_ok hread, read_singleton, Nat.zero_add, hstep.step_eq]
    · rw [hs'] at hy
      exact Nat.le_of_eq hy.symm

/-- A text that can be read and leaves no offset before `x` at which a fault is reported puts all
faults of the pattern at `x` or behind it. -/
theorem le_offset_of_read {p : String} {r : List Char} (hp : p.toList = q ++ r)
    (hq : read o {} 0 q = .ok s) (hx : x ≤ utf8Len q)
    (hs : ∀ y, s.focus.Reportable o y → x ≤ y) (h : parse p o = .error e) : x ≤ e.offset := by
  have hread := read_append_of_ok (q := r) hq
  rw [← hp, Nat.zero_add] at hread
  rcases exists_of_parse_error h with herror | ⟨t, ht, hfinish⟩
  · rw [hread] at herror
    rcases offset_of_read_error herror with hy | ⟨hle, -⟩
    · exact hs _ hy
    · exact Nat.le_trans hx hle
  · rw [hread] at ht
    rcases (finish_eq_error_iff.mp hfinish).reportable with hy | hstop
    · rcases reportable_of_read ht hy with hy | ⟨hle, -⟩
      · exact hs _ hy
      · exact Nat.le_trans hx hle
    · rw [hstop, ← utf8Len_toList, hp, String.utf8Len_append]
      omega

end UnfinishedPattern

/-! ### Parsing with two limits -/

section Parse

variable {p : String} {t t' : Chain}

/-- A greater limit accepts what a limit accepts, with the same tree. -/
theorem parse_ok_of_le (h : parse p ⟨strict, l⟩ = .ok t) (hl : l ≤ l') :
    parse p ⟨strict, l'⟩ = .ok t := by
  obtain ⟨s, hread, hfinish⟩ := exists_of_parse_ok h
  rw [parse_of_read (UnfinishedPattern.read_of_le hread hl)]
  exact UnfinishedPattern.finish_eq_ok_iff.mpr (UnfinishedPattern.finish_eq_ok_iff.mp hfinish)

/-- A greater limit finds the same fault if it is not the limit. -/
theorem parse_error_of_le (h : parse p ⟨strict, l⟩ = .error e)
    (he : e.cause ≠ .nestLimitExceeded l) (hl : l ≤ l') : parse p ⟨strict, l'⟩ = .error e := by
  rw [parse_eq_error_iff] at h ⊢
  rcases h with ⟨q, c, r, s, hp, hq, hfault⟩ | ⟨s, hread, hfault⟩
  · exact Or.inl ⟨q, c, r, s, hp, UnfinishedPattern.read_of_le hq hl, hfault.relimit he⟩
  · exact Or.inr ⟨s, UnfinishedPattern.read_of_le hread hl, hfault.of_le he hl⟩

theorem reachesLimit_of_parse {o : Options} (h : parse p o = .error ⟨.nestLimitExceeded l, x⟩) :
    UnfinishedPattern.ReachesLimit o p.toList x := by
  rcases parse_eq_error_iff.mp h with ⟨q, c, r, s, hp, hq, hfault⟩ | ⟨s, hread, hfault⟩
  · rw [hp]
    exact hfault.reachesLimit rfl hq r
  · exact hfault.reachesLimit rfl hread

/-- The text in front of the offset at which the limit is reported does not reach it alone. -/
theorem exists_prefix_of_limit {o : Options}
    (h : parse p o = .error ⟨.nestLimitExceeded l, x⟩) :
    ∃ q r : String, p = q ++ r ∧ q.utf8ByteSize = x ∧
      ∀ m y, parse q o ≠ .error ⟨.nestLimitExceeded m, y⟩ := by
  obtain ⟨q, r, s, hp, hx, hread, hs⟩ := (reachesLimit_of_parse h).exists_read
  obtain ⟨q, r, hsplit, rfl, rfl⟩ := exists_of_toList_eq_append hp
  refine ⟨q, r, hsplit, (utf8Len_toList q).symm.trans hx, fun m y herror => ?_⟩
  rw [parse_of_read hread, ← utf8Len_toList, UnfinishedPattern.finish_eq_error_iff] at herror
  exact herror.cause_ne_limit hs rfl

/-- Where a limit is reached, a greater limit finds nothing wrong before. -/
theorem le_offset_of_limit (h : parse p ⟨strict, l⟩ = .error ⟨.nestLimitExceeded l, x⟩)
    (hl : l ≤ l') (he : parse p ⟨strict, l'⟩ = .error e) : x ≤ e.offset := by
  obtain ⟨q, r, s, hp, hx, hread, hs⟩ := (reachesLimit_of_parse h).exists_read_of_le hl
  exact UnfinishedPattern.le_offset_of_read hp hread hx hs he

/-- The limits that accept a pattern are those from a least one on. -/
theorem exists_least_limit (h : parse p ⟨strict, l⟩ = .ok t) :
    ∃ least, ∀ l', (least ≤ l' → parse p ⟨strict, l'⟩ = .ok t) ∧
      (l' < least → ∀ t', parse p ⟨strict, l'⟩ ≠ .ok t') := by
  obtain ⟨least, hleast, hmin⟩ := (measure UInt32.toNat).wf.has_min
    {l | parse p ⟨strict, l⟩ = .ok t} ⟨l, h⟩
  refine ⟨least, fun l' => ⟨parse_ok_of_le hleast, fun hlt t' ht' => ?_⟩⟩
  have hsame := parse_ok_of_le ht' (UInt32.le_of_lt hlt)
  rw [hleast] at hsame
  cases hsame
  exact hmin l' ht' (UInt32.lt_iff_toNat_lt.mp hlt)

/-- A greater limit changes nothing unless the smaller one has been reached. Then it finds nothing
wrong before the offset at which that is reported, and the text up to there does not reach the
smaller limit. So a pattern is accepted, and with one tree, by the limits from a least one on. -/
theorem parse_of_le_nestLimit (p : String) (strict : Bool) :
    (∀ l l' : UInt32, l ≤ l' →
      (∀ t, parse p ⟨strict, l⟩ = .ok t → parse p ⟨strict, l'⟩ = .ok t) ∧
      (∀ e, parse p ⟨strict, l⟩ = .error e → e.cause ≠ .nestLimitExceeded l →
        parse p ⟨strict, l'⟩ = .error e) ∧
      ∀ x, parse p ⟨strict, l⟩ = .error ⟨.nestLimitExceeded l, x⟩ →
        (∀ e, parse p ⟨strict, l'⟩ = .error e → x ≤ e.offset) ∧
          ∃ q r : String, p = q ++ r ∧ q.utf8ByteSize = x ∧
            ∀ m y, parse q ⟨strict, l⟩ ≠ .error ⟨.nestLimitExceeded m, y⟩) ∧
    ∀ l t, parse p ⟨strict, l⟩ = .ok t →
      ∃ least, ∀ l', (least ≤ l' → parse p ⟨strict, l'⟩ = .ok t) ∧
        (l' < least → ∀ t', parse p ⟨strict, l'⟩ ≠ .ok t') :=
  ⟨fun _ _ hl => ⟨fun _ ht => parse_ok_of_le ht hl, fun _ h he => parse_error_of_le h he hl,
    fun _ h => ⟨fun _ => le_offset_of_limit h hl, exists_prefix_of_limit h⟩⟩,
    fun _ _ => exists_least_limit⟩

/-- The limit 1 is reached at the second quantifier of `a+*)`, and the limit 2 finds nothing wrong
before it. The limits that accept `a+*b` are those from a least one on. -/
theorem parse_of_le_nestLimit_two_quantifiers :
    (parse "a+*)" ⟨true, 1⟩ = .error ⟨.nestLimitExceeded 1, 2⟩ ∧
      (∀ e, parse "a+*)" ⟨true, 2⟩ = .error e → 2 ≤ e.offset) ∧
        ∃ q r : String, "a+*)" = q ++ r ∧ q.utf8ByteSize = 2 ∧
          ∀ m y, parse q ⟨true, 1⟩ ≠ .error ⟨.nestLimitExceeded m, y⟩) ∧
    ∃ t least, ∀ l', (least ≤ l' → parse "a+*b" ⟨true, l'⟩ = .ok t) ∧
      (l' < least → ∀ t', parse "a+*b" ⟨true, l'⟩ ≠ .ok t') :=
  ⟨⟨rfl, ((parse_of_le_nestLimit "a+*)" true).1 1 2 (by decide)).2.2 2 rfl⟩,
    _, (parse_of_le_nestLimit "a+*b" true).2 2 _ rfl⟩

end Parse

end PatternTree
