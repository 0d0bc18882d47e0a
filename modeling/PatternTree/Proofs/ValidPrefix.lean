import PatternTree.Proofs.Derivation
import PatternTree.Proofs.FaultOffsets
/-!
# Faults and the text behind them

A fault that is found before the end of a pattern is found whatever text follows. A fault of the end
means that the pattern is not complete: every state of reading can be completed, unless strict
options have to refuse the bounds that it leads to. A parenthesis at the end of a pattern is the one
place where the two meet. It is found to open a level beyond the limit, but it opens none when the
text that follows closes it at once.

## Main results

* `UnfinishedPattern.exists_read_closed` — what has been read can be completed.
* `parse_append_of_error` — what a fault says about the patterns that go on behind it.
-/

open String (utf8Len utf8Len_toList)

namespace PatternTree

namespace UnfinishedPattern

variable {o : Options} {s s' : UnfinishedPattern} {offset : Nat} {c : Char} {p : List Char}
  {n : Node} {level : UInt32}

/-! ### Open parentheses -/

theorem paren_of_beginElement {paren : Nat}
    (h : (s.beginElement offset c).focus = .group paren) : c = '(' ∧ paren = offset := by
  rw [beginElement] at h
  split_ifs at h with hdot hparen
  · cases h
  · cases h
    exact ⟨hparen, rfl⟩
  all_goals cases h

theorem Step.paren {paren : Nat} (h : s.Step o offset c s') (hs : s'.focus = .group paren) :
    c = '(' ∧ paren = offset := by
  cases h with
  | first | next | group => exact paren_of_beginElement hs
  | bar | close | brace | quantifier | escaped | emptyGroup | inClass | ofClass | inBounds
  | ofBounds => cases hs

/-- A group has just been opened only behind its parenthesis. -/
theorem exists_of_read_group {paren : Nat} (h : read o {} 0 p = .ok s)
    (hs : s.focus = .group paren) : ∃ q, p = q ++ ['('] ∧ paren = utf8Len q := by
  rcases List.eq_nil_or_concat' p with rfl | ⟨q, c, rfl⟩
  · cases h
    cases hs
  · obtain ⟨t, -, hstep⟩ := exists_of_read_snoc h
    obtain ⟨rfl, rfl⟩ := (step_eq_ok_iff.mp hstep).paren hs
    exact ⟨q, rfl, Nat.zero_add _⟩

/-! ### Completing what has been read -/

/-- A bracket closes a class behind a single character. -/
theorem read_singleEnd {k : UnfinishedClass} {start : Nat} {a : Char}
    (hk : k.focus = .single start a) :
    (s.atClass k).read o offset [']'] = .ok (s.complete (k.add (.literal a)).node) := by
  have hready : k.Ready ']' := by
    simp only [UnfinishedClass.Ready, hk]
    decide
  have hsettle := UnfinishedClass.settle_of_single hk
  have nonempty : k.settle.entries ≠ [] := by
    rw [hsettle]
    exact List.cons_ne_nil _ _
  rw [← hsettle]
  exact read_atClass_done (.close hready nonempty)

/-- Where an entry may begin, a class is completed by one. -/
theorem read_entryEnd {k : UnfinishedClass} (hk : k.Ready 'a') :
    (s.atClass k).read o offset ['a', ']'] =
      .ok (s.complete (k.settle.add (.literal 'a')).node) := by
  rw [read_atClass (.character hk (by decide) (by decide))]
  exact read_singleEnd rfl

/-- Every class can be completed. -/
theorem exists_read_class (s : UnfinishedPattern) (k : UnfinishedClass) (offset : Nat) :
    ∃ p n, (s.atClass k).read o offset p = .ok (s.complete n) := by
  cases hk : k.focus with
  | start | entry | single => exact ⟨_, _, read_entryEnd (by simp [UnfinishedClass.Ready, hk])⟩
  | escape start =>
    have hstep : k.Step o offset 'a' (.going { k with focus := .single start 'a' }) := .escaped hk
    exact ⟨['a', ']'], _, (read_atClass hstep).trans (read_singleEnd rfl)⟩
  | hyphen start a => exact ⟨[']'], _, read_atClass_done (.finalHyphen hk)⟩
  | hyphenEscape start a =>
    have hstep : k.Step o offset a (.going (k.add (.range a a))) :=
      .escapedRange hk fun _ => Char.le_refl a
    have hready : (k.add (.range a a)).Ready 'a' := trivial
    exact ⟨[a, 'a', ']'], _, (read_atClass hstep).trans (read_entryEnd hready)⟩

/-- Options that are not strict let all bounds be completed. -/
theorem exists_read_bounds (lenient : o.rejectInverted = false) (s : UnfinishedPattern) (n : Node)
    (level : UInt32) (b : UnfinishedBounds) (offset : Nat) :
    ∃ p bounds, (s.atBounds n level b).read o offset p =
      .ok (s.completeRepetition n level bounds) := by
  rcases b with ⟨brace, _ | min, _ | run⟩
  · exact ⟨['0', '}'], _, (read_atBounds (.firstDigit rfl rfl)).trans (read_atBounds_done .exactly)⟩
  · exact ⟨['}'], _, read_atBounds_done .exactly⟩
  · exact ⟨['}'], _, read_atBounds_done .atLeast⟩
  · exact ⟨['}'], _, read_atBounds_done (.between fun strict => by simp [lenient] at strict)⟩

/-- What has been read can be completed to an element of the innermost group. -/
theorem exists_read_element (s : UnfinishedPattern) (offset : Nat)
    (hs : ∀ n level b, s.focus = .inBounds n level b → o.rejectInverted = false) :
    ∃ p s' n level, s.read o offset p = .ok s' ∧ s'.focus = .element n level := by
  cases hfocus : s.focus with
  | branch =>
    have hread : s.read o offset ['a'] = .ok (s.complete (.literal 'a')) :=
      read_singleton.trans (Step.first hfocus).step_eq
    exact ⟨_, _, _, _, hread, rfl⟩
  | element n level => exact ⟨[], s, n, level, rfl, hfocus⟩
  | escape =>
    have hread : s.read o offset ['a'] = .ok (s.complete (.literal 'a')) :=
      read_singleton.trans (Step.escaped hfocus).step_eq
    exact ⟨_, _, _, _, hread, rfl⟩
  | group paren =>
    have hread : s.read o offset [')'] = .ok (s.complete .empty) :=
      read_singleton.trans (Step.emptyGroup hfocus).step_eq
    exact ⟨_, _, _, _, hread, rfl⟩
  | inClass k =>
    obtain ⟨p, n, hp⟩ := exists_read_class (o := o) s k offset
    rw [atClass, ← hfocus] at hp
    exact ⟨p, _, n, s.depth, hp, rfl⟩
  | inBounds n level b =>
    obtain ⟨p, bounds, hp⟩ := exists_read_bounds (hs n level b hfocus) s n level b offset
    rw [atBounds, ← hfocus] at hp
    exact ⟨p, _, _, level, hp, rfl⟩

/-- Closing parentheses end all groups that are open behind an element. -/
theorem exists_read_outer (s : UnfinishedPattern) (offset : Nat) (hs : s.focus = .element n level) :
    ∃ p s' n level, s.read o offset p = .ok s' ∧ s'.outer = [] ∧ s'.focus = .element n level := by
  induction houter : s.outer generalizing s offset n level with
  | nil => exact ⟨[], s, n, level, rfl, houter, hs⟩
  | cons f outer ih =>
    let t : UnfinishedPattern :=
      complete { outer, depth := s.depth - 1, frame := f } (s.frame.node n)
    have hclose : s.step o offset ')' = .ok t := (Step.close hs houter).step_eq
    obtain ⟨p, s', m, l, hp, hs'⟩ := ih t (offset + ')'.utf8Size) rfl rfl
    exact ⟨')' :: p, s', m, l, by rw [read_cons_of_step hclose, hp], hs'⟩

/-- What has been read can be completed to a whole pattern. -/
theorem exists_read_closed (s : UnfinishedPattern) (offset : Nat)
    (hs : ∀ n level b, s.focus = .inBounds n level b → o.rejectInverted = false) :
    ∃ p s', s.read o offset p = .ok s' ∧ ∀ stop, ∃ t, s'.finish o stop = .ok t := by
  obtain ⟨p, s₁, n, level, hp, hs₁⟩ := exists_read_element s offset hs
  obtain ⟨q, s₂, n, level, hq, houter, hs₂⟩ := exists_read_outer s₁ (offset + utf8Len p) hs₁
  exact ⟨p ++ q, s₂, by rw [read_append_of_ok hp, hq], fun _ => ⟨_, finish_of_element houter hs₂⟩⟩

end UnfinishedPattern

/-! ### Patterns that go on behind a fault -/

section Append

variable {o : Options} {p q : String} {e : SyntaxError}

theorem parse_append_of_read_error
    (h : UnfinishedPattern.read o {} 0 p.toList = .error e) : parse (p ++ q) o = .error e := by
  apply parse_of_read_error
  rw [String.toList_append]
  exact UnfinishedPattern.read_append_of_error h

/-- A parenthesis that opens a level beyond the limit does so in front of everything but a closing
parenthesis. -/
theorem parse_append_of_limit {s : UnfinishedPattern} {paren : Nat}
    (h : UnfinishedPattern.read o {} 0 p.toList = .ok s) (hs : s.focus = .group paren)
    (beyondLimit : o.nestLimit < s.depth + 1) :
    parse (p ++ q) o = .error ⟨.nestLimitExceeded o.nestLimit, paren⟩ ∨ ∃ r, q = ")" ++ r := by
  rcases hq : q.toList with _ | ⟨c, r⟩
  · obtain rfl : q = "" := String.toList_eq_nil_iff.mp hq
    left
    rw [String.append_empty, parse_of_read h]
    exact (UnfinishedPattern.EndFault.limit hs beyondLimit).finish_eq
  · by_cases hc : c = ')'
    · refine Or.inr ⟨String.ofList r, String.toList_injective ?_⟩
      rw [hq, hc, String.toList_append, String.toList_ofList, String.toList_ofList]
      rfl
    · left
      apply parse_of_read_error
      rw [String.toList_append, hq, UnfinishedPattern.read_append_of_ok h]
      exact UnfinishedPattern.read_cons_of_step_error
        (UnfinishedPattern.Fault.group hs hc beyondLimit).step_eq

/-- A fault before the end of a pattern is found whatever follows, except that a closing parenthesis
may follow one that opens a level beyond the limit. A pattern with a fault at its end can be
completed, unless strict options refuse its bounds. -/
theorem parse_append_of_error (h : parse p o = .error e) :
    (e.offset < p.utf8ByteSize → ∀ q, parse (p ++ q) o = .error e ∨
      e.cause = .nestLimitExceeded o.nestLimit ∧
        (∃ r, p = r ++ "(" ∧ e.offset = r.utf8ByteSize) ∧ ∃ r, q = ")" ++ r) ∧
    (e.offset = p.utf8ByteSize → o.rejectInverted = false ∨ e.cause ≠ .malformedQuantifier →
      ∃ q t, parse (p ++ q) o = .ok t) := by
  rcases exists_of_parse_error h with hread | ⟨s, hread, hfinish⟩
  · have hlt := UnfinishedPattern.offset_lt_of_read_error hread
    rw [utf8Len_toList] at hlt
    exact ⟨fun _ q => Or.inl (parse_append_of_read_error hread), fun heq => by omega⟩
  · have hend := UnfinishedPattern.finish_eq_error_iff.mp hfinish
    constructor
    · intro hlt q
      cases hend with
      | openGroup | branch | escape | group | inClass | inBounds => exact absurd hlt (lt_irrefl _)
      | @limit paren hs beyondLimit =>
        obtain ⟨r, hp, hparen⟩ := UnfinishedPattern.exists_of_read_group hread hs
        have hopen : p = String.ofList r ++ "(" := String.toList_injective (by
          rw [hp, String.toList_append, String.toList_ofList, String.toList_ofList])
        refine (parse_append_of_limit hread hs beyondLimit).imp_right fun hclose => ?_
        exact ⟨rfl, ⟨_, hopen, by rw [hparen, String.utf8ByteSize_ofList]⟩, hclose⟩
    · intro _ hcause
      have hbounds n level b (hs : s.focus = .inBounds n level b) : o.rejectInverted = false := by
        have hfault := (UnfinishedPattern.EndFault.inBounds hs).finish_eq.symm.trans hfinish
        cases hfault
        exact hcause.resolve_right fun h => h rfl
      obtain ⟨q, s', hq, hs'⟩ := s.exists_read_closed p.utf8ByteSize hbounds
      obtain ⟨t, ht⟩ := hs' (p ++ String.ofList q).utf8ByteSize
      refine ⟨String.ofList q, t, ?_⟩
      rw [parse_of_read, ht]
      rw [String.toList_append, String.toList_ofList, UnfinishedPattern.read_append_of_ok hread,
        Nat.zero_add, utf8Len_toList, hq]

theorem parse_append_unmatched_and_bounds :
    (∀ q, parse ("a)" ++ q) {} = .error ⟨.unmatchedClose, 1⟩) ∧
      ∃ q t, parse ("(a\x7b2" ++ q) .lenient = .ok t := by
  constructor
  · intro q
    have h := (parse_append_of_error (p := "a)") (o := {}) (e := ⟨.unmatchedClose, 1⟩) rfl).1
    rcases h (by decide) q with hq | ⟨⟨⟩, _⟩
    exact hq
  · exact (parse_append_of_error (p := "(a\x7b2") (o := .lenient) (e := ⟨.malformedQuantifier, 4⟩)
      rfl).2 (by decide) (Or.inl rfl)

/-- At the end of a pattern, `(` is found to open a level too many, although `()` opens none. -/
theorem not_forall_parse_append_eq_error :
    ¬∀ (o : Options) (p q : String) (e : SyntaxError), o.nestLimit.toNat < 2 ^ 32 - 1 →
      parse p o = .error e → e.offset < p.utf8ByteSize → parse (p ++ q) o = .error e := by
  intro h
  have hopen : parse "(" { nestLimit := 0 } = .error ⟨.nestLimitExceeded 0, 0⟩ := rfl
  have hclosed := h { nestLimit := 0 } "(" ")" _ (by decide) hopen (by decide)
  cases hclosed

end Append

end PatternTree
