import Mathlib.Tactic.SplitIfs
import PatternTree.Proofs.Counting
/-!
# What one more character does to what has been read

For the bounds of a quantifier, a class and a whole pattern, `Step` lists what one more character
can lead to, with the conditions under which it does, and `Fault` lists what can be wrong with it.
Everything about a reading step is proved by cases on these lists. `EndFault` lists what can be
wrong with the end of a pattern.

A character begins a new entry of a class at the start of the class, behind a complete entry, and
behind a single character that no hyphen follows. Such a character is complete only then:
`UnfinishedClass.settle` adds it to the entries.

## Main definitions

* `UnfinishedBounds.Step`, `UnfinishedClass.Step`, `UnfinishedPattern.Step` — the steps.
* `UnfinishedBounds.Fault`, `UnfinishedClass.Fault`, `UnfinishedPattern.Fault` — the faults.
* `UnfinishedPattern.EndFault` — the faults of an end.

## Main results

* `UnfinishedBounds.step_eq_ok_iff`, `UnfinishedClass.step_eq_ok_iff`,
  `UnfinishedPattern.step_eq_ok_iff` — the steps are those that `step` takes.
* `UnfinishedBounds.step_eq_error_iff`, `UnfinishedClass.step_eq_error_iff`,
  `UnfinishedPattern.step_eq_error_iff` — the faults are those that `step` finds.
* `UnfinishedPattern.finish_eq_ok_iff`, `UnfinishedPattern.finish_eq_error_iff` — how a pattern
  ends.
-/

namespace PatternTree

/-- Listed outcomes and listed faults that are results, and of which there is always one, are all
results. -/
private theorem exact_of_total {ε α : Type} {x : Except ε α} {S : α → Prop} {F : ε → Prop}
    (hS : ∀ r, S r → x = .ok r) (hF : ∀ e, F e → x = .error e)
    (total : (∃ r, S r) ∨ ∃ e, F e) :
    (∀ r, x = .ok r ↔ S r) ∧ ∀ e, x = .error e ↔ F e := by
  rcases total with ⟨r, hr⟩ | ⟨e, he⟩
  · obtain rfl := hS r hr
    refine ⟨fun r' => ⟨fun h => ?_, hS r'⟩, fun e => ⟨nofun, hF e⟩⟩
    cases h
    exact hr
  · obtain rfl := hF e he
    refine ⟨fun r => ⟨nofun, hS r⟩, fun e' => ⟨fun h => ?_, hF e'⟩⟩
    cases h
    exact he

/-! ### Bounds -/

namespace UnfinishedBounds

/-- What one more character of the bounds of a quantifier leads to. -/
inductive Step (o : Options) :
    UnfinishedBounds → Nat → Char → Progress UnfinishedBounds (UInt32 × Bound) → Prop
  | firstDigit {b offset c d} (hc : digit? c = some d) (hb : b.run? = none) :
      Step o b offset c (.going { b with run? := some ⟨offset, .ofNat d⟩ })
  | digit {b offset c d run} (hc : digit? c = some d) (hb : b.run? = some run)
      (fits : 10 * run.value.toNat + d < UInt32.size) :
      Step o b offset c
        (.going { b with run? := some ⟨run.start, .ofNat (10 * run.value.toNat + d)⟩ })
  | comma {brace offset run} :
      Step o ⟨brace, none, some run⟩ offset ',' (.going ⟨brace, some run.value, none⟩)
  | exactly {brace offset run} :
      Step o ⟨brace, none, some run⟩ offset '}' (.done (run.value, .bounded run.value))
  | atLeast {brace offset min} :
      Step o ⟨brace, some min, none⟩ offset '}' (.done (min, .unbounded))
  | between {brace offset min run} (ordered : o.rejectInverted → min ≤ run.value) :
      Step o ⟨brace, some min, some run⟩ offset '}' (.done (min, .bounded run.value))

/-- What can be wrong with one more character of the bounds of a quantifier. -/
inductive Fault (o : Options) : UnfinishedBounds → Nat → Char → SyntaxError → Prop
  | tooLarge {b offset c d run} (hc : digit? c = some d) (hb : b.run? = some run)
      (large : UInt32.size ≤ 10 * run.value.toNat + d) :
      Fault o b offset c ⟨.malformedQuantifier, run.start⟩
  | malformed {b offset c} (hc : digit? c = none)
      (hb : b.min? = none → b.run? ≠ none → c ≠ ',') (hmin : b.min? ≠ none → c ≠ '}')
      (hrun : b.run? ≠ none → c ≠ '}') :
      Fault o b offset c ⟨.malformedQuantifier, offset⟩
  | inverted {brace offset min run} (strict : o.rejectInverted) (inverted : run.value < min) :
      Fault o ⟨brace, some min, some run⟩ offset '}' ⟨.invertedBounds min run.value, brace⟩

variable {o : Options} {b : UnfinishedBounds} {offset : Nat} {c : Char}
  {r : Progress UnfinishedBounds (UInt32 × Bound)} {e : SyntaxError}

theorem close_of_ordered {brace : Nat} {min : UInt32} {run : DigitRun}
    (h : o.rejectInverted → min ≤ run.value) :
    close o ⟨brace, some min, some run⟩ min = .ok (min, .bounded run.value) := by
  simp only [close]
  rw [if_neg]
  simp only [Bool.and_eq_true, decide_eq_true_eq, not_and, UInt32.not_lt]
  exact h

theorem close_of_inverted {brace : Nat} {min : UInt32} {run : DigitRun} (ho : o.rejectInverted)
    (h : run.value < min) :
    close o ⟨brace, some min, some run⟩ min = .error ⟨.invertedBounds min run.value, brace⟩ := by
  simp only [close]
  rw [if_pos]
  simp only [ho, h, decide_true, Bool.and_true]

theorem Step.step_eq (h : Step o b offset c r) : b.step o offset c = .ok r := by
  cases h with
  | firstDigit hc hb => simp only [step, hc, hb, DigitRun.extend]; rfl
  | digit hc hb fits => simp only [step, hc, hb, DigitRun.extend, fits, ↓reduceIte]; rfl
  | comma | exactly | atLeast => rfl
  | @between brace offset min run ordered =>
    change (close o ⟨brace, some min, some run⟩ min >>= _) = _
    rw [close_of_ordered ordered]
    rfl

theorem Fault.step_eq (h : Fault o b offset c e) : b.step o offset c = .error e := by
  cases h with
  | tooLarge hc hb large =>
    simp only [step, hc, hb, DigitRun.extend, if_neg (Nat.not_lt.mpr large)]
    rfl
  | malformed hc hb hmin hrun =>
    rcases b with ⟨brace, _ | min, _ | run⟩
    · simp only [step, hc]
    · have hcomma := hb rfl nofun
      have hbrace := hrun nofun
      simp only [step, hc, hcomma, hbrace, ↓reduceIte]
    · have hbrace := hmin nofun
      simp only [step, hc, hbrace, ↓reduceIte]
    · have hbrace := hmin nofun
      simp only [step, hc, hbrace, ↓reduceIte]
  | @inverted brace offset min run strict inverted =>
    change (close o ⟨brace, some min, some run⟩ min >>= _) = _
    rw [close_of_inverted strict inverted]
    rfl

/-- A character leads to a step or has a fault. -/
theorem step_or_fault (o : Options) (b : UnfinishedBounds) (offset : Nat) (c : Char) :
    (∃ r, Step o b offset c r) ∨ ∃ e, Fault o b offset c e := by
  rcases hd : digit? c with _ | d
  · rcases b with ⟨brace, _ | min, _ | run⟩
    · exact Or.inr ⟨_, .malformed hd nofun nofun nofun⟩
    · by_cases hbrace : c = '}'
      · subst hbrace
        exact Or.inl ⟨_, .exactly⟩
      by_cases hcomma : c = ','
      · subst hcomma
        exact Or.inl ⟨_, .comma⟩
      · exact Or.inr ⟨_, .malformed hd (fun _ _ => hcomma) nofun fun _ => hbrace⟩
    · by_cases hbrace : c = '}'
      · subst hbrace
        exact Or.inl ⟨_, .atLeast⟩
      · exact Or.inr ⟨_, .malformed hd nofun (fun _ => hbrace) nofun⟩
    · by_cases hbrace : c = '}'
      · subst hbrace
        by_cases h : o.rejectInverted ∧ run.value < min
        · exact Or.inr ⟨_, .inverted h.1 h.2⟩
        · exact Or.inl ⟨_, .between fun strict => UInt32.not_lt.mp fun hlt => h ⟨strict, hlt⟩⟩
      · exact Or.inr ⟨_, .malformed hd nofun (fun _ => hbrace) fun _ => hbrace⟩
  · rcases hrun : b.run? with _ | run
    · exact Or.inl ⟨_, .firstDigit hd hrun⟩
    · by_cases fits : 10 * run.value.toNat + d < UInt32.size
      · exact Or.inl ⟨_, .digit hd hrun fits⟩
      · exact Or.inr ⟨_, .tooLarge hd hrun (Nat.le_of_not_lt fits)⟩

/-- The steps are those that `step` takes. -/
theorem step_eq_ok_iff : b.step o offset c = .ok r ↔ Step o b offset c r :=
  (exact_of_total (fun _ => Step.step_eq) (fun _ => Fault.step_eq)
    (step_or_fault o b offset c)).1 r

/-- The faults are those that `step` finds. -/
theorem step_eq_error_iff : b.step o offset c = .error e ↔ Fault o b offset c e :=
  (exact_of_total (fun _ => Step.step_eq) (fun _ => Fault.step_eq)
    (step_or_fault o b offset c)).2 e

end UnfinishedBounds

/-! ### Classes -/

namespace UnfinishedClass

/-- The class as it stands when no hyphen comes next: a single character is an entry of its own. -/
def settle (k : UnfinishedClass) : UnfinishedClass :=
  match k.focus with
  | .single _ a => k.add (.literal a)
  | _ => k

/-- Whether `c` begins an entry, or ends the class. -/
def Ready (k : UnfinishedClass) (c : Char) : Prop :=
  match k.focus with
  | .start => c ≠ '^'
  | .entry => True
  | .single _ _ => c ≠ '-'
  | .escape _ | .hyphen _ _ | .hyphenEscape _ _ => False

/-- What one more character of a class leads to. -/
inductive Step (o : Options) :
    UnfinishedClass → Nat → Char → Progress UnfinishedClass Node → Prop
  | negate {k offset} (hk : k.focus = .start) :
      Step o k offset '^' (.going { k with negated := true, focus := .entry })
  | close {k offset} (hk : k.Ready ']') (nonempty : k.settle.entries ≠ []) :
      Step o k offset ']' (.done k.settle.node)
  | escape {k offset} (hk : k.Ready '\\') :
      Step o k offset '\\' (.going { k.settle with focus := .escape offset })
  | character {k offset c} (hk : k.Ready c) (notEnd : c ≠ ']') (notEscape : c ≠ '\\') :
      Step o k offset c (.going { k.settle with focus := .single offset c })
  | escaped {k offset c start} (hk : k.focus = .escape start) :
      Step o k offset c (.going { k with focus := .single start c })
  | hyphen {k offset start a} (hk : k.focus = .single start a) :
      Step o k offset '-' (.going { k with focus := .hyphen start a })
  | finalHyphen {k offset start a} (hk : k.focus = .hyphen start a) :
      Step o k offset ']' (.done ((k.add (.literal a)).add (.literal '-')).node)
  | hyphenEscape {k offset start a} (hk : k.focus = .hyphen start a) :
      Step o k offset '\\' (.going { k with focus := .hyphenEscape start a })
  | range {k offset c start a} (hk : k.focus = .hyphen start a) (notEnd : c ≠ ']')
      (notEscape : c ≠ '\\') (ordered : o.rejectInverted → a ≤ c) :
      Step o k offset c (.going (k.add (.range a c)))
  | escapedRange {k offset c start a} (hk : k.focus = .hyphenEscape start a)
      (ordered : o.rejectInverted → a ≤ c) :
      Step o k offset c (.going (k.add (.range a c)))

/-- What can be wrong with one more character of a class. -/
inductive Fault (o : Options) : UnfinishedClass → Nat → Char → SyntaxError → Prop
  | empty {k offset} (hk : k.Ready ']') (hentries : k.settle.entries = []) :
      Fault o k offset ']' ⟨.emptyClass, k.bracket⟩
  | inverted {k offset c start a} (hk : k.focus = .hyphen start a) (notEnd : c ≠ ']')
      (notEscape : c ≠ '\\') (strict : o.rejectInverted) (inverted : c < a) :
      Fault o k offset c ⟨.invertedRange a c, start⟩
  | escapedInverted {k offset c start a} (hk : k.focus = .hyphenEscape start a)
      (strict : o.rejectInverted) (inverted : c < a) :
      Fault o k offset c ⟨.invertedRange a c, start⟩

variable {o : Options} {k k' : UnfinishedClass} {offset start : Nat} {c a : Char}
  {r : Progress UnfinishedClass Node} {e : SyntaxError}

theorem settle_of_single (hk : k.focus = .single start a) : k.settle = k.add (.literal a) := by
  rw [settle, hk]

theorem settle_of_start (hk : k.focus = .start) : k.settle = k := by
  rw [settle, hk]

theorem settle_of_entry (hk : k.focus = .entry) : k.settle = k := by
  rw [settle, hk]

@[simp] theorem settle_bracket (k : UnfinishedClass) : k.settle.bracket = k.bracket := by
  rw [settle]
  split <;> rfl

@[simp] theorem settle_negated (k : UnfinishedClass) : k.settle.negated = k.negated := by
  rw [settle]
  split <;> rfl

theorem step_of_ready (h : k.Ready c) : k.step o offset c = k.settle.beginEntry offset c := by
  cases hk : k.focus with
  | start =>
    rw [Ready, hk] at h
    simp only [step, hk, h, ↓reduceIte, settle_of_start hk]
  | entry => simp only [step, hk, settle_of_entry hk]
  | single start a =>
    rw [Ready, hk] at h
    simp only [step, hk, h, ↓reduceIte, settle_of_single hk]
  | escape | hyphen | hyphenEscape =>
    rw [Ready, hk] at h
    exact h.elim

theorem addRange_of_ordered (h : o.rejectInverted → a ≤ c) :
    k.addRange o start a c = .ok (k.add (.range a c)) := by
  rw [addRange, if_neg]
  simp only [Bool.and_eq_true, decide_eq_true_eq, not_and, Char.not_lt]
  exact h

theorem addRange_of_inverted (ho : o.rejectInverted) (h : c < a) :
    k.addRange o start a c = .error ⟨.invertedRange a c, start⟩ := by
  rw [addRange, if_pos]
  simp only [ho, h, decide_true, Bool.and_true]

theorem Step.step_eq (h : Step o k offset c r) : k.step o offset c = .ok r := by
  cases h with
  | negate hk => simp only [step, hk, ↓reduceIte]
  | close hk nonempty =>
    rw [step_of_ready hk, beginEntry, if_pos rfl, if_neg]
    rwa [List.isEmpty_iff]
  | escape hk => rw [step_of_ready hk]; rfl
  | character hk notEnd notEscape =>
    rw [step_of_ready hk, beginEntry, if_neg notEnd, if_neg notEscape]
  | escaped hk => simp only [step, hk]
  | hyphen hk => simp only [step, hk, ↓reduceIte]
  | finalHyphen hk => simp only [step, hk, ↓reduceIte]
  | hyphenEscape hk => simp only [step, hk, ↓reduceIte, Char.reduceEq]
  | range hk notEnd notEscape ordered =>
    simp only [step, hk, notEnd, notEscape, ↓reduceIte, addRange_of_ordered ordered]
    rfl
  | escapedRange hk ordered =>
    simp only [step, hk, addRange_of_ordered ordered]
    rfl

theorem Fault.step_eq (h : Fault o k offset c e) : k.step o offset c = .error e := by
  cases h with
  | empty hk hentries =>
    rw [step_of_ready hk, beginEntry, if_pos rfl, if_pos, settle_bracket]
    rwa [List.isEmpty_iff]
  | inverted hk notEnd notEscape strict inverted =>
    simp only [step, hk, notEnd, notEscape, ↓reduceIte, addRange_of_inverted strict inverted]
    rfl
  | escapedInverted hk strict inverted =>
    simp only [step, hk, addRange_of_inverted strict inverted]
    rfl

/-- Where an entry may begin, a character does so, ends the class, or finds it empty. -/
theorem ready_cases (o : Options) (offset : Nat) (h : k.Ready c) :
    (∃ r, Step o k offset c r) ∨ ∃ e, Fault o k offset c e := by
  by_cases hend : c = ']'
  · subst hend
    by_cases hentries : k.settle.entries = []
    · exact Or.inr ⟨_, .empty h hentries⟩
    · exact Or.inl ⟨_, .close h hentries⟩
  · by_cases hescape : c = '\\'
    · subst hescape
      exact Or.inl ⟨_, .escape h⟩
    · exact Or.inl ⟨_, .character h hend hescape⟩

/-- The end of a range may be any character, unless it is below the start and that matters. -/
theorem range_cases (o : Options) (a c : Char) :
    (o.rejectInverted → a ≤ c) ∨ o.rejectInverted ∧ c < a := by
  by_cases h : c < a
  · cases ho : o.rejectInverted
    · exact .inl nofun
    · exact .inr ⟨rfl, h⟩
  · exact .inl fun _ => Char.not_lt.mp h

/-- A character leads to a step or has a fault. -/
theorem step_or_fault (o : Options) (k : UnfinishedClass) (offset : Nat) (c : Char) :
    (∃ r, Step o k offset c r) ∨ ∃ e, Fault o k offset c e := by
  cases hk : k.focus with
  | start =>
    by_cases hc : c = '^'
    · subst hc
      exact Or.inl ⟨_, .negate hk⟩
    · exact ready_cases o offset (by rwa [Ready, hk])
  | entry => exact ready_cases o offset (by simp only [Ready, hk])
  | escape start => exact Or.inl ⟨_, .escaped hk⟩
  | single start a =>
    by_cases hc : c = '-'
    · subst hc
      exact Or.inl ⟨_, .hyphen hk⟩
    · exact ready_cases o offset (by rwa [Ready, hk])
  | hyphen start a =>
    by_cases hend : c = ']'
    · subst hend
      exact Or.inl ⟨_, .finalHyphen hk⟩
    by_cases hescape : c = '\\'
    · subst hescape
      exact Or.inl ⟨_, .hyphenEscape hk⟩
    rcases range_cases o a c with ordered | ⟨strict, inverted⟩
    · exact Or.inl ⟨_, .range hk hend hescape ordered⟩
    · exact Or.inr ⟨_, .inverted hk hend hescape strict inverted⟩
  | hyphenEscape start a =>
    rcases range_cases o a c with ordered | ⟨strict, inverted⟩
    · exact Or.inl ⟨_, .escapedRange hk ordered⟩
    · exact Or.inr ⟨_, .escapedInverted hk strict inverted⟩

/-- The steps are those that `step` takes. -/
theorem step_eq_ok_iff : k.step o offset c = .ok r ↔ Step o k offset c r :=
  (exact_of_total (fun _ => Step.step_eq) (fun _ => Fault.step_eq)
    (step_or_fault o k offset c)).1 r

/-- The faults are those that `step` finds. -/
theorem step_eq_error_iff : k.step o offset c = .error e ↔ Fault o k offset c e :=
  (exact_of_total (fun _ => Step.step_eq) (fun _ => Fault.step_eq)
    (step_or_fault o k offset c)).2 e

end UnfinishedClass

/-! ### Patterns -/

namespace UnfinishedPattern

/-- What one more character of a pattern leads to. -/
inductive Step (o : Options) : UnfinishedPattern → Nat → Char → UnfinishedPattern → Prop
  | first {s offset c} (hs : s.focus = .branch) : Step o s offset c (s.beginElement offset c)
  | bar {s offset n level} (hs : s.focus = .element n level) : Step o s offset '|' (s.nextBranch n)
  | close {s offset n level f outer} (hs : s.focus = .element n level)
      (houter : s.outer = f :: outer) :
      Step o s offset ')' (complete { outer, depth := s.depth - 1, frame := f } (s.frame.node n))
  | brace {s offset n level} (hs : s.focus = .element n level)
      (withinLimit : level + 1 ≤ o.nestLimit) :
      Step o s offset '{' { s with focus := .inBounds n (level + 1) { brace := offset } }
  | quantifier {s offset c n level bounds} (hs : s.focus = .element n level)
      (hc : quantifier? c = some bounds) (withinLimit : level + 1 ≤ o.nestLimit) :
      Step o s offset c (s.completeRepetition n (level + 1) bounds)
  | next {s offset c n level} (hs : s.focus = .element n level)
      (hc : c ∉ [')', '|', '?', '*', '+', '{']) :
      Step o s offset c ((s.add n).beginElement offset c)
  | escaped {s offset c} (hs : s.focus = .escape) : Step o s offset c (s.complete (.literal c))
  | emptyGroup {s offset paren} (hs : s.focus = .group paren) :
      Step o s offset ')' (s.complete .empty)
  | group {s offset c paren} (hs : s.focus = .group paren) (hc : c ≠ ')')
      (withinLimit : s.depth + 1 ≤ o.nestLimit) :
      Step o s offset c
        (beginElement { outer := s.frame :: s.outer, depth := s.depth + 1 } offset c)
  | inClass {s offset c k k'} (hs : s.focus = .inClass k) (hk : k.Step o offset c (.going k')) :
      Step o s offset c { s with focus := .inClass k' }
  | ofClass {s offset c k n} (hs : s.focus = .inClass k) (hk : k.Step o offset c (.done n)) :
      Step o s offset c (s.complete n)
  | inBounds {s offset c n level b b'} (hs : s.focus = .inBounds n level b)
      (hb : b.Step o offset c (.going b')) :
      Step o s offset c { s with focus := .inBounds n level b' }
  | ofBounds {s offset c n level b bounds} (hs : s.focus = .inBounds n level b)
      (hb : b.Step o offset c (.done bounds)) :
      Step o s offset c (s.completeRepetition n level bounds)

/-- What can be wrong with one more character of a pattern. -/
inductive Fault (o : Options) : UnfinishedPattern → Nat → Char → SyntaxError → Prop
  | unmatched {s offset n level} (hs : s.focus = .element n level) (houter : s.outer = []) :
      Fault o s offset ')' ⟨.unmatchedClose, offset⟩
  | quantifier {s offset c n level} (hs : s.focus = .element n level)
      (hc : c ∈ ['?', '*', '+', '{']) (beyondLimit : o.nestLimit < level + 1) :
      Fault o s offset c ⟨.nestLimitExceeded o.nestLimit, offset⟩
  | group {s offset c paren} (hs : s.focus = .group paren) (hc : c ≠ ')')
      (beyondLimit : o.nestLimit < s.depth + 1) :
      Fault o s offset c ⟨.nestLimitExceeded o.nestLimit, paren⟩
  | inClass {s offset c k e} (hs : s.focus = .inClass k) (hk : k.Fault o offset c e) :
      Fault o s offset c e
  | inBounds {s offset c n level b e} (hs : s.focus = .inBounds n level b)
      (hb : b.Fault o offset c e) : Fault o s offset c e

variable {o : Options} {s s' : UnfinishedPattern} {offset : Nat} {c : Char} {level : UInt32}
  {e : SyntaxError}

theorem quantifier?_eq_none_iff : quantifier? c = none ↔ c ≠ '?' ∧ c ≠ '*' ∧ c ≠ '+' := by
  rw [quantifier?]
  split_ifs <;> simp_all

theorem mem_of_quantifier? {bounds : UInt32 × Bound} (h : quantifier? c = some bounds) :
    c ∈ ['?', '*', '+', '{'] := by
  rw [quantifier?] at h
  split_ifs at h with hc hc hc <;> subst hc <;> decide

theorem Step.step_eq (h : Step o s offset c s') : s.step o offset c = .ok s' := by
  cases h with
  | first hs => simp only [step, hs]
  | bar hs => simp only [step, hs, afterElement, ↓reduceIte]
  | close hs houter =>
    simp only [step, hs, afterElement, ↓reduceIte, closeGroup, houter, Char.reduceEq]
  | brace hs withinLimit =>
    simp only [step, hs, afterElement, ↓reduceIte, Char.reduceEq, checkLevel_of_le withinLimit]
    rfl
  | quantifier hs hc withinLimit =>
    have hother : c ≠ '|' ∧ c ≠ ')' ∧ c ≠ '{' := by
      refine ⟨?_, ?_, ?_⟩ <;> rintro rfl <;> cases hc
    simp only [step, hs, afterElement, hother, ↓reduceIte, hc, checkLevel_of_le withinLimit]
    rfl
  | next hs hc =>
    simp only [List.mem_cons, List.not_mem_nil, or_false, not_or] at hc
    have hq := quantifier?_eq_none_iff.mpr ⟨hc.2.2.1, hc.2.2.2.1, hc.2.2.2.2.1⟩
    simp only [step, hs, afterElement, hc, ↓reduceIte, hq]
  | escaped hs => simp only [step, hs]
  | emptyGroup hs => simp only [step, hs, ↓reduceIte]
  | group hs hc withinLimit =>
    simp only [step, hs, hc, ↓reduceIte, openGroup, checkLevel_of_le withinLimit]
    rfl
  | inClass hs hk =>
    simp only [step, hs, hk.step_eq]
    rfl
  | ofClass hs hk =>
    simp only [step, hs, hk.step_eq]
    rfl
  | inBounds hs hb =>
    simp only [step, hs, hb.step_eq]
    rfl
  | ofBounds hs hb =>
    simp only [step, hs, hb.step_eq]
    rfl

theorem Fault.step_eq (h : Fault o s offset c e) : s.step o offset c = .error e := by
  cases h with
  | unmatched hs houter =>
    simp only [step, hs, afterElement, closeGroup, houter, ↓reduceIte, Char.reduceEq]
  | quantifier hs hc beyondLimit =>
    simp only [List.mem_cons, List.not_mem_nil, or_false] at hc
    rcases hc with rfl | rfl | rfl | rfl <;>
      simp only [step, hs, afterElement, ↓reduceIte, Char.reduceEq, quantifier?,
        checkLevel_of_lt beyondLimit] <;> rfl
  | group hs hc beyondLimit =>
    simp only [step, hs, hc, ↓reduceIte, openGroup, checkLevel_of_lt beyondLimit]
    rfl
  | inClass hs hk =>
    simp only [step, hs, hk.step_eq]
    rfl
  | inBounds hs hb =>
    simp only [step, hs, hb.step_eq]
    rfl

/-- Behind an element, a character leads to a step or has a fault. -/
theorem afterElement_cases (o : Options) (offset : Nat) (c : Char) {n : Node}
    (hs : s.focus = .element n level) :
    (∃ t, Step o s offset c t) ∨ ∃ e, Fault o s offset c e := by
  by_cases hbar : c = '|'
  · subst hbar
    exact Or.inl ⟨_, .bar hs⟩
  by_cases hclose : c = ')'
  · subst hclose
    rcases houter : s.outer with _ | ⟨f, outer⟩
    · exact Or.inr ⟨_, .unmatched hs houter⟩
    · exact Or.inl ⟨_, .close hs houter⟩
  have hlimit := le_or_limit_lt o (level + 1)
  by_cases hbrace : c = '{'
  · subst hbrace
    rcases hlimit with hle | hlt
    · exact Or.inl ⟨_, .brace hs hle⟩
    · exact Or.inr ⟨_, .quantifier hs (by decide) hlt⟩
  rcases hq : quantifier? c with _ | bounds
  · have hc := quantifier?_eq_none_iff.mp hq
    refine Or.inl ⟨_, .next hs ?_⟩
    simp only [List.mem_cons, List.not_mem_nil, or_false, not_or]
    exact ⟨hclose, hbar, hc.1, hc.2.1, hc.2.2, hbrace⟩
  · rcases hlimit with hle | hlt
    · exact Or.inl ⟨_, .quantifier hs hq hle⟩
    · exact Or.inr ⟨_, .quantifier hs (mem_of_quantifier? hq) hlt⟩

/-- A character leads to a step or has a fault. -/
theorem step_or_fault (o : Options) (s : UnfinishedPattern) (offset : Nat) (c : Char) :
    (∃ t, Step o s offset c t) ∨ ∃ e, Fault o s offset c e := by
  cases hs : s.focus with
  | branch => exact Or.inl ⟨_, .first hs⟩
  | element n level => exact afterElement_cases o offset c hs
  | escape => exact Or.inl ⟨_, .escaped hs⟩
  | group paren =>
    by_cases hc : c = ')'
    · subst hc
      exact Or.inl ⟨_, .emptyGroup hs⟩
    rcases le_or_limit_lt o (s.depth + 1) with hle | hlt
    · exact Or.inl ⟨_, .group hs hc hle⟩
    · exact Or.inr ⟨_, .group hs hc hlt⟩
  | inClass k =>
    rcases k.step_or_fault o offset c with ⟨k' | n, hk⟩ | ⟨e, hk⟩
    · exact Or.inl ⟨_, .inClass hs hk⟩
    · exact Or.inl ⟨_, .ofClass hs hk⟩
    · exact Or.inr ⟨e, .inClass hs hk⟩
  | inBounds n level b =>
    rcases b.step_or_fault o offset c with ⟨b' | bounds, hb⟩ | ⟨e, hb⟩
    · exact Or.inl ⟨_, .inBounds hs hb⟩
    · exact Or.inl ⟨_, .ofBounds hs hb⟩
    · exact Or.inr ⟨e, .inBounds hs hb⟩

/-- The steps are those that `step` takes. -/
theorem step_eq_ok_iff : s.step o offset c = .ok s' ↔ Step o s offset c s' :=
  (exact_of_total (fun _ => Step.step_eq) (fun _ => Fault.step_eq)
    (step_or_fault o s offset c)).1 s'

/-- The faults are those that `step` finds. -/
theorem step_eq_error_iff : s.step o offset c = .error e ↔ Fault o s offset c e :=
  (exact_of_total (fun _ => Step.step_eq) (fun _ => Fault.step_eq)
    (step_or_fault o s offset c)).2 e

/-! ### The end of a pattern -/

/-- What can be wrong with the end of a pattern. -/
inductive EndFault (o : Options) (s : UnfinishedPattern) (stop : Nat) : SyntaxError → Prop
  | openGroup {n level} (hs : s.focus = .element n level) (houter : s.outer ≠ []) :
      EndFault o s stop ⟨.unterminatedGroup, stop⟩
  | branch (hs : s.focus = .branch) : EndFault o s stop ⟨.unexpectedEnd, stop⟩
  | escape (hs : s.focus = .escape) : EndFault o s stop ⟨.unexpectedEnd, stop⟩
  | group {paren} (hs : s.focus = .group paren) (withinLimit : s.depth + 1 ≤ o.nestLimit) :
      EndFault o s stop ⟨.unexpectedEnd, stop⟩
  | limit {paren} (hs : s.focus = .group paren) (beyondLimit : o.nestLimit < s.depth + 1) :
      EndFault o s stop ⟨.nestLimitExceeded o.nestLimit, paren⟩
  | inClass {k} (hs : s.focus = .inClass k) : EndFault o s stop ⟨k.endCause, stop⟩
  | inBounds {n level b} (hs : s.focus = .inBounds n level b) :
      EndFault o s stop ⟨.malformedQuantifier, stop⟩

variable {stop : Nat} {t : Chain}

theorem finish_of_element {n : Node} (houter : s.outer = []) (hs : s.focus = .element n level) :
    s.finish o stop = .ok (.last (s.frame.node n)) := by
  simp only [finish, hs, houter, List.isEmpty_nil, ↓reduceIte]

theorem EndFault.finish_eq (h : EndFault o s stop e) : s.finish o stop = .error e := by
  cases h with
  | openGroup hs houter =>
    simp only [finish, hs]
    rw [if_neg (by rwa [List.isEmpty_iff])]
  | branch hs | escape hs | inClass hs | inBounds hs => simp only [finish, hs]
  | group hs withinLimit =>
    simp only [finish, hs, checkLevel_of_le withinLimit]
    rfl
  | limit hs beyondLimit =>
    simp only [finish, hs, checkLevel_of_lt beyondLimit]
    rfl

/-- A pattern ends behind an element outside all groups, or there is something wrong with its
end. -/
theorem finish_or_fault (o : Options) (s : UnfinishedPattern) (stop : Nat) :
    (∃ t : Chain, s.outer = [] ∧
      ∃ n level, s.focus = .element n level ∧ t = .last (s.frame.node n)) ∨
      ∃ e, EndFault o s stop e := by
  cases hs : s.focus with
  | branch => exact Or.inr ⟨_, .branch hs⟩
  | element n level =>
    by_cases houter : s.outer = []
    · exact Or.inl ⟨_, houter, n, level, rfl, rfl⟩
    · exact Or.inr ⟨_, .openGroup hs houter⟩
  | escape => exact Or.inr ⟨_, .escape hs⟩
  | group paren =>
    rcases le_or_limit_lt o (s.depth + 1) with hle | hlt
    · exact Or.inr ⟨_, .group hs hle⟩
    · exact Or.inr ⟨_, .limit hs hlt⟩
  | inClass k => exact Or.inr ⟨_, .inClass hs⟩
  | inBounds n level b => exact Or.inr ⟨_, .inBounds hs⟩

private theorem finish_exact (o : Options) (s : UnfinishedPattern) (stop : Nat) :
    (∀ t, s.finish o stop = .ok t ↔
      s.outer = [] ∧ ∃ n level, s.focus = .element n level ∧ t = .last (s.frame.node n)) ∧
    ∀ e, s.finish o stop = .error e ↔ EndFault o s stop e := by
  refine exact_of_total ?_ (fun _ => EndFault.finish_eq) (finish_or_fault o s stop)
  rintro t ⟨houter, n, level, hs, rfl⟩
  exact finish_of_element houter hs

/-- A pattern ends behind an element outside all groups. -/
theorem finish_eq_ok_iff : s.finish o stop = .ok t ↔
    s.outer = [] ∧ ∃ n level, s.focus = .element n level ∧ t = .last (s.frame.node n) :=
  (finish_exact o s stop).1 t

/-- The faults of an end are those that `finish` finds. -/
theorem finish_eq_error_iff : s.finish o stop = .error e ↔ EndFault o s stop e :=
  (finish_exact o s stop).2 e

end UnfinishedPattern

end PatternTree
