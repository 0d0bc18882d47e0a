import PatternTree.Proofs.Reading
import PatternTree.Proofs.Transitions
/-!
# Where the faults of a pattern are reported

A fault is reported at the character that shows it, or at one that was read earlier: the parenthesis
of a group, the bracket of a class, the start of a range, the first digit of a number or the brace
of bounds. What has been read says which of the earlier offsets these can be. A step makes only the
offset of its own character one of them, so none of them is outside the text that has been read.

## Main definitions

* `Focus.Reportable` — the earlier offsets at which a fault can still be reported.

## Main results

* `UnfinishedPattern.Step.reportable`, `UnfinishedPattern.Fault.reportable` — the offsets of a step
  and of a fault.
* `UnfinishedPattern.offset_lt_of_read_error` — a fault is reported inside the text.
* `parse_eq_error_iff` — the faults of a pattern are those of its characters and of its end.
-/

open String (utf8Len utf8Len_toList)

namespace PatternTree

/-! ### Bounds -/

namespace UnfinishedBounds

/-- The earlier offsets at which a fault of the bounds can still be reported. -/
def Reportable (o : Options) (b : UnfinishedBounds) (x : Nat) : Prop :=
  (∃ run, b.run? = some run ∧ x = run.start) ∨ o.rejectInverted ∧ x = b.brace

variable {o : Options} {b b' : UnfinishedBounds} {offset x : Nat} {c : Char} {e : SyntaxError}

theorem Step.reportable (h : b.Step o offset c (.going b')) (hx : b'.Reportable o x) :
    b.Reportable o x ∨ x = offset := by
  cases h with
  | firstDigit =>
    rcases hx with ⟨_, ⟨⟩, rfl⟩ | hbrace
    · exact Or.inr rfl
    · exact Or.inl (Or.inr hbrace)
  | digit _ hb =>
    rcases hx with ⟨_, ⟨⟩, rfl⟩ | hbrace
    · exact Or.inl (Or.inl ⟨_, hb, rfl⟩)
    · exact Or.inl (Or.inr hbrace)
  | comma =>
    rcases hx with ⟨_, ⟨⟩, _⟩ | hbrace
    exact Or.inl (Or.inr hbrace)

theorem Fault.reportable (h : b.Fault o offset c e) :
    b.Reportable o e.offset ∨ e.offset = offset := by
  cases h with
  | tooLarge _ hb _ => exact Or.inl (Or.inl ⟨_, hb, rfl⟩)
  | malformed => exact Or.inr rfl
  | inverted strict _ => exact Or.inl (Or.inr ⟨strict, rfl⟩)

end UnfinishedBounds

/-! ### Classes -/

/-- The offset at which the entry began that is being read. -/
def ClassFocus.entryOffset? : ClassFocus → Option Nat
  | .start | .entry => none
  | .escape offset | .single offset _ | .hyphen offset _ | .hyphenEscape offset _ => some offset

namespace UnfinishedClass

/-- The earlier offsets at which a fault of the class can still be reported. -/
def Reportable (o : Options) (k : UnfinishedClass) (x : Nat) : Prop :=
  k.entries = [] ∧ x = k.bracket ∨ o.rejectInverted ∧ k.focus.entryOffset? = some x

variable {o : Options} {k k' : UnfinishedClass} {offset x : Nat} {c : Char} {e : SyntaxError}

theorem entries_of_settle (h : k.settle.entries = []) : k.entries = [] := by
  rw [settle] at h
  split at h
  · cases h
  · exact h

/-- An entry that begins at `offset` makes no other offset one at which a fault is reported. -/
theorem reportable_of_settle {focus : ClassFocus} (hfocus : focus.entryOffset? = some offset)
    (hx : Reportable o { k.settle with focus } x) : k.Reportable o x ∨ x = offset := by
  rcases hx with ⟨hentries, rfl⟩ | ⟨_, hstart⟩
  · exact Or.inl (Or.inl ⟨entries_of_settle hentries, settle_bracket k⟩)
  · exact Or.inr (Option.some.inj (hstart.symm.trans hfocus))

theorem Step.reportable (h : k.Step o offset c (.going k')) (hx : k'.Reportable o x) :
    k.Reportable o x ∨ x = offset := by
  cases h with
  | negate =>
    rcases hx with hbracket | ⟨_, ⟨⟩⟩
    exact Or.inl (Or.inl hbracket)
  | escape | character => exact reportable_of_settle rfl hx
  | escaped hk | hyphen hk | hyphenEscape hk =>
    rcases hx with hbracket | ⟨strict, hstart⟩
    · exact Or.inl (Or.inl hbracket)
    · exact Or.inl (Or.inr ⟨strict, by rw [hk]; exact hstart⟩)
  | range | escapedRange => rcases hx with ⟨⟨⟩, _⟩ | ⟨_, ⟨⟩⟩

theorem Fault.reportable (h : k.Fault o offset c e) : k.Reportable o e.offset := by
  cases h with
  | empty _ hentries => exact Or.inl ⟨entries_of_settle hentries, rfl⟩
  | inverted hk _ _ strict | escapedInverted hk strict =>
    exact Or.inr ⟨strict, by rw [hk]; rfl⟩

end UnfinishedClass

/-! ### Patterns -/

/-- The earlier offsets at which a fault of what comes next can be reported. -/
def Focus.Reportable (o : Options) (x : Nat) : Focus → Prop
  | .branch | .element _ _ | .escape => False
  | .group paren => x = paren
  | .inClass k => k.Reportable o x
  | .inBounds _ _ b => b.Reportable o x

namespace UnfinishedPattern

variable {o : Options} {s s' : UnfinishedPattern} {offset x : Nat} {c : Char} {p : List Char}
  {e : SyntaxError}

theorem reportable_beginElement (hx : (s.beginElement offset c).focus.Reportable o x) :
    x = offset := by
  rw [beginElement] at hx
  split_ifs at hx
  · exact hx.elim
  · exact hx
  · rcases hx with ⟨_, rfl⟩ | ⟨_, ⟨⟩⟩
    rfl
  · exact hx.elim
  · exact hx.elim

/-- A step makes only the offset of its character one at which a fault is reported later. -/
theorem Step.reportable (h : s.Step o offset c s') (hx : s'.focus.Reportable o x) :
    s.focus.Reportable o x ∨ x = offset := by
  cases h with
  | first | next | group => exact Or.inr (reportable_beginElement hx)
  | bar | close | quantifier | escaped | emptyGroup | ofClass | ofBounds => exact hx.elim
  | brace =>
    rcases hx with ⟨_, ⟨⟩, _⟩ | ⟨_, rfl⟩
    exact Or.inr rfl
  | inClass hs hk =>
    rw [hs]
    exact hk.reportable hx
  | inBounds hs hb =>
    rw [hs]
    exact hb.reportable hx

/-- A fault is reported at its character, or at an offset that the text before allows. -/
theorem Fault.reportable (h : s.Fault o offset c e) :
    s.focus.Reportable o e.offset ∨ e.offset = offset := by
  cases h with
  | unmatched | quantifier => exact Or.inr rfl
  | group hs _ _ => exact Or.inl (by rw [hs]; rfl)
  | inClass hs hk => exact Or.inl (by rw [hs]; exact hk.reportable)
  | inBounds hs hb =>
    rw [hs]
    exact hb.reportable

/-- The fault of an end is reported there, or at an offset that the text allows. -/
theorem EndFault.reportable {stop : Nat} (h : s.EndFault o stop e) :
    s.focus.Reportable o e.offset ∨ e.offset = stop := by
  cases h with
  | limit hs _ => exact Or.inl (by rw [hs]; rfl)
  | openGroup | branch | escape | group | inClass | inBounds => exact Or.inr rfl

/-- Reading makes only offsets of the text ones at which a fault is reported later. -/
theorem reportable_of_read (h : s.read o offset p = .ok s') (hx : s'.focus.Reportable o x) :
    s.focus.Reportable o x ∨ offset ≤ x ∧ x < offset + utf8Len p := by
  induction p generalizing s offset with
  | nil =>
    cases h
    exact Or.inl hx
  | cons c p ih =>
    obtain ⟨t, ht, hs'⟩ := exists_of_read_cons h
    have hsize := c.utf8Size_pos
    rw [String.utf8Len_cons]
    rcases ih hs' with ht' | hin
    · rcases (step_eq_ok_iff.mp ht).reportable ht' with hs | rfl
      · exact Or.inl hs
      · exact Or.inr (by omega)
    · exact Or.inr (by omega)

/-- A fault that is found in a text is reported inside the text, or at an offset that the text
before allows. -/
theorem offset_of_read_error (h : s.read o offset p = .error e) :
    s.focus.Reportable o e.offset ∨ offset ≤ e.offset ∧ e.offset < offset + utf8Len p := by
  obtain ⟨q, c, r, t, rfl, ht, hc⟩ := exists_of_read_error h
  have hsize := c.utf8Size_pos
  rw [String.utf8Len_append, String.utf8Len_cons]
  rcases (step_eq_error_iff.mp hc).reportable with hx | hx
  · rcases reportable_of_read ht hx with hs | hin
    · exact Or.inl hs
    · exact Or.inr (by omega)
  · exact Or.inr (by omega)

/-- A fault that is found while a pattern is read is reported inside what has been read. -/
theorem offset_lt_of_read_error (h : read o {} 0 p = .error e) : e.offset < utf8Len p := by
  rcases offset_of_read_error h with hstart | ⟨-, hlt⟩
  · exact hstart.elim
  · rwa [Nat.zero_add] at hlt

end UnfinishedPattern

/-! ### Patterns with a fault -/

/-- The faults of a pattern are those of one of its characters, behind what can be read, and those
of its end. -/
theorem parse_eq_error_iff {p : String} {o : Options} {e : SyntaxError} : parse p o = .error e ↔
    (∃ q c r s, p.toList = q ++ c :: r ∧ UnfinishedPattern.read o {} 0 q = .ok s ∧
      UnfinishedPattern.Fault o s (utf8Len q) c e) ∨
    ∃ s, UnfinishedPattern.read o {} 0 p.toList = .ok s ∧
      UnfinishedPattern.EndFault o s (utf8Len p.toList) e := by
  constructor
  · intro h
    rcases exists_of_parse_error h with hread | ⟨s, hread, hfinish⟩
    · obtain ⟨q, c, r, s, hp, hq, hc⟩ := UnfinishedPattern.exists_of_read_error hread
      rw [Nat.zero_add, UnfinishedPattern.step_eq_error_iff] at hc
      exact Or.inl ⟨q, c, r, s, hp, hq, hc⟩
    · rw [UnfinishedPattern.finish_eq_error_iff, ← utf8Len_toList] at hfinish
      exact Or.inr ⟨s, hread, hfinish⟩
  · rintro (⟨q, c, r, s, hp, hq, hfault⟩ | ⟨s, hread, hfault⟩)
    · apply parse_of_read_error
      rw [hp, UnfinishedPattern.read_append_of_ok hq, Nat.zero_add]
      exact UnfinishedPattern.read_cons_of_step_error hfault.step_eq
    · rw [parse_of_read hread, ← utf8Len_toList]
      exact hfault.finish_eq

end PatternTree
