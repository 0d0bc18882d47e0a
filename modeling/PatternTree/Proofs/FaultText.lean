import PatternTree.Proofs.ValidPrefix
/-!
# The text at which a fault is reported

The offset of a fault splits the pattern between two characters, and the text at the split shows the
fault. What is missing at the end of a pattern is reported at the end. Every other fault is reported
at a text that can be seen there: the character that is one too many, the parenthesis or quantifier
that takes a level too many, an empty class, or the inverted range or bounds from their first
character on. Malformed bounds are reported where they stop being bounds, and a number that is too
large at its first digit.

What has been read of a class or of bounds is located in the text: it says where the part began and
what the text is from there on. Each reading step keeps this.

## Main definitions

* `Grammar.BegunBounds` — a beginning of bounds, and the characters that go on with it.
* `Cause.PointsAt` — the text around the offset of a fault.
* `UnfinishedBounds.Located`, `UnfinishedClass.Located` — where the text of a part began.

## Main results

* `UnfinishedPattern.Fault.pointsInto`, `UnfinishedPattern.EndFault.pointsInto` — the text at the
  faults of a character and of an end.
* `exists_pointsAt_of_parse_error` — every fault of a pattern points at what it names.
-/

open String (utf8Len utf8Len_toList)

namespace PatternTree

open Grammar

/-! ### What the faults name -/

namespace Grammar

/-- Bounds that have been begun behind a brace, and the characters that go on with them, digits
apart. -/
inductive BegunBounds : List Char → List Char → Prop
  | start : BegunBounds [] []
  | lower {p n} (hp : Numeral p n) : BegunBounds p [',', '}']
  | comma {p n} (hp : Numeral p n) : BegunBounds (p ++ [',']) ['}']
  | upper {p q m n} (hp : Numeral p m) (hq : Numeral q n) : BegunBounds (p ++ ',' :: q) ['}']

/-- The text between a brace and one of the numbers behind it. -/
inductive BeforeNumber : List Char → Prop
  | lower : BeforeNumber []
  | upper {p n} (hp : Numeral p n) : BeforeNumber (p ++ [','])

/-- Bounds that cannot go on with the text `after`, or in which a number begins there that is too
large. -/
inductive MalformedAt : List Char → List Char → Prop
  | stop {q t ends after} (ht : BegunBounds t ends)
      (hafter : ∀ c, after.head? = some c → ¬c.isDigit ∧ c ∉ ends) :
      MalformedAt (q ++ '{' :: t) after
  | tooLarge {q t ds after} (ht : BeforeNumber t) (hds : ∀ d ∈ ds, d.isDigit)
      (large : UInt32.size ≤ value ds) (hafter : ds <+: after) : MalformedAt (q ++ '{' :: t) after

end Grammar

/-- What stands `before` and `after` the offset at which a fault is reported. -/
def Cause.PointsAt (o : Options) (before after : List Char) : Cause → Prop
  | .unexpectedEnd | .unterminatedClass | .unterminatedGroup => after = []
  | .malformedQuantifier => MalformedAt before after
  | .emptyClass => ['[', ']'] <+: after ∨ ['[', '^', ']'] <+: after
  | .unmatchedClose => [')'] <+: after ∧ ∃ t, parse (String.ofList before) o = .ok t
  | .nestLimitExceeded limit =>
    limit = o.nestLimit ∧ ∃ c ∈ ['(', '?', '*', '+', '{'], [c] <+: after
  | .invertedRange start stop =>
    o.rejectInverted ∧ stop < start ∧
      ∃ p q, ClassChar p start ∧ ClassChar q stop ∧ p ++ '-' :: q <+: after
  | .invertedBounds min max =>
    o.rejectInverted ∧ max < min ∧
      ∃ p q, Numeral p min ∧ Numeral q max ∧ '{' :: p ++ ',' :: q ++ ['}'] <+: after

/-- Whether the offset of the fault `e` splits the text `p` where the text shows it. -/
def SyntaxError.PointsInto (o : Options) (e : SyntaxError) (p : List Char) : Prop :=
  ∃ before after, p = before ++ after ∧ utf8Len before = e.offset ∧ e.cause.PointsAt o before after

/-- Whether the text `p` ends with `t`, and `t` begins at `offset`. -/
def HoldsFrom (p : List Char) (offset : Nat) (t : List Char) : Prop :=
  ∃ q, p = q ++ t ∧ utf8Len q = offset

section HoldsFrom

variable {p t : List Char} {offset : Nat} {c : Char}

theorem HoldsFrom.snoc (h : HoldsFrom p offset t) (c : Char) :
    HoldsFrom (p ++ [c]) offset (t ++ [c]) := by
  obtain ⟨q, rfl, hq⟩ := h
  exact ⟨q, List.append_assoc q t [c], hq⟩

theorem holdsFrom_singleton (p : List Char) (c : Char) : HoldsFrom (p ++ [c]) (utf8Len p) [c] :=
  ⟨p, rfl, rfl⟩

/-- A fault that needs only the text behind its offset points there. -/
theorem HoldsFrom.pointsInto {o : Options} {cause : Cause} {r : List Char}
    (h : HoldsFrom p offset t) (hcause : ∀ before, cause.PointsAt o before (t ++ r)) :
    SyntaxError.PointsInto o ⟨cause, offset⟩ (p ++ r) := by
  obtain ⟨q, rfl, hq⟩ := h
  exact ⟨q, t ++ r, List.append_assoc q t r, hq, hcause q⟩

end HoldsFrom

/-! ### Bounds -/

namespace UnfinishedBounds

/-- The characters other than digits that go on with what has been read. -/
def ends (b : UnfinishedBounds) : List Char :=
  match b.min?, b.run? with
  | none, none => []
  | none, some _ => [',', '}']
  | some _, _ => ['}']

/-- Where the bounds began that have been read at the end of `p`, and the number that is being
read. -/
def Located (b : UnfinishedBounds) (p : List Char) : Prop :=
  ∃ q t, p = q ++ '{' :: t ∧ utf8Len q = b.brace ∧ b.ReadFrom t ∧
    ∀ run, b.run? = some run → ∃ r ds, t = r ++ ds ∧ BeforeNumber r ∧ Numeral ds run.value ∧
      utf8Len (q ++ '{' :: r) = run.start

variable {o : Options} {b b' : UnfinishedBounds} {c : Char} {p t : List Char} {e : SyntaxError}

theorem ReadFrom.begunBounds (h : b.ReadFrom t) : BegunBounds t b.ends := by
  cases h with
  | start => exact .start
  | lower hp => exact .lower hp
  | comma hp => exact .comma hp
  | upper hp hq => exact .upper hp hq

theorem ReadFrom.beforeNumber (h : b.ReadFrom t) (hb : b.run? = none) : BeforeNumber t := by
  cases h with
  | start => exact .lower
  | comma hp => exact .upper hp
  | lower | upper => cases hb

/-- A brace begins bounds. -/
theorem located_brace (p : List Char) : Located { brace := utf8Len p } (p ++ ['{']) :=
  ⟨p, [], rfl, rfl, .start, nofun⟩

theorem Step.located (h : b.Step o (utf8Len p) c (.going b')) (hb : b.Located p) :
    b'.Located (p ++ [c]) := by
  obtain ⟨q, t, rfl, hbrace, ht, hrun⟩ := hb
  have hbrace' : b'.brace = b.brace := by cases h <;> rfl
  refine ⟨q, t ++ [c], by simp, hbrace.trans hbrace'.symm, ht.going h, ?_⟩
  cases h with
  | firstDigit hc hnone =>
    rintro run ⟨⟩
    exact ⟨t, [c], rfl, ht.beforeNumber hnone, .singleton hc, rfl⟩
  | digit hc hsome fits =>
    rintro run ⟨⟩
    obtain ⟨r, ds, rfl, hr, hds, hstart⟩ := hrun _ hsome
    exact ⟨r, ds ++ [c], List.append_assoc r ds [c], hr, hds.snoc hc fits, hstart⟩
  | comma => nofun

/-- Bounds that the pattern leaves open are malformed at its end. -/
theorem Located.malformedAt (h : b.Located p) : MalformedAt p [] := by
  obtain ⟨q, t, rfl, -, ht, -⟩ := h
  exact .stop ht.begunBounds nofun

theorem not_mem_ends (hb : b.min? = none → b.run? ≠ none → c ≠ ',') (hmin : b.min? ≠ none → c ≠ '}')
    (hrun : b.run? ≠ none → c ≠ '}') : c ∉ b.ends := by
  rcases b with ⟨brace, _ | min, _ | run⟩
  · exact List.not_mem_nil
  · simpa [ends] using ⟨hb rfl nofun, hrun nofun⟩
  · simpa [ends] using hmin nofun
  · simpa [ends] using hmin nofun

theorem Fault.pointsInto (h : b.Fault o (utf8Len p) c e) (hb : b.Located p) (r : List Char) :
    e.PointsInto o (p ++ c :: r) := by
  obtain ⟨q, t, rfl, hbrace, ht, hrun⟩ := hb
  cases h with
  | tooLarge hc hsome large =>
    obtain ⟨s, ds, rfl, hs, hds, hstart⟩ := hrun _ hsome
    have hdigits : ∀ d ∈ ds ++ [c], d.isDigit := by
      intro d hd
      rcases List.mem_append.mp hd with hd | hd
      · exact hds.isDigit d hd
      · rw [List.mem_singleton.mp hd]
        exact (digit?_eq_some_iff.mp hc).1
    have hvalue : UInt32.size ≤ value (ds ++ [c]) := by
      rwa [value_append_singleton, hds.value_eq, ← (digit?_eq_some_iff.mp hc).2]
    have hafter : ds ++ [c] <+: ds ++ c :: r := ⟨r, by simp⟩
    exact ⟨q ++ '{' :: s, ds ++ c :: r, by simp, hstart, .tooLarge hs hdigits hvalue hafter⟩
  | malformed hc hb hmin hmax =>
    refine ⟨q ++ '{' :: t, c :: r, rfl, rfl, .stop ht.begunBounds ?_⟩
    rintro d ⟨⟩
    refine ⟨fun hdigit => ?_, not_mem_ends hb hmin hmax⟩
    rw [digit?, if_pos hdigit] at hc
    cases hc
  | inverted strict inverted =>
    cases ht with
    | @upper _ _ _ m n hm hn =>
      exact ⟨q, _, List.append_assoc q _ _, hbrace, strict, inverted, m, n, hm, hn, r, by simp⟩

end UnfinishedBounds

/-! ### Classes -/

namespace UnfinishedClass

/-- Where the class began that has been read at the end of `p`, as long as it is empty, and the
entry that is being read. -/
structure Located (k : UnfinishedClass) (p : List Char) : Prop where
  /-- Nothing has been read behind the bracket. -/
  opened : k.focus = .start → HoldsFrom p k.bracket ['[']
  /-- Without entries, a circumflex has been read. -/
  negated : k.focus = .entry → k.entries = [] → HoldsFrom p k.bracket ['[', '^']
  /-- The entry is what has been read since it began. -/
  entry : ∀ x, k.focus.entryOffset? = some x → ∃ t, k.focus.ReadFrom t ∧ HoldsFrom p x t

variable {o : Options} {k k' : UnfinishedClass} {c : Char} {p : List Char} {e : SyntaxError}
  {focus old : ClassFocus}

/-- A bracket begins a class. -/
theorem located_bracket (p : List Char) : Located { bracket := utf8Len p } (p ++ ['[']) where
  opened _ := holdsFrom_singleton p '['
  negated := nofun
  entry := nofun

/-- A character begins an entry. -/
theorem located_begin (k : UnfinishedClass) (hfocus : focus.entryOffset? = some (utf8Len p))
    (hread : focus.ReadFrom [c]) : Located { k with focus } (p ++ [c]) where
  opened hstart := by simp [show focus = .start from hstart, ClassFocus.entryOffset?] at hfocus
  negated hentry := by simp [show focus = .entry from hentry, ClassFocus.entryOffset?] at hfocus
  entry x hx := by
    obtain rfl : utf8Len p = x := Option.some.inj (hfocus.symm.trans hx)
    exact ⟨[c], hread, holdsFrom_singleton p c⟩

/-- A character goes on with an entry. -/
theorem Located.continue {start : Nat} (h : k.Located p) (hk : k.focus = old)
    (hold : old.entryOffset? = some start) (hfocus : focus.entryOffset? = some start)
    (hread : ∀ t, old.ReadFrom t → focus.ReadFrom (t ++ [c])) :
    Located { k with focus } (p ++ [c]) where
  opened hstart := by simp [show focus = .start from hstart, ClassFocus.entryOffset?] at hfocus
  negated hentry := by simp [show focus = .entry from hentry, ClassFocus.entryOffset?] at hfocus
  entry x hx := by
    subst hk
    obtain ⟨t, ht, hx'⟩ := h.entry x (hold.trans (hfocus.symm.trans hx))
    exact ⟨t ++ [c], hread t ht, hx'.snoc c⟩

/-- Behind an entry, no offset of the class is left at which a fault is reported. -/
theorem located_add (k : UnfinishedClass) (n : Node) (p : List Char) : (k.add n).Located p where
  opened := nofun
  negated _ := nofun
  entry := nofun

theorem Step.located (h : k.Step o (utf8Len p) c (.going k')) (hk : k.Located p) :
    k'.Located (p ++ [c]) := by
  cases h with
  | negate hstart => exact ⟨nofun, fun _ _ => (hk.opened hstart).snoc '^', nofun⟩
  | escape => exact located_begin k.settle rfl .escape
  | character _ notEnd notEscape =>
    exact located_begin k.settle rfl (.single (.plain notEscape notEnd))
  | escaped hfocus =>
    refine hk.continue hfocus rfl rfl ?_
    rintro _ ⟨⟩
    exact .single (.escaped c)
  | hyphen hfocus =>
    refine hk.continue hfocus rfl rfl ?_
    intro t ht
    cases ht with
    | single hp => exact .hyphen hp
  | hyphenEscape hfocus =>
    refine hk.continue hfocus rfl rfl ?_
    intro t ht
    cases ht with
    | hyphen hp => simpa using ClassFocus.ReadFrom.hyphenEscape hp
  | range | escapedRange => exact located_add k _ _

theorem Fault.pointsInto (h : k.Fault o (utf8Len p) c e) (hk : k.Located p) (r : List Char) :
    e.PointsInto o (p ++ c :: r) := by
  cases h with
  | empty hready hentries =>
    cases hfocus : k.focus with
    | start => exact (hk.opened hfocus).pointsInto fun _ => Or.inl ⟨r, rfl⟩
    | entry =>
      have hopened := hk.negated hfocus (entries_of_settle hentries)
      exact hopened.pointsInto fun _ => Or.inr ⟨r, rfl⟩
    | single => simp [settle_of_single hfocus, add] at hentries
    | escape | hyphen | hyphenEscape => simp [Ready, hfocus] at hready
  | inverted hfocus notEnd notEscape strict inverted =>
    obtain ⟨t, ht, hstart⟩ := hk.entry _ (by rw [hfocus]; rfl)
    rw [hfocus] at ht
    cases ht with
    | @hyphen _ q _ hq =>
      refine hstart.pointsInto fun _ => ⟨strict, inverted, q, [c], hq, .plain notEscape notEnd, ?_⟩
      exact ⟨r, by simp⟩
  | escapedInverted hfocus strict inverted =>
    obtain ⟨t, ht, hstart⟩ := hk.entry _ (by rw [hfocus]; rfl)
    rw [hfocus] at ht
    cases ht with
    | @hyphenEscape _ q _ hq =>
      refine hstart.pointsInto fun _ => ⟨strict, inverted, q, ['\\', c], hq, .escaped c, ?_⟩
      exact ⟨r, by simp⟩

end UnfinishedClass

/-! ### Patterns -/

/-- Where the class or the bounds began that come next. -/
def Focus.Located (p : List Char) : Focus → Prop
  | .branch | .element _ _ | .escape | .group _ => True
  | .inClass k => k.Located p
  | .inBounds _ _ b => b.Located p

namespace UnfinishedPattern

variable {o : Options} {s s' : UnfinishedPattern} {c : Char} {p : List Char} {e : SyntaxError}

theorem located_beginElement (s : UnfinishedPattern) (p : List Char) (c : Char) :
    (s.beginElement (utf8Len p) c).focus.Located (p ++ [c]) := by
  rw [beginElement]
  split_ifs with hdot hparen hbracket
  · trivial
  · trivial
  · subst hbracket
    exact UnfinishedClass.located_bracket p
  · trivial
  · trivial

theorem Step.located (h : s.Step o (utf8Len p) c s') (hs : s.focus.Located p) :
    s'.focus.Located (p ++ [c]) := by
  cases h with
  | first | next | group => exact located_beginElement _ p c
  | bar | close | quantifier | escaped | emptyGroup | ofClass | ofBounds => trivial
  | brace => exact UnfinishedBounds.located_brace p
  | inClass hfocus hk =>
    rw [hfocus] at hs
    exact hk.located hs
  | inBounds hfocus hb =>
    rw [hfocus] at hs
    exact hb.located hs

theorem located_of_read (h : read o {} 0 p = .ok s) : s.focus.Located p :=
  read_induction (P := fun p s => s.focus.Located p) trivial
    (fun _ _ _ _ hs hstep => (step_eq_ok_iff.mp hstep).located hs) h

/-- What has been read ends as a pattern behind an element outside all groups. -/
theorem exists_parse_of_read {n : Node} {level : UInt32} (h : read o {} 0 p = .ok s)
    (hs : s.focus = .element n level) (houter : s.outer = []) :
    ∃ t, parse (String.ofList p) o = .ok t := by
  rw [← String.toList_ofList (l := p)] at h
  exact ⟨_, (parse_of_read h).trans (finish_of_element houter hs)⟩

/-- The fault of a character points at what it names, whatever text follows. -/
theorem Fault.pointsInto (h : s.Fault o (utf8Len p) c e) (hread : read o {} 0 p = .ok s)
    (r : List Char) : e.PointsInto o (p ++ c :: r) := by
  have hlocated := located_of_read hread
  cases h with
  | unmatched hs houter =>
    exact ⟨p, ')' :: r, rfl, rfl, ⟨r, rfl⟩, exists_parse_of_read hread hs houter⟩
  | quantifier _ hc =>
    exact ⟨p, c :: r, rfl, rfl, rfl, c, List.mem_cons_of_mem _ hc, r, rfl⟩
  | group hs =>
    obtain ⟨q, rfl, hparen⟩ := exists_of_read_group hread hs
    exact ⟨q, '(' :: c :: r, by simp, hparen.symm, rfl, '(', by decide, c :: r, rfl⟩
  | inClass hs hk =>
    rw [hs] at hlocated
    exact hk.pointsInto hlocated r
  | inBounds hs hb =>
    rw [hs] at hlocated
    exact hb.pointsInto hlocated r

/-- The fault of an end points at what it names. -/
theorem EndFault.pointsInto (h : s.EndFault o (utf8Len p) e) (hread : read o {} 0 p = .ok s) :
    e.PointsInto o p := by
  have hend (cause : Cause) (hcause : cause.PointsAt o p []) :
      SyntaxError.PointsInto o ⟨cause, utf8Len p⟩ p := ⟨p, [], by simp, rfl, hcause⟩
  cases h with
  | openGroup | branch | escape | group => exact hend _ rfl
  | limit hs =>
    obtain ⟨q, rfl, hparen⟩ := exists_of_read_group hread hs
    exact ⟨q, ['('], rfl, hparen.symm, rfl, '(', by decide, List.prefix_rfl⟩
  | @inClass k hs =>
    refine hend _ ?_
    rw [UnfinishedClass.endCause]
    split <;> rfl
  | inBounds hs =>
    have hlocated := located_of_read hread
    rw [hs] at hlocated
    exact hend _ hlocated.malformedAt

end UnfinishedPattern

/-- The offset of a fault splits the pattern between two characters, where the text shows what is
wrong. -/
theorem exists_pointsAt_of_parse_error {p : String} {o : Options} {e : SyntaxError}
    (h : parse p o = .error e) :
    ∃ before after : String, p = before ++ after ∧ before.utf8ByteSize = e.offset ∧
      e.cause.PointsAt o before.toList after.toList := by
  have hpoints : e.PointsInto o p.toList := by
    rcases parse_eq_error_iff.mp h with ⟨q, c, r, s, hp, hq, hfault⟩ | ⟨s, hread, hfault⟩
    · rw [hp]
      exact hfault.pointsInto hq r
    · exact hfault.pointsInto hread
  obtain ⟨before, after, hp, hoffset, hcause⟩ := hpoints
  obtain ⟨before, after, hsplit, rfl, rfl⟩ := exists_of_toList_eq_append hp
  exact ⟨before, after, hsplit, (utf8Len_toList before).symm.trans hoffset, hcause⟩

/-- In `é{2,(` the bounds stop at the parenthesis, which stands behind five bytes; `é` has two. -/
theorem pointsAt_malformed_and_unmatched :
    (parse "é\x7b2,(" = .error ⟨.malformedQuantifier, 5⟩ ∧
      ∃ before after : String, "é\x7b2,(" = before ++ after ∧ before.utf8ByteSize = 5 ∧
        Cause.malformedQuantifier.PointsAt {} before.toList after.toList) ∧
    (parse "(é))" = .error ⟨.unmatchedClose, 4⟩ ∧
      ∃ before after : String, "(é))" = before ++ after ∧ before.utf8ByteSize = 4 ∧
        Cause.unmatchedClose.PointsAt {} before.toList after.toList) :=
  ⟨⟨rfl, exists_pointsAt_of_parse_error (e := ⟨.malformedQuantifier, 5⟩) rfl⟩,
    ⟨rfl, exists_pointsAt_of_parse_error (e := ⟨.unmatchedClose, 4⟩) rfl⟩⟩

end PatternTree
