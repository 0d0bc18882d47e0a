import PatternTree.Grammar
import PatternTree.Proofs.Reading
import PatternTree.Proofs.Transitions
/-!
# The texts that an unfinished pattern has been read from

What has been read of a pattern is complete parts, which the grammar derives from parts of the text,
and a rest that some further text completes. `ReadFrom` says so for each kind of unfinished part.
A part to which the following text is added is described by what it becomes: whatever entries follow
complete the entries of a class, and whatever branch follows completes a frame.

Each reading step keeps `ReadFrom`, so a pattern that parses has the derivation of its tree.

## Main definitions

* `UnfinishedBounds.ReadFrom`, `UnfinishedClass.ReadFrom` — the texts of bounds and classes.
* `Frame.ReadFrom`, `Opened`, `Focus.ReadFrom` — the texts of the parts of a pattern.
* `UnfinishedPattern.ReadFrom` — the texts of a pattern.

## Main results

* `UnfinishedPattern.ReadFrom.step` — a step reads one more character of the text.
* `derives_of_parse` — a pattern that parses has the derivation of its tree.
-/

open String (utf8Len utf8Len_toList)

namespace PatternTree

open Grammar

/-! ### Numbers and bounds -/

theorem digit?_eq_some_iff {c : Char} {d : Nat} :
    digit? c = some d ↔ c.isDigit ∧ d = c.toNat - '0'.toNat := by
  rw [digit?]
  split_ifs with h <;> simp [h, eq_comm]

theorem digit?_lt {c : Char} {d : Nat} (h : digit? c = some d) : d < 10 := by
  obtain ⟨hc, rfl⟩ := digit?_eq_some_iff.mp h
  simp only [Char.isDigit, ge_iff_le, Bool.and_eq_true, decide_eq_true_eq,
    UInt32.le_iff_toNat_le] at hc
  have hc' : c.toNat ≤ 57 := hc.2
  have hzero : '0'.toNat = 48 := rfl
  omega

namespace Grammar

theorem value_eq_ofDigitChars (p : List Char) : value p = Nat.ofDigitChars 10 p 0 :=
  Nat.ofDigitChars_eq_foldl.symm

theorem value_append_singleton (p : List Char) (c : Char) :
    value (p ++ [c]) = 10 * value p + (c.toNat - '0'.toNat) := by
  rw [value_eq_ofDigitChars, value_eq_ofDigitChars, Nat.ofDigitChars_append, Nat.ofDigitChars_cons,
    Nat.ofDigitChars_nil]

theorem Numeral.singleton {c : Char} {d : Nat} (h : digit? c = some d) :
    Numeral [c] (.ofNat d) where
  ne_nil := List.cons_ne_nil _ _
  isDigit := by simpa using (digit?_eq_some_iff.mp h).1
  value_eq := by
    have hd := digit?_lt h
    have hsize : UInt32.size = 4294967296 := rfl
    rw [UInt32.toNat_ofNat_of_lt' (by omega), (digit?_eq_some_iff.mp h).2, value_eq_ofDigitChars,
      Nat.ofDigitChars_cons, Nat.ofDigitChars_nil, Nat.mul_zero, Nat.zero_add]

/-- A digit behind a number makes a number, as long as its value fits. -/
theorem Numeral.snoc {p : List Char} {c : Char} {d : Nat} {n : UInt32} (hp : Numeral p n)
    (h : digit? c = some d) (fits : 10 * n.toNat + d < UInt32.size) :
    Numeral (p ++ [c]) (.ofNat (10 * n.toNat + d)) where
  ne_nil := by simp
  isDigit := by
    intro x hx
    rcases List.mem_append.mp hx with hx | hx
    · exact hp.isDigit x hx
    · obtain rfl := List.mem_singleton.mp hx
      exact (digit?_eq_some_iff.mp h).1
  value_eq := by
    rw [value_append_singleton, hp.value_eq, UInt32.toNat_ofNat_of_lt' fits,
      (digit?_eq_some_iff.mp h).2]

end Grammar

namespace UnfinishedBounds

/-- The text behind the brace that has been read of the bounds of a quantifier. -/
inductive ReadFrom : UnfinishedBounds → List Char → Prop
  | start {brace} : ReadFrom ⟨brace, none, none⟩ []
  | lower {brace run p} (hp : Numeral p run.value) : ReadFrom ⟨brace, none, some run⟩ p
  | comma {brace min p} (hp : Numeral p min) : ReadFrom ⟨brace, some min, none⟩ (p ++ [','])
  | upper {brace min run p q} (hp : Numeral p min) (hq : Numeral q run.value) :
      ReadFrom ⟨brace, some min, some run⟩ (p ++ ',' :: q)

variable {o : Options} {b b' : UnfinishedBounds} {offset : Nat} {c : Char} {p : List Char}
  {min : UInt32} {max : Bound}

theorem ReadFrom.going (h : b.ReadFrom p) (hb : b.Step o offset c (.going b')) :
    b'.ReadFrom (p ++ [c]) := by
  cases hb with
  | firstDigit hc hrun =>
    cases h with
    | start => exact .lower (.singleton hc)
    | lower | upper => cases hrun
    | comma hp =>
      rw [List.append_assoc]
      exact .upper hp (.singleton hc)
  | digit hc hrun fits =>
    cases h with
    | start | comma => cases hrun
    | lower hp =>
      cases hrun
      exact .lower (hp.snoc hc fits)
    | upper hp hq =>
      cases hrun
      rw [List.append_assoc, List.cons_append]
      exact .upper hp (hq.snoc hc fits)
  | comma =>
    cases h with
    | lower hp => exact .comma hp

theorem ReadFrom.done (h : b.ReadFrom p) (hb : b.Step o offset c (.done (min, max))) :
    Quantifier o ('{' :: p ++ [c]) min max := by
  cases hb with
  | exactly =>
    cases h with
    | lower hp => exact .exactly hp
  | atLeast =>
    cases h with
    | comma hp =>
      rw [List.cons_append, List.append_assoc]
      exact .atLeast hp
  | between ordered =>
    cases h with
    | upper hp hq => exact .between hp hq ordered

end UnfinishedBounds

/-! ### Classes -/

/-- The part of a class that has been read but is not part of a complete entry. -/
inductive ClassFocus.ReadFrom : ClassFocus → List Char → Prop
  | start : ReadFrom .start []
  | entry : ReadFrom .entry []
  | escape {offset} : ReadFrom (.escape offset) ['\\']
  | single {offset p a} (hp : ClassChar p a) : ReadFrom (.single offset a) p
  | hyphen {offset p a} (hp : ClassChar p a) : ReadFrom (.hyphen offset a) (p ++ ['-'])
  | hyphenEscape {offset p a} (hp : ClassChar p a) :
      ReadFrom (.hyphenEscape offset a) (p ++ ['-', '\\'])

namespace UnfinishedClass

/-- The texts that the complete entries of `k` have been read from when `rest` has been read behind
them: whatever entries `rest` begins, they complete those of `k`. -/
def EntriesReadFrom (o : Options) (k : UnfinishedClass) (p rest : List Char) : Prop :=
  ∀ q ns, Entries o (rest ++ q) ns → Entries o (p ++ (rest ++ q)) (k.entries.reverse ++ ns)

/-- What the text `p` behind the opening says about the sign of a class: nothing has been read yet,
or a class that is no complement does not begin with a circumflex. -/
def SignReadFrom (k : UnfinishedClass) (p : List Char) : Prop :=
  k.focus = .start ∧ k.negated = false ∧ k.entries = [] ∧ p = [] ∨
    k.focus ≠ .start ∧ (k.negated = false → ∃ d, p.head? = some d ∧ d ≠ '^')

/-- The characters in front of the entries of a class. -/
def opening (k : UnfinishedClass) : List Char :=
  if k.negated then ['[', '^'] else ['[']

/-- The text, from the opening bracket on, that has been read of a class. -/
def ReadFrom (o : Options) (k : UnfinishedClass) (p : List Char) : Prop :=
  ∃ q r, p = k.opening ++ (q ++ r) ∧ k.focus.ReadFrom r ∧ k.EntriesReadFrom o q r ∧
    k.SignReadFrom (q ++ r)

variable {o : Options} {k k' : UnfinishedClass} {offset : Nat} {a c : Char}
  {p q r : List Char} {n : Node}

theorem SignReadFrom.snoc (h : k.SignReadFrom p) (hc : k.focus = .start → c ≠ '^')
    (hk : k'.focus ≠ .start) (hneg : k'.negated = k.negated) : k'.SignReadFrom (p ++ [c]) := by
  refine .inr ⟨hk, fun hpositive => ?_⟩
  rcases h with ⟨hstart, -, -, rfl⟩ | ⟨-, hhead⟩
  · exact ⟨c, rfl, hc hstart⟩
  · obtain ⟨d, hd, hne⟩ := hhead (hneg.symm.trans hpositive)
    exact ⟨d, by rw [List.head?_append, hd]; rfl, hne⟩

theorem SignReadFrom.head?_ne (h : k.SignReadFrom p) (hk : k.negated = false) :
    p.head? ≠ some '^' := by
  rcases h with ⟨-, -, -, rfl⟩ | ⟨-, hhead⟩
  · nofun
  · obtain ⟨d, hd, hne⟩ := hhead hk
    rwa [hd, ne_eq, Option.some.injEq]

theorem opening_settle (k : UnfinishedClass) : k.settle.opening = k.opening := by
  rw [opening, opening, settle_negated]

/-- A class is complete once its entries are. -/
theorem class_of_entries (hk : k.negated = false → p.head? ≠ some '^')
    (hp : Entries o p k.entries.reverse) (nonempty : k.entries ≠ []) :
    Class o (k.opening ++ (p ++ [']'])) k.node := by
  have hne : k.entries.reverse ≠ [] := by simpa using nonempty
  cases hn : k.negated with
  | false => simpa [opening, node, hn] using Class.positive hp hne (hk hn)
  | true => simpa [opening, node, hn] using Class.negated hp hne

/-- Where a character may begin an entry, the entries before it are those of `k.settle`. -/
theorem EntriesReadFrom.settle {s : List Char} {ns : List Node} (h : k.EntriesReadFrom o q r)
    (hr : k.focus.ReadFrom r) (hk : k.Ready c) (hs : ∀ d ∈ s.head?, d = c)
    (hns : Entries o s ns) : Entries o (q ++ (r ++ s)) (k.settle.entries.reverse ++ ns) := by
  cases hfocus : k.focus with
  | start =>
    rw [hfocus] at hr
    cases hr
    rw [settle_of_start hfocus]
    exact h s ns hns
  | entry =>
    rw [hfocus] at hr
    cases hr
    rw [settle_of_entry hfocus]
    exact h s ns hns
  | single start a =>
    rw [hfocus] at hr
    cases hr with
    | single hp =>
      rw [Ready, hfocus] at hk
      have hs' : s.head? ≠ some '-' := fun hd => hk (hs '-' hd).symm
      rw [settle_of_single hfocus, add, List.reverse_cons, List.append_assoc]
      exact h s _ (.single hp hns hs')
  | escape | hyphen | hyphenEscape =>
    rw [Ready, hfocus] at hk
    exact hk.elim

/-- An opening bracket is the text of a class that has just been opened. -/
theorem ReadFrom.start (o : Options) (bracket : Nat) : ReadFrom o { bracket } ['['] :=
  ⟨[], [], rfl, .start, fun _ _ h => h, .inl ⟨rfl, rfl, rfl, rfl⟩⟩

/-- A character that begins an entry settles the entries before it. -/
theorem ReadFrom.begin {focus : ClassFocus} (h : k.ReadFrom o p) (hk : k.Ready c)
    (hstart : focus ≠ .start) (hfocus : focus.ReadFrom [c]) :
    ReadFrom o { k.settle with focus } (p ++ [c]) := by
  obtain ⟨q, r, rfl, hr, hentries, hsign⟩ := h
  refine ⟨q ++ r, [c], ?_, hfocus, ?_, ?_⟩
  · change _ = k.settle.opening ++ _
    rw [opening_settle, List.append_assoc]
  · intro s ns hns
    rw [List.append_assoc]
    exact hentries.settle hr hk (by simp) hns
  · refine hsign.snoc (fun hstart => ?_) hstart (settle_negated k)
    rwa [Ready, hstart] at hk

/-- A character that goes on with an entry leaves the entries before it. -/
theorem ReadFrom.continue {old focus : ClassFocus} (h : k.ReadFrom o p) (hk : k.focus = old)
    (hold : old ≠ .start) (hstart : focus ≠ .start)
    (hfocus : ∀ r, old.ReadFrom r → focus.ReadFrom (r ++ [c])) :
    ReadFrom o { k with focus } (p ++ [c]) := by
  obtain ⟨q, r, rfl, hr, hentries, hsign⟩ := h
  subst hk
  refine ⟨q, r ++ [c], ?_, hfocus r hr, ?_, ?_⟩
  · change _ = k.opening ++ _
    simp only [List.append_assoc]
  · intro s ns hns
    rw [List.append_assoc] at hns ⊢
    exact hentries (c :: s) ns hns
  · rw [← List.append_assoc]
    exact hsign.snoc (fun h => absurd h hold) hstart rfl

/-- A character that ends a range completes an entry. -/
theorem ReadFrom.range {old : ClassFocus} (h : k.ReadFrom o p) (hk : k.focus = old)
    (hold : old ≠ .start) (ordered : o.rejectInverted → a ≤ c)
    (hfocus : ∀ r, old.ReadFrom r →
      ∃ s t, r = s ++ '-' :: t ∧ ClassChar s a ∧ ClassChar (t ++ [c]) c) :
    (k.add (.range a c)).ReadFrom o (p ++ [c]) := by
  obtain ⟨q, r, rfl, hr, hentries, hsign⟩ := h
  subst hk
  obtain ⟨s, t, rfl, hs, ht⟩ := hfocus r hr
  refine ⟨q ++ (s ++ '-' :: t) ++ [c], [], ?_, .entry, ?_, ?_⟩
  · change _ = k.opening ++ _
    simp only [List.append_nil, List.append_assoc]
  · intro u ns hns
    have hrange : Entries o ((s ++ '-' :: t) ++ ([c] ++ u)) (.range a c :: ns) := by
      simpa using Entries.range hs ht hns ordered
    simpa [add] using hentries ([c] ++ u) _ hrange
  · rw [List.append_nil]
    exact hsign.snoc (fun h => absurd h hold) nofun rfl

theorem ReadFrom.going (h : k.ReadFrom o p) (hk : k.Step o offset c (.going k')) :
    k'.ReadFrom o (p ++ [c]) := by
  cases hk with
  | negate hstart =>
    obtain ⟨q, r, rfl, hr, -, ⟨-, hneg, hnil, hqr⟩ | ⟨hne, -⟩⟩ := h
    · rw [hqr]
      refine ⟨[], [], ?_, .entry, fun s ns hns => ?_, .inr ⟨nofun, nofun⟩⟩
      · simp [opening, hneg]
      · simpa [hnil] using hns
    · exact absurd hstart hne
  | escape hready => exact h.begin hready nofun .escape
  | character hready notEnd notEscape =>
    exact h.begin hready nofun (.single (.plain notEscape notEnd))
  | escaped hfocus =>
    refine h.continue hfocus nofun nofun ?_
    rintro _ ⟨⟩
    exact .single (.escaped c)
  | hyphen hfocus =>
    refine h.continue hfocus nofun nofun ?_
    intro r hr
    cases hr with
    | single hp => exact .hyphen hp
  | hyphenEscape hfocus =>
    refine h.continue hfocus nofun nofun ?_
    intro r hr
    cases hr with
    | hyphen hp => simpa using ClassFocus.ReadFrom.hyphenEscape hp
  | range hfocus notEnd notEscape ordered =>
    refine h.range hfocus nofun ordered ?_
    intro r hr
    cases hr with
    | hyphen hp => exact ⟨_, [], rfl, hp, .plain notEscape notEnd⟩
  | escapedRange hfocus ordered =>
    refine h.range hfocus nofun ordered ?_
    intro r hr
    cases hr with
    | hyphenEscape hp => exact ⟨_, ['\\'], rfl, hp, .escaped c⟩

theorem ReadFrom.done (h : k.ReadFrom o p) (hk : k.Step o offset c (.done n)) :
    Class o (p ++ [c]) n := by
  obtain ⟨q, r, rfl, hr, hentries, hsign⟩ := h
  rw [List.append_assoc]
  cases hk with
  | close hready nonempty =>
    have hns := hentries.settle hr hready (s := []) nofun .nil
    rw [List.append_nil, List.append_nil] at hns
    rw [← opening_settle]
    exact class_of_entries (fun hk => hsign.head?_ne (by rwa [settle_negated] at hk)) hns nonempty
  | finalHyphen hfocus =>
    rw [hfocus] at hr
    cases hr with
    | hyphen hp =>
      have hns := hentries [] _ (by simpa using .hyphen hp)
      refine class_of_entries (k := (k.add _).add (.literal '-')) hsign.head?_ne ?_ (by simp [add])
      simpa [add] using hns

end UnfinishedClass

/-! ### Levels of what the grammar derives -/

namespace Grammar

variable {o : Options} {p q : List Char} {n : Node} {min : UInt32} {max : Bound}

theorem Quantifier.of_quantifier? {c : Char} (h : quantifier? c = some (min, max)) :
    Quantifier o [c] min max := by
  rw [quantifier?] at h
  split_ifs at h with hc hc hc <;> subst hc <;> cases h
  · exact .optional
  · exact .star
  · exact .plus

theorem Quantifier.length_pos (h : Quantifier o p min max) : 0 < p.length := by
  cases h <;> simp

theorem Class.length_pos (h : Class o p n) : 0 < p.length := by
  cases h <;> simp

theorem Base.length_pos {depth : Nat} {first : Bool} (h : Base o depth first p n) :
    0 < p.length := by
  cases h with
  | ofClass hp => exact hp.length_pos
  | dot | empty | group | escaped | plain => simp

theorem Element.depth_le : ∀ {depth first p n level}, Element o depth first p n level →
    depth ≤ level
  | _, _, _, _, _, .base _ => le_rfl
  | _, _, _, _, _, .quantified hp _ _ => Nat.le_succ_of_le hp.depth_le

/-- Every level of an element takes a character, and the element has one more. -/
theorem Element.level_lt : ∀ {depth first p n level}, Element o depth first p n level →
    level < depth + p.length
  | _, _, _, _, _, .base hp => Nat.lt_add_of_pos_right hp.length_pos
  | _, _, _, _, _, .quantified hp hq _ => by
    have hlt := hp.level_lt
    have hpos := hq.length_pos
    rw [List.length_append]
    omega

/-- The quantifiers of an element are within the limit. -/
theorem Element.level_le {depth first p n level} (h : Element o depth first p n level) :
    level = depth ∨ level ≤ o.nestLimit.toNat := by
  cases h with
  | base => exact .inl rfl
  | quantified _ _ withinLimit => exact .inr withinLimit

/-- A branch behind a union makes a union. -/
theorem Union.snoc : ∀ {depth p q c cs}, Union o depth p cs → Branch o depth true q c →
    Union o depth (p ++ '|' :: q) (cs ++ [c])
  | _, _, _, _, _, .last hp, hq => .more hp (.last hq)
  | _, _, _, _, _, .more hp hr, hq => by
    rw [List.append_assoc, List.cons_append]
    exact .more hp (hr.snoc hq)

end Grammar

/-! ### Patterns -/

/-- The text that has been read of the complete parts of a frame: whatever branch goes on with the
elements of the current one completes the frame. -/
def Frame.ReadFrom (o : Options) (depth : Nat) (f : Frame) (p : List Char) : Prop :=
  ∀ q c, Branch o depth f.elements.isEmpty q c →
    Union o depth (p ++ q) (Chain.prepend f.elements c :: f.branches).reverse

/-- Whether `p` has been begun as the text of the union in a group. -/
def BegunGroup (p : List Char) : Prop :=
  ∃ c, p.head? = some c ∧ c ≠ ')'

/-- The text up to the innermost open parenthesis, given the frames around the innermost one. -/
inductive Opened (o : Options) : List Frame → List Char → Prop
  | nil : Opened o [] []
  | cons {outer f p q} (hp : Opened o outer p) (hq : f.ReadFrom o outer.length q)
      (begun : outer ≠ [] → BegunGroup (q ++ ['(']))
      (withinLimit : outer.length + 1 ≤ o.nestLimit.toNat) :
      Opened o (f :: outer) (p ++ (q ++ ['(']))

/-- The text behind the complete parts of the innermost frame. -/
inductive Focus.ReadFrom (o : Options) (depth : Nat) (first : Bool) : Focus → List Char → Prop
  | branch (hfirst : first = true) : ReadFrom o depth first .branch []
  | element {n level p} (hp : Element o depth first p n level.toNat) :
      ReadFrom o depth first (.element n level) p
  | escape : ReadFrom o depth first .escape ['\\']
  | group {paren} : ReadFrom o depth first (.group paren) ['(']
  | inClass {k p} (hp : k.ReadFrom o p) : ReadFrom o depth first (.inClass k) p
  | inBounds {n level b p q l} (hp : Element o depth first p n l) (hlevel : level.toNat = l + 1)
      (withinLimit : l + 1 ≤ o.nestLimit.toNat) (hq : b.ReadFrom q) :
      ReadFrom o depth first (.inBounds n level b) (p ++ '{' :: q)

/-- The text that has been read of a pattern. -/
def UnfinishedPattern.ReadFrom (o : Options) (s : UnfinishedPattern) (p : List Char) : Prop :=
  s.depth.toNat = s.outer.length ∧ ∃ q r t, p = q ++ (r ++ t) ∧ Opened o s.outer q ∧
    s.frame.ReadFrom o s.outer.length r ∧
    s.focus.ReadFrom o s.outer.length s.frame.elements.isEmpty t ∧
    (s.outer ≠ [] → BegunGroup (r ++ t))

theorem BegunGroup.append {p : List Char} (h : BegunGroup p) (q : List Char) :
    BegunGroup (p ++ q) := by
  obtain ⟨c, hc, hne⟩ := h
  exact ⟨c, by rw [List.head?_append, hc]; rfl, hne⟩

theorem Frame.readFrom_empty (o : Options) (depth : Nat) : Frame.ReadFrom o depth {} [] :=
  fun _ _ h => .last h

section Frame

variable {o : Options} {depth level : Nat} {f : Frame} {p q : List Char} {n : Node}

/-- A frame and its final element make a union. -/
theorem Frame.ReadFrom.union (h : f.ReadFrom o depth p)
    (hq : Element o depth f.elements.isEmpty q n level) :
    Union o depth (p ++ q) (f.close n).reverse :=
  h q _ (.last hq)

theorem Frame.ReadFrom.nextBranch (h : f.ReadFrom o depth p)
    (hq : Element o depth f.elements.isEmpty q n level) :
    Frame.ReadFrom o depth { branches := f.close n } (p ++ (q ++ ['|'])) := by
  intro r c hr
  simpa [Chain.prepend] using (h.union hq).snoc hr

theorem Frame.ReadFrom.add (h : f.ReadFrom o depth p)
    (hq : Element o depth f.elements.isEmpty q n level) :
    Frame.ReadFrom o depth { f with elements := n :: f.elements } (p ++ q) := by
  intro r c hr
  rw [List.append_assoc]
  exact h _ _ (.link hq hr)

end Frame

theorem Opened.length_le {o : Options} {outer : List Frame} {p : List Char}
    (h : Opened o outer p) : outer.length ≤ p.length ∧ outer.length ≤ o.nestLimit.toNat := by
  induction h with
  | nil => simp
  | cons _ _ _ withinLimit ih =>
    simp only [List.length_cons, List.length_append, List.length_nil]
    exact ⟨by omega, withinLimit⟩

namespace UnfinishedPattern

variable {o : Options} {s s' : UnfinishedPattern} {offset : Nat} {c : Char} {p : List Char}
  {n : Node}

/-- A step that changes only what comes next. -/
theorem ReadFrom.refocus {old focus : Focus} (h : s.ReadFrom o p) (hs : s.focus = old)
    (hfocus : ∀ t, old.ReadFrom o s.outer.length s.frame.elements.isEmpty t →
      focus.ReadFrom o s.outer.length s.frame.elements.isEmpty (t ++ [c])) :
    ReadFrom o { s with focus } (p ++ [c]) := by
  obtain ⟨hdepth, q, r, t, rfl, hq, hr, ht, hbegun⟩ := h
  subst hs
  refine ⟨hdepth, q, r, t ++ [c], by simp only [List.append_assoc], hq, hr, hfocus t ht, ?_⟩
  intro houter
  rw [← List.append_assoc]
  exact (hbegun houter).append _

theorem beginElement_eq (s : UnfinishedPattern) (offset : Nat) (c : Char) :
    s.beginElement offset c = { s with focus := (s.beginElement offset c).focus } := by
  rw [beginElement]
  split_ifs <;> rfl

/-- What comes next behind the first character of an element. -/
theorem beginElement_focus_readFrom {depth : Nat} {first : Bool} (hdepth : s.depth.toNat = depth)
    (hc : first = false → c ∉ [')', '|', '?', '*', '+', '{']) :
    (s.beginElement offset c).focus.ReadFrom o depth first [c] := by
  subst hdepth
  rw [beginElement]
  split_ifs with hdot hparen hbracket hescape
  · subst hdot
    exact .element (.base .dot)
  · subst hparen
    exact .group
  · subst hbracket
    exact .inClass (.start o offset)
  · subst hescape
    exact .escape
  · refine .element (.base (.plain ?_ hc))
    simp [hdot, hparen, hbracket, hescape]

/-- A character behind a closed group belongs to the frame around it. -/
theorem ReadFrom.close {f : Frame} {outer : List Frame} {level : UInt32} (h : s.ReadFrom o p)
    (hs : s.focus = .element n level) (houter : s.outer = f :: outer) :
    ReadFrom o (complete { outer, depth := s.depth - 1, frame := f } (s.frame.node n))
      (p ++ [')']) := by
  obtain ⟨hdepth, q, r, t, rfl, hq, hr, ht, hbegun⟩ := h
  rw [hs] at ht
  rw [houter] at hdepth hq hr ht hbegun
  cases ht with
  | element ht =>
    obtain ⟨d, hd, hne⟩ := hbegun (List.cons_ne_nil f outer)
    have hunion := hr.union ht
    cases hq with
    | @cons _ _ p q hp hq begun withinLimit =>
      have hgroup : Base o outer.length f.elements.isEmpty ('(' :: (r ++ t) ++ [')'])
          (s.frame.node n) :=
        .group hunion (by rw [hd, ne_eq, Option.some.injEq]; exact hne) withinLimit
      have hdepth' : (s.depth - 1).toNat = outer.length := by
        rw [List.length_cons] at hdepth
        rw [UInt32.toNat_sub_of_le, hdepth]
        · rfl
        · rw [UInt32.le_iff_toNat_le, hdepth]
          exact Nat.le_add_left 1 _
      refine ⟨hdepth', p, q, '(' :: (r ++ t) ++ [')'], by simp, hp, hq, ?_, fun houter => ?_⟩
      · refine .element ?_
        rw [hdepth']
        exact .base hgroup
      · have hbegun := (begun houter).append (r ++ t ++ [')'])
        simpa using hbegun

/-- A group is opened by its first character. -/
theorem ReadFrom.openGroup {paren : Nat} (h : s.ReadFrom o p) (hp : LevelsFit o p)
    (hs : s.focus = .group paren) (hc : c ≠ ')') (withinLimit : s.depth + 1 ≤ o.nestLimit) :
    ReadFrom o (beginElement { outer := s.frame :: s.outer, depth := s.depth + 1 } offset c)
      (p ++ [c]) := by
  obtain ⟨hdepth, q, r, t, rfl, hq, hr, ht, hbegun⟩ := h
  rw [hs] at ht
  cases ht
  have hlength := hq.length_le
  have hdepth' : (s.depth + 1).toNat = (s.frame :: s.outer).length := by
    rw [hp.toNat_level_succ, hdepth, List.length_cons]
    · simp only [hdepth, List.length_append, List.length_cons, List.length_nil]
      omega
    · rw [hdepth]
      exact hlength.2
  have hlimit : s.outer.length + 1 ≤ o.nestLimit.toNat := by
    rwa [UInt32.le_iff_toNat_le, hdepth', List.length_cons] at withinLimit
  rw [beginElement_eq]
  refine ⟨hdepth', q ++ (r ++ ['(']), [], [c], by simp, .cons hq hr hbegun hlimit,
    Frame.readFrom_empty o _, ?_, fun _ => ⟨c, rfl, hc⟩⟩
  exact beginElement_focus_readFrom hdepth' nofun

/-- A step that completes an element without quantifiers. -/
theorem ReadFrom.complete {old : Focus} (h : s.ReadFrom o p) (hs : s.focus = old)
    (hbase : ∀ t, old.ReadFrom o s.outer.length s.frame.elements.isEmpty t →
      Base o s.outer.length s.frame.elements.isEmpty (t ++ [c]) n) :
    (s.complete n).ReadFrom o (p ++ [c]) := by
  refine h.refocus hs fun t ht => .element ?_
  rw [h.1]
  exact .base (hbase t ht)

/-- The level of a quantifier can be counted. -/
theorem ReadFrom.level_add_one {level : UInt32} (h : s.ReadFrom o p) (hp : LevelsFit o p)
    (hs : s.focus = .element n level) : (level + 1).toNat = level.toNat + 1 := by
  obtain ⟨-, q, r, t, rfl, hq, -, ht, -⟩ := h
  rw [hs] at ht
  have hlength := hq.length_le
  cases ht with
  | element ht =>
    have hlt := ht.level_lt
    refine hp.toNat_level_succ ?_ ?_
    · simp only [List.length_append]
      omega
    · rcases ht.level_le with hle | hle
      · omega
      · exact hle

/-- The frames around the innermost one are within the limit. -/
theorem ReadFrom.length_outer_le (h : s.ReadFrom o p) : s.outer.length ≤ o.nestLimit.toNat := by
  obtain ⟨-, q, r, t, -, hq, -⟩ := h
  exact hq.length_le.2

/-- The level of an element is within the limit. -/
theorem ReadFrom.level_le (h : s.ReadFrom o p) (hs : s.focus = .element n level) :
    level.toNat ≤ o.nestLimit.toNat := by
  have hlimit := h.length_outer_le
  obtain ⟨-, q, r, t, -, -, -, ht, -⟩ := h
  rw [hs] at ht
  cases ht with
  | element ht =>
    rcases ht.level_le with heq | hle
    · rwa [heq]
    · exact hle

/-- The level of a group that is opened can be counted. -/
theorem ReadFrom.depth_add_one {paren : Nat} (h : s.ReadFrom o p) (hp : LevelsFit o p)
    (hs : s.focus = .group paren) : (s.depth + 1).toNat = s.depth.toNat + 1 := by
  have hlimit := h.length_outer_le
  obtain ⟨hdepth, q, r, t, rfl, hq, -, ht, -⟩ := h
  rw [hs] at ht
  have hlength := hq.length_le
  cases ht with
  | group =>
    refine hp.toNat_level_succ ?_ ?_
    · simp only [List.length_append, List.length_singleton]
      omega
    · omega

/-- A step reads one more character of the text. -/
theorem ReadFrom.step (h : s.ReadFrom o p) (hp : LevelsFit o p) (hs : s.Step o offset c s') :
    s'.ReadFrom o (p ++ [c]) := by
  cases hs with
  | first hs =>
    rw [beginElement_eq]
    refine h.refocus hs ?_
    rintro _ ⟨hfirst⟩
    rw [hfirst]
    exact beginElement_focus_readFrom h.1 nofun
  | bar hs =>
    obtain ⟨hdepth, q, r, t, rfl, hq, hr, ht, hbegun⟩ := h
    rw [hs] at ht
    cases ht with
    | element ht =>
      refine ⟨hdepth, q, r ++ (t ++ ['|']), [], by simp, hq, hr.nextBranch ht, .branch rfl, ?_⟩
      intro houter
      simpa using (hbegun houter).append ['|']
  | close hs houter => exact h.close hs houter
  | brace hs withinLimit =>
    have hlevel := h.level_add_one hp hs
    rw [UInt32.le_iff_toNat_le, hlevel] at withinLimit
    refine h.refocus hs ?_
    intro t ht
    cases ht with
    | element ht => exact .inBounds ht hlevel withinLimit .start
  | quantifier hs hc withinLimit =>
    have hlevel := h.level_add_one hp hs
    rw [UInt32.le_iff_toNat_le, hlevel] at withinLimit
    refine h.refocus hs ?_
    intro t ht
    cases ht with
    | element ht =>
      refine .element ?_
      rw [hlevel]
      exact .quantified ht (.of_quantifier? hc) withinLimit
  | next hs hc =>
    obtain ⟨hdepth, q, r, t, rfl, hq, hr, ht, hbegun⟩ := h
    rw [hs] at ht
    cases ht with
    | element ht =>
      rw [beginElement_eq]
      refine ⟨hdepth, q, r ++ t, [c], by simp, hq, hr.add ht, ?_, fun houter => ?_⟩
      · exact beginElement_focus_readFrom hdepth fun _ => hc
      · exact (hbegun houter).append [c]
  | escaped hs =>
    refine h.complete hs ?_
    rintro _ ⟨⟩
    exact .escaped c
  | emptyGroup hs =>
    refine h.complete hs ?_
    rintro _ ⟨⟩
    exact .empty
  | group hs hc withinLimit => exact h.openGroup hp hs hc withinLimit
  | inClass hs hk =>
    refine h.refocus hs ?_
    intro t ht
    cases ht with
    | inClass ht => exact .inClass (ht.going hk)
  | ofClass hs hk =>
    refine h.complete hs ?_
    intro t ht
    cases ht with
    | inClass ht => exact .ofClass (ht.done hk)
  | inBounds hs hb =>
    refine h.refocus hs ?_
    intro t ht
    cases ht with
    | inBounds ht hlevel withinLimit hq =>
      rw [List.append_assoc, List.cons_append]
      exact .inBounds ht hlevel withinLimit (hq.going hb)
  | ofBounds hs hb =>
    refine h.refocus hs ?_
    intro t ht
    cases ht with
    | inBounds ht hlevel withinLimit hq =>
      refine .element ?_
      rw [hlevel, List.append_assoc]
      exact .quantified ht (hq.done hb) withinLimit

/-- What a text leads to has been read from it. -/
theorem readFrom_of_read (hp : LevelsFit o p) (h : read o {} 0 p = .ok s) : s.ReadFrom o p := by
  refine read_induction (P := fun p s => LevelsFit o p → s.ReadFrom o p) ?_ ?_ h hp
  · exact fun _ => ⟨rfl, [], [], [], rfl, .nil, Frame.readFrom_empty o 0, .branch rfl, nofun⟩
  · intro p s c s' ih hs hp
    have hp' := hp.of_append
    exact (ih hp').step hp' (step_eq_ok_iff.mp hs)

/-- A pattern that ends has been read as a union. -/
theorem ReadFrom.union {stop : Nat} {t : Chain} (h : s.ReadFrom o p)
    (ht : s.finish o stop = .ok t) :
    ∃ branches, Union o 0 p branches ∧ t = .last (.alternation branches) := by
  obtain ⟨-, q, r, u, rfl, hq, hr, hu, -⟩ := h
  obtain ⟨houter, n, level, hs, rfl⟩ := finish_eq_ok_iff.mp ht
  rw [hs] at hu
  rw [houter] at hq hr hu
  cases hq
  cases hu with
  | element hu => exact ⟨_, hr.union hu, rfl⟩

end UnfinishedPattern

/-- A pattern that parses has the derivation of its tree. -/
theorem derives_of_parse {p : String} {o : Options} {t : Chain}
    (hp : o.nestLimit.toNat < 2 ^ 32 - 1 ∨ p.utf8ByteSize < 2 ^ 32) (h : parse p o = .ok t) :
    Derives o p t := by
  obtain ⟨s, hs, ht⟩ := exists_of_parse_ok h
  exact (UnfinishedPattern.readFrom_of_read (levelsFit_of_size hp) hs).union ht

end PatternTree
