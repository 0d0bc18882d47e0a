import Mathlib.Data.UInt
import PatternTree.Proofs.NestLimit
/-!
# Reading a text inside a larger one

A text is read in the same way wherever a branch may begin, and behind an element if its first
character begins another one. What has been read of it alone turns into what has been read of the
larger text when every offset moves by the length of the text before, every level rises by the
groups that are open around, and what is complete before goes in front of the outermost frame.
`UnfinishedPattern.around` makes that change, and steps and faults commute with it.

Two things depend on the groups that are open around. Outside all groups a closing parenthesis has
nothing to close, and levels are counted from those groups. So a step needs a limit with room for
the levels around, and a fault is kept only where no group is open around.

## Main definitions

* `SyntaxError.shift`, `UnfinishedBounds.shift`, `UnfinishedClass.shift`, `Focus.shift` — the same
  further on in a text.
* `Frame.before` — a frame whose text goes on where that of another frame stops.
* `UnfinishedPattern.around` — what has been read of a text inside a larger one.
* `UnfinishedPattern.Closed` — no group is open.
* `ReadBehind` — a pattern that ends with a text that is read as it is alone.

## Main results

* `UnfinishedPattern.Step.around`, `UnfinishedPattern.read_around` — a step and a run inside a
  larger text.
* `UnfinishedPattern.Fault.around`, `UnfinishedPattern.EndFault.around`,
  `UnfinishedPattern.read_around_of_error` — the faults where no group is open around.
* `ReadBehind.parse_ok`, `ReadBehind.parse_error` — the tree or the fault of a text as part of the
  tree or the fault of the whole pattern.
-/

namespace PatternTree

variable {o : Options} {strict : Bool} {l l' : UInt32} {offset d : Nat} {c : Char} {e : SyntaxError}

/-- What reading one more character leads to, with `f` applied to a part that goes on. -/
def Progress.map {α α' β : Type} (f : α → α') : Progress α β → Progress α' β
  | .going a => .going (f a)
  | .done b => .done b

/-- The fault `d` bytes further on. -/
def SyntaxError.shift (d : Nat) (e : SyntaxError) : SyntaxError :=
  { e with offset := e.offset + d }

/-! ### Bounds -/

/-- The digits `d` bytes further on. -/
def DigitRun.shift (d : Nat) (run : DigitRun) : DigitRun :=
  { run with start := run.start + d }

namespace UnfinishedBounds

/-- The bounds `d` bytes further on. -/
def shift (d : Nat) (b : UnfinishedBounds) : UnfinishedBounds :=
  { b with brace := b.brace + d, run? := b.run?.map (.shift d) }

variable {b : UnfinishedBounds} {r : Progress UnfinishedBounds (UInt32 × Bound)}

theorem shift_run? {run : DigitRun} (hb : b.run? = some run) :
    (b.shift d).run? = some (run.shift d) := by
  rw [shift, hb, Option.map_some]

theorem Step.shift (h : b.Step o offset c r) (d : Nat) :
    (b.shift d).Step o (offset + d) c (r.map (.shift d)) := by
  cases h with
  | firstDigit hc hb => exact .firstDigit hc (congrArg (Option.map (DigitRun.shift d)) hb)
  | digit hc hb fits => exact .digit hc (shift_run? hb) fits
  | comma => exact .comma
  | exactly => exact .exactly
  | atLeast => exact .atLeast
  | between ordered => exact .between ordered

theorem Fault.shift (h : b.Fault o offset c e) (d : Nat) :
    (b.shift d).Fault o (offset + d) c (e.shift d) := by
  cases h with
  | tooLarge hc hb large => exact .tooLarge hc (shift_run? hb) large
  | malformed hc hb hmin hrun =>
    have hiff : (b.shift d).run? ≠ none ↔ b.run? ≠ none := Option.map_eq_none_iff.not
    exact .malformed hc (fun hmin hrun => hb hmin (hiff.mp hrun)) hmin (fun h => hrun (hiff.mp h))
  | inverted strict inverted => exact .inverted strict inverted

end UnfinishedBounds

/-! ### Classes -/

/-- What comes next in a class, `d` bytes further on. -/
def ClassFocus.shift (d : Nat) : ClassFocus → ClassFocus
  | .start => .start
  | .entry => .entry
  | .escape offset => .escape (offset + d)
  | .single offset c => .single (offset + d) c
  | .hyphen offset c => .hyphen (offset + d) c
  | .hyphenEscape offset c => .hyphenEscape (offset + d) c

namespace UnfinishedClass

/-- The class `d` bytes further on. -/
def shift (d : Nat) (k : UnfinishedClass) : UnfinishedClass :=
  { k with bracket := k.bracket + d, focus := k.focus.shift d }

variable {k : UnfinishedClass} {r : Progress UnfinishedClass Node} {focus : ClassFocus}

theorem shift_focus (hk : k.focus = focus) : (k.shift d).focus = focus.shift d :=
  congrArg (ClassFocus.shift d) hk

theorem settle_shift (k : UnfinishedClass) (d : Nat) : (k.shift d).settle = k.settle.shift d := by
  cases hk : k.focus with
  | single start a =>
    rw [settle_of_single hk, settle_of_single (shift_focus hk)]
    rfl
  | start | entry | escape | hyphen | hyphenEscape =>
    simp only [settle, shift, hk, ClassFocus.shift]

theorem ready_shift (h : k.Ready c) (d : Nat) : (k.shift d).Ready c := by
  have hiff : (k.shift d).Ready c ↔ k.Ready c := by
    cases hk : k.focus <;> simp only [Ready, shift, hk, ClassFocus.shift]
  exact hiff.mpr h

theorem endCause_shift (k : UnfinishedClass) (d : Nat) : (k.shift d).endCause = k.endCause := by
  cases hk : k.focus <;> simp only [endCause, shift, hk, ClassFocus.shift]

theorem Step.shift (h : k.Step o offset c r) (d : Nat) :
    (k.shift d).Step o (offset + d) c (r.map (.shift d)) := by
  cases h with
  | negate hk => exact .negate (shift_focus hk)
  | close hk nonempty =>
    have hclose : (k.shift d).Step o (offset + d) ']' (.done (k.shift d).settle.node) :=
      .close (ready_shift hk d) (by rwa [settle_shift])
    rwa [settle_shift] at hclose
  | escape hk =>
    have hescape : (k.shift d).Step o (offset + d) '\\'
        (.going { (k.shift d).settle with focus := .escape (offset + d) }) :=
      .escape (ready_shift hk d)
    rwa [settle_shift] at hescape
  | character hk notEnd notEscape =>
    have hcharacter : (k.shift d).Step o (offset + d) c
        (.going { (k.shift d).settle with focus := .single (offset + d) c }) :=
      .character (ready_shift hk d) notEnd notEscape
    rwa [settle_shift] at hcharacter
  | escaped hk => exact .escaped (shift_focus hk)
  | hyphen hk => exact .hyphen (shift_focus hk)
  | finalHyphen hk => exact .finalHyphen (shift_focus hk)
  | hyphenEscape hk => exact .hyphenEscape (shift_focus hk)
  | range hk notEnd notEscape ordered => exact .range (shift_focus hk) notEnd notEscape ordered
  | escapedRange hk ordered => exact .escapedRange (shift_focus hk) ordered

theorem Fault.shift (h : k.Fault o offset c e) (d : Nat) :
    (k.shift d).Fault o (offset + d) c (e.shift d) := by
  cases h with
  | empty hk hentries => exact .empty (ready_shift hk d) (by rwa [settle_shift])
  | inverted hk notEnd notEscape strict inverted =>
    exact .inverted (shift_focus hk) notEnd notEscape strict inverted
  | escapedInverted hk strict inverted => exact .escapedInverted (shift_focus hk) strict inverted

end UnfinishedClass

/-! ### Frames -/

theorem Chain.prepend_append (ns ms : List Node) (c : Chain) :
    prepend (ns ++ ms) c = prepend ms (prepend ns c) :=
  List.foldl_append

namespace Frame

variable {g : Frame}

/-- The branches, latest first, of a text that goes on with the current branch of `g`: its earliest
branch begins with the elements of `g`. -/
def branchesBefore (g : Frame) : List Chain → List Chain
  | [] => g.branches
  | [c] => Chain.prepend g.elements c :: g.branches
  | c :: d :: cs => c :: g.branchesBefore (d :: cs)

/-- What is complete when `f` is complete of a text that goes on with the current branch of `g`. -/
def before (g f : Frame) : Frame where
  branches := g.branchesBefore f.branches
  elements := if f.branches.isEmpty then f.elements ++ g.elements else f.elements

theorem before_empty (g : Frame) : g.before {} = g := rfl

theorem close_before (g f : Frame) (n : Node) :
    (g.before f).close n = g.branchesBefore (f.close n) := by
  rcases f with ⟨_ | ⟨c, cs⟩, elements⟩
  · exact congrArg (· :: g.branches) (Chain.prepend_append elements g.elements _)
  · rfl

theorem branchesBefore_append_singleton (cs : List Chain) (c : Chain) :
    g.branchesBefore (cs ++ [c]) = cs ++ Chain.prepend g.elements c :: g.branches := by
  induction cs with
  | nil => rfl
  | cons d cs ih =>
    cases cs with
    | nil => rfl
    | cons => exact congrArg (d :: ·) ih

/-- In the order of the text: the branches of `g`, then those that go on behind its elements. -/
theorem reverse_close_before {f : Frame} {n : Node} {first : Chain} {rest : List Chain}
    (h : (f.close n).reverse = first :: rest) :
    ((g.before f).close n).reverse =
      g.branches.reverse ++ Chain.prepend g.elements first :: rest := by
  rw [List.reverse_eq_cons_iff] at h
  rw [close_before, h, branchesBefore_append_singleton]
  simp

theorem exists_reverse_close (f : Frame) (n : Node) :
    ∃ first rest, (f.close n).reverse = first :: rest :=
  List.exists_cons_of_ne_nil (by simp [close])

/-- An empty frame leaves the frame behind it as it is. -/
theorem node_empty_before (f : Frame) (n : Node) : (({} : Frame).before f).node n = f.node n := by
  obtain ⟨first, rest, hclose⟩ := f.exists_reverse_close n
  rw [node, node, reverse_close_before hclose, hclose]
  rfl

end Frame

/-! ### Patterns -/

/-- What comes next, `d` bytes further on and `levels` levels higher. -/
def Focus.shift (d : Nat) (levels : UInt32) : Focus → Focus
  | .branch => .branch
  | .element n level => .element n (level + levels)
  | .escape => .escape
  | .group paren => .group (paren + d)
  | .inClass k => .inClass (k.shift d)
  | .inBounds n level b => .inBounds n (level + levels) (b.shift d)

namespace UnfinishedPattern

variable {s s' t : UnfinishedPattern} {n : Node} {level : UInt32} {stop : Nat} {p : List Char}

/-- The innermost frame `f` inside `t`, with `outer` around it: the outermost frame goes on where
that of `t` stops. -/
def frameAround (t : UnfinishedPattern) : (outer : List Frame) → (f : Frame) → Frame
  | [], f => t.frame.before f
  | _ :: _, f => f

/-- The frames `outer` inside `t`, with those around `t`. -/
def outerAround (t : UnfinishedPattern) : List Frame → List Frame
  | [] => t.outer
  | f :: outer => t.frameAround outer f :: t.outerAround outer

/-- What has been read of a whole text when `t` has been read of its first `d` bytes, and `s` of the
text behind them alone. What comes next is what comes next in `s`. -/
def around (t : UnfinishedPattern) (d : Nat) (s : UnfinishedPattern) : UnfinishedPattern where
  outer := t.outerAround s.outer
  depth := s.depth + t.depth
  frame := t.frameAround s.outer s.frame
  focus := s.focus.shift d t.depth

theorem around_focus {focus : Focus} (hs : s.focus = focus) :
    (t.around d s).focus = focus.shift d t.depth :=
  congrArg (Focus.shift d t.depth) hs

/-- Where `t` is at the start of a branch, nothing has been read yet of the text inside. -/
theorem around_start (t : UnfinishedPattern) (d : Nat) :
    t.around d {} = { t with focus := .branch } := by
  simp only [around, outerAround, frameAround, Frame.before_empty, UInt32.zero_add, Focus.shift]

/-- The first character of a text inside another one begins an element. -/
theorem read_around_start (t : UnfinishedPattern) (d : Nat) (hp : p ≠ []) :
    (t.around d {}).read o offset p = t.readFresh o offset p := by
  rw [around_start, readFresh_of_branch rfl hp]
  cases p with
  | nil => exact absurd rfl hp
  | cons => rfl

theorem around_beginElement (t s : UnfinishedPattern) (offset d : Nat) (c : Char) :
    t.around d (s.beginElement offset c) = (t.around d s).beginElement (offset + d) c := by
  rw [beginElement, beginElement]
  split_ifs <;> rfl

theorem around_nextBranch (t s : UnfinishedPattern) (d : Nat) (n : Node) :
    t.around d (s.nextBranch n) = (t.around d s).nextBranch n := by
  rcases s with ⟨_ | _, depth, frame, focus⟩
  · simp only [around, nextBranch, frameAround, Frame.close_before]
    rfl
  · rfl

theorem around_add (t s : UnfinishedPattern) (d : Nat) (n : Node) :
    t.around d (s.add n) = (t.around d s).add n := by
  rcases s with ⟨_ | _, depth, ⟨_ | _, elements⟩, focus⟩ <;> rfl

theorem around_brace (t s : UnfinishedPattern) (d : Nat) (n : Node) (level : UInt32)
    (offset : Nat) :
    t.around d { s with focus := .inBounds n (level + 1) { brace := offset } } =
      { t.around d s with
        focus := .inBounds n (level + t.depth + 1) { brace := offset + d } } := by
  rw [add_right_comm level t.depth 1]
  rfl

theorem around_completeRepetition (t s : UnfinishedPattern) (d : Nat) (n : Node) (level : UInt32)
    (bounds : UInt32 × Bound) :
    t.around d (s.completeRepetition n (level + 1) bounds) =
      (t.around d s).completeRepetition n (level + t.depth + 1) bounds := by
  rw [add_right_comm level t.depth 1]
  rfl

theorem around_openGroup (t s : UnfinishedPattern) (d : Nat) :
    t.around d { outer := s.frame :: s.outer, depth := s.depth + 1 } =
      { outer := (t.around d s).frame :: (t.around d s).outer,
        depth := (t.around d s).depth + 1 } := by
  simp only [around, outerAround, frameAround, Focus.shift, add_right_comm s.depth 1 t.depth]

theorem around_close (t s : UnfinishedPattern) (d : Nat) (n : Node) {f : Frame}
    {outer : List Frame} (houter : s.outer = f :: outer) :
    t.around d (complete { outer, depth := s.depth - 1, frame := f } (s.frame.node n)) =
      complete { outer := t.outerAround outer, depth := (t.around d s).depth - 1,
                 frame := t.frameAround outer f } ((t.around d s).frame.node n) := by
  have hdepth : s.depth - 1 + t.depth = s.depth + t.depth - 1 := by grind
  have hframe : t.frameAround s.outer s.frame = s.frame := by
    rw [houter]
    rfl
  simp only [around, complete, Focus.shift, hdepth, hframe]

/-- A step inside a larger text, whose limit has room for the levels around. -/
theorem Step.around (h : s.Step ⟨strict, l⟩ offset c s') (d : Nat)
    (room : ∀ level ≤ l, level + t.depth ≤ l') :
    (t.around d s).Step ⟨strict, l'⟩ (offset + d) c (t.around d s') := by
  have hlimit {level : UInt32} (withinLimit : level + 1 ≤ l) : level + t.depth + 1 ≤ l' := by
    rw [add_right_comm level t.depth 1]
    exact room _ withinLimit
  cases h with
  | first hs =>
    rw [around_beginElement]
    exact .first (around_focus hs)
  | bar hs =>
    rw [around_nextBranch]
    exact .bar (around_focus hs)
  | @close n level f outer hs houter =>
    rw [around_close t s d n houter]
    refine .close (around_focus hs) ?_
    rw [UnfinishedPattern.around, houter]
    rfl
  | brace hs withinLimit =>
    rw [around_brace]
    exact .brace (around_focus hs) (hlimit withinLimit)
  | quantifier hs hc withinLimit =>
    rw [around_completeRepetition]
    exact .quantifier (around_focus hs) hc (hlimit withinLimit)
  | next hs hc =>
    rw [around_beginElement, around_add]
    exact .next (around_focus hs) hc
  | escaped hs => exact .escaped (around_focus hs)
  | emptyGroup hs => exact .emptyGroup (around_focus hs)
  | group hs hc withinLimit =>
    rw [around_beginElement, around_openGroup]
    exact .group (around_focus hs) hc (hlimit withinLimit)
  | inClass hs hk => exact .inClass (around_focus hs) (hk.relimit.shift d)
  | ofClass hs hk => exact .ofClass (around_focus hs) (hk.relimit.shift d)
  | inBounds hs hb => exact .inBounds (around_focus hs) (hb.relimit.shift d)
  | ofBounds hs hb => exact .ofBounds (around_focus hs) (hb.relimit.shift d)

/-- A run inside a larger text, whose limit has room for the levels around. -/
theorem read_around (h : s.read ⟨strict, l⟩ offset p = .ok s') (d : Nat)
    (room : ∀ level ≤ l, level + t.depth ≤ l') :
    (t.around d s).read ⟨strict, l'⟩ (offset + d) p = .ok (t.around d s') := by
  induction p generalizing s offset with
  | nil =>
    cases h
    rfl
  | cons c p ih =>
    obtain ⟨u, hu, hs'⟩ := exists_of_read_cons h
    rw [read_cons_of_step ((step_eq_ok_iff.mp hu).around d room).step_eq, Nat.add_right_comm]
    exact ih hs'

/-! ### Behind a text that leaves no group open -/

/-- Levels count the groups that are open. -/
theorem Step.depth_eq (h : s.Step o offset c s') (hs : s.depth = .ofNat s.outer.length) :
    s'.depth = .ofNat s'.outer.length := by
  cases h with
  | first | next =>
    rw [beginElement_eq]
    exact hs
  | close _ houter =>
    rw [houter, List.length_cons, UInt32.ofNat_add] at hs
    change s.depth - 1 = _
    rw [hs]
    exact UInt32.add_sub_cancel _ _
  | group =>
    rw [beginElement_eq]
    change s.depth + 1 = _
    rw [hs, List.length_cons, UInt32.ofNat_add]
    rfl
  | bar | brace | quantifier | escaped | emptyGroup | inClass | ofClass | inBounds | ofBounds =>
    exact hs

theorem depth_eq_of_read (h : read o {} 0 p = .ok s) : s.depth = .ofNat s.outer.length :=
  read_induction (P := fun _ s => s.depth = .ofNat s.outer.length) rfl
    (fun _ _ _ _ hs hstep => (step_eq_ok_iff.mp hstep).depth_eq hs) h

/-- No group is open, so a text behind takes the levels that it takes alone. -/
structure Closed (t : UnfinishedPattern) : Prop where
  /-- No group is open. -/
  outer_eq : t.outer = []
  /-- No level is taken. -/
  depth_eq : t.depth = 0

theorem closed_of_read (h : read o {} 0 p = .ok s) (houter : s.outer = []) : s.Closed where
  outer_eq := houter
  depth_eq := by
    rw [depth_eq_of_read h, houter]
    rfl

theorem Closed.room (ht : t.Closed) : ∀ level ≤ l, level + t.depth ≤ l := by
  intro level hlevel
  rwa [ht.depth_eq, UInt32.add_zero]

/-- The fault of a character further on in a text. -/
theorem Fault.around (h : s.Fault o offset c e) (d : Nat) (ht : t.Closed) :
    (t.around d s).Fault o (offset + d) c (e.shift d) := by
  have hlevel (level : UInt32) : level + t.depth = level := by rw [ht.depth_eq, UInt32.add_zero]
  cases h with
  | unmatched hs houter =>
    refine .unmatched (around_focus hs) ?_
    rw [UnfinishedPattern.around, houter]
    exact ht.outer_eq
  | quantifier hs hc beyondLimit =>
    exact .quantifier (around_focus hs) hc (by rwa [hlevel])
  | group hs hc beyondLimit =>
    exact .group (around_focus hs) hc (by rwa [UnfinishedPattern.around, hlevel])
  | inClass hs hk => exact .inClass (around_focus hs) (hk.shift d)
  | inBounds hs hb => exact .inBounds (around_focus hs) (hb.shift d)

/-- The fault of the end further on in a text. -/
theorem EndFault.around (h : s.EndFault o stop e) (d : Nat) (ht : t.Closed) :
    (t.around d s).EndFault o (stop + d) (e.shift d) := by
  have hlevel (level : UInt32) : level + t.depth = level := by rw [ht.depth_eq, UInt32.add_zero]
  cases h with
  | openGroup hs houter =>
    refine .openGroup (around_focus hs) ?_
    obtain ⟨f, outer, houter⟩ := List.exists_cons_of_ne_nil houter
    rw [UnfinishedPattern.around, houter]
    exact List.cons_ne_nil _ _
  | branch hs => exact .branch (around_focus hs)
  | escape hs => exact .escape (around_focus hs)
  | group hs withinLimit =>
    exact .group (around_focus hs) (by rwa [UnfinishedPattern.around, hlevel])
  | limit hs beyondLimit =>
    exact .limit (around_focus hs) (by rwa [UnfinishedPattern.around, hlevel])
  | @inClass k hs =>
    have hclass : (t.around d s).EndFault o (stop + d) ⟨(k.shift d).endCause, stop + d⟩ :=
      .inClass (around_focus hs)
    rwa [UnfinishedClass.endCause_shift] at hclass
  | inBounds hs => exact .inBounds (around_focus hs)

/-- A fault of a text is found further on in the text behind another one. -/
theorem read_around_of_error (h : s.read o offset p = .error e) (d : Nat) (ht : t.Closed) :
    (t.around d s).read o (offset + d) p = .error (e.shift d) := by
  obtain ⟨q, c, r, u, rfl, hq, hc⟩ := exists_of_read_error h
  rw [read_append_of_ok (read_around hq d ht.room), Nat.add_right_comm]
  exact read_cons_of_step_error ((step_eq_error_iff.mp hc).around d ht).step_eq

/-- What a text behind another one ends with: the branches before, and its own branches, the first
of which goes on with the current branch. -/
theorem finish_around (hs : s.outer = []) (hfocus : s.focus = .element n level) (d : Nat)
    (ht : t.Closed) {first : Chain} {rest : List Chain}
    (hclose : (s.frame.close n).reverse = first :: rest) :
    (t.around d s).finish o stop = .ok (.last (.alternation
      (t.frame.branches.reverse ++ Chain.prepend t.frame.elements first :: rest))) := by
  have houter : (t.around d s).outer = [] := by
    rw [UnfinishedPattern.around, hs]
    exact ht.outer_eq
  have hframe : (t.around d s).frame = t.frame.before s.frame := by
    rw [UnfinishedPattern.around, hs]
    rfl
  rw [finish_of_element houter (around_focus hfocus), hframe, Frame.node,
    Frame.reverse_close_before hclose]

end UnfinishedPattern

section Parse

variable {p q : String} {t : UnfinishedPattern} {first : Chain} {rest cs : List Chain}

/-- The branches of a pattern are those that have been read of it. -/
theorem exists_of_parse_alternation (h : parse p o = .ok (.last (.alternation cs))) :
    ∃ s n level, UnfinishedPattern.read o {} 0 p.toList = .ok s ∧ s.outer = [] ∧
      s.focus = .element n level ∧ (s.frame.close n).reverse = cs := by
  obtain ⟨s, hread, hfinish⟩ := exists_of_parse_ok h
  obtain ⟨houter, n, level, hfocus, htree⟩ := UnfinishedPattern.finish_eq_ok_iff.mp hfinish
  cases htree
  exact ⟨s, n, level, hread, houter, hfocus, rfl⟩

/-- The text `p` ends with `q`, and `q` is read behind `t` as it is read alone. -/
structure ReadBehind (o : Options) (t : UnfinishedPattern) (d : Nat) (p q : String) : Prop where
  /-- No group is open in front of `q`. -/
  closed : t.Closed
  /-- The text in front of `q` has `d` bytes. -/
  size_eq : p.utf8ByteSize = q.utf8ByteSize + d
  /-- Reading `p` comes to reading `q` inside `t`. -/
  read_eq : UnfinishedPattern.read o {} 0 p.toList = (t.around d {}).read o d q.toList

/-- A text that parses goes on with the current branch when it stands behind another text. -/
theorem ReadBehind.parse_ok (h : ReadBehind o t d p q)
    (hq : parse q o = .ok (.last (.alternation (first :: rest)))) :
    parse p o = .ok (.last (.alternation
      (t.frame.branches.reverse ++ Chain.prepend t.frame.elements first :: rest))) := by
  obtain ⟨s, n, level, hread, houter, hfocus, hclose⟩ := exists_of_parse_alternation hq
  have hp := UnfinishedPattern.read_around hread d h.closed.room
  rw [Nat.zero_add] at hp
  rw [parse_of_read (h.read_eq.trans hp)]
  exact UnfinishedPattern.finish_around houter hfocus d h.closed hclose

/-- The fault of a text is found further on when it stands behind another text. -/
theorem ReadBehind.parse_error (h : ReadBehind o t d p q) (hq : parse q o = .error e) :
    parse p o = .error (e.shift d) := by
  rcases exists_of_parse_error hq with hread | ⟨s, hread, hfinish⟩
  · have hp := UnfinishedPattern.read_around_of_error hread d h.closed
    rw [Nat.zero_add] at hp
    exact parse_of_read_error (h.read_eq.trans hp)
  · have hp := UnfinishedPattern.read_around hread d h.closed.room
    rw [Nat.zero_add] at hp
    rw [parse_of_read (h.read_eq.trans hp), h.size_eq]
    exact ((UnfinishedPattern.finish_eq_error_iff.mp hfinish).around d h.closed).finish_eq

end Parse

end PatternTree
