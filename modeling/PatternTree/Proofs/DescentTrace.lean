import PatternTree.Descent
import PatternTree.Proofs.Derivation
/-!
# The places that recursive descent comes to

The procedures of `Descent` move through a pattern together with the states that the text before the
cursor is read to. This module says what they leave on the way. `Mirrors` says what an event of the
trace says about such a state: a call is made where an element begins, with a call of `union` active
for each frame, and a count is raised or lowered where the next character has such a meaning.
`Due` says the converse: which events a place in the pattern calls for. A trace is as it should be
if each of its events mirrors a state and none that is due is missing: otherwise a trace without
events would do.

## Main definitions

* `UnfinishedPattern.Reaches` — the state that the text before a cursor is read to.
* `UnfinishedPattern.Begins` — the state to which the next element is added.
* `Descent.Mirrors`, `Descent.Mirrored` — what the events of a trace say about those states.
* `Descent.Due`, `Descent.Covered` — the events that a place calls for, and that the trace has them.
* `Descent.Before`, `Descent.After` — how a procedure is called, and what it leaves.
* `Descent.Continues` — what is left of a class or of bounds is read as it should be.

## Main results

* `Descent.After.step`, `Descent.Before.step` — the cursor moves on by a character.
* `Descent.Before.enter`, `Descent.After.leave` — calls and returns.
* `Descent.continues_class`, `Descent.continues_bounds` — classes and bounds are read to their ends.
* `Descent.Tracks.opened`, `Descent.Tracks.closed` — groups are opened and closed.
-/

open String (utf8Len utf8Len_toList)

namespace PatternTree

/-! ### Reading up to a cursor -/

namespace UnfinishedPattern

/-- The text of the pattern `p` before the cursor is read to `s`. -/
def Reaches (o : Options) (p : String) (s : UnfinishedPattern) (cur : Cursor) : Prop :=
  ∃ q, p.toList = q ++ cur.rest ∧ cur.position = utf8Len q ∧ read o {} 0 q = .ok s

/-- An element that begins with the first of the characters `r` is added to `s` when the text before
has been read to `t`: at the start of a branch, behind another element, or in a group that it
opens. -/
inductive Begins (o : Options) : (r : List Char) → (t s : UnfinishedPattern) → Prop
  | first {r t} (ht : t.focus = .branch) : Begins o r t t
  | next {c r t n level} (ht : t.focus = .element n level)
      (hc : c ∉ [')', '|', '?', '*', '+', '{']) : Begins o (c :: r) t (t.add n)
  | group {r t paren} (ht : t.focus = .group paren) (hr : r.head? ≠ some ')')
      (withinLimit : t.depth + 1 ≤ o.nestLimit) :
      Begins o r t { outer := t.frame :: t.outer, depth := t.depth + 1 }

/-- `s` with the frame `f`, behind the element `n`. -/
def behind (s : UnfinishedPattern) (f : Frame) (n : Node) (level : UInt32) : UnfinishedPattern :=
  { s with frame := f, focus := .element n level }

variable {o : Options} {p : String} {s s' t : UnfinishedPattern} {cur : Cursor} {i : Nat}
  {c : Char} {r : List Char} {e : SyntaxError}

theorem Reaches.start (o : Options) (p : String) : Reaches o p {} (.ofString p) :=
  ⟨[], rfl, rfl, rfl⟩

theorem Reaches.step (h : Reaches o p s cur) (hr : cur.rest = c :: r)
    (hs : s.Step o cur.position c s') : Reaches o p s' ⟨r, cur.position + c.utf8Size⟩ := by
  obtain ⟨q, hp, hposition, hread⟩ := h
  rw [hr] at hp
  rw [hposition] at hs ⊢
  refine ⟨q ++ [c], ?_, ?_, ?_⟩
  · rw [hp, List.append_assoc]
    rfl
  · rw [String.utf8Len_append, String.utf8Len_cons, String.utf8Len_nil, Nat.zero_add]
  · rw [read_append_of_ok hread, read_singleton, Nat.zero_add]
    exact hs.step_eq

theorem Reaches.parse_of_fault (h : Reaches o p s cur) (hr : cur.rest = c :: r)
    (hs : s.Fault o cur.position c e) : parse p o = .error e := by
  obtain ⟨q, hp, hposition, hread⟩ := h
  rw [hr] at hp
  rw [hposition] at hs
  refine parse_of_read_error ?_
  rw [hp, read_append_of_ok hread, Nat.zero_add]
  exact read_cons_of_step_error hs.step_eq

theorem Reaches.parse_of_end (h : Reaches o p s cur) (hr : cur.rest = []) :
    parse p o = s.finish o cur.position := by
  obtain ⟨q, hp, hposition, hread⟩ := h
  rw [hr, List.append_nil] at hp
  rw [parse_of_read (hp ▸ hread), ← utf8Len_toList, hp, hposition]

theorem Begins.step (h : Begins o (c :: r) t s) : t.Step o i c (s.beginElement i c) := by
  cases h with
  | first ht => exact .first ht
  | next ht hc => exact .next ht hc
  | group ht hr withinLimit =>
    exact .group ht (fun hc => hr (congrArg some hc)) withinLimit

/-- Where an element is missing, the pattern ends too early. -/
theorem Begins.finish (h : Begins o [] t s) : t.finish o i = .error ⟨.unexpectedEnd, i⟩ := by
  cases h with
  | first ht => exact (EndFault.branch ht).finish_eq
  | group ht _ withinLimit => exact (EndFault.group ht withinLimit).finish_eq

/-- An element is added to one state only. -/
theorem Begins.unique {r' : List Char} (h : Begins o r t s) (h' : Begins o r' t s') : s = s' := by
  cases h with
  | first ht => cases h' <;> simp_all
  | next ht => cases h' <;> simp_all
  | group ht => cases h' <;> simp_all

theorem Reaches.readFrom (h : Reaches o p t cur) (hp : LevelsFit o p.toList) :
    ∃ q, LevelsFit o q ∧ t.ReadFrom o q := by
  obtain ⟨q, hq, -, hread⟩ := h
  rw [hq] at hp
  exact ⟨q, hp.of_append, readFrom_of_read hp.of_append hread⟩

/-- Where an element is added, the counter is the number of groups that are open. -/
theorem Begins.toNat_depth {q : List Char} (h : Begins o r t s) (ht : t.ReadFrom o q)
    (hq : LevelsFit o q) : s.depth.toNat = s.outer.length ∧ s.depth ≤ o.nestLimit := by
  have hdepth : t.depth.toNat = t.outer.length := ht.1
  cases h with
  | first | next =>
    rw [UInt32.le_iff_toNat_le]
    exact ⟨hdepth, hdepth.trans_le ht.length_outer_le⟩
  | group hs _ withinLimit =>
    exact ⟨(ht.depth_add_one hq hs).trans (congrArg (· + 1) hdepth), withinLimit⟩

end UnfinishedPattern

namespace Descent

open UnfinishedPattern

/-! ### The events of a place -/

/-- What the events `before` and one more say about the states that the text before the cursor is
read to. -/
inductive Mirrors (o : Options) (p : String) (before : List Event) : Event → Prop
  | called {procedure t s cur} (reaches : Reaches o p t cur) (begins : Begins o cur.rest t s)
      (groups : openGroups before = s.outer.length)
      (frames : unions (activeCalls (.called ⟨procedure, cur.position, s.depth⟩ :: before)) =
        (s.frame :: s.outer).length) :
      Mirrors o p before (.called ⟨procedure, cur.position, s.depth⟩)
  | returned {call calls} (hcalls : activeCalls before = call :: calls) :
      Mirrors o p before (.returned call.depth)
  | opened : Mirrors o p before .opened
  | closed : Mirrors o p before .closed
  | raisedDepth {t cur paren} (reaches : Reaches o p t cur) (ht : t.focus = .group paren) :
      Mirrors o p before (.raised t.depth)
  | raisedLevel {t cur n level} (reaches : Reaches o p t cur) (ht : t.focus = .element n level) :
      Mirrors o p before (.raised level)
  | lowered {t cur f outer} (reaches : Reaches o p t cur) (houter : t.outer = f :: outer) :
      Mirrors o p before (.lowered t.depth)

/-- Each event of a trace says so. -/
def Mirrored (o : Options) (p : String) (trace : List Event) : Prop :=
  ∀ e before, e :: before <:+ trace → Mirrors o p before e

/-- Whether a procedure is called where the next element, in front of the characters `r`, is added
to `s`. -/
def Procedure.StartsAt (s : UnfinishedPattern) (r : List Char) : Procedure → Prop
  | .union => s.frame = {}
  | .branch => s.frame.elements = []
  | .element | .single => True
  | .atom => r.head? ≠ some '['

/-- The events that are due where the text before the offset `offset` has been read to `t` and the
characters `r` are left. -/
inductive Due (o : Options) (t : UnfinishedPattern) (offset : Nat) (r : List Char) : Event → Prop
  | called {procedure s} (begins : Begins o r t s) (starts : procedure.StartsAt s r) :
      Due o t offset r (.called ⟨procedure, offset, s.depth⟩)
  | raisedDepth {paren} (ht : t.focus = .group paren) (hr : r.head? ≠ some ')') :
      Due o t offset r (.raised t.depth)
  | raisedLevel {n level c} (ht : t.focus = .element n level) (hr : r.head? = some c)
      (hc : c ∈ ['?', '*', '+', '{']) : Due o t offset r (.raised level)
  | lowered {n level f outer} (ht : t.focus = .element n level) (houter : t.outer = f :: outer)
      (hr : ∀ c ∈ r.head?, c = ')') : Due o t offset r (.lowered t.depth)

/-- The events that are due where at least `k` characters are left have been traced. -/
def Covered (o : Options) (p : String) (k : Nat) (trace : List Event) : Prop :=
  ∀ q r t e, p.toList = q ++ r → k ≤ r.length → read o {} 0 q = .ok t →
    Due o t (utf8Len q) r e → e ∈ trace

/-- The counter stands at `level`, as many groups are open as there are frames in `outer`, the calls
`calls` are active, and each event mirrors a state. -/
structure Tracks (o : Options) (p : String) (level : UInt32) (outer : List Frame)
    (calls : List Call) (depth : UInt32) (trace : List Event) : Prop where
  depth_eq : depth = level
  groups : openGroups trace = outer.length
  active : activeCalls trace = calls
  mirrored : Mirrored o p trace

/-- The text before the cursor is read to `s`, and the calls `calls` are active. The events that are
due in front of the cursor have been traced. -/
structure After (o : Options) (p : String) (s : UnfinishedPattern) (calls : List Call)
    (d : State) : Prop where
  reaches : Reaches o p s d.cursor
  covered : Covered o p (d.cursor.rest.length + 1) d.trace
  tracks : Tracks o p s.depth s.outer calls d.depth d.trace

/-- The text before the cursor is read to `t`, the next element is added to `s`, and the calls
`calls` are active. Of the events that are due up to the element, those of the procedures `pending`
may be missing. -/
structure Before (o : Options) (p : String) (pending : List Procedure) (t s : UnfinishedPattern)
    (calls : List Call) (d : State) : Prop where
  reaches : Reaches o p t d.cursor
  begins : Begins o d.cursor.rest t s
  called : ∀ procedure : Procedure, procedure.StartsAt s d.cursor.rest → procedure ∉ pending →
    .called ⟨procedure, d.cursor.position, s.depth⟩ ∈ d.trace
  raised : ∀ paren, t.focus = .group paren → .raised t.depth ∈ d.trace
  covered : Covered o p (d.cursor.rest.length + 1) d.trace
  tracks : Tracks o p s.depth s.outer calls d.depth d.trace

/-- The rest of a class or of bounds is read as it should: the text up to its end is read to the
state with what has been read, or the pattern has the fault that is found. -/
inductive Continues {α : Type} (o : Options) (p : String) (trace : List Event) (length : Nat)
    (next : α → UnfinishedPattern) : Except SyntaxError (α × Cursor) → Prop
  | ok {a cur} (reaches : Reaches o p (next a) cur)
      (covered : Covered o p (cur.rest.length + 1) trace) (shorter : cur.rest.length < length) :
      Continues o p trace length next (.ok (a, cur))
  | error {e} (h : parse p o = .error e) (covered : Covered o p 0 trace) :
      Continues o p trace length next (.error e)

variable {α : Type} {o : Options} {p : String} {s s' t : UnfinishedPattern} {calls : List Call}
  {call : Call} {d : State} {depth level : UInt32} {trace : List Event} {event : Event} {c : Char}
  {r : List Char} {cur : Cursor} {i k : Nat} {n : Node} {e : SyntaxError}
  {pending : List Procedure}

theorem mirrored_nil (o : Options) (p : String) : Mirrored o p [] :=
  fun _ _ h => absurd (List.suffix_nil.mp h) (List.cons_ne_nil _ _)

theorem Mirrored.cons (h : Mirrored o p trace) (hevent : Mirrors o p trace event) :
    Mirrored o p (event :: trace) := by
  intro e before hsuffix
  rcases List.suffix_cons_iff.mp hsuffix with heq | hsuffix
  · cases heq
    exact hevent
  · exact h e before hsuffix

/-! ### Events that are due -/

/-- In a branch that has an element, the next one is neither the first of the branch nor of the
union. -/
theorem Procedure.StartsAt.mem_of_elements {procedure : Procedure} (h : procedure.StartsAt s r)
    (hs : s.frame.elements ≠ []) : procedure ∈ [.element, .single, .atom] := by
  cases procedure with
  | union => exact absurd (congrArg Frame.elements h) hs
  | branch => exact absurd h hs
  | element | single | atom => simp

/-- Behind a branch, the next one is not the first of the union. -/
theorem Procedure.StartsAt.mem_of_branches {procedure : Procedure} (h : procedure.StartsAt s r)
    (hs : s.frame.branches ≠ []) : procedure ∈ [.branch, .element, .single, .atom] := by
  cases procedure with
  | union => exact absurd (congrArg Frame.branches h) hs
  | branch | element | single | atom => simp

/-- What comes next where an event is due. -/
theorem Due.focus (h : Due o t i r event) : t.focus = .branch ∨
    (∃ n level, t.focus = .element n level) ∨ ∃ paren, t.focus = .group paren ∧
      r.head? ≠ some ')' := by
  cases h with
  | called begins =>
    cases begins with
    | first ht => exact .inl ht
    | next ht => exact .inr (.inl ⟨_, _, ht⟩)
    | group ht hr => exact .inr (.inr ⟨_, ht, hr⟩)
  | raisedDepth ht hr => exact .inr (.inr ⟨_, ht, hr⟩)
  | raisedLevel ht | lowered ht => exact .inr (.inl ⟨_, _, ht⟩)

theorem not_due_of_inClass {k : UnfinishedClass} : ¬ Due o (s.atClass k) i r event := by
  intro h
  rcases h.focus with h | ⟨_, _, h⟩ | ⟨_, h, _⟩ <;> cases h

theorem not_due_of_inBounds {b : UnfinishedBounds} :
    ¬ Due o (s.atBounds n level b) i r event := by
  intro h
  rcases h.focus with h | ⟨_, _, h⟩ | ⟨_, h, _⟩ <;> cases h

theorem not_due_of_escape (ht : t.focus = .escape) : ¬ Due o t i r event := by
  intro h
  rcases h.focus with ht' | ⟨_, _, ht'⟩ | ⟨_, ht', _⟩ <;> rw [ht] at ht' <;> cases ht'

/-- Where an element begins, the procedures are called and a group has raised the counter. -/
theorem Due.of_begins (h : Due o t i r event) (hbegins : Begins o r t s) :
    (∃ procedure : Procedure, procedure.StartsAt s r ∧ event = .called ⟨procedure, i, s.depth⟩) ∨
      (∃ paren, t.focus = .group paren) ∧ event = .raised t.depth := by
  cases h with
  | called begins starts =>
    obtain rfl := begins.unique hbegins
    exact .inl ⟨_, starts, rfl⟩
  | raisedDepth ht => exact .inr ⟨⟨_, ht⟩, rfl⟩
  | raisedLevel ht hr hc =>
    cases hbegins with
    | first ht' | group ht' => rw [ht] at ht'; cases ht'
    | next _ hc' =>
      cases hr
      exact absurd (List.mem_append_right [')', '|'] hc) hc'
  | lowered ht houter hr =>
    cases hbegins with
    | first ht' | group ht' => rw [ht] at ht'; cases ht'
    | next _ hc' =>
      rw [hr _ rfl] at hc'
      exact absurd List.mem_cons_self hc'

/-- Behind an element that no other one follows, a quantifier raises its level and the end of a
group lowers the counter. -/
theorem Due.of_element (h : Due o t i r event) (ht : t.focus = .element n level)
    (hr : ∀ c ∈ r.head?, c ∈ [')', '|', '?', '*', '+', '{']) :
    (∃ c, r.head? = some c ∧ c ∈ ['?', '*', '+', '{'] ∧ event = .raised level) ∨
      t.outer ≠ [] ∧ (∀ c ∈ r.head?, c = ')') ∧ event = .lowered t.depth := by
  cases h with
  | called begins =>
    cases begins with
    | first ht' | group ht' => rw [ht] at ht'; cases ht'
    | next _ hc => exact absurd (hr _ rfl) hc
  | raisedDepth ht' => rw [ht] at ht'; cases ht'
  | raisedLevel ht' hr' hc =>
    rw [ht] at ht'
    cases ht'
    exact .inl ⟨_, hr', hc, rfl⟩
  | lowered _ houter hr' => exact .inr ⟨houter ▸ List.cons_ne_nil _ _, hr', rfl⟩

/-- A bar ends a branch, and nothing is due there. -/
theorem not_due_of_bar (ht : t.focus = .element n level) (hr : r.head? = some '|') :
    ¬ Due o t i r event := by
  intro h
  rcases h.of_element ht (by simp [hr]) with ⟨c, hc, hmem, -⟩ | ⟨-, hclose, -⟩
  · cases hr.symm.trans hc
    simp at hmem
  · exact absurd (hclose _ hr) (by decide)

theorem Due.of_quantifier (h : Due o t i r event) (ht : t.focus = .element n level)
    (hr : r.head? = some c) (hc : c ∈ ['?', '*', '+', '{']) : event = .raised level := by
  have hr' : ∀ x ∈ r.head?, x = c := fun x hx => Option.some.inj (hx.symm.trans hr)
  rcases h.of_element ht fun x hx => hr' x hx ▸ List.mem_append_right [')', '|'] hc with
    ⟨_, -, -, heq⟩ | ⟨-, hclose, -⟩
  · exact heq
  · rw [hclose c hr] at hc
    simp at hc

theorem Due.of_group {paren : Nat} (h : Due o t i r event) (ht : t.focus = .group paren) :
    r.head? ≠ some ')' := by
  rcases h.focus with ht' | ⟨_, _, ht'⟩ | ⟨_, -, hr⟩
  · rw [ht] at ht'; cases ht'
  · rw [ht] at ht'; cases ht'
  · exact hr

/-- At the end of a group or of the pattern, a group that is open lowers the counter. -/
theorem Due.of_end (h : Due o t i r event) (ht : t.focus = .element n level)
    (hr : ∀ c ∈ r.head?, c = ')') : t.outer ≠ [] ∧ event = .lowered t.depth := by
  rcases h.of_element ht fun c hc => hr c hc ▸ List.mem_cons_self with
    ⟨c, hc, hmem, -⟩ | ⟨houter, -, heq⟩
  · rw [hr c hc] at hmem
    simp at hmem
  · exact ⟨houter, heq⟩

/-- A group beyond the limit has raised the counter, and nothing is called there. -/
theorem Due.of_group_limit {paren : Nat} (h : Due o t i r event) (ht : t.focus = .group paren)
    (beyondLimit : o.nestLimit < t.depth + 1) : event = .raised t.depth := by
  cases h with
  | called begins =>
    cases begins with
    | first ht' | next ht' => rw [ht] at ht'; cases ht'
    | group _ _ withinLimit => exact absurd beyondLimit (UInt32.not_lt.mpr withinLimit)
  | raisedDepth => rfl
  | raisedLevel ht' | lowered ht' => rw [ht] at ht'; cases ht'

theorem Covered.mono (h : Covered o p k trace) {trace' : List Event} (hsub : trace ⊆ trace') :
    Covered o p k trace' :=
  fun q r t e hp hle hread hdue => hsub (h q r t e hp hle hread hdue)

theorem Covered.cons (h : Covered o p k trace) : Covered o p k (event :: trace) :=
  h.mono (List.subset_cons_self _ _)

theorem covered_start (o : Options) (p : String) : Covered o p (p.toList.length + 1) trace := by
  intro q r t e hp hle
  rw [hp, List.length_append] at hle
  omega

/-- The events at the cursor are the next ones that are due. -/
theorem Covered.step (h : Covered o p (cur.rest.length + 1) trace) (hreaches : Reaches o p t cur)
    (hdue : ∀ e, Due o t cur.position cur.rest e → e ∈ trace) :
    Covered o p cur.rest.length trace := by
  intro q' r' t' e hp' hle hread' he
  obtain ⟨q, hp, hposition, hread⟩ := hreaches
  rcases Nat.lt_or_eq_of_le hle with hlt | heq
  · exact h q' r' t' e hp' hlt hread' he
  · obtain ⟨rfl, rfl⟩ := List.append_inj' (hp.symm.trans hp') heq
    rw [hread] at hread'
    cases hread'
    rw [hposition] at hdue
    exact hdue e he

/-- Nothing is due behind a fault. -/
theorem Covered.of_fault (h : Covered o p cur.rest.length trace) (hreaches : Reaches o p t cur)
    (hr : cur.rest = c :: r) (hfault : t.Fault o cur.position c e) : Covered o p 0 trace := by
  intro q' r' t' e' hp' _ hread' he
  obtain ⟨q, hp, hposition, hread⟩ := hreaches
  by_cases hle : cur.rest.length ≤ r'.length
  · exact h q' r' t' e' hp' hle hread' he
  · rcases List.append_eq_append_iff.mp (hp.symm.trans hp') with ⟨m, rfl, hrest⟩ | ⟨m, -, rfl⟩
    · cases m with
      | nil => exact absurd (hrest ▸ le_rfl) hle
      | cons x m =>
        rw [hr, List.cons_append, List.cons.injEq] at hrest
        obtain ⟨rfl, -⟩ := hrest
        rw [hposition] at hfault
        rw [read_append_of_ok hread, Nat.zero_add, read_cons_of_step_error hfault.step_eq] at hread'
        cases hread'
    · exact absurd (List.length_append ▸ Nat.le_add_left _ _) hle

/-! ### Moving on -/

theorem Tracks.of_eq {outer : List Frame} (h : Tracks o p level outer calls depth trace)
    (hlevel : s.depth = level) (houter : s.outer = outer) :
    Tracks o p s.depth s.outer calls depth trace := by
  rwa [hlevel, houter]

/-- A character is read that leaves the groups as they are. -/
theorem After.step (h : After o p s calls d) (hr : d.cursor.rest = c :: r)
    (hs : s.Step o d.cursor.position c s') (hdepth : s'.depth = s.depth)
    (houter : s'.outer = s.outer)
    (hdue : ∀ e, Due o s d.cursor.position d.cursor.rest e → e ∈ d.trace) :
    After o p s' calls { d with cursor := ⟨r, d.cursor.position + c.utf8Size⟩ } where
  reaches := h.reaches.step hr hs
  covered := by
    have hcovered := h.covered.step h.reaches hdue
    rwa [hr] at hcovered
  tracks := h.tracks.of_eq hdepth houter

/-- An element begins where it is added, when the procedures `pending` are called there. -/
theorem Before.of_begins (hreaches : Reaches o p t d.cursor) (hbegins : Begins o d.cursor.rest t s)
    (hpending : ∀ procedure : Procedure, procedure.StartsAt s d.cursor.rest → procedure ∈ pending)
    (hraised : ∀ paren, t.focus = .group paren → .raised t.depth ∈ d.trace)
    (hcovered : Covered o p (d.cursor.rest.length + 1) d.trace)
    (htracks : Tracks o p s.depth s.outer calls d.depth d.trace) :
    Before o p pending t s calls d :=
  ⟨hreaches, hbegins, fun _ hstarts hnot => absurd (hpending _ hstarts) hnot, hraised, hcovered,
    htracks⟩

/-- The events at an element have been traced when no procedure is called there any more. -/
theorem Before.mem_of_due (h : Before o p pending t s calls d)
    (hpending : ∀ procedure ∈ pending, ¬ procedure.StartsAt s d.cursor.rest)
    (hdue : Due o t d.cursor.position d.cursor.rest event) : event ∈ d.trace := by
  rcases hdue.of_begins h.begins with ⟨procedure, hstarts, rfl⟩ | ⟨⟨paren, ht⟩, rfl⟩
  · exact h.called procedure hstarts fun hmem => hpending procedure hmem hstarts
  · exact h.raised paren ht

/-- The first character of an element is read. -/
theorem Before.step (h : Before o p pending t s calls d)
    (hpending : ∀ procedure ∈ pending, ¬ procedure.StartsAt s d.cursor.rest)
    (hr : d.cursor.rest = c :: r) : After o p (s.beginElement d.cursor.position c) calls
      { d with cursor := ⟨r, d.cursor.position + c.utf8Size⟩ } where
  reaches := h.reaches.step hr (hr ▸ h.begins).step
  covered := by
    have hcovered := h.covered.step h.reaches fun _ => h.mem_of_due hpending
    rwa [hr] at hcovered
  tracks := by
    refine h.tracks.of_eq ?_ ?_ <;> rw [beginElement_eq]

/-- An element may be missing. -/
theorem Before.fault_of_end (h : Before o p [] t s calls d) (hr : d.cursor.rest = []) :
    parse p o = .error ⟨.unexpectedEnd, d.cursor.position⟩ ∧ Covered o p 0 d.trace := by
  have hcovered := h.covered.step h.reaches fun _ => h.mem_of_due (List.forall_mem_nil _)
  rw [hr] at hcovered
  exact ⟨(h.reaches.parse_of_end hr).trans (hr ▸ h.begins).finish, hcovered⟩

/-- Nothing is due at the end of the pattern but what is due at the cursor. -/
theorem After.covered_of_end (h : After o p s calls d) (hr : d.cursor.rest = [])
    (hdue : ∀ e, Due o s d.cursor.position d.cursor.rest e → e ∈ d.trace) :
    Covered o p 0 d.trace := by
  have hcovered := h.covered.step h.reaches hdue
  rwa [hr] at hcovered

theorem Continues.mono {length length' : Nat} {next : α → UnfinishedPattern}
    {x : Except SyntaxError (α × Cursor)} (h : Continues o p trace length next x)
    (hle : length ≤ length') : Continues o p trace length' next x := by
  cases h with
  | ok reaches covered shorter => exact .ok reaches covered (Nat.lt_of_lt_of_le shorter hle)
  | error h covered => exact .error h covered

/-- A class is read to its end. -/
theorem continues_class {k : UnfinishedClass} (hreaches : Reaches o p (s.atClass k) ⟨r, i⟩)
    (hcovered : Covered o p (r.length + 1) trace) :
    Continues o p trace r.length s.complete (k.read o i r) := by
  induction r generalizing k i with
  | nil =>
    exact .error ((hreaches.parse_of_end rfl).trans (EndFault.inClass rfl).finish_eq)
      (hcovered.step hreaches fun _ hdue => (not_due_of_inClass hdue).elim)
  | cons c r ih =>
    have hcovered' := hcovered.step hreaches fun _ hdue => (not_due_of_inClass hdue).elim
    rw [UnfinishedClass.read]
    rcases k.step_or_fault o i c with ⟨k' | n, hk⟩ | ⟨e, hk⟩ <;> rw [hk.step_eq]
    · exact (ih (hreaches.step rfl (.inClass rfl hk)) hcovered').mono (Nat.le_succ _)
    · exact .ok (hreaches.step rfl (.ofClass rfl hk)) hcovered' (Nat.lt_succ_self _)
    · have hfault : (s.atClass k).Fault o i c e := .inClass rfl hk
      exact .error (hreaches.parse_of_fault rfl hfault) (hcovered'.of_fault hreaches rfl hfault)

/-- The bounds of a quantifier are read to their end. -/
theorem continues_bounds {b : UnfinishedBounds}
    (hreaches : Reaches o p (s.atBounds n level b) ⟨r, i⟩)
    (hcovered : Covered o p (r.length + 1) trace) :
    Continues o p trace r.length (s.completeRepetition n level) (b.read o i r) := by
  induction r generalizing b i with
  | nil =>
    exact .error ((hreaches.parse_of_end rfl).trans (EndFault.inBounds rfl).finish_eq)
      (hcovered.step hreaches fun _ hdue => (not_due_of_inBounds hdue).elim)
  | cons c r ih =>
    have hcovered' := hcovered.step hreaches fun _ hdue => (not_due_of_inBounds hdue).elim
    rw [UnfinishedBounds.read]
    rcases b.step_or_fault o i c with ⟨b' | bounds, hb⟩ | ⟨e, hb⟩ <;> rw [hb.step_eq]
    · exact (ih (hreaches.step rfl (.inBounds rfl hb)) hcovered').mono (Nat.le_succ _)
    · exact .ok (hreaches.step rfl (.ofBounds rfl hb)) hcovered' (Nat.lt_succ_self _)
    · have hfault : (s.atBounds n level b).Fault o i c e := .inBounds rfl hb
      exact .error (hreaches.parse_of_fault rfl hfault) (hcovered'.of_fault hreaches rfl hfault)

/-! ### Calls and returns -/

theorem unions_cons_of_eq (h : call.procedure = .union) :
    unions (call :: calls) = unions calls + 1 :=
  List.countP_cons_of_pos (decide_eq_true h)

theorem Before.enter {procedure : Procedure} (h : Before o p (procedure :: pending) t s calls d)
    (hcalls : unions (⟨procedure, d.cursor.position, d.depth⟩ :: calls) = s.outer.length + 1) :
    Before o p pending t s (⟨procedure, d.cursor.position, d.depth⟩ :: calls)
      { d with trace := .called ⟨procedure, d.cursor.position, d.depth⟩ :: d.trace } := by
  obtain ⟨hreaches, hbegins, hcalled, hraised, hcovered, hdepth, hgroups, hactive, hmirrored⟩ := h
  rw [hdepth] at hcalls ⊢
  refine ⟨hreaches, hbegins, fun other hstarts hnot => ?called,
    fun paren ht => List.mem_cons_of_mem _ (hraised paren ht), hcovered.cons, rfl, hgroups,
    congrArg _ hactive, hmirrored.cons (.called hreaches hbegins hgroups ?frames)⟩
  case called =>
    by_cases heq : other = procedure
    · rw [heq]
      exact List.mem_cons_self
    · exact List.mem_cons_of_mem _ (hcalled other hstarts (by simp [heq, hnot]))
  case frames => rwa [activeCalls, hactive]

theorem After.leave (h : After o p s (call :: calls) d) (hcall : call.depth = s.depth) :
    After o p s calls { d with trace := .returned d.depth :: d.trace } := by
  obtain ⟨hreaches, hcovered, hdepth, hgroups, hactive, hmirrored⟩ := h
  refine ⟨hreaches, hcovered.cons, hdepth, hgroups, ?_, hmirrored.cons ?_⟩
  · rw [activeCalls, hactive, List.tail_cons]
  · rw [hdepth, ← hcall]
    exact .returned hactive

/-! ### Levels -/

/-- The level of a quantifier is raised. -/
theorem After.raised (h : After o p s calls d) (hs : s.focus = .element n level) :
    After o p s calls { d with trace := .raised level :: d.trace } where
  reaches := h.reaches
  covered := h.covered.cons
  tracks := ⟨h.tracks.depth_eq, h.tracks.groups, h.tracks.active,
    h.tracks.mirrored.cons (.raisedLevel h.reaches hs)⟩

theorem Tracks.opened {f : Frame} {outer : List Frame} {level : UInt32} {cur : Cursor} {paren : Nat}
    (h : Tracks o p level outer calls depth trace) (hreaches : Reaches o p t cur)
    (ht : t.focus = .group paren) (hdepth : t.depth = level) :
    Tracks o p (level + 1) (f :: outer) calls (depth + 1) (.raised depth :: .opened :: trace) where
  depth_eq := by rw [h.depth_eq]
  groups := congrArg (· + 1) h.groups
  active := h.active
  mirrored := by
    rw [h.depth_eq, ← hdepth]
    exact (h.mirrored.cons .opened).cons (.raisedDepth hreaches ht)

theorem Tracks.lowered {f : Frame} {outer : List Frame} {level : UInt32} {cur : Cursor}
    (h : Tracks o p level (f :: outer) calls depth trace) (hreaches : Reaches o p t cur)
    (ht : t.outer = f :: outer) (hdepth : t.depth = level) :
    Mirrored o p (.lowered depth :: trace) := by
  rw [h.depth_eq, ← hdepth]
  exact h.mirrored.cons (.lowered hreaches ht)

theorem Tracks.closed {f : Frame} {outer : List Frame} {level : UInt32}
    (h : Tracks o p (level + 1) (f :: outer) calls depth trace)
    (hlowered : Mirrored o p (.lowered depth :: trace)) :
    Tracks o p level outer calls (depth - 1) (.closed :: .lowered depth :: trace) where
  depth_eq := by
    rw [h.depth_eq]
    exact UInt32.add_sub_cancel level 1
  groups := congrArg (· - 1) h.groups
  active := h.active
  mirrored := hlowered.cons .closed

/-- A group that is beyond the limit is a fault. -/
theorem fault_of_group_limit {cur : Cursor} {paren : Nat} (hreaches : Reaches o p s cur)
    (hs : s.focus = .group paren) (hr : cur.rest.head? ≠ some ')')
    (beyondLimit : o.nestLimit < s.depth + 1) (hcovered : Covered o p (cur.rest.length + 1) trace)
    (hraised : .raised s.depth ∈ trace) :
    parse p o = .error ⟨.nestLimitExceeded o.nestLimit, paren⟩ ∧ Covered o p 0 trace := by
  replace hcovered := hcovered.step hreaches fun e he => by
    rwa [he.of_group_limit hs beyondLimit]
  cases hrest : cur.rest with
  | nil =>
    rw [hrest] at hcovered
    exact ⟨(hreaches.parse_of_end hrest).trans (EndFault.limit hs beyondLimit).finish_eq, hcovered⟩
  | cons c r =>
    rw [hrest] at hr
    have hfault : s.Fault o cur.position c ⟨.nestLimitExceeded o.nestLimit, paren⟩ :=
      .group hs (fun hc => hr (congrArg some hc)) beyondLimit
    exact ⟨hreaches.parse_of_fault hrest hfault, hcovered.of_fault hreaches hrest hfault⟩

end Descent

end PatternTree
