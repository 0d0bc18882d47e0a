import PatternTree.Proofs.DescentTrace
/-!
# Recursive descent comes to what is read character by character

The procedures of `Descent` are followed by the states that the text before the cursor is read to.
Where a procedure is called, the next element is added to some state; where it returns, the text has
been read to that state with what the procedure has read in its frame. So each procedure ends, with
the fault of the pattern or with the part that reading character by character has completed.

As many calls of `union` are active as groups are open, and one. A group that is beyond the limit is
a fault, so the stack needs room for one call more than the limit allows levels, and no more than
that for any pattern.

## Main definitions

* `Descent.Ends` — a run that ends, with the fault of the pattern or as it should.
* `Descent.Turned` — what a turn of a loop leaves.
* `Descent.Reads`, `Descent.ReadsUnion` — what is left by a procedure that ends.

## Main results

* `Descent.Ends.bind`, `Descent.Ends.loop` — procedures one after another, and loops.
* `Descent.union_reads` — what a union leaves; the other procedures have such a lemma each.
* `Descent.exists_run_eq_parse` — recursive descent ends with what `parse` comes to.
-/

namespace PatternTree

namespace Descent

open UnfinishedPattern

/-- What a turn of a loop leaves where `left` characters are left: `inv` and fewer characters, or
the result. -/
inductive Turned {α β : Type} (inv : β → State → Prop) (post : α → State → Prop) (left : Nat) :
    β ⊕ α → State → Prop
  | more {b d} (h : inv b d) (shorter : d.cursor.rest.length < left) :
      Turned inv post left (.inl b) d
  | done {a d} (h : post a d) : Turned inv post left (.inr a) d

/-- A run ends, as `post` says or with the fault of the pattern. -/
inductive Ends {α : Type} (o : Options) (p : String) (post : α → State → Prop) :
    Option (Except SyntaxError α × State) → Prop
  | ok {a d} (h : post a d) : Ends o p post (some (.ok a, d))
  | fault {e d} (h : parse p o = .error e) (mirrored : Mirrored o p d.trace)
      (covered : Covered o p 0 d.trace) : Ends o p post (some (.error e, d))

variable {α β : Type} {o : Options} {p : String} {s t : UnfinishedPattern} {calls : List Call}
  {d d' : State} {level : UInt32} {event : Event} {c : Char} {r : List Char} {n : Node} {a : α}
  {e : SyntaxError} {mid : α → State → Prop} {post : β → State → Prop}

/-! ### Running procedures -/

theorem run_bind_of_ok {m : Descent α} {f : α → Descent β} (h : m.run d = some (.ok a, d')) :
    run (m >>= f) d = run (f a) d' := by
  change Option.bind (m.run d) _ = _
  rw [h]
  rfl

theorem run_bind_of_error {m : Descent α} {f : α → Descent β}
    (h : m.run d = some (.error e, d')) : run (m >>= f) d = some (.error e, d') := by
  change Option.bind (m.run d) _ = _
  rw [h]
  rfl

/-- A procedure that begins with another one goes on where that one ends. -/
theorem Ends.bind {m : Descent α} {f : α → Descent β} (hm : Ends o p mid (m.run d))
    (hf : ∀ a d', mid a d' → Ends o p post ((f a).run d')) : Ends o p post ((m >>= f).run d) := by
  generalize hx : m.run d = x at hm
  cases hm with
  | ok h =>
    rw [run_bind_of_ok hx]
    exact hf _ _ h
  | fault h mirrored covered =>
    rw [run_bind_of_error hx]
    exact .fault h mirrored covered

theorem Ends.imp {mid' : α → State → Prop} {x : Option (Except SyntaxError α × State)}
    (h : Ends o p mid x) (himp : ∀ a d, mid a d → mid' a d) : Ends o p mid' x := by
  cases h with
  | ok h => exact .ok (himp _ _ h)
  | fault h mirrored covered => exact .fault h mirrored covered

/-! ### Steps of procedures -/

theorem run_get : run (get : Descent State) d = some (.ok d, d) := rfl

theorem run_position : run position d = some (.ok d.cursor.position, d) := rfl

theorem run_fail {cause : Cause} :
    run (fail cause : Descent α) d = some (.error ⟨cause, d.cursor.position⟩, d) := rfl

theorem run_log : run (log event) d = some (.ok (), { d with trace := event :: d.trace }) := rfl

theorem run_enter {procedure : Procedure} : run (enter procedure) d =
    some (.ok (), { d with
      trace := .called ⟨procedure, d.cursor.position, d.depth⟩ :: d.trace }) := rfl

theorem run_leave : run (leave a) d =
    some (.ok a, { d with trace := .returned d.depth :: d.trace }) := rfl

theorem run_raise : run raise d =
    some (.ok (), { d with depth := d.depth + 1, trace := .raised d.depth :: d.trace }) := rfl

theorem run_lower : run lower d =
    some (.ok (), { d with depth := d.depth - 1, trace := .lowered d.depth :: d.trace }) := rfl

theorem run_checkLevel_of_le {offset : Nat} (h : level ≤ o.nestLimit) :
    run (liftM (checkLevel o level offset) : Descent Unit) d = some (.ok (), d) := by
  rw [checkLevel_of_le h]
  rfl

theorem run_checkLevel_of_lt {offset : Nat} (h : o.nestLimit < level) :
    run (liftM (checkLevel o level offset) : Descent Unit) d =
      some (.error ⟨.nestLimitExceeded o.nestLimit, offset⟩, d) := by
  rw [checkLevel_of_lt h]
  rfl

theorem run_nextIn?_of_mem {allowed : List Char} (hd : d.cursor.rest = c :: r)
    (hc : c ∈ allowed) : run (nextIn? allowed) d =
      some (.ok (some c), { d with cursor := ⟨r, d.cursor.position + c.utf8Size⟩ }) := by
  have hnext : d.cursor.nextIn? allowed = some (c, ⟨r, d.cursor.position + c.utf8Size⟩) := by
    simp only [Cursor.nextIn?, hd, hc, ↓reduceIte]
  rw [nextIn?, run_bind_of_ok run_get, hnext]
  rfl

theorem run_nextIn?_of_notMem {allowed : List Char}
    (hd : ∀ c ∈ d.cursor.rest.head?, c ∉ allowed) :
    run (nextIn? allowed) d = some (.ok none, d) := by
  have hnext : d.cursor.nextIn? allowed = none := by
    rw [Cursor.nextIn?]
    cases hrest : d.cursor.rest with
    | nil => rfl
    | cons c r =>
      rw [hrest] at hd
      exact if_neg (hd c rfl)
  rw [nextIn?, run_bind_of_ok run_get, hnext]
  rfl

theorem length_lt_of_eq_cons (hr : d.cursor.rest = c :: r) : r.length < d.cursor.rest.length := by
  rw [hr]
  exact Nat.lt_succ_self _

/-- A character is skipped, or another one comes next. -/
theorem Ends.skip {f : Bool → Descent β}
    (hskip : ∀ r, d.cursor.rest = c :: r →
      Ends o p post ((f true).run { d with cursor := ⟨r, d.cursor.position + c.utf8Size⟩ }))
    (hother : d.cursor.rest.head? ≠ some c → Ends o p post ((f false).run d)) :
    Ends o p post ((skip c >>= f).run d) := by
  by_cases hc : d.cursor.rest.head? = some c
  · obtain ⟨r, hr⟩ := List.head?_eq_some_iff.mp hc
    have hskip' : run (Descent.skip c) d =
        some (.ok true, { d with cursor := ⟨r, d.cursor.position + c.utf8Size⟩ }) := by
      rw [Descent.skip, run_bind_of_ok (run_nextIn?_of_mem hr (List.mem_singleton_self c))]
      rfl
    rw [run_bind_of_ok hskip']
    exact hskip r hr
  · have hother' : run (Descent.skip c) d = some (.ok false, d) := by
      rw [Descent.skip, run_bind_of_ok (run_nextIn?_of_notMem ?_)]
      · rfl
      · intro x hx hmem
        rw [List.mem_singleton.mp hmem] at hx
        exact hc hx
    rw [run_bind_of_ok hother']
    exact hother hc

/-- A character is read, or the pattern ends too early. -/
theorem Ends.next {f : Char → Descent β}
    (hnext : ∀ c r, d.cursor.rest = c :: r →
      Ends o p post ((f c).run { d with cursor := ⟨r, d.cursor.position + c.utf8Size⟩ }))
    (hend : d.cursor.rest = [] →
      parse p o = .error ⟨.unexpectedEnd, d.cursor.position⟩ ∧ Covered o p 0 d.trace)
    (mirrored : Mirrored o p d.trace) : Ends o p post ((next >>= f).run d) := by
  cases hrest : d.cursor.rest with
  | nil =>
    have hfault : run Descent.next d = some (.error ⟨.unexpectedEnd, d.cursor.position⟩, d) := by
      rw [Descent.next, run_bind_of_ok run_get, Cursor.next, hrest]
      rfl
    rw [run_bind_of_error hfault]
    exact .fault (hend hrest).1 mirrored (hend hrest).2
  | cons c r =>
    have hok : run Descent.next d =
        some (.ok c, { d with cursor := ⟨r, d.cursor.position + c.utf8Size⟩ }) := by
      rw [Descent.next, run_bind_of_ok run_get, Cursor.next, hrest]
      rfl
    rw [run_bind_of_ok hok]
    exact hnext c r hrest

/-! ### Classes and bounds -/

theorem Ends.inClass {bracket : Nat} (h : After o p (s.atClass { bracket }) calls d) :
    Ends o p (fun n d' => After o p (s.complete n) calls d' ∧
        d'.cursor.rest.length < d.cursor.rest.length)
      ((Descent.inClass o bracket).run d) := by
  have hread := continues_class h.reaches h.covered
  rw [Descent.inClass, run_bind_of_ok run_get]
  generalize UnfinishedClass.read o { bracket } d.cursor.position d.cursor.rest = x at hread ⊢
  cases hread with
  | ok hreaches hcovered shorter => exact .ok ⟨⟨hreaches, hcovered, h.tracks⟩, shorter⟩
  | error hfault hcovered => exact .fault hfault h.tracks.mirrored hcovered

theorem Ends.inBounds {brace : Nat}
    (h : After o p (s.atBounds n level { brace }) calls d) :
    Ends o p (fun b d' => After o p (s.completeRepetition n level b) calls d' ∧
        d'.cursor.rest.length < d.cursor.rest.length)
      ((Descent.inBounds o brace).run d) := by
  have hread := continues_bounds h.reaches h.covered
  rw [Descent.inBounds, run_bind_of_ok run_get]
  generalize UnfinishedBounds.read o { brace } d.cursor.position d.cursor.rest = x at hread ⊢
  cases hread with
  | ok hreaches hcovered shorter => exact .ok ⟨⟨hreaches, hcovered, h.tracks⟩, shorter⟩
  | error hfault hcovered => exact .fault hfault h.tracks.mirrored hcovered

/-! ### Loops -/

/-- A loop ends if each turn keeps an invariant and takes a character, or gives a result. -/
theorem Ends.iterate {turn : β → Descent (β ⊕ α)} {inv : β → State → Prop}
    {post : α → State → Prop} {b : β} {turns : Nat}
    (hturn : ∀ b d, inv b d →
      Ends o p (Turned inv post d.cursor.rest.length) ((turn b).run d))
    (hinv : inv b d) (hturns : d.cursor.rest.length < turns) :
    Ends o p post ((iterate turn turns b).run d) := by
  induction turns generalizing b d with
  | zero => exact absurd hturns (Nat.not_lt_zero _)
  | succ turns ih =>
    rw [Descent.iterate]
    refine Ends.bind (hturn b d hinv) ?_
    rintro _ d' (⟨hmore, shorter⟩ | hdone)
    · exact ih hmore (shorter.trans_le (Nat.le_of_lt_succ hturns))
    · exact .ok hdone

theorem Ends.loop {turn : β → Descent (β ⊕ α)} {post : α → State → Prop} {b : β}
    (inv : β → State → Prop) (hinv : inv b d) (hturn : ∀ b d, inv b d →
      Ends o p (Turned inv post d.cursor.rest.length) ((turn b).run d)) :
    Ends o p post ((loop turn b).run d) := by
  rw [Descent.loop, run_bind_of_ok run_get]
  exact Ends.iterate hturn hinv (Nat.lt_succ_self _)

/-! ### Quantifiers -/

/-- The next character is one of some, or it is not. -/
theorem exists_cons_or (p allowed : List Char) :
    (∃ c r, p = c :: r ∧ c ∈ allowed) ∨ ∀ c ∈ p.head?, c ∉ allowed := by
  cases p with
  | nil => exact .inr nofun
  | cons c r =>
    by_cases hc : c ∈ allowed
    · exact .inl ⟨c, r, rfl, hc⟩
    · refine .inr fun x hx => ?_
      rwa [← Option.some.inj hx]

theorem Ends.bounds (h : After o p s calls d)
    (hs : s.focus = .element n level) (hr : d.cursor.rest = c :: r) (hc : c ∈ ['?', '*', '+', '{'])
    (withinLimit : level + 1 ≤ o.nestLimit) (hraised : .raised level ∈ d.trace) :
    Ends o p (fun b d' => After o p (s.completeRepetition n (level + 1) b) calls d' ∧
        d'.cursor.rest.length < d.cursor.rest.length)
      ((Descent.bounds o d.cursor.position c).run
        { d with cursor := ⟨r, d.cursor.position + c.utf8Size⟩ }) := by
  have hdue (e) (he : Due o s d.cursor.position d.cursor.rest e) : e ∈ d.trace := by
    rwa [he.of_quantifier hs (congrArg List.head? hr) hc]
  cases hq : quantifier? c with
  | some b =>
    rw [Descent.bounds, hq]
    exact .ok ⟨h.step hr (.quantifier hs hq withinLimit) rfl rfl hdue, length_lt_of_eq_cons hr⟩
  | none =>
    have hother := quantifier?_eq_none_iff.mp hq
    simp only [List.mem_cons, List.not_mem_nil, hother, or_false, false_or] at hc
    subst hc
    rw [Descent.bounds, hq]
    exact (Ends.inBounds (h.step hr (.brace hs withinLimit) rfl rfl hdue)).imp
      fun b d' hd' => ⟨hd'.1, hd'.2.trans (length_lt_of_eq_cons hr)⟩

/-- One quantifier is read, or a character that begins none comes next. -/
theorem quantifier_ends {f : Frame} {left : Nat}
    (h : After o p (s.behind f n level) calls d) (hleft : d.cursor.rest.length ≤ left) :
    Ends o p
      (Turned
        (fun x d' => After o p (s.behind f x.1 x.2) calls d' ∧ d'.cursor.rest.length ≤ left)
        (fun m d' => (∃ level, After o p (s.behind f m level) calls d') ∧
          (∀ c ∈ d'.cursor.rest.head?, c ∉ ['?', '*', '+', '{']) ∧ d'.cursor.rest.length ≤ left)
        d.cursor.rest.length)
      ((quantifier o n level).run d) := by
  rw [quantifier, run_bind_of_ok run_position]
  rcases exists_cons_or d.cursor.rest ['?', '*', '+', '{'] with ⟨c, r, hr, hc⟩ | hother
  · have hraised := h.raised rfl
    rw [run_bind_of_ok (run_nextIn?_of_mem hr hc)]
    simp only
    rw [run_bind_of_ok run_log]
    rcases le_or_limit_lt o (level + 1) with hle | hlt
    · rw [run_bind_of_ok (run_checkLevel_of_le hle)]
      refine Ends.bind (Ends.bounds hraised rfl hr hc hle List.mem_cons_self) ?_
      rintro ⟨min, max⟩ d' ⟨hd', shorter⟩
      exact .ok (.more ⟨hd', shorter.le.trans hleft⟩ shorter)
    · rw [run_bind_of_error (run_checkLevel_of_lt hlt)]
      have hfault : (s.behind f n level).Fault o d.cursor.position c
          ⟨.nestLimitExceeded o.nestLimit, d.cursor.position⟩ := .quantifier rfl hc hlt
      have hcovered := hraised.covered.step h.reaches fun e he => by
        rw [he.of_quantifier rfl (congrArg List.head? hr) hc]
        exact List.mem_cons_self
      exact .fault (h.reaches.parse_of_fault hr hfault) hraised.tracks.mirrored
        (hcovered.of_fault h.reaches hr hfault)
  · rw [run_bind_of_ok (run_nextIn?_of_notMem hother)]
    exact .ok (.done ⟨⟨level, h⟩, hother, hleft⟩)

/-- Quantifiers are read up to a character that is none. -/
theorem quantifiers_ends (h : After o p (s.complete n) calls d) :
    Ends o p (fun m d' => (∃ level, After o p (s.behind s.frame m level) calls d') ∧
        (∀ c ∈ d'.cursor.rest.head?, c ∉ ['?', '*', '+', '{']) ∧
        d'.cursor.rest.length ≤ d.cursor.rest.length)
      ((quantifiers o n).run d) := by
  have hdepth : d.depth = s.depth := h.tracks.depth_eq
  rw [quantifiers, run_bind_of_ok run_get, hdepth]
  exact Ends.loop (fun x d' => After o p (s.behind s.frame x.1 x.2) calls d' ∧
      d'.cursor.rest.length ≤ d.cursor.rest.length) ⟨h, le_rfl⟩
    fun _ _ hinv => quantifier_ends hinv.1 hinv.2

/-! ### Parts of a pattern -/

/-- `m`, which calls the procedures `pending` in front of an element, reads a part of a pattern if
the stack has room for `stack` calls of `union`. What the part makes of the state `s` to which it is
added is said by `part s a r`, when it is `a` and `r` is left behind it. -/
def Reads (o : Options) (p : String) (stack : Nat) (pending : List Procedure) (m : Descent α)
    (part : UnfinishedPattern → α → List Char → UnfinishedPattern → Prop) : Prop :=
  ∀ ⦃t s calls d⦄, Before o p pending t s calls d → unions calls = s.outer.length + 1 →
    o.nestLimit.toNat ≤ stack + s.outer.length →
      Ends o p (fun a d' => ∃ s', After o p s' calls d' ∧ part s a d'.cursor.rest s' ∧
          d'.cursor.rest.length < d.cursor.rest.length)
        (m.run d)

/-- An element without quantifiers. -/
def SinglePart (s : UnfinishedPattern) (n : Node) (_ : List Char) (s' : UnfinishedPattern) :
    Prop :=
  s' = s.complete n

/-- An element with all its quantifiers. -/
def ElementPart (s : UnfinishedPattern) (n : Node) (r : List Char) (s' : UnfinishedPattern) :
    Prop :=
  (∃ level, s' = s.behind s.frame n level) ∧ ∀ c ∈ r.head?, c ∉ ['?', '*', '+', '{']

/-- The elements up to the end of a branch. -/
def BranchPart (s : UnfinishedPattern) (b : Chain) (r : List Char) (s' : UnfinishedPattern) :
    Prop :=
  (∃ ns n level, s' = s.behind { s.frame with elements := ns ++ s.frame.elements } n level ∧
      b = Chain.prepend ns (.last n)) ∧
    ∀ c ∈ r.head?, c ∈ [')', '|']

/-- `m` reads the branches of an empty frame up to the end of the group or of the pattern, if the
stack has room for `stack` calls of `union`. -/
def ReadsUnion (o : Options) (p : String) (stack : Nat) (m : Descent Node) : Prop :=
  ∀ ⦃t s calls d⦄, s.frame = {} →
    Before o p [.union, .branch, .element, .single, .atom] t s calls d →
      unions calls = s.outer.length → o.nestLimit.toNat < stack + s.outer.length →
        Ends o p (fun n d' =>
            (∃ f m level, After o p (s.behind f m level) calls d' ∧ n = f.node m) ∧
              (∀ c ∈ d'.cursor.rest.head?, c = ')') ∧
              d'.cursor.rest.length < d.cursor.rest.length)
          (m.run d)

/-- A group is opened, and a union begins in it. -/
theorem openGroup_ends {paren : Nat} (h : After o p { s with focus := .group paren } calls d)
    (hr : d.cursor.rest.head? ≠ some ')') :
    Ends o p (fun _ d' => d'.cursor = d.cursor ∧
        Before o p [.union, .branch, .element, .single, .atom] { s with focus := .group paren }
          { outer := s.frame :: s.outer, depth := s.depth + 1 } calls d')
      ((openGroup o paren).run d) := by
  have hdepth : d.depth = s.depth := h.tracks.depth_eq
  have htracks := h.tracks.opened (f := s.frame) h.reaches rfl rfl
  have hcovered : Covered o p (d.cursor.rest.length + 1) (.raised d.depth :: .opened :: d.trace) :=
    h.covered.cons.cons
  have hraised : .raised s.depth ∈ .raised d.depth :: .opened :: d.trace := by
    rw [hdepth]
    exact List.mem_cons_self
  rw [openGroup, run_bind_of_ok run_log, run_bind_of_ok run_raise, run_bind_of_ok run_get]
  rcases le_or_limit_lt o (d.depth + 1) with hle | hlt
  · rw [run_checkLevel_of_le hle]
    refine .ok ⟨rfl, .of_begins h.reaches (.group rfl hr (hdepth ▸ hle)) (fun procedure _ => ?_)
      (fun _ _ => hraised) hcovered htracks⟩
    cases procedure <;> simp
  · have hfault := fault_of_group_limit h.reaches rfl hr (hdepth ▸ hlt) hcovered hraised
    rw [run_checkLevel_of_lt hlt]
    exact .fault hfault.1 htracks.mirrored hfault.2

/-- A group is closed behind the union in it. -/
theorem closeGroup_ends {f : Frame} {m : Node} (h : After o p
      (behind { outer := s.frame :: s.outer, depth := s.depth + 1 } f m level) calls d)
    (hclose : ∀ c ∈ d.cursor.rest.head?, c = ')') :
    Ends o p (fun n d' => After o p (s.complete n) calls d' ∧
        d'.cursor.rest.length ≤ d.cursor.rest.length)
      ((closeGroup (f.node m)).run d) := by
  have hlowered := h.tracks.lowered h.reaches rfl rfl
  have hcovered : Covered o p d.cursor.rest.length (.lowered d.depth :: d.trace) := by
    refine h.covered.cons.step h.reaches fun e he => ?_
    rw [(he.of_end rfl hclose).2, ← h.tracks.depth_eq]
    exact List.mem_cons_self
  rw [closeGroup, run_bind_of_ok run_lower]
  refine Ends.skip (fun r hr => ?closed) (fun hr => ?missing)
  case closed =>
    have hreaches := h.reaches.step hr (.close rfl rfl)
    have hcomplete : complete { outer := s.outer, depth := s.depth + 1 - 1, frame := s.frame }
        (f.node m) = s.complete (f.node m) := by
      rw [show s.depth + 1 - 1 = s.depth from UInt32.add_sub_cancel s.depth 1]
      rfl
    rw [show d.cursor.rest = ')' :: r from hr] at hcovered ⊢
    rw [if_pos rfl, run_bind_of_ok run_log]
    exact .ok ⟨⟨hcomplete ▸ hreaches, hcovered.cons, h.tracks.closed hlowered⟩, Nat.le_succ _⟩
  case missing =>
    have hend : d.cursor.rest = [] := by
      cases hrest : d.cursor.rest with
      | nil => rfl
      | cons c r =>
        rw [hrest] at hclose
        exact absurd (congrArg List.head? hrest |>.trans (congrArg some (hclose c rfl))) hr
    rw [hend] at hcovered
    rw [if_neg Bool.false_ne_true, run_fail]
    refine .fault ((h.reaches.parse_of_end hend).trans ?_) hlowered hcovered
    exact (EndFault.openGroup rfl (List.cons_ne_nil _ _)).finish_eq

variable {inner : Descent Node} {stack : Nat}

/-! ### Groups -/

/-- A group is read to the parenthesis that closes it. -/
theorem group_ends {paren : Nat} (hinner : ReadsUnion o p stack inner)
    (h : After o p { s with focus := .group paren } calls d)
    (hcalls : unions calls = s.outer.length + 1)
    (hstack : o.nestLimit.toNat ≤ stack + s.outer.length) :
    Ends o p (fun n d' => After o p (s.complete n) calls d' ∧
        d'.cursor.rest.length ≤ d.cursor.rest.length)
      ((group o inner paren).run d) := by
  rw [group]
  refine Ends.skip (fun r hr => ?empty) (fun hr => ?opened)
  case empty =>
    rw [if_pos rfl]
    exact .ok ⟨h.step hr (.emptyGroup rfl) rfl rfl fun e he =>
      absurd (congrArg List.head? hr) (he.of_group rfl), (length_lt_of_eq_cons hr).le⟩
  case opened =>
    rw [if_neg Bool.false_ne_true]
    refine Ends.bind (openGroup_ends h hr) ?_
    rintro _ d₁ ⟨hcursor, hbefore⟩
    refine Ends.bind (hinner rfl hbefore hcalls (Nat.lt_succ_of_le hstack)) ?_
    rintro _ d₂ ⟨⟨f, m, level, hd₂, rfl⟩, hclose, hlt⟩
    rw [hcursor] at hlt
    exact (closeGroup_ends hd₂ hclose).imp fun n d₃ hd₃ => ⟨hd₃.1, hd₃.2.trans hlt.le⟩

/-! ### Elements -/

/-- What is no class is a dot, a group or a character. -/
theorem atom_ends (hinner : ReadsUnion o p stack inner) (h : Before o p [.atom] t s calls d)
    (hcalls : unions calls = s.outer.length + 1)
    (hstack : o.nestLimit.toNat ≤ stack + s.outer.length)
    (hbracket : d.cursor.rest.head? ≠ some '[') :
    Ends o p (fun n d' => After o p (s.complete n) calls d' ∧
        d'.cursor.rest.length < d.cursor.rest.length)
      ((atom o inner).run d) := by
  have hdepth := h.tracks.depth_eq
  rw [atom, run_bind_of_ok run_enter]
  have hatom := h.enter hcalls
  have hstep {c r} (hr : d.cursor.rest = c :: r) := hatom.step (List.forall_mem_nil _) hr
  refine Ends.skip (fun r hr => ?dot) fun hdot => ?other
  case dot =>
    rw [if_pos rfl, run_leave]
    exact .ok ⟨(hstep hr).leave hdepth, length_lt_of_eq_cons hr⟩
  case other =>
    rw [if_neg Bool.false_ne_true, run_bind_of_ok run_position]
    refine Ends.skip (fun r hr => ?group) fun hparen => ?character
    case group =>
      rw [if_pos rfl]
      refine Ends.bind (group_ends hinner (hstep hr) hcalls hstack) fun n d' hd' => ?_
      rw [run_leave]
      exact .ok ⟨hd'.1.leave hdepth, hd'.2.trans_lt (length_lt_of_eq_cons hr)⟩
    case character =>
      rw [if_neg Bool.false_ne_true]
      refine Ends.skip (fun r hr => ?escaped) fun hescape => ?plain
      case escaped =>
        have hafter := hstep hr
        refine Ends.next (fun c r' hr' => ?_) (fun hend => ⟨?_, ?_⟩) hafter.tracks.mirrored
        · have hescaped := hafter.step hr' (.escaped rfl) rfl rfl fun _ he =>
            absurd he (not_due_of_escape rfl)
          rw [run_leave]
          exact .ok ⟨hescaped.leave hdepth, (length_lt_of_eq_cons hr').trans
            (length_lt_of_eq_cons hr)⟩
        · exact (hafter.reaches.parse_of_end hend).trans (EndFault.escape rfl).finish_eq
        · exact hafter.covered_of_end hend fun _ he => absurd he (not_due_of_escape rfl)
      case plain =>
        refine Ends.next (fun c r hr => ?_) hatom.fault_of_end hatom.tracks.mirrored
        have hhead {x} (hx : d.cursor.rest.head? ≠ some x) : c ≠ x := by
          rintro rfl
          exact hx (congrArg List.head? hr)
        have hafter := hstep hr
        rw [beginElement, if_neg (hhead hdot), if_neg (hhead hparen), if_neg (hhead hbracket),
          if_neg (hhead hescape)] at hafter
        rw [run_leave]
        exact .ok ⟨hafter.leave hdepth, length_lt_of_eq_cons hr⟩

/-- A class or an atom is read. -/
theorem single_reads (hinner : ReadsUnion o p stack inner) :
    Reads o p stack [.single, .atom] (single o inner) SinglePart := by
  intro t s calls d h hcalls hstack
  have hdepth := h.tracks.depth_eq
  rw [single, run_bind_of_ok run_enter, run_bind_of_ok run_position]
  have hsingle := h.enter hcalls
  refine Ends.skip (fun r hr => ?inClass) fun hbracket => ?atom
  case inClass =>
    rw [if_pos rfl]
    have hpending (procedure) (hmem : procedure ∈ [Procedure.atom]) :
        ¬ procedure.StartsAt s d.cursor.rest := by
      rw [List.mem_singleton.mp hmem]
      exact not_not_intro (congrArg List.head? hr)
    have hclass := hsingle.step hpending hr
    refine Ends.bind (Ends.inClass hclass) fun n d' hd' => ?_
    rw [run_leave]
    exact .ok ⟨_, hd'.1.leave hdepth, rfl, hd'.2.trans (length_lt_of_eq_cons hr)⟩
  case atom =>
    rw [if_neg Bool.false_ne_true]
    refine Ends.bind (atom_ends hinner hsingle hcalls hstack hbracket) fun n d' hd' => ?_
    rw [run_leave]
    exact .ok ⟨_, hd'.1.leave hdepth, rfl, hd'.2⟩

/-- An element is read with its quantifiers. -/
theorem element_reads (hinner : ReadsUnion o p stack inner) :
    Reads o p stack [.element, .single, .atom] (element o inner) ElementPart := by
  intro t s calls d h hcalls hstack
  have hdepth := h.tracks.depth_eq
  rw [element, run_bind_of_ok run_enter]
  refine Ends.bind (single_reads hinner (h.enter hcalls) hcalls hstack) ?_
  rintro n d₁ ⟨_, hd₁, rfl, hlt⟩
  refine Ends.bind (quantifiers_ends hd₁) ?_
  rintro m d₂ ⟨⟨level, hd₂⟩, hend, hle⟩
  rw [run_leave]
  exact .ok ⟨_, hd₂.leave hdepth, ⟨⟨level, rfl⟩, hend⟩, hle.trans_lt hlt⟩

/-! ### Branches -/

theorem hasNext_and_not_peekIn_iff {cur : Cursor} {allowed : List Char} :
    (cur.hasNext && !cur.peekIn allowed) = true ↔ ∃ c r, cur.rest = c :: r ∧ c ∉ allowed := by
  rw [Cursor.peekIn, Cursor.nextIn?, Cursor.hasNext]
  cases cur.rest with
  | nil => simp
  | cons c r => by_cases hc : c ∈ allowed <;> simp [hc]

/-- The state `s` behind the elements `ns` and `n` of a branch, which has all their quantifiers. -/
structure InBranch (o : Options) (p : String) (s : UnfinishedPattern) (calls : List Call)
    (left : Nat) (ns : List Node) (n : Node) (d : State) : Prop where
  after : ∃ level,
    After o p (s.behind { s.frame with elements := ns ++ s.frame.elements } n level) calls d
  head : ∀ c ∈ d.cursor.rest.head?, c ∉ ['?', '*', '+', '{']
  length_le : d.cursor.rest.length ≤ left

/-- One more element is read, or the branch ends. -/
theorem nextElement_ends {ns : List Node} {left : Nat}
    (hinner : ReadsUnion o p stack inner) (h : InBranch o p s calls left ns n d)
    (hcalls : unions calls = s.outer.length + 1)
    (hstack : o.nestLimit.toNat ≤ stack + s.outer.length) :
    Ends o p
      (Turned (fun x => InBranch o p s calls left x.1 x.2)
        (fun b d' => ∃ s', After o p s' calls d' ∧ BranchPart s b d'.cursor.rest s' ∧
          d'.cursor.rest.length ≤ left)
        d.cursor.rest.length)
      ((nextElement o inner ns n).run d) := by
  obtain ⟨⟨level, hafter⟩, hnot, hleft⟩ := h
  rw [nextElement, run_bind_of_ok run_get]
  by_cases hgo : (d.cursor.hasNext && !d.cursor.peekIn [')', '|']) = true
  · obtain ⟨c, r, hr, hc⟩ := hasNext_and_not_peekIn_iff.mp hgo
    have hbegins : c ∉ [')', '|', '?', '*', '+', '{'] := by
      have hquantifier := hnot c (congrArg List.head? hr)
      change c ∉ [')', '|'] ++ ['?', '*', '+', '{']
      rw [List.mem_append]
      exact not_or.mpr ⟨hc, hquantifier⟩
    have hbefore : Before o p [.element, .single, .atom] _
        ((s.behind { s.frame with elements := ns ++ s.frame.elements } n level).add n) calls d :=
      .of_begins hafter.reaches (hr ▸ .next rfl hbegins)
        (fun _ hstarts => hstarts.mem_of_elements (List.cons_ne_nil _ _)) nofun hafter.covered
        hafter.tracks
    rw [if_pos hgo]
    refine Ends.bind (element_reads hinner hbefore hcalls hstack) ?_
    rintro m d₁ ⟨_, hd₁, ⟨⟨level', rfl⟩, hend⟩, hlt⟩
    exact .ok (.more ⟨⟨level', hd₁⟩, hend, hlt.le.trans hleft⟩ hlt)
  · rw [if_neg hgo]
    refine .ok (.done ⟨_, hafter, ⟨⟨ns, n, level, rfl, rfl⟩, fun c hc => ?_⟩, hleft⟩)
    by_contra hmem
    obtain ⟨r, hr⟩ := List.head?_eq_some_iff.mp hc
    exact hgo (hasNext_and_not_peekIn_iff.mpr ⟨c, r, hr, hmem⟩)

/-- A branch is read to its end. -/
theorem branch_reads (hinner : ReadsUnion o p stack inner) :
    Reads o p stack [.branch, .element, .single, .atom] (branch o inner) BranchPart := by
  intro t s calls d h hcalls hstack
  have hdepth := h.tracks.depth_eq
  rw [branch, run_bind_of_ok run_enter]
  refine Ends.bind (element_reads hinner (h.enter hcalls) hcalls hstack) ?_
  rintro n d₁ ⟨_, hd₁, ⟨⟨level, rfl⟩, hend⟩, hlt⟩
  refine Ends.bind (Ends.loop (fun x => InBranch o p s _ d₁.cursor.rest.length x.1 x.2)
    ⟨⟨level, hd₁⟩, hend, le_rfl⟩ fun _ _ hinv => nextElement_ends hinner hinv hcalls hstack) ?_
  rintro b d₂ ⟨s', hd₂, hpart, hle⟩
  obtain ⟨⟨ns, m, level', rfl, rfl⟩, hclose⟩ := hpart
  rw [run_leave]
  exact .ok ⟨_, hd₂.leave hdepth, ⟨⟨ns, m, level', rfl, rfl⟩, hclose⟩, hle.trans_lt hlt⟩

/-! ### Unions -/

/-- The branches `bs` of a union have been read. -/
structure InUnion (o : Options) (p : String) (s : UnfinishedPattern) (calls : List Call)
    (left : Nat) (bs : List Chain) (d : State) : Prop where
  after : ∃ f n level, After o p (s.behind f n level) calls d ∧ bs = f.close n
  head : ∀ c ∈ d.cursor.rest.head?, c ∈ [')', '|']
  length_le : d.cursor.rest.length ≤ left

/-- One more branch is read, or the union ends. -/
theorem nextBranch_ends {bs : List Chain} {left : Nat} (hinner : ReadsUnion o p stack inner)
    (h : InUnion o p s calls left bs d) (hcalls : unions calls = s.outer.length + 1)
    (hstack : o.nestLimit.toNat ≤ stack + s.outer.length) :
    Ends o p
      (Turned (InUnion o p s calls left)
        (fun bs d' => (∃ f n level, After o p (s.behind f n level) calls d' ∧
            bs = (f.close n).reverse) ∧
          (∀ c ∈ d'.cursor.rest.head?, c = ')') ∧ d'.cursor.rest.length ≤ left)
        d.cursor.rest.length)
      ((nextBranch o inner bs).run d) := by
  obtain ⟨⟨f, n, level, hafter, rfl⟩, hend, hleft⟩ := h
  rw [nextBranch]
  refine Ends.skip (fun r hr => ?bar) fun hother => ?stop
  case bar =>
    have hbar : After o p ((s.behind f n level).nextBranch n) calls
        { d with cursor := ⟨r, d.cursor.position + '|'.utf8Size⟩ } :=
      hafter.step hr (.bar rfl) rfl rfl fun _ he =>
        absurd he (not_due_of_bar rfl (congrArg List.head? hr))
    have hbefore : Before o p [.branch, .element, .single, .atom] _
        ((s.behind f n level).nextBranch n) calls
        { d with cursor := ⟨r, d.cursor.position + '|'.utf8Size⟩ } :=
      .of_begins hbar.reaches (.first rfl)
        (fun _ hstarts => hstarts.mem_of_branches (List.cons_ne_nil _ _)) nofun hbar.covered
        hbar.tracks
    rw [if_pos rfl]
    refine Ends.bind (branch_reads hinner hbefore hcalls hstack) ?_
    rintro b d₁ ⟨_, hd₁, ⟨⟨ns, m, level', rfl, rfl⟩, hend'⟩, hlt⟩
    have hframe : ns ++ ((s.behind f n level).nextBranch n).frame.elements = ns :=
      List.append_nil ns
    rw [hframe] at hd₁
    have hshorter := hlt.trans (length_lt_of_eq_cons hr)
    exact .ok (.more ⟨⟨{ branches := f.close n, elements := ns }, m, level', hd₁, rfl⟩, hend',
      hshorter.le.trans hleft⟩ hshorter)
  case stop =>
    rw [if_neg Bool.false_ne_true]
    refine .ok (.done ⟨⟨f, n, level, hafter, rfl⟩, fun c hc => ?_, hleft⟩)
    have hmem := hend c hc
    simp only [List.mem_cons, List.not_mem_nil, or_false] at hmem
    rcases hmem with rfl | rfl
    · rfl
    · exact absurd hc hother

/-- A union is read to the end of its group, or of the pattern. -/
theorem union_reads (hp : LevelsFit o p.toList) (stack : Nat) :
    ReadsUnion o p stack (union o stack) := by
  induction stack with
  | zero =>
    -- No more groups are open than the limit allows, so the stack has room for this call.
    intro t s calls d _ h _ hstack
    obtain ⟨q, hq, hfrom⟩ := h.reaches.readFrom hp
    obtain ⟨hdepth, hlimit⟩ := h.begins.toNat_depth hfrom hq
    rw [UInt32.le_iff_toNat_le, hdepth] at hlimit
    omega
  | succ stack ih =>
    intro t s calls d hframe h hcalls hstack
    have hroom : o.nestLimit.toNat ≤ stack + s.outer.length := by omega
    have hdepth := h.tracks.depth_eq
    replace hcalls : unions (⟨.union, d.cursor.position, d.depth⟩ :: calls) = s.outer.length + 1 :=
      (unions_cons_of_eq rfl).trans (congrArg (· + 1) hcalls)
    rw [union, run_bind_of_ok run_enter]
    refine Ends.bind (branch_reads ih (h.enter hcalls) hcalls hroom) ?_
    rintro b d₁ ⟨_, hd₁, ⟨⟨ns, n, level, rfl, rfl⟩, hend⟩, hlt⟩
    rw [hframe, List.append_nil] at hd₁
    refine Ends.bind (Ends.loop (InUnion o p s _ d₁.cursor.rest.length)
      ⟨⟨{ elements := ns }, n, level, hd₁, rfl⟩, hend, le_rfl⟩
      fun _ _ hinv => nextBranch_ends ih hinv hcalls hroom) ?_
    rintro bs d₂ ⟨⟨f, m, level', hd₂, rfl⟩, hclose, hle⟩
    rw [run_leave]
    exact .ok ⟨⟨f, m, level', hd₂.leave hdepth, rfl⟩, hclose, hle.trans_lt hlt⟩

/-! ### Patterns -/

/-- A pattern is read to its end. -/
theorem pattern_ends (hp : LevelsFit o p.toList) (hstack : o.nestLimit.toNat < stack) :
    Ends o p (fun t d => parse p o = .ok t ∧ Covered o p 0 d.trace ∧
        Tracks o p 0 [] [] d.depth d.trace)
      ((pattern o stack).run { cursor := .ofString p }) := by
  have hbefore : Before o p [.union, .branch, .element, .single, .atom] {} {} []
      { cursor := .ofString p } :=
    .of_begins (.start o p) (.first rfl) (fun procedure _ => by cases procedure <;> simp) nofun
      (covered_start o p) ⟨rfl, rfl, rfl, mirrored_nil o p⟩
  rw [pattern]
  refine Ends.bind (union_reads hp stack rfl hbefore rfl hstack) ?_
  rintro _ d ⟨⟨f, n, level, hd, rfl⟩, hclose, -⟩
  have hcovered := hd.covered.step hd.reaches fun e he =>
    absurd rfl (he.of_end rfl hclose).1
  rw [run_bind_of_ok run_get]
  cases hr : d.cursor.rest with
  | nil =>
    rw [hr] at hcovered
    rw [if_neg (by simp [Cursor.hasNext, hr])]
    refine .ok ⟨(hd.reaches.parse_of_end hr).trans ?_, hcovered, hd.tracks⟩
    exact finish_of_element rfl rfl
  | cons c r =>
    rw [hr] at hclose
    obtain rfl := hclose c rfl
    have hfault : (behind {} f n level).Fault o d.cursor.position ')'
        ⟨.unmatchedClose, d.cursor.position⟩ := .unmatched rfl rfl
    rw [if_pos (by simp [Cursor.hasNext, hr]), run_fail]
    exact .fault (hd.reaches.parse_of_fault hr hfault) hd.tracks.mirrored
      (hcovered.of_fault hd.reaches hr hfault)

/-- Recursive descent ends with what reading character by character comes to, if the stack has room
for one call of `union` more than the limit allows levels. Its trace mirrors the states that are
read to and has the events that are due there, and no call or group is left open in it when the
pattern has a tree. -/
theorem exists_run_eq_parse (hp : LevelsFit o p.toList) (hstack : o.nestLimit.toNat < stack) :
    ∃ d, (pattern o stack).run { cursor := .ofString p } = some (parse p o, d) ∧
      Mirrored o p d.trace ∧ Covered o p 0 d.trace ∧
      ∀ t, parse p o = .ok t → Tracks o p 0 [] [] d.depth d.trace := by
  have hends := pattern_ends hp hstack
  generalize (pattern o stack).run { cursor := .ofString p } = x at hends ⊢
  cases hends with
  | @ok t d h =>
    obtain ⟨hparse, hcovered, htracks⟩ := h
    exact ⟨d, by rw [hparse], htracks.mirrored, hcovered, fun _ _ => htracks⟩
  | @fault e d hparse hmirrored hcovered =>
    refine ⟨d, by rw [hparse], hmirrored, hcovered, fun t ht => ?_⟩
    rw [hparse] at ht
    cases ht

end Descent

end PatternTree
