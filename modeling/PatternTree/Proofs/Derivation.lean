import PatternTree.Proofs.ReadFrom
/-!
# Reading along a derivation

What the grammar derives is read without a fault, and to the tree that it derives. The proof follows
the derivation: each part of a text is read from any state in which the part may begin, and leaves
everything around it as it was. Whether a character ends a part shows only at the next one, so the
entries of a class are read together with the bracket that closes it.

## Main definitions

* `UnfinishedBounds.Goes` — characters with which bounds go on.
* `UnfinishedPattern.readFresh` — reads a text whose first character begins an element.

## Main results

* `UnfinishedPattern.readFresh_union` — a union is read to its branches.
* `parse_eq_ok_iff_derives` — parsing accepts what the grammar derives, with the tree it derives.
-/

open String (utf8Len)

namespace PatternTree

open Grammar

/-! ### Numbers -/

theorem digit?_of_isDigit {c : Char} (h : c.isDigit) : digit? c = some (c.toNat - '0'.toNat) :=
  digit?_eq_some_iff.mpr ⟨h, rfl⟩

theorem le_ofDigitChars (v : Nat) (p : List Char) : v ≤ Nat.ofDigitChars 10 p v := by
  rw [Nat.ofDigitChars_eq_ofDigitChars_zero]
  exact Nat.le_add_right_of_le (Nat.le_mul_of_pos_left v (Nat.pow_pos (by decide)))

namespace UnfinishedBounds

/-- The characters `p`, the first of which stands at `offset`, go on with the bounds `b` to `b'`. -/
inductive Goes (o : Options) : (b : UnfinishedBounds) → (offset : Nat) → (p : List Char) →
    (b' : UnfinishedBounds) → Prop
  | nil {b offset} : Goes o b offset [] b
  | cons {b b' b'' offset c p} (h : b.Step o offset c (.going b'))
      (hp : Goes o b' (offset + c.utf8Size) p b'') : Goes o b offset (c :: p) b''

variable {o : Options} {offset : Nat} {p : List Char}

/-- Digits behind a digit extend the number, as long as its value fits. -/
theorem goes_digits {m : UInt32} (b : UnfinishedBounds) (run : DigitRun)
    (hp : ∀ d ∈ p, d.isDigit) (hvalue : Nat.ofDigitChars 10 p run.value.toNat = m.toNat) :
    Goes o { b with run? := some run } offset p { b with run? := some ⟨run.start, m⟩ } := by
  induction p generalizing run offset with
  | nil =>
    obtain rfl : run.value = m := UInt32.toNat_inj.mp hvalue
    exact .nil
  | cons d p ih =>
    rw [Nat.ofDigitChars_cons] at hvalue
    have hd := digit?_of_isDigit (hp d List.mem_cons_self)
    have fits : 10 * run.value.toNat + (d.toNat - '0'.toNat) < UInt32.size :=
      ((le_ofDigitChars _ p).trans hvalue.le).trans_lt m.toNat_lt_size
    refine .cons (.digit hd rfl fits)
      (ih ⟨run.start, _⟩ (fun x hx => hp x (List.mem_cons_of_mem d hx)) ?_)
    rwa [UInt32.toNat_ofNat_of_lt' fits]

/-- A number is read where one may begin. -/
theorem goes_numeral {m : UInt32} (b : UnfinishedBounds) (hp : Numeral p m) :
    Goes o { b with run? := none } offset p { b with run? := some ⟨offset, m⟩ } := by
  obtain ⟨hne, hdigits, hvalue⟩ := hp
  cases p with
  | nil => exact absurd rfl hne
  | cons d p =>
    rw [value_eq_ofDigitChars, Nat.ofDigitChars_cons, Nat.mul_zero, Nat.zero_add] at hvalue
    have hd := digit?_of_isDigit (hdigits d List.mem_cons_self)
    refine .cons (.firstDigit hd rfl)
      (goes_digits b ⟨offset, _⟩ (fun x hx => hdigits x (List.mem_cons_of_mem d hx)) ?_)
    rwa [UInt32.toNat_ofNat_of_lt' (lt_trans (digit?_lt hd) (by decide))]

end UnfinishedBounds

namespace UnfinishedPattern

variable {o : Options} {s s' : UnfinishedPattern} {offset : Nat} {c : Char} {p q : List Char}
  {n : Node} {level : UInt32}

/-! ### Bounds -/

/-- `s` while the bounds `b` of a quantifier of `n` are read. -/
def atBounds (s : UnfinishedPattern) (n : Node) (level : UInt32) (b : UnfinishedBounds) :
    UnfinishedPattern :=
  { s with focus := .inBounds n level b }

theorem read_atBounds {b b' : UnfinishedBounds} (hb : b.Step o offset c (.going b')) :
    (s.atBounds n level b).read o offset (c :: p) =
      (s.atBounds n level b').read o (offset + c.utf8Size) p :=
  read_cons_of_step (Step.inBounds rfl hb).step_eq

theorem read_atBounds_done {b : UnfinishedBounds} {bounds : UInt32 × Bound}
    (hb : b.Step o offset c (.done bounds)) :
    (s.atBounds n level b).read o offset [c] = .ok (s.completeRepetition n level bounds) := by
  rw [read_singleton]
  exact (Step.ofBounds rfl hb).step_eq

theorem read_atBounds_of_goes {b b' : UnfinishedBounds} (h : b.Goes o offset p b') :
    (s.atBounds n level b).read o offset p = .ok (s.atBounds n level b') := by
  induction h with
  | nil => rfl
  | cons hb _ ih => rw [read_atBounds hb, ih]

/-- A number is read where one may begin. -/
theorem read_numeral {m : UInt32} (b : UnfinishedBounds) (hp : Numeral p m) :
    (s.atBounds n level { b with run? := none }).read o offset p =
      .ok (s.atBounds n level { b with run? := some ⟨offset, m⟩ }) :=
  read_atBounds_of_goes (b.goes_numeral hp)

/-- A quantifier repeats the element before it. -/
theorem read_quantifier {min : UInt32} {max : Bound} (hq : Quantifier o q min max)
    (hs : s.focus = .element n level) (withinLimit : level + 1 ≤ o.nestLimit) :
    s.read o offset q = .ok (s.completeRepetition n (level + 1) (min, max)) := by
  have hbrace (r : List Char) : s.read o offset ('{' :: r) =
      (s.atBounds n (level + 1) ⟨offset, none, none⟩).read o (offset + '{'.utf8Size) r :=
    read_cons_of_step (Step.brace hs withinLimit).step_eq
  cases hq with
  | optional | star | plus =>
    rw [read_singleton]
    exact (Step.quantifier hs rfl withinLimit).step_eq
  | exactly hp =>
    rw [List.cons_append, hbrace, read_append_of_ok (read_numeral ⟨offset, none, none⟩ hp)]
    exact read_atBounds_done .exactly
  | atLeast hp =>
    rw [List.cons_append, hbrace, read_append_of_ok (read_numeral ⟨offset, none, none⟩ hp),
      read_atBounds .comma]
    exact read_atBounds_done .atLeast
  | between hp hq ordered =>
    rw [List.append_assoc, List.cons_append, List.cons_append, hbrace,
      read_append_of_ok (read_numeral ⟨offset, none, none⟩ hp), read_atBounds .comma,
      read_append_of_ok (read_numeral ⟨offset, some _, none⟩ hq)]
    exact read_atBounds_done (.between ordered)

/-! ### Classes -/

/-- `s` while the class `k` is read. -/
def atClass (s : UnfinishedPattern) (k : UnfinishedClass) : UnfinishedPattern :=
  { s with focus := .inClass k }

theorem read_atClass {k k' : UnfinishedClass} (hk : k.Step o offset c (.going k')) :
    (s.atClass k).read o offset (c :: p) = (s.atClass k').read o (offset + c.utf8Size) p :=
  read_cons_of_step (Step.inClass rfl hk).step_eq

theorem read_atClass_done {k : UnfinishedClass} (hk : k.Step o offset c (.done n)) :
    (s.atClass k).read o offset [c] = .ok (s.complete n) := by
  rw [read_singleton]
  exact (Step.ofClass rfl hk).step_eq

/-- A character of a class is read where an entry may begin. -/
theorem read_classChar {k : UnfinishedClass} {a : Char} (hp : ClassChar p a)
    (hk : ∀ d, p.head? = some d → k.Ready d) :
    (s.atClass k).read o offset p =
      .ok (s.atClass { k.settle with focus := .single offset a }) := by
  cases hp with
  | plain notEscape notEnd =>
    rw [read_atClass (.character (hk a rfl) notEnd notEscape), read_nil]
  | escaped =>
    rw [read_atClass (.escape (hk '\\' rfl)), read_atClass (.escaped rfl), read_nil]

/-- A character of a class behind a hyphen ends a range. -/
theorem read_rangeEnd {k : UnfinishedClass} {start : Nat} {a d : Char} (hp : ClassChar p d)
    (hk : k.focus = .hyphen start a) (ordered : o.rejectInverted → a ≤ d) :
    (s.atClass k).read o offset p = .ok (s.atClass (k.add (.range a d))) := by
  cases hp with
  | plain notEscape notEnd =>
    rw [read_atClass (.range hk notEnd notEscape ordered), read_nil]
  | escaped =>
    rw [read_atClass (.hyphenEscape hk), read_atClass (.escapedRange rfl ordered), read_nil]
    rfl

/-- The entries of a class are read up to the bracket that closes it. -/
theorem read_entries {ns : List Node} (hp : Entries o p ns) :
    ∀ {k : UnfinishedClass} {offset}, (∀ d, (p ++ [']']).head? = some d → k.Ready d) →
      ns.reverse ++ k.settle.entries ≠ [] →
      (s.atClass k).read o offset (p ++ [']']) =
        .ok (s.complete { k.settle with entries := ns.reverse ++ k.settle.entries }.node) := by
  induction hp with
  | nil =>
    intro k offset hk nonempty
    exact read_atClass_done (.close (hk ']' rfl) nonempty)
  | @single p q a ns hp hq notRange ih =>
    intro k offset hk nonempty
    have hready : ∀ d, p.head? = some d → k.Ready d := fun d hd =>
      hk d (by rw [List.append_assoc, List.head?_append, hd]; rfl)
    have hnext : ∀ d, (q ++ [']']).head? = some d → d ≠ '-' := by
      rintro d hd rfl
      cases q with
      | nil => cases hd
      | cons d q => exact notRange hd
    have hsettle := UnfinishedClass.settle_of_single
      (k := { k.settle with focus := .single offset a }) rfl
    rw [List.append_assoc, read_append_of_ok (read_classChar hp hready)]
    refine (ih (k := { k.settle with focus := .single offset a }) hnext ?_).trans ?_
    · rw [hsettle]
      simp [UnfinishedClass.add]
    · rw [hsettle]
      simp [UnfinishedClass.node, UnfinishedClass.add]
  | @range p q r a b ns hp hq hr ordered ih =>
    intro k offset hk nonempty
    have hready : ∀ d, p.head? = some d → k.Ready d := fun d hd =>
      hk d (by rw [List.append_assoc, List.append_assoc, List.head?_append, hd]; rfl)
    have hsettle := UnfinishedClass.settle_of_entry (k := k.settle.add (.range a b)) rfl
    rw [List.append_assoc, List.append_assoc, read_append_of_ok (read_classChar hp hready),
      List.cons_append, read_atClass (.hyphen rfl),
      read_append_of_ok (read_rangeEnd hq rfl ordered)]
    refine (ih (k := k.settle.add (.range a b)) (fun _ _ => trivial) ?_).trans ?_
    · rw [hsettle]
      simp [UnfinishedClass.add]
    · rw [hsettle]
      simp [UnfinishedClass.node, UnfinishedClass.add]
  | @hyphen p a hp =>
    intro k offset hk nonempty
    have hready : ∀ d, p.head? = some d → k.Ready d := fun d hd =>
      hk d (by rw [List.append_assoc, List.head?_append, hd]; rfl)
    rw [List.append_assoc, read_append_of_ok (read_classChar hp hready), List.cons_append,
      read_atClass (.hyphen rfl), List.nil_append, read_atClass_done (.finalHyphen rfl)]
    rfl

/-! ### Elements, branches and unions -/

/-- Reads the characters `p`, the first of which begins an element. -/
def readFresh (o : Options) (s : UnfinishedPattern) (offset : Nat) :
    List Char → Except SyntaxError UnfinishedPattern
  | [] => .ok s
  | c :: p => (s.beginElement offset c).read o (offset + c.utf8Size) p

theorem readFresh_append (hp : p ≠ []) (h : s.readFresh o offset p = .ok s') :
    s.readFresh o offset (p ++ q) = s'.read o (offset + utf8Len p) q := by
  cases p with
  | nil => exact absurd rfl hp
  | cons c p =>
    rw [List.cons_append, readFresh, read_append_of_ok h, String.utf8Len_cons, Nat.add_assoc,
      Nat.add_comm c.utf8Size]

theorem readFresh_of_branch (hs : s.focus = .branch) (hp : p ≠ []) :
    s.read o offset p = s.readFresh o offset p := by
  cases p with
  | nil => exact absurd rfl hp
  | cons c p => exact read_cons_of_step (Step.first hs).step_eq

theorem readFresh_of_element (hs : s.focus = .element n level)
    (hp : ∃ c, p.head? = some c ∧ c ∉ [')', '|', '?', '*', '+', '{']) :
    s.read o offset p = (s.add n).readFresh o offset p := by
  cases p with
  | nil => simp at hp
  | cons c p =>
    obtain ⟨d, hd, hmem⟩ := hp
    cases hd
    exact read_cons_of_step (Step.next hs hmem).step_eq

theorem readFresh_of_group {paren : Nat} (hs : s.focus = .group paren) (hp : BegunGroup p)
    (withinLimit : s.depth + 1 ≤ o.nestLimit) :
    s.read o offset p =
      readFresh o { outer := s.frame :: s.outer, depth := s.depth + 1 } offset p := by
  cases p with
  | nil => obtain ⟨_, hd, _⟩ := hp; cases hd
  | cons c p =>
    obtain ⟨d, hd, hne⟩ := hp
    cases hd
    exact read_cons_of_step (Step.group hs hne withinLimit).step_eq

/-- A class is read where an element may begin. -/
theorem readFresh_class (hp : Class o p n) : s.readFresh o offset p = .ok (s.complete n) := by
  cases hp with
  | @positive p ns hp nonempty notNegated =>
    change (s.atClass { bracket := offset }).read o _ (p ++ [']']) = _
    rw [read_entries hp]
    · simp [UnfinishedClass.node, UnfinishedClass.settle]
    · rintro d hd rfl
      cases p with
      | nil => cases hd
      | cons d p => exact notNegated hd
    · simpa using fun h => absurd h nonempty
  | @negated p ns hp nonempty =>
    change (s.atClass { bracket := offset }).read o _ ('^' :: (p ++ [']'])) = _
    rw [read_atClass (.negate rfl), read_entries hp]
    · simp [UnfinishedClass.node, UnfinishedClass.settle]
    · exact fun _ _ => trivial
    · simpa using fun h => absurd h nonempty

end UnfinishedPattern

namespace Grammar

variable {o : Options} {depth : Nat} {p : List Char} {n : Node} {level : Nat} {c : Chain}

/-- Behind an element, no element begins with a character that has a meaning there. -/
theorem Base.exists_head (h : Base o depth false p n) :
    ∃ d, p.head? = some d ∧ d ∉ [')', '|', '?', '*', '+', '{'] := by
  cases h with
  | dot | empty | group | escaped => exact ⟨_, rfl, by decide⟩
  | ofClass hp => cases hp <;> exact ⟨_, rfl, by decide⟩
  | plain _ notReserved => exact ⟨_, rfl, notReserved rfl⟩

theorem Element.exists_head : ∀ {depth p n level}, Element o depth false p n level →
    ∃ d, p.head? = some d ∧ d ∉ [')', '|', '?', '*', '+', '{']
  | _, _, _, _, .base hp => hp.exists_head
  | _, _, _, _, .quantified hp _ _ => by
    obtain ⟨d, hd, hmem⟩ := hp.exists_head
    exact ⟨d, by rw [List.head?_append, hd]; rfl, hmem⟩

theorem Branch.exists_head (h : Branch o depth false p c) :
    ∃ d, p.head? = some d ∧ d ∉ [')', '|', '?', '*', '+', '{'] := by
  cases h with
  | last hp => exact hp.exists_head
  | link hp _ =>
    obtain ⟨d, hd, hmem⟩ := hp.exists_head
    exact ⟨d, by rw [List.head?_append, hd]; rfl, hmem⟩

theorem Element.ne_nil {first : Bool} (h : Element o depth first p n level) : p ≠ [] := by
  have hlt := h.level_lt
  have hle := h.depth_le
  rintro rfl
  rw [List.length_nil] at hlt
  omega

theorem Branch.ne_nil {first : Bool} (h : Branch o depth first p c) : p ≠ [] := by
  cases h with
  | last hp => exact hp.ne_nil
  | link hp _ => exact fun h => hp.ne_nil (List.append_eq_nil_iff.mp h).1

theorem Union.ne_nil {cs : List Chain} (h : Union o depth p cs) : p ≠ [] := by
  cases h with
  | last hp => exact hp.ne_nil
  | more hp _ => exact fun h => hp.ne_nil (List.append_eq_nil_iff.mp h).1

end Grammar

namespace UnfinishedPattern

variable {o : Options}

mutual

/-- An element without quantifiers is read where an element may begin. -/
theorem readFresh_base : ∀ {depth first p n}, Base o depth first p n →
    ∀ {s : UnfinishedPattern} (offset : Nat), s.depth.toNat = depth →
      s.readFresh o offset p = .ok (s.complete n)
  | _, _, _, _, .dot, _, _, _ => rfl
  | _, _, _, _, .empty, _, _, _ => rfl
  | _, _, _, _, .escaped _, _, _, _ => rfl
  | _, _, _, _, .ofClass hp, _, _, _ => readFresh_class hp
  | _, _, _, _, .plain notSpecial _, s, _, _ => by
    simp only [List.mem_cons, List.not_mem_nil, or_false, not_or] at notSpecial
    simp only [readFresh, beginElement, notSpecial, ↓reduceIte, read_nil]
  | _, _, _, _, .group (p := p) hp notEmpty withinLimit, s, offset, hs => by
    obtain ⟨hdepth, hle⟩ := level_succ_le_limit hs withinLimit
    have hbegun : BegunGroup (p ++ [')']) := by
      cases p with
      | nil => exact absurd rfl hp.ne_nil
      | cons d p => exact ⟨d, rfl, fun h => notEmpty (h ▸ rfl)⟩
    let inner : UnfinishedPattern := { outer := s.frame :: s.outer, depth := s.depth + 1 }
    obtain ⟨frame, n, l, hread, hclose⟩ := readFresh_union hp (s := inner)
      (offset + '('.utf8Size) hdepth rfl
    rw [List.append_nil] at hclose
    have hopen : s.readFresh o offset ('(' :: p ++ [')']) =
        inner.readFresh o (offset + '('.utf8Size) (p ++ [')']) :=
      readFresh_of_group (s := { s with focus := .group offset }) rfl hbegun hle
    rw [hopen, readFresh_append hp.ne_nil hread, read_singleton, (Step.close rfl rfl).step_eq]
    simp only [inner, Frame.node, hclose, List.reverse_reverse, UInt32.add_sub_cancel]
    rfl

/-- An element is read where one may begin. -/
theorem readFresh_element : ∀ {depth first p n level}, Element o depth first p n level →
    ∀ {s : UnfinishedPattern} (offset : Nat), s.depth.toNat = depth →
      ∃ l : UInt32, l.toNat = level ∧
        s.readFresh o offset p = .ok { s with focus := .element n l }
  | _, _, _, _, _, .base hp, s, offset, hs => ⟨s.depth, hs, readFresh_base hp offset hs⟩
  | _, _, _, _, _, .quantified hp hq withinLimit, s, offset, hs => by
    obtain ⟨l, hl, hread⟩ := readFresh_element hp offset hs
    obtain ⟨hsucc, hle⟩ := level_succ_le_limit hl withinLimit
    refine ⟨l + 1, hsucc, ?_⟩
    rw [readFresh_append hp.ne_nil hread, read_quantifier hq rfl hle]
    rfl

/-- A branch is read where one may begin, or where it may go on. -/
theorem readFresh_branch : ∀ {depth first p c}, Branch o depth first p c →
    ∀ {s : UnfinishedPattern} (offset : Nat), s.depth.toNat = depth →
      ∃ elements n level, s.readFresh o offset p =
          .ok { s with frame := { s.frame with elements }, focus := .element n level } ∧
        Chain.prepend elements (.last n) = Chain.prepend s.frame.elements c
  | _, _, _, _, .last hp, s, offset, hs => by
    obtain ⟨l, -, hread⟩ := readFresh_element hp offset hs
    exact ⟨s.frame.elements, _, l, hread, rfl⟩
  | _, _, _, _, .link (n := n) (p := p) hp hq, s, offset, hs => by
    obtain ⟨l, -, hread⟩ := readFresh_element hp offset hs
    obtain ⟨elements, m, l', hread', hchain⟩ :=
      readFresh_branch hq (s := ({ s with focus := .element n l } : UnfinishedPattern).add n)
        (offset + utf8Len p) hs
    refine ⟨elements, m, l', ?_, hchain⟩
    rw [readFresh_append hp.ne_nil hread, readFresh_of_element rfl hq.exists_head, hread']
    rfl

/-- A union is read to its branches where a branch may begin. -/
theorem readFresh_union : ∀ {depth p cs}, Union o depth p cs →
    ∀ {s : UnfinishedPattern} (offset : Nat), s.depth.toNat = depth → s.frame.elements = [] →
      ∃ frame n level, s.readFresh o offset p =
          .ok { s with frame, focus := .element n level } ∧
        frame.close n = cs.reverse ++ s.frame.branches
  | _, _, _, .last hp, s, offset, hs, hnil => by
    obtain ⟨elements, n, l, hread, hchain⟩ := readFresh_branch hp offset hs
    refine ⟨_, n, l, hread, ?_⟩
    rw [Frame.close, hchain, hnil]
    rfl
  | _, _, _, .more (p := p) (c := c) hp hq, s, offset, hs, hnil => by
    obtain ⟨elements, n, l, hread, hchain⟩ := readFresh_branch hp offset hs
    let next : UnfinishedPattern :=
      { s with frame := { branches := c :: s.frame.branches }, focus := .branch }
    have hbar : nextBranch { s with frame := { s.frame with elements }, focus := .element n l } n =
        next := by
      rw [nextBranch, Frame.close, hchain, hnil]
      rfl
    obtain ⟨frame, m, l', hread', hclose⟩ := readFresh_union hq (s := next)
      (offset + utf8Len p + '|'.utf8Size) hs rfl
    refine ⟨frame, m, l', ?_, by simp [hclose, next]⟩
    rw [readFresh_append hp.ne_nil hread, read_cons_of_step (Step.bar rfl).step_eq, hbar,
      readFresh_of_branch rfl hq.ne_nil, hread']

end

end UnfinishedPattern

/-- What the grammar derives parses to the tree that it derives. -/
theorem parse_of_derives {p : String} {o : Options} {t : Chain} (h : Derives o p t) :
    parse p o = .ok t := by
  obtain ⟨branches, hp, rfl⟩ := h
  obtain ⟨frame, n, l, hread, hclose⟩ :=
    UnfinishedPattern.readFresh_union hp (s := {}) 0 rfl rfl
  rw [← UnfinishedPattern.readFresh_of_branch rfl hp.ne_nil] at hread
  rw [parse_of_read hread, UnfinishedPattern.finish_of_element rfl rfl, Frame.node, hclose]
  simp

/-- Parsing accepts exactly what the grammar derives, with exactly the tree that it derives. -/
theorem parse_eq_ok_iff_derives (p : String) (o : Options) (t : Chain)
    (h : o.nestLimit.toNat < 2 ^ 32 - 1 ∨ p.utf8ByteSize < 2 ^ 32) :
    parse p o = .ok t ↔ Derives o p t :=
  ⟨derives_of_parse h, parse_of_derives⟩

theorem derives_star_complement :
    ({} : Options).nestLimit.toNat < 2 ^ 32 - 1 ∧
      Derives {} "(a|.)*[^x-z-]"
        (.last (.alternation [.link
          (.repetition (.last (.alternation [.last (.literal 'a'), .last .dot])) 0 .unbounded)
          (.last (.complement
            (.last (.alternation [.last (.range 'x' 'z'), .last (.literal '-')]))))])) :=
  ⟨by decide, (parse_eq_ok_iff_derives _ _ _ (.inl (by decide))).mp rfl⟩

end PatternTree
