import PatternTree.Proofs.Derivation
/-!
# Reading the bounds of a quantifier

Behind the brace of a quantifier the text is read up to the brace that closes it. What comes of it
depends on the runs of digits only: on their values, on what stands behind them, and in strict
options on their order. `BoundsOutcome` lists what each text comes to. A run is as long as its
digits go, leading zeros count for nothing, and a value that does not fit is found in a run whatever
stands behind the run, while a fault of order is found only behind the closing brace.

`UnfinishedBounds.read` takes one step for each character of the bounds. Reading a pattern from the
brace on comes to reading the bounds and going on behind them.

## Main definitions

* `BoundsOutcome` — what a text behind a brace comes to.
* `UnfinishedPattern.resume` — reads the rest of a pattern and ends it.

## Main results

* `UnfinishedBounds.read_eq_iff` — reading bounds comes to what is listed.
* `UnfinishedPattern.resume_atBounds` — a pattern goes on behind its bounds.
* `read_bounds_iff_and_resume` — both of them, at any brace of any pattern.
-/

open String (utf8Len utf8Len_toList)

namespace PatternTree

open Grammar

/-! ### What texts come to -/

/-- What the text behind the brace of a quantifier comes to: the bounds and the place behind them,
or a fault. The brace stands at the offset `brace`. -/
inductive BoundsOutcome (o : Options) (brace : Nat) :
    List Char → Except SyntaxError ((UInt32 × Bound) × Cursor) → Prop
  /-- One number and the closing brace. -/
  | exactly {p q m} (hp : Numeral p m) :
      BoundsOutcome o brace (p ++ '}' :: q)
        (.ok ((m, .bounded m), ⟨q, brace + 1 + p.length + 1⟩))
  /-- A number, a comma and the closing brace. -/
  | atLeast {p q m} (hp : Numeral p m) :
      BoundsOutcome o brace (p ++ ',' :: '}' :: q)
        (.ok ((m, .unbounded), ⟨q, brace + 1 + p.length + 1 + 1⟩))
  /-- Two numbers in order, unless order does not matter. -/
  | between {p q r m n} (hp : Numeral p m) (hq : Numeral q n)
      (ordered : o.rejectInverted → m ≤ n) :
      BoundsOutcome o brace (p ++ ',' :: (q ++ '}' :: r))
        (.ok ((m, .bounded n), ⟨r, brace + 1 + p.length + 1 + q.length + 1⟩))
  /-- Two numbers that are not in order. -/
  | inverted {p q r m n} (hp : Numeral p m) (hq : Numeral q n) (strict : o.rejectInverted)
      (inverted : n < m) :
      BoundsOutcome o brace (p ++ ',' :: (q ++ '}' :: r)) (.error ⟨.invertedBounds m n, brace⟩)
  /-- A first number that does not fit. -/
  | largeLower {p q} (ne_nil : p ≠ []) (hp : ∀ d ∈ p, d.isDigit) (large : 2 ^ 32 ≤ value p) :
      BoundsOutcome o brace (p ++ q) (.error ⟨.malformedQuantifier, brace + 1⟩)
  /-- A second number that does not fit. -/
  | largeUpper {p q r m} (hp : Numeral p m) (ne_nil : q ≠ []) (hq : ∀ d ∈ q, d.isDigit)
      (large : 2 ^ 32 ≤ value q) :
      BoundsOutcome o brace (p ++ ',' :: (q ++ r))
        (.error ⟨.malformedQuantifier, brace + 1 + p.length + 1⟩)
  /-- No number. -/
  | noLower {p} (hp : ∀ d ∈ p.head?, ¬d.isDigit) :
      BoundsOutcome o brace p (.error ⟨.malformedQuantifier, brace + 1⟩)
  /-- A number with neither a comma nor the closing brace behind it. -/
  | afterLower {p q m} (hp : Numeral p m) (hq : ∀ d ∈ q.head?, ¬d.isDigit ∧ d ≠ ',' ∧ d ≠ '}') :
      BoundsOutcome o brace (p ++ q) (.error ⟨.malformedQuantifier, brace + 1 + p.length⟩)
  /-- A number and a comma with neither a number nor the closing brace behind them. -/
  | afterComma {p q m} (hp : Numeral p m) (hq : ∀ d ∈ q.head?, ¬d.isDigit ∧ d ≠ '}') :
      BoundsOutcome o brace (p ++ ',' :: q)
        (.error ⟨.malformedQuantifier, brace + 1 + p.length + 1⟩)
  /-- Two numbers without the closing brace behind them. -/
  | afterUpper {p q r m n} (hp : Numeral p m) (hq : Numeral q n)
      (hr : ∀ d ∈ r.head?, ¬d.isDigit ∧ d ≠ '}') :
      BoundsOutcome o brace (p ++ ',' :: (q ++ r))
        (.error ⟨.malformedQuantifier, brace + 1 + p.length + 1 + q.length⟩)

variable {o : Options} {offset : Nat} {c : Char} {p q : List Char} {e : SyntaxError}

/-! ### Digits -/

theorem utf8Size_of_isDigit (h : c.isDigit) : c.utf8Size = 1 := by
  simp only [Char.isDigit, ge_iff_le, Bool.and_eq_true, decide_eq_true_eq] at h
  rw [Char.utf8Size_eq_one_iff]
  exact UInt32.le_trans h.2 (by decide)

theorem digit?_eq_none_iff : digit? c = none ↔ ¬c.isDigit := by
  rw [digit?]
  split_ifs with h <;> simp [h]

theorem utf8Len_of_isDigit (hp : ∀ d ∈ p, d.isDigit) : utf8Len p = p.length := by
  induction p with
  | nil => rfl
  | cons d p ih =>
    rw [String.utf8Len_cons, List.length_cons, utf8Size_of_isDigit (hp d List.mem_cons_self),
      ih fun x hx => hp x (List.mem_cons_of_mem d hx)]

/-! ### Reading to the end of bounds -/

namespace UnfinishedBounds

variable {b b' : UnfinishedBounds} {bounds : UInt32 × Bound}

theorem read_cons_of_going (h : b.Step o offset c (.going b')) :
    b.read o offset (c :: p) = b'.read o (offset + c.utf8Size) p := by
  rw [read, h.step_eq]
  rfl

theorem read_cons_of_done (h : b.Step o offset c (.done bounds)) :
    b.read o offset (c :: p) = .ok (bounds, ⟨p, offset + c.utf8Size⟩) := by
  rw [read, h.step_eq]
  rfl

theorem read_cons_of_fault (h : b.Fault o offset c e) : b.read o offset (c :: p) = .error e := by
  rw [read, h.step_eq]
  rfl

theorem Goes.read_append (h : b.Goes o offset p b') :
    b.read o offset (p ++ q) = b'.read o (offset + utf8Len p) q := by
  induction h with
  | nil => rfl
  | cons hb _ ih =>
    rw [List.cons_append, read_cons_of_going hb, ih, String.utf8Len_cons, Nat.add_assoc,
      Nat.add_comm (utf8Len _)]

/-- A number is read where one may begin. -/
theorem read_numeral {m : UInt32} (b : UnfinishedBounds) (hp : Numeral p m) :
    read o { b with run? := none } offset (p ++ q) =
      read o { b with run? := some ⟨offset, m⟩ } (offset + p.length) q := by
  rw [(b.goes_numeral hp).read_append, utf8Len_of_isDigit hp.isDigit]

/-- Digits whose value does not fit have a fault at the first digit of the number, whatever stands
behind them. -/
theorem read_large_digits (b : UnfinishedBounds) (run : DigitRun) (hp : ∀ d ∈ p, d.isDigit)
    (large : UInt32.size ≤ Nat.ofDigitChars 10 p run.value.toNat) :
    read o { b with run? := some run } offset (p ++ q) =
      .error ⟨.malformedQuantifier, run.start⟩ := by
  -- The value may stop fitting at any of the digits, and those behind it are never looked at.
  induction p generalizing run offset with
  | nil =>
    have hlt := run.value.toNat_lt_size
    rw [Nat.ofDigitChars_nil] at large
    omega
  | cons d p ih =>
    rw [Nat.ofDigitChars_cons] at large
    have hd := digit?_of_isDigit (hp d List.mem_cons_self)
    rw [List.cons_append]
    rcases Nat.lt_or_ge (10 * run.value.toNat + (d.toNat - '0'.toNat)) UInt32.size with
      fits | hlarge
    · rw [read_cons_of_going (.digit hd rfl fits)]
      refine ih ⟨run.start, _⟩ (fun x hx => hp x (List.mem_cons_of_mem d hx)) ?_
      rwa [UInt32.toNat_ofNat_of_lt' fits]
    · exact read_cons_of_fault (.tooLarge hd rfl hlarge)

/-- A number that does not fit has a fault at its first digit, whatever stands behind it. -/
theorem read_large_numeral (b : UnfinishedBounds) (hne : p ≠ []) (hp : ∀ d ∈ p, d.isDigit)
    (large : UInt32.size ≤ value p) :
    read o { b with run? := none } offset (p ++ q) = .error ⟨.malformedQuantifier, offset⟩ := by
  cases p with
  | nil => exact absurd rfl hne
  | cons d p =>
    rw [value_eq_ofDigitChars, Nat.ofDigitChars_cons, Nat.mul_zero, Nat.zero_add] at large
    have hd := digit?_of_isDigit (hp d List.mem_cons_self)
    rw [List.cons_append, read_cons_of_going (.firstDigit hd rfl)]
    refine read_large_digits b ⟨offset, _⟩ (fun x hx => hp x (List.mem_cons_of_mem d hx)) ?_
    rwa [UInt32.toNat_ofNat_of_lt' (lt_trans (digit?_lt hd) (by decide))]

/-- Bounds end with a fault where the text neither goes on with the number nor with what may follow
it. -/
theorem read_of_malformed {p : List Char} (hp : ∀ d ∈ p.head?, ¬d.isDigit ∧
    (b.min? = none → b.run? ≠ none → d ≠ ',') ∧ (b.min? ≠ none ∨ b.run? ≠ none → d ≠ '}')) :
    b.read o offset p = .error ⟨.malformedQuantifier, offset⟩ := by
  cases p with
  | nil => rfl
  | cons d p =>
    obtain ⟨hdigit, hcomma, hbrace⟩ := hp d rfl
    exact read_cons_of_fault (.malformed (digit?_eq_none_iff.mpr hdigit) hcomma
      (fun h => hbrace (.inl h)) fun h => hbrace (.inr h))

end UnfinishedBounds

/-! ### What is listed is what comes out -/

/-- A text begins with the digits up to the first character that is none. -/
theorem exists_digits (p : List Char) :
    ∃ q r, p = q ++ r ∧ (∀ d ∈ q, d.isDigit) ∧ ∀ d ∈ r.head?, ¬d.isDigit := by
  refine ⟨p.takeWhile Char.isDigit, p.dropWhile Char.isDigit,
    List.takeWhile_append_dropWhile.symm, List.all_eq_true.mp List.all_takeWhile, fun d hd => ?_⟩
  have hhead := List.head?_dropWhile_not Char.isDigit p
  rw [Option.mem_def.mp hd] at hhead
  exact Bool.eq_false_iff.mp hhead

/-- Digits are a number that fits, or their value does not fit. -/
theorem numeral_or_large (ne_nil : p ≠ []) (hp : ∀ d ∈ p, d.isDigit) :
    (∃ m, Numeral p m) ∨ 2 ^ 32 ≤ value p := by
  rcases Nat.lt_or_ge (value p) (2 ^ 32) with fits | large
  · exact .inl ⟨.ofNat (value p), ne_nil, hp, (UInt32.toNat_ofNat_of_lt' fits).symm⟩
  · exact .inr large

namespace BoundsOutcome

variable {brace : Nat} {m : UInt32} {x : Except SyntaxError ((UInt32 × Bound) × Cursor)}

/-- What is listed comes out. -/
theorem read_eq (h : BoundsOutcome o brace p x) :
    UnfinishedBounds.read o { brace } (brace + 1) p = x := by
  have hlower {p q m} (hp : Numeral p m) :
      UnfinishedBounds.read o { brace } (brace + 1) (p ++ q) =
        UnfinishedBounds.read o { brace, run? := some ⟨brace + 1, m⟩ } (brace + 1 + p.length) q :=
    UnfinishedBounds.read_numeral { brace } hp
  have hcomma {p q m} (hp : Numeral p m) :
      UnfinishedBounds.read o { brace } (brace + 1) (p ++ ',' :: q) =
        UnfinishedBounds.read o { brace, min? := some m } (brace + 1 + p.length + 1) q :=
    (hlower hp).trans (UnfinishedBounds.read_cons_of_going .comma)
  have hupper {p q r m n} (hp : Numeral p m) (hq : Numeral q n) :
      UnfinishedBounds.read o { brace } (brace + 1) (p ++ ',' :: (q ++ r)) =
        UnfinishedBounds.read o
          { brace, min? := some m, run? := some ⟨brace + 1 + p.length + 1, n⟩ }
          (brace + 1 + p.length + 1 + q.length) r :=
    (hcomma hp).trans (UnfinishedBounds.read_numeral { brace, min? := some m } hq)
  cases h with
  | exactly hp => exact (hlower hp).trans (UnfinishedBounds.read_cons_of_done .exactly)
  | atLeast hp => exact (hcomma hp).trans (UnfinishedBounds.read_cons_of_done .atLeast)
  | between hp hq ordered =>
    exact (hupper hp hq).trans (UnfinishedBounds.read_cons_of_done (.between ordered))
  | inverted hp hq strict inverted =>
    exact (hupper hp hq).trans (UnfinishedBounds.read_cons_of_fault (.inverted strict inverted))
  | largeLower ne_nil hp large =>
    exact UnfinishedBounds.read_large_numeral { brace } ne_nil hp large
  | largeUpper hp ne_nil hq large =>
    exact (hcomma hp).trans
      (UnfinishedBounds.read_large_numeral { brace, min? := some _ } ne_nil hq large)
  | noLower hp => exact UnfinishedBounds.read_of_malformed fun d hd => ⟨hp d hd, nofun, nofun⟩
  | afterLower hp hq =>
    refine (hlower hp).trans (UnfinishedBounds.read_of_malformed fun d hd => ?_)
    obtain ⟨hdigit, hcomma, hbrace⟩ := hq d hd
    exact ⟨hdigit, fun _ _ => hcomma, fun _ => hbrace⟩
  | afterComma hp hq =>
    refine (hcomma hp).trans (UnfinishedBounds.read_of_malformed fun d hd => ?_)
    obtain ⟨hdigit, hbrace⟩ := hq d hd
    exact ⟨hdigit, nofun, fun _ => hbrace⟩
  | afterUpper hp hq hr =>
    refine (hupper hp hq).trans (UnfinishedBounds.read_of_malformed fun d hd => ?_)
    obtain ⟨hdigit, hbrace⟩ := hr d hd
    exact ⟨hdigit, nofun, fun _ => hbrace⟩

/-- Behind two numbers the bounds are closed, or they have a fault. -/
theorem exists_of_upper {p q r : List Char} {n : UInt32} (hp : Numeral p m) (hq : Numeral q n)
    (hr : ∀ d ∈ r.head?, ¬d.isDigit) : ∃ x, BoundsOutcome o brace (p ++ ',' :: (q ++ r)) x := by
  by_cases hbrace : r.head? = some '}'
  · obtain ⟨r, rfl⟩ := List.head?_eq_some_iff.mp hbrace
    by_cases h : o.rejectInverted ∧ n < m
    · exact ⟨_, .inverted hp hq h.1 h.2⟩
    · exact ⟨_, .between hp hq fun strict => UInt32.not_lt.mp fun hlt => h ⟨strict, hlt⟩⟩
  · exact ⟨_, .afterUpper hp hq fun d hd => ⟨hr d hd, fun h => hbrace (h ▸ hd)⟩⟩

/-- Behind a number and a comma the bounds are closed or go on, or they have a fault. -/
theorem exists_of_comma {p : List Char} (hp : Numeral p m) (q : List Char) :
    ∃ x, BoundsOutcome o brace (p ++ ',' :: q) x := by
  obtain ⟨q, r, rfl, hq, hr⟩ := exists_digits q
  rcases eq_or_ne q [] with rfl | hne
  · rw [List.nil_append]
    by_cases hbrace : r.head? = some '}'
    · obtain ⟨r, rfl⟩ := List.head?_eq_some_iff.mp hbrace
      exact ⟨_, .atLeast hp⟩
    · exact ⟨_, .afterComma hp fun d hd => ⟨hr d hd, fun h => hbrace (h ▸ hd)⟩⟩
  · rcases numeral_or_large hne hq with ⟨n, hn⟩ | large
    · exact exists_of_upper hp hn hr
    · exact ⟨_, .largeUpper hp hne hq large⟩

/-- Every text comes to something. -/
theorem exists_outcome (o : Options) (brace : Nat) (p : List Char) :
    ∃ x, BoundsOutcome o brace p x := by
  obtain ⟨p, q, rfl, hp, hq⟩ := exists_digits p
  rcases eq_or_ne p [] with rfl | hne
  · exact ⟨_, .noLower hq⟩
  rcases numeral_or_large hne hp with ⟨m, hm⟩ | large
  · by_cases hbrace : q.head? = some '}'
    · obtain ⟨q, rfl⟩ := List.head?_eq_some_iff.mp hbrace
      exact ⟨_, .exactly hm⟩
    by_cases hcomma : q.head? = some ','
    · obtain ⟨q, rfl⟩ := List.head?_eq_some_iff.mp hcomma
      exact exists_of_comma hm q
    · exact ⟨_, .afterLower hm fun d hd =>
        ⟨hq d hd, fun h => hcomma (h ▸ hd), fun h => hbrace (h ▸ hd)⟩⟩
  · exact ⟨_, .largeLower hne hp large⟩

end BoundsOutcome

/-- Reading bounds comes to what is listed, and to nothing else. -/
theorem UnfinishedBounds.read_eq_iff {brace : Nat}
    {x : Except SyntaxError ((UInt32 × Bound) × Cursor)} :
    read o { brace } (brace + 1) p = x ↔ BoundsOutcome o brace p x := by
  refine ⟨fun h => ?_, BoundsOutcome.read_eq⟩
  obtain ⟨y, hy⟩ := BoundsOutcome.exists_outcome o brace p
  rwa [← h, hy.read_eq]

/-! ### Bounds inside a pattern -/

namespace UnfinishedPattern

variable {s t : UnfinishedPattern} {n : Node} {level : UInt32}

/-- Reads what is left of a pattern and ends it. -/
def resume (o : Options) (s : UnfinishedPattern) (cur : Cursor) : Except SyntaxError Chain := do
  let t ← s.read o cur.position cur.rest
  t.finish o (cur.position + utf8Len cur.rest)

theorem resume_append_of_ok (h : s.read o offset p = .ok t) :
    s.resume o ⟨p ++ q, offset⟩ = t.resume o ⟨q, offset + utf8Len p⟩ := by
  rw [resume, read_append_of_ok h, String.utf8Len_append, ← Nat.add_assoc]
  rfl

theorem resume_cons_of_step (h : s.step o offset c = .ok t) :
    s.resume o ⟨c :: p, offset⟩ = t.resume o ⟨p, offset + c.utf8Size⟩ := by
  rw [← List.singleton_append, resume_append_of_ok (read_singleton.trans h), String.utf8Len_cons,
    String.utf8Len_nil, Nat.zero_add]

theorem resume_cons_of_step_error (h : s.step o offset c = .error e) :
    s.resume o ⟨c :: p, offset⟩ = .error e := by
  rw [resume, read_cons_of_step_error h]
  rfl

/-- A pattern goes on behind its bounds, or it has their fault. -/
theorem resume_atBounds (s : UnfinishedPattern) (n : Node) (level : UInt32) (b : UnfinishedBounds) :
    (s.atBounds n level b).resume o ⟨p, offset⟩ =
      b.read o offset p >>= fun r => (s.completeRepetition n level r.1).resume o r.2 := by
  induction p generalizing b offset with
  | nil => rfl
  | cons c p ih =>
    rcases b.step_or_fault o offset c with ⟨b' | bounds, hb⟩ | ⟨e, hb⟩
    · rw [resume_cons_of_step (Step.inBounds rfl hb).step_eq,
        UnfinishedBounds.read_cons_of_going hb]
      exact ih b'
    · rw [resume_cons_of_step (Step.ofBounds rfl hb).step_eq,
        UnfinishedBounds.read_cons_of_done hb]
      rfl
    · rw [resume_cons_of_step_error (Fault.inBounds rfl hb).step_eq,
        UnfinishedBounds.read_cons_of_fault hb]
      rfl

end UnfinishedPattern

theorem parse_eq_resume (p : String) (o : Options) :
    parse p o = UnfinishedPattern.resume o {} (.ofString p) := by
  rw [parse_eq, UnfinishedPattern.resume, ← utf8Len_toList, Cursor.ofString, Nat.zero_add]

/-- At every brace behind an element of a pattern, the bounds are read from the text behind it and
come to what is listed for that text: the pattern goes on behind them with the repetition, or it has
their fault. -/
theorem read_bounds_iff_and_resume (o : Options) :
    (∀ brace p x, UnfinishedBounds.read o { brace } (brace + 1) p = x ↔
      BoundsOutcome o brace p x) ∧
    ∀ (pattern : String) q r s n level, pattern.toList = q ++ '{' :: r →
      UnfinishedPattern.read o {} 0 q = .ok s → s.focus = .element n level →
      level + 1 ≤ o.nestLimit →
        parse pattern o =
          UnfinishedBounds.read o { brace := utf8Len q } (utf8Len q + 1) r >>= fun (bounds, cur) =>
            (s.completeRepetition n (level + 1) bounds).resume o cur := by
  refine ⟨fun brace p x => UnfinishedBounds.read_eq_iff, ?_⟩
  intro pattern q r s n level hpattern hread hs withinLimit
  have hbrace : s.step o (utf8Len q) '{' =
      .ok (s.atBounds n (level + 1) { brace := utf8Len q }) :=
    (UnfinishedPattern.Step.brace hs withinLimit).step_eq
  rw [parse_eq_resume, Cursor.ofString, hpattern, UnfinishedPattern.resume_append_of_ok hread,
    Nat.zero_add, UnfinishedPattern.resume_cons_of_step hbrace]
  exact UnfinishedPattern.resume_atBounds s n (level + 1) { brace := utf8Len q }

/-- The bounds of `a{02,3}b`, with the repetition behind which the pattern goes on, and the least
number that does not fit. -/
theorem read_bounds_iff_and_resume_leading_zero :
    ("a\x7b02,3\x7db".toList = ['a'] ++ '{' :: ['0', '2', ',', '3', '}', 'b'] ∧
      UnfinishedPattern.read {} {} 0 ['a'] = .ok (UnfinishedPattern.complete {} (.literal 'a')) ∧
      (UnfinishedPattern.complete {} (.literal 'a')).focus = .element (.literal 'a') 0 ∧
      (0 : UInt32) + 1 ≤ ({} : Options).nestLimit ∧
      parse "a\x7b02,3\x7db" {} =
        UnfinishedBounds.read {} { brace := 1 } (1 + 1) ['0', '2', ',', '3', '}', 'b'] >>=
          fun (bounds, cur) =>
            ((UnfinishedPattern.complete {} (.literal 'a')).completeRepetition (.literal 'a')
              (0 + 1) bounds).resume {} cur) ∧
    BoundsOutcome {} 1 ['0', '2', ',', '3', '}', 'b'] (.ok ((2, .bounded 3), ⟨['b'], 7⟩)) ∧
    BoundsOutcome {} 1 "4294967296,\x7d".toList (.error ⟨.malformedQuantifier, 2⟩) :=
  ⟨⟨rfl, rfl, rfl, by decide,
      (read_bounds_iff_and_resume {}).2 "a\x7b02,3\x7db" ['a'] _ _ _ 0 rfl rfl rfl (by decide)⟩,
    ((read_bounds_iff_and_resume {}).1 1 _ _).mp rfl,
    ((read_bounds_iff_and_resume {}).1 1 _ _).mp rfl⟩

end PatternTree
