import PatternTree.Proofs.Surroundings
/-!
# Patterns put together

Patterns can be put one behind the other, with a bar between them or without one, and a pattern can
be put in a group. The result parses to the trees of its parts, put together in the same way, and
every fault of the second part is found further on in the whole, by the length of the text before.

Behind an element, a second pattern goes on with the branch of the first one. That needs a first
character that begins an element there: a quantifier would repeat the last element, and a bar or a
closing parenthesis would end the branch. Behind a bar nothing is asked of the second pattern, since
a branch begins there as it does at the start. In a group the levels are one higher, so the limit
has to be one higher too, and a pattern that begins with a closing parenthesis is left out since
that would make an empty group.

## Main results

* `parse_append` — one pattern behind another.
* `parse_append_bar` — two patterns with a bar between them.
* `parse_balance` — a pattern in front of a closing parenthesis, and in a group.
-/

open String (utf8Len utf8Len_toList)

namespace PatternTree

variable {o : Options} {strict : Bool} {l : UInt32} {p q : String} {t last : Chain}
  {bs cs init : List Chain}

/-- A pattern has a first branch. -/
theorem exists_cons_of_parse (h : parse p o = .ok (.last (.alternation cs))) :
    ∃ first rest, cs = first :: rest := by
  obtain ⟨s, n, level, -, -, -, rfl⟩ := exists_of_parse_alternation h
  exact s.frame.exists_reverse_close n

theorem Chain.prepend_cons (before : List Node) (n : Node) (c : Chain) :
    prepend (n :: before) c = prepend before (.last n) ++ c :=
  nodes_injective (by simp)

/-! ### One pattern behind another -/

/-- Behind an element, a text goes on with the branch. -/
theorem readBehind_append {s : UnfinishedPattern} {n : Node} {level : UInt32}
    (hread : UnfinishedPattern.read o {} 0 p.toList = .ok s) (houter : s.outer = [])
    (hfocus : s.focus = .element n level)
    (hq : ∃ c, q.toList.head? = some c ∧ c ∉ [')', '|', '?', '*', '+', '{']) :
    ReadBehind o (s.add n) p.utf8ByteSize (p ++ q) q where
  closed := ⟨houter, (UnfinishedPattern.closed_of_read hread houter).depth_eq⟩
  size_eq := by rw [String.utf8ByteSize_append, Nat.add_comm]
  read_eq := by
    have hstart : q.toList ≠ [] := by
      intro hnil
      simp [hnil] at hq
    rw [String.toList_append, UnfinishedPattern.read_append_of_ok hread, Nat.zero_add,
      utf8Len_toList, UnfinishedPattern.readFresh_of_element hfocus hq,
      UnfinishedPattern.read_around_start _ _ hstart]

/-- A pattern behind another one: its first branch goes on with the last branch of the other one,
and its fault is found further on. -/
theorem parse_append (hp : parse p o = .ok (.last (.alternation (init ++ [last]))))
    (hq : ∃ c, q.toList.head? = some c ∧ c ∉ [')', '|', '?', '*', '+', '{']) :
    (∀ first rest, parse q o = .ok (.last (.alternation (first :: rest))) →
      parse (p ++ q) o = .ok (.last (.alternation (init ++ (last ++ first) :: rest)))) ∧
    ∀ e, parse q o = .error e → parse (p ++ q) o = .error (e.shift p.utf8ByteSize) := by
  obtain ⟨s, n, level, hread, houter, hfocus, hclose⟩ := exists_of_parse_alternation hp
  have hbehind := readBehind_append hread houter hfocus hq
  rw [Frame.close, List.reverse_cons] at hclose
  obtain ⟨hinit, hlast⟩ := List.append_inj' hclose rfl
  obtain rfl : Chain.prepend s.frame.elements (.last n) = last := List.singleton_injective hlast
  refine ⟨fun first rest hparse => ?_, fun e => hbehind.parse_error⟩
  rw [hbehind.parse_ok hparse, ← hinit, ← Chain.prepend_cons]
  rfl

/-- In `a|b*` the starred branch goes on with `é`, and a group that is left open behind it is missed
at the end of the whole. -/
theorem parse_append_starred :
    parse ("a|b*" ++ "é|c") {} = .ok (.last (.alternation
      [.last (.literal 'a'),
        .link (.repetition (.last (.literal 'b')) 0 .unbounded) (.last (.literal 'é')),
        .last (.literal 'c')])) ∧
    parse ("a|b*" ++ "(é") {} = .error ⟨.unterminatedGroup, 7⟩ := by
  have hp : parse "a|b*" {} = .ok (.last (.alternation
      ([.last (.literal 'a')] ++ [.last (.repetition (.last (.literal 'b')) 0 .unbounded)]))) := rfl
  exact ⟨(parse_append hp ⟨'é', rfl, by decide⟩).1 _ _ rfl,
    (parse_append hp ⟨'(', rfl, by decide⟩).2 ⟨.unterminatedGroup, 3⟩ rfl⟩

/-! ### Two patterns with a bar between them -/

/-- Behind a bar, a text is read as it is at the start. -/
theorem readBehind_bar {s : UnfinishedPattern} {n : Node} {level : UInt32}
    (hread : UnfinishedPattern.read o {} 0 p.toList = .ok s) (houter : s.outer = [])
    (hfocus : s.focus = .element n level) (q : String) :
    ReadBehind o (s.nextBranch n) (p.utf8ByteSize + 1) (p ++ "|" ++ q) q where
  closed := ⟨houter, (UnfinishedPattern.closed_of_read hread houter).depth_eq⟩
  size_eq := by
    rw [String.utf8ByteSize_append, String.utf8ByteSize_append, Nat.add_comm]
    rfl
  read_eq := by
    have hbar : s.step o p.utf8ByteSize '|' = .ok (s.nextBranch n) :=
      (UnfinishedPattern.Step.bar hfocus).step_eq
    rw [String.append_assoc, String.toList_append, UnfinishedPattern.read_append_of_ok hread,
      Nat.zero_add, utf8Len_toList, String.toList_append, UnfinishedPattern.around_start]
    exact UnfinishedPattern.read_cons_of_step hbar

/-- Two patterns with a bar between them: the branches of both, in order, and the fault of the
second one is found further on. -/
theorem parse_append_bar (hp : parse p o = .ok (.last (.alternation bs))) (q : String) :
    (∀ cs, parse q o = .ok (.last (.alternation cs)) →
      parse (p ++ "|" ++ q) o = .ok (.last (.alternation (bs ++ cs)))) ∧
    ∀ e, parse q o = .error e →
      parse (p ++ "|" ++ q) o = .error (e.shift (p.utf8ByteSize + 1)) := by
  obtain ⟨s, n, level, hread, houter, hfocus, rfl⟩ := exists_of_parse_alternation hp
  have hbehind := readBehind_bar hread houter hfocus q
  refine ⟨fun cs hparse => ?_, fun e => hbehind.parse_error⟩
  obtain ⟨first, rest, rfl⟩ := exists_cons_of_parse hparse
  exact hbehind.parse_ok hparse

/-- Behind a bar, `)` and `*` are characters like others at the start of a branch, and a branch is
missed where the pattern ends. -/
theorem parse_append_bar_reserved :
    parse ("[a|]" ++ "|" ++ ")|*") {} = .ok (.last (.alternation
      [.last (.alternation [.last (.literal 'a'), .last (.literal '|')]),
        .last (.literal ')'), .last (.literal '*')])) ∧
    parse ("[a|]" ++ "|" ++ "") {} = .error ⟨.unexpectedEnd, 5⟩ := by
  have hp : parse "[a|]" {} = .ok (.last (.alternation
      [.last (.alternation [.last (.literal 'a'), .last (.literal '|')])])) := rfl
  exact ⟨(parse_append_bar hp ")|*").1 _ rfl, (parse_append_bar hp "").2 ⟨.unexpectedEnd, 0⟩ rfl⟩

/-! ### A pattern in a group -/

/-- Outside all groups, a closing parenthesis has nothing to close, whatever follows. -/
theorem parse_append_close (hp : parse p o = .ok t) (r : String) :
    parse (p ++ ")" ++ r) o = .error ⟨.unmatchedClose, p.utf8ByteSize⟩ := by
  obtain ⟨s, hread, hfinish⟩ := exists_of_parse_ok hp
  obtain ⟨houter, n, level, hfocus, -⟩ := UnfinishedPattern.finish_eq_ok_iff.mp hfinish
  have hclose : s.step o p.utf8ByteSize ')' = .error ⟨.unmatchedClose, p.utf8ByteSize⟩ :=
    (UnfinishedPattern.Fault.unmatched hfocus houter).step_eq
  apply parse_of_read_error
  rw [String.append_assoc, String.toList_append, UnfinishedPattern.read_append_of_ok hread,
    Nat.zero_add, utf8Len_toList, String.toList_append]
  exact UnfinishedPattern.read_cons_of_step_error hclose

namespace UnfinishedPattern

/-- The only group has just been opened. -/
def inGroup : UnfinishedPattern where
  outer := [{}]
  depth := 1

/-- In a group, a text is read with one more level as it is read alone. -/
theorem read_inGroup {s : UnfinishedPattern} {a : List Char} (hl : l.toNat < 2 ^ 32 - 1)
    (hread : read ⟨strict, l⟩ {} 0 a = .ok s) (ha : BegunGroup a) :
    read ⟨strict, l + 1⟩ {} 0 ('(' :: a) = .ok (inGroup.around 1 s) := by
  have hstart : a ≠ [] := by
    rintro rfl
    obtain ⟨_, ⟨⟩, _⟩ := ha
  have hle : (0 : UInt32) + 1 ≤ l + 1 := level_succ_le_level_succ hl UInt32.zero_le
  calc read ⟨strict, l + 1⟩ {} 0 ('(' :: a)
      = read ⟨strict, l + 1⟩ { focus := .group 0 } 1 a := rfl
    _ = inGroup.readFresh ⟨strict, l + 1⟩ 1 a := readFresh_of_group rfl ha hle
    _ = (inGroup.around 1 {}).read ⟨strict, l + 1⟩ 1 a := (read_around_start _ _ hstart).symm
    _ = .ok (inGroup.around 1 s) := read_around hread 1 fun _ => level_succ_le_level_succ hl

end UnfinishedPattern

/-- Behind an opening parenthesis, a pattern leaves one group open, whose frame has its tree. -/
theorem exists_read_open (hp : parse p ⟨strict, l⟩ = .ok t) (hl : l.toNat < 2 ^ 32 - 1)
    (hhead : p.toList.head? ≠ some ')') :
    ∃ s n level, UnfinishedPattern.read ⟨strict, l + 1⟩ {} 0 ("(" ++ p).toList = .ok s ∧
      s.outer = [{}] ∧ s.focus = .element n level ∧ t = .last (s.frame.node n) := by
  obtain ⟨s, hread, hfinish⟩ := exists_of_parse_ok hp
  obtain ⟨houter, n, level, hfocus, rfl⟩ := UnfinishedPattern.finish_eq_ok_iff.mp hfinish
  have hbegun : BegunGroup p.toList := by
    cases hchars : p.toList with
    | nil =>
      rw [hchars] at hread
      cases hread
      cases hfocus
    | cons c a => exact ⟨c, rfl, fun hc => hhead (by rw [hchars, hc]; rfl)⟩
  refine ⟨UnfinishedPattern.inGroup.around 1 s, n, level + 1, ?_, ?_,
    UnfinishedPattern.around_focus hfocus, ?_⟩
  · rw [String.toList_append]
    exact UnfinishedPattern.read_inGroup hl hread hbegun
  · rw [UnfinishedPattern.around, houter]
    rfl
  · rw [UnfinishedPattern.around, houter]
    exact congrArg Chain.last (s.frame.node_empty_before n).symm

/-- A group that a pattern leaves open is missed at its end. -/
theorem parse_open (hp : parse p ⟨strict, l⟩ = .ok t) (hl : l.toNat < 2 ^ 32 - 1)
    (hhead : p.toList.head? ≠ some ')') :
    parse ("(" ++ p) ⟨strict, l + 1⟩ = .error ⟨.unterminatedGroup, p.utf8ByteSize + 1⟩ := by
  obtain ⟨s, n, level, hread, houter, hfocus, -⟩ := exists_read_open hp hl hhead
  have hopen : s.outer ≠ [] := by
    rw [houter]
    exact List.cons_ne_nil _ _
  have hsize : ("(" ++ p).utf8ByteSize = p.utf8ByteSize + 1 := by
    rw [String.utf8ByteSize_append, Nat.add_comm]
    rfl
  rw [parse_of_read hread, hsize]
  exact (UnfinishedPattern.EndFault.openGroup hfocus hopen).finish_eq

/-- A group has the tree of what stands in it. -/
theorem parse_group (hp : parse p ⟨strict, l⟩ = .ok t) (hl : l.toNat < 2 ^ 32 - 1)
    (hhead : p.toList.head? ≠ some ')') :
    parse ("(" ++ p ++ ")") ⟨strict, l + 1⟩ = .ok (.last (.alternation [t])) := by
  obtain ⟨s, n, level, hread, houter, hfocus, rfl⟩ := exists_read_open hp hl hhead
  let closed : UnfinishedPattern :=
    UnfinishedPattern.complete { depth := s.depth - 1 } (s.frame.node n)
  have hclose (offset : Nat) : s.step ⟨strict, l + 1⟩ offset ')' = .ok closed :=
    (UnfinishedPattern.Step.close hfocus houter).step_eq
  have hread' : UnfinishedPattern.read ⟨strict, l + 1⟩ {} 0 ("(" ++ p ++ ")").toList =
      .ok closed := by
    rw [String.toList_append, UnfinishedPattern.read_append_of_ok hread]
    exact UnfinishedPattern.read_singleton.trans (hclose _)
  rw [parse_of_read hread']
  exact UnfinishedPattern.finish_of_element rfl rfl

/-- A pattern in front of a closing parenthesis ends there, and a pattern that does not begin with
one is the only branch of a group around it. -/
theorem parse_balance (hp : parse p ⟨strict, l⟩ = .ok t) :
    (∀ r, parse (p ++ ")" ++ r) ⟨strict, l⟩ = .error ⟨.unmatchedClose, p.utf8ByteSize⟩) ∧
    (l.toNat < 2 ^ 32 - 1 → p.toList.head? ≠ some ')' →
      parse ("(" ++ p ++ ")") ⟨strict, l + 1⟩ = .ok (.last (.alternation [t])) ∧
      parse ("(" ++ p) ⟨strict, l + 1⟩ = .error ⟨.unterminatedGroup, p.utf8ByteSize + 1⟩) :=
  ⟨parse_append_close hp, fun hl hhead => ⟨parse_group hp hl hhead, parse_open hp hl hhead⟩⟩

/-- The parenthesis in `a|)*` is a character like others, so it closes no group. -/
theorem parse_balance_literal_close :
    ∃ t, parse "a|)*" ⟨true, 1⟩ = .ok t ∧
      parse ("a|)*" ++ ")" ++ "b") ⟨true, 1⟩ = .error ⟨.unmatchedClose, 4⟩ ∧
      parse ("(" ++ "a|)*" ++ ")") ⟨true, 2⟩ = .ok (.last (.alternation [t])) ∧
      parse ("(" ++ "a|)*") ⟨true, 2⟩ = .error ⟨.unterminatedGroup, 5⟩ := by
  obtain ⟨t, ht⟩ : ∃ t, parse "a|)*" ⟨true, 1⟩ = .ok t := ⟨_, rfl⟩
  obtain ⟨hclose, hgroup⟩ := parse_balance ht
  exact ⟨t, ht, hclose "b", hgroup (by decide) (by decide)⟩

end PatternTree
