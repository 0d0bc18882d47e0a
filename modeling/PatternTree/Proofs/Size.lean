import Mathlib.Algebra.GroupWithZero.Nat
import PatternTree.Proofs.Derivation
import PatternTree.Tree.Size
/-!
# The size of the trees of patterns

Every node of a tree is paid for by a character of its own: a group or a class by its opening
bracket, a complement by its circumflex, a quantifier by its first character, and a single character
or a range by one of the characters that it is written with. A hyphen in front of the bracket that
closes a class is a node of its own and pays for it. Only the outermost alternation is paid for by
no character, so a tree has at most one node more than its pattern has characters.

While a pattern is read, `UnfinishedPattern.size` counts the nodes that are complete and those that
have been begun, and no character adds more than one. The bound is reached where every character
stands for itself.

## Main definitions

* `UnfinishedClass.size`, `Frame.size`, `Focus.size`, `UnfinishedPattern.size` — the nodes that the
  text read so far has paid for.

## Main results

* `UnfinishedClass.Step.size_le`, `UnfinishedPattern.Step.size_le` — one more character adds at most
  one node.
* `UnfinishedPattern.size_le_of_read` — the nodes that a text has paid for.
* `size_le_length_of_parse` — the size of the tree of a pattern.
-/

namespace PatternTree

/-! ### Chains and branches -/

namespace Chain

theorem sizeAll_eq_sum (cs : List Chain) : sizeAll cs = (cs.map size).sum := by
  induction cs with
  | nil => rfl
  | cons c cs ih => rw [sizeAll, ih, List.map_cons, List.sum_cons]

theorem sizeAll_reverse (cs : List Chain) : sizeAll cs.reverse = sizeAll cs := by
  rw [sizeAll_eq_sum, sizeAll_eq_sum, List.map_reverse, List.sum_reverse]

/-- Branches of one node each. -/
theorem sizeAll_map_last (ns : List Node) : sizeAll (ns.map last) = (ns.map Node.size).sum := by
  rw [sizeAll_eq_sum, List.map_map]
  rfl

theorem size_prepend (before : List Node) (c : Chain) :
    (prepend before c).size = (before.map Node.size).sum + c.size := by
  induction before generalizing c with
  | nil => exact (Nat.zero_add _).symm
  | cons n before ih =>
    change (prepend before (link n c)).size = _
    rw [ih, size, List.map_cons, List.sum_cons]
    omega

end Chain

/-! ### Classes -/

/-- The nodes of an entry that is being read. -/
def ClassFocus.size : ClassFocus → Nat
  | .start | .entry | .escape _ => 0
  | .single _ _ | .hyphenEscape _ _ => 1
  | .hyphen _ _ => 2

namespace UnfinishedClass

/-- The nodes of a class with the entries that are complete and the one that is being read. -/
def size (k : UnfinishedClass) : Nat :=
  k.node.size + k.focus.size

variable {o : Options} {k k' : UnfinishedClass} {offset : Nat} {c : Char} {n : Node}

theorem size_node (k : UnfinishedClass) :
    k.node.size = (k.entries.map Node.size).sum + 1 + k.negated.toNat := by
  have hentries : Chain.sizeAll (k.entries.reverse.map .last) = (k.entries.map Node.size).sum := by
    rw [List.map_reverse, Chain.sizeAll_reverse, Chain.sizeAll_map_last]
  cases hk : k.negated with
  | false =>
    simp only [node, hk, Bool.false_eq_true, ↓reduceIte]
    rw [Node.size, hentries]
    rfl
  | true =>
    simp only [node, hk, ↓reduceIte]
    rw [Node.size, Chain.size, Node.size, hentries]
    rfl

theorem size_node_add (k : UnfinishedClass) (n : Node) :
    (k.add n).node.size = k.node.size + n.size := by
  rw [size_node, size_node]
  simp only [add, List.map_cons, List.sum_cons]
  omega

/-- Where an entry may begin, no other one is being read. -/
theorem size_node_settle (h : k.Ready c) : k.settle.node.size = k.size := by
  cases hk : k.focus with
  | start => rw [settle_of_start hk, size, hk, ClassFocus.size, Nat.add_zero]
  | entry => rw [settle_of_entry hk, size, hk, ClassFocus.size, Nat.add_zero]
  | single => rw [settle_of_single hk, size_node_add, size, hk, ClassFocus.size, Node.size]
  | escape | hyphen | hyphenEscape =>
    rw [Ready, hk] at h
    exact h.elim

/-- One more character adds at most one node to a class. -/
theorem Step.size_le (h : k.Step o offset c (.going k')) : k'.size ≤ k.size + 1 := by
  cases h with
  | negate =>
    have hnegated := k.negated.toNat_le
    simp only [size, size_node, ClassFocus.size, Bool.toNat_true]
    omega
  | escape hk =>
    have hsettle := size_node_settle hk
    change k.settle.node.size + 0 ≤ _
    omega
  | character hk =>
    have hsettle := size_node_settle hk
    change k.settle.node.size + 1 ≤ _
    omega
  | escaped hk | hyphen hk | hyphenEscape hk =>
    change k.node.size + _ ≤ k.node.size + k.focus.size + 1
    rw [hk]
    simp only [ClassFocus.size]
    omega
  | range hk | escapedRange hk =>
    -- The hyphen turns out not to be a node, and the two ends make one node together.
    change (k.add _).node.size + 0 ≤ k.node.size + k.focus.size + 1
    rw [hk, size_node_add, Node.size]
    simp only [ClassFocus.size]
    omega

/-- The bracket that closes a class adds no node; a hyphen in front of it has been counted. -/
theorem Step.size_node_le (h : k.Step o offset c (.done n)) : n.size ≤ k.size := by
  cases h with
  | close hk => exact (size_node_settle hk).le
  | finalHyphen hk =>
    change _ ≤ k.node.size + k.focus.size
    rw [hk, size_node_add, size_node_add, Node.size, Node.size, ClassFocus.size]

end UnfinishedClass

/-! ### Patterns -/

/-- The nodes of the complete parts of a frame. -/
def Frame.size (f : Frame) : Nat :=
  Chain.sizeAll f.branches + (f.elements.map Node.size).sum

theorem Frame.sizeAll_close (f : Frame) (n : Node) :
    Chain.sizeAll (f.close n) = f.size + n.size := by
  rw [close, Chain.sizeAll, Chain.size_prepend, Chain.size, size]
  omega

theorem Frame.size_node (f : Frame) (n : Node) : (f.node n).size = f.size + n.size + 1 := by
  rw [node, Node.size, Chain.sizeAll_reverse, sizeAll_close]

/-- The nodes of the element that is being read: an opening parenthesis stands for one, and so does
a quantifier whose bounds are being read. -/
def Focus.size : Focus → Nat
  | .branch | .escape => 0
  | .group _ => 1
  | .element n _ => n.size
  | .inClass k => k.size
  | .inBounds n _ _ => n.size + 1

namespace UnfinishedPattern

/-- The nodes of the complete parts of all frames, with an alternation for each group that is
open. -/
def frameSize (s : UnfinishedPattern) : Nat :=
  (s.outer.map fun f => f.size + 1).sum + s.frame.size

/-- The nodes that the text read so far has paid for. -/
def size (s : UnfinishedPattern) : Nat :=
  s.frameSize + s.focus.size

variable {o : Options} {s s' : UnfinishedPattern} {offset : Nat} {c : Char} {p : List Char}
  {n : Node} {level : UInt32}

theorem size_of_focus {focus : Focus} (hs : s.focus = focus) :
    s.size = s.frameSize + focus.size := by
  rw [size, hs]

/-- A step that changes only what comes next. -/
theorem size_refocus_le {old focus : Focus} (hs : s.focus = old) (h : focus.size ≤ old.size + 1) :
    size { s with focus } ≤ s.size + 1 := by
  rw [size_of_focus hs]
  exact Nat.add_le_add_left h _

/-- The first character of an element adds at most one node. -/
theorem size_beginElement_le (s : UnfinishedPattern) (offset : Nat) (c : Char) :
    (s.beginElement offset c).size ≤ s.frameSize + 1 := by
  have hfocus : (s.beginElement offset c).focus.size ≤ 1 := by
    rw [beginElement]
    split_ifs
    · exact le_rfl
    · exact le_rfl
    · exact le_rfl
    · exact Nat.zero_le 1
    · exact le_rfl
  rw [beginElement_eq]
  exact Nat.add_le_add_left hfocus _

theorem frameSize_add (s : UnfinishedPattern) (n : Node) :
    (s.add n).frameSize = s.frameSize + n.size := by
  simp only [frameSize, add, Frame.size, List.map_cons, List.sum_cons]
  omega

/-- An opening parenthesis pays for the alternation of its group. -/
theorem frameSize_open (s : UnfinishedPattern) (depth : UInt32) :
    frameSize { outer := s.frame :: s.outer, depth } = s.frameSize + 1 := by
  simp only [frameSize, Frame.size, Chain.sizeAll, List.map_cons, List.sum_cons, List.map_nil,
    List.sum_nil]
  omega

theorem size_nextBranch (hs : s.focus = .element n level) : (s.nextBranch n).size = s.size := by
  have hframe : Frame.size { branches := s.frame.close n } = s.frame.size + n.size :=
    s.frame.sizeAll_close n
  rw [size_of_focus hs]
  simp only [size, frameSize, nextBranch, hframe, Focus.size]
  omega

/-- A group that is closed has been paid for. -/
theorem size_closeGroup {f : Frame} {outer : List Frame} {depth : UInt32}
    (hs : s.focus = .element n level) (houter : s.outer = f :: outer) :
    (complete { outer, depth, frame := f } (s.frame.node n)).size = s.size := by
  rw [size_of_focus hs]
  simp only [size, frameSize, complete, houter, Focus.size, Frame.size_node, List.map_cons,
    List.sum_cons]
  omega

/-- One more character adds at most one node. -/
theorem Step.size_le (h : s.Step o offset c s') : s'.size ≤ s.size + 1 := by
  cases h with
  | first hs =>
    rw [size_of_focus hs]
    exact size_beginElement_le s offset c
  | bar hs => exact (size_nextBranch hs).le.trans (Nat.le_succ _)
  | close hs houter => exact (size_closeGroup hs houter).le.trans (Nat.le_succ _)
  | brace hs | quantifier hs => exact size_refocus_le hs le_rfl
  | next hs =>
    -- The nodes of the element before go to the frame, so `c` pays for the new ones alone.
    refine (size_beginElement_le _ offset c).trans ?_
    rw [frameSize_add, size_of_focus hs]
    exact le_rfl
  | escaped hs => exact size_refocus_le hs le_rfl
  | emptyGroup hs => exact size_refocus_le hs (Nat.le_succ 1)
  | group hs =>
    refine (size_beginElement_le _ offset c).trans ?_
    rw [frameSize_open, size_of_focus hs]
    exact le_rfl
  | inClass hs hk => exact size_refocus_le hs hk.size_le
  | ofClass hs hk => exact size_refocus_le hs (hk.size_node_le.trans (Nat.le_succ _))
  | inBounds hs | ofBounds hs => exact size_refocus_le hs (Nat.le_succ _)

/-- A text has paid for at most one node with each character. -/
theorem size_le_of_read (h : read o {} 0 p = .ok s) : s.size ≤ p.length := by
  refine read_induction (P := fun p s => s.size ≤ p.length) (Nat.le_refl 0) ?_ h
  intro p s c s' hs hstep
  have hsize := (step_eq_ok_iff.mp hstep).size_le
  rw [List.length_append, List.length_singleton]
  omega

/-- The tree of a pattern has the nodes that have been paid for and the outermost alternation. -/
theorem size_of_finish {stop : Nat} {t : Chain} (h : s.finish o stop = .ok t) :
    t.size = s.size + 1 := by
  obtain ⟨houter, n, level, hs, rfl⟩ := finish_eq_ok_iff.mp h
  rw [Chain.size, Frame.size_node, size_of_focus hs, frameSize, houter, List.map_nil, List.sum_nil,
    Nat.zero_add]
  rfl

end UnfinishedPattern

/-! ### Characters that stand for themselves -/

namespace Grammar

variable {o : Options} {depth : Nat} {first : Bool} {p : List Char}

/-- A text of characters without a meaning of their own is a branch of one node for each. -/
theorem exists_branch_of_ordinary (hp : p ≠ [])
    (h : ∀ c ∈ p, c ∉ ['.', '(', '[', '\\', ')', '|', '?', '*', '+', '{']) :
    ∃ t, Branch o depth first p t ∧ t.size = p.length := by
  induction p generalizing first with
  | nil => exact absurd rfl hp
  | cons c p ih =>
    have hc := h c List.mem_cons_self
    simp only [List.mem_cons, List.not_mem_nil, or_false, not_or] at hc
    have hbase : Base o depth first [c] (.literal c) :=
      .plain (by simp [hc]) fun _ => by simp [hc]
    rcases eq_or_ne p [] with rfl | hne
    · exact ⟨.last (.literal c), .last (.base hbase), rfl⟩
    · obtain ⟨t, ht, hsize⟩ : ∃ t, Branch o depth false p t ∧ t.size = p.length :=
        ih hne fun d hd => h d (List.mem_cons_of_mem c hd)
      refine ⟨.link (.literal c) t, .link (.base hbase) ht, ?_⟩
      rw [Chain.size, hsize, Node.size, List.length_cons, Nat.add_comm]

end Grammar

/-! ### The trees of patterns -/

section Parse

variable {p : String} {o : Options} {t : Chain}

theorem size_le_of_parse (h : parse p o = .ok t) : t.size ≤ p.length + 1 := by
  obtain ⟨s, hread, hfinish⟩ := exists_of_parse_ok h
  rw [UnfinishedPattern.size_of_finish hfinish, ← String.length_toList]
  exact Nat.succ_le_succ (UnfinishedPattern.size_le_of_read hread)

theorem exists_parse_of_ordinary (o : Options) (hp : p ≠ "")
    (h : ∀ c ∈ p.toList, c ∉ ['.', '(', '[', '\\', ')', '|', '?', '*', '+', '{']) :
    ∃ t, parse p o = .ok t ∧ t.size = p.length + 1 := by
  have hne : p.toList ≠ [] := String.toList_eq_nil_iff.not.mpr hp
  obtain ⟨c, hc, hsize⟩ := Grammar.exists_branch_of_ordinary (o := o) hne h
  refine ⟨_, parse_of_derives ⟨[c], .last hc, rfl⟩, ?_⟩
  rw [Chain.size, Node.size, Chain.sizeAll, Chain.sizeAll, hsize, String.length_toList]

/-- There are texts of letters of any length. -/
theorem exists_letters (n : Nat) : ∃ p : String, p.length = n ∧ ∀ c ∈ p.toList, c.isAlpha := by
  refine ⟨.ofList (.replicate n 'a'), ?_, fun c hc => ?_⟩
  · rw [String.length_ofList, List.length_replicate]
  · rw [String.toList_ofList] at hc
    rw [List.eq_of_mem_replicate hc]
    rfl

theorem not_mem_of_isAlpha {c : Char} (h : c.isAlpha) :
    c ∉ ['.', '(', '[', '\\', ')', '|', '?', '*', '+', '{'] := by
  intro hc
  have hall : (['.', '(', '[', '\\', ')', '|', '?', '*', '+', '{'].all fun d => !d.isAlpha) := rfl
  have hnot := List.all_eq_true.mp hall c hc
  rw [h] at hnot
  cases hnot

/-- The tree of a pattern has at most one node more than the pattern has characters. A pattern of
one or more characters that stand for themselves has as many, and letters are such characters, so
the bound is reached for every length. -/
theorem size_le_length_of_parse (o : Options) :
    (∀ p t, parse p o = .ok t → t.size ≤ p.length + 1) ∧
    (∀ p : String, p ≠ "" →
      (∀ c ∈ p.toList, c ∉ ['.', '(', '[', '\\', ')', '|', '?', '*', '+', '{']) →
        ∃ t, parse p o = .ok t ∧ t.size = p.length + 1) ∧
    ∀ n ≥ 1, ∃ p t, p.length = n ∧ (∀ c ∈ p.toList, c.isAlpha) ∧
      parse p o = .ok t ∧ t.size = n + 1 := by
  refine ⟨fun p t => size_le_of_parse, fun p => exists_parse_of_ordinary o, fun n hn => ?_⟩
  obtain ⟨p, rfl, hletters⟩ := exists_letters n
  have hne : p ≠ "" := by
    rintro rfl
    cases hn
  obtain ⟨t, ht, hsize⟩ := exists_parse_of_ordinary o hne fun c hc =>
    not_mem_of_isAlpha (hletters c hc)
  exact ⟨p, t, rfl, hletters, ht, hsize⟩

/-- A complement whose class ends with a hyphen is within the bound, and two letters reach it. -/
theorem size_le_length_of_parse_letters :
    (∃ t, parse "[^a-]|b" {} = .ok t ∧ t.size ≤ "[^a-]|b".length + 1) ∧
      ("éa" ≠ "" ∧ (∀ c ∈ "éa".toList, c ∉ ['.', '(', '[', '\\', ')', '|', '?', '*', '+', '{']) ∧
        ∃ t, parse "éa" {} = .ok t ∧ t.size = "éa".length + 1) ∧
      3 ≥ 1 ∧ ∃ p t, p.length = 3 ∧ (∀ c ∈ p.toList, c.isAlpha) ∧
        parse p {} = .ok t ∧ t.size = 3 + 1 :=
  ⟨⟨_, rfl, (size_le_length_of_parse {}).1 "[^a-]|b" _ rfl⟩,
    ⟨by decide, by simp, (size_le_length_of_parse {}).2.1 "éa" (by decide) (by simp)⟩,
    by decide, (size_le_length_of_parse {}).2.2 3 (by decide)⟩

end Parse

end PatternTree
