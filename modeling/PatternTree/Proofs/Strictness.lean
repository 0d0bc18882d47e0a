import PatternTree.Proofs.FaultOffsets
import PatternTree.Tree.Inverted
/-!
# Strict options as a check of the tree

Strict options refuse an inverted range or inverted bounds where they are read. The same faults can
be read off the tree that lenient options give, where they are listed in the order in which the
pattern completes them. So reading strictly is reading leniently and then looking for the first
fault in the tree, except that a lenient fault may hide behind an earlier strict one.

The proof follows the two runs character by character. What has been read holds a list of faults as
a tree does, a lenient step adds at most one fault to it, and the step that adds the first one is
where the strict run stops.

## Main definitions

* `UnfinishedPattern.faults` — the faults of what has been read, in order.
* `UnfinishedPattern.StrictRun` — how strict options read a text that lenient ones can read.

## Main results

* `UnfinishedPattern.Step.strict` — one step of the two runs.
* `UnfinishedPattern.strictRun_of_read` — the two runs.
* `parse_strict` — strict parsing is lenient parsing and a check of the tree.
-/

open String (utf8Len utf8Len_toList)

namespace PatternTree

/-- Whether a fault is an inverted range or inverted bounds. -/
def Cause.isInverted : Cause → Bool
  | .invertedRange _ _ | .invertedBounds _ _ => true
  | _ => false

/-! ### The faults of what has been read -/

namespace Chain

theorem faultsAll_append (cs ds : List Chain) :
    faultsAll (cs ++ ds) = faultsAll cs ++ faultsAll ds := by
  induction cs with
  | nil => rfl
  | cons c cs ih => rw [List.cons_append, faultsAll, faultsAll, ih, List.append_assoc]

theorem faultsAll_map_last (ns : List Node) :
    faultsAll (ns.map .last) = ns.flatMap Node.faults := by
  induction ns with
  | nil => rfl
  | cons n ns ih => rw [List.map_cons, faultsAll, faults, ih, List.flatMap_cons]

theorem faults_prepend (before : List Node) (c : Chain) :
    (prepend before c).faults = before.reverse.flatMap Node.faults ++ c.faults := by
  induction before generalizing c with
  | nil => rfl
  | cons n before ih =>
    change (prepend before (link n c)).faults = _
    rw [ih, faults, List.reverse_cons, List.flatMap_append, List.flatMap_singleton,
      List.append_assoc]

end Chain

namespace Frame

/-- The faults of a frame, in order. -/
def faults (f : Frame) : List Cause :=
  Chain.faultsAll f.branches.reverse ++ f.elements.reverse.flatMap Node.faults

theorem faultsAll_close (f : Frame) (n : Node) :
    Chain.faultsAll (f.close n).reverse = f.faults ++ n.faults := by
  have hlast : Chain.faultsAll [Chain.prepend f.elements (.last n)] =
      f.elements.reverse.flatMap Node.faults ++ n.faults := by
    rw [Chain.faultsAll, Chain.faults_prepend, Chain.faults, Chain.faultsAll, List.append_nil]
  rw [close, List.reverse_cons, Chain.faultsAll_append, hlast, faults, List.append_assoc]

theorem faults_node (f : Frame) (n : Node) : (f.node n).faults = f.faults ++ n.faults := by
  rw [node, Node.faults, faultsAll_close]

end Frame

/-- The faults of a class of which a part has been read, in order. -/
def UnfinishedClass.faults (k : UnfinishedClass) : List Cause :=
  k.entries.reverse.flatMap Node.faults

/-- The faults of what stands before the next character, in order. -/
def Focus.faults : Focus → List Cause
  | .element n _ | .inBounds n _ _ => n.faults
  | .inClass k => k.faults
  | .branch | .escape | .group _ => []

namespace UnfinishedPattern

/-- The faults of what is complete in the open groups, in order. -/
def frameFaults (s : UnfinishedPattern) : List Cause :=
  (s.frame :: s.outer).reverse.flatMap Frame.faults

/-- The faults of what has been read of a pattern, in order. -/
def faults (s : UnfinishedPattern) : List Cause :=
  s.frameFaults ++ s.focus.faults

variable {s : UnfinishedPattern} {offset : Nat} {c : Char} {n : Node} {level : UInt32}

theorem frameFaults_eq (s : UnfinishedPattern) :
    s.frameFaults = s.outer.reverse.flatMap Frame.faults ++ s.frame.faults := by
  rw [frameFaults, List.reverse_cons, List.flatMap_append, List.flatMap_singleton]

theorem faults_of_element (hs : s.focus = .element n level) :
    s.faults = s.frameFaults ++ n.faults := by
  rw [faults, hs, Focus.faults]

theorem faults_of_inBounds {b : UnfinishedBounds} (hs : s.focus = .inBounds n level b) :
    s.faults = s.frameFaults ++ n.faults := by
  rw [faults, hs, Focus.faults]

theorem faults_eq_frameFaults (hs : s.focus.faults = []) : s.faults = s.frameFaults := by
  rw [faults, hs, List.append_nil]

theorem faults_completeRepetition (s : UnfinishedPattern) (n : Node) (level : UInt32)
    (bounds : UInt32 × Bound) : (s.completeRepetition n level bounds).faults =
      s.frameFaults ++ n.faults ++ (bounds.2.fault? bounds.1).toList := by
  rw [List.append_assoc]
  rfl

theorem faults_complete (s : UnfinishedPattern) (n : Node) :
    (s.complete n).faults = s.frameFaults ++ n.faults := rfl

theorem faults_beginElement (s : UnfinishedPattern) (offset : Nat) (c : Char) :
    (s.beginElement offset c).faults = s.frameFaults := by
  rw [← List.append_nil s.frameFaults, beginElement]
  split_ifs <;> rfl

theorem frameFaults_nextBranch (s : UnfinishedPattern) (n : Node) :
    (s.nextBranch n).frameFaults = s.frameFaults ++ n.faults := by
  rw [frameFaults_eq, frameFaults_eq, List.append_assoc, ← Frame.faultsAll_close]
  simp only [nextBranch, Frame.faults, List.reverse_nil, List.flatMap_nil, List.append_nil]

theorem frameFaults_add (s : UnfinishedPattern) (n : Node) :
    (s.add n).frameFaults = s.frameFaults ++ n.faults := by
  rw [frameFaults_eq, frameFaults_eq, List.append_assoc]
  simp only [add, Frame.faults, List.reverse_cons, List.flatMap_append, List.flatMap_singleton,
    List.append_assoc]

theorem frameFaults_open (s : UnfinishedPattern) (depth : UInt32) :
    frameFaults { outer := s.frame :: s.outer, depth } = s.frameFaults := by
  rw [frameFaults_eq]
  exact List.append_nil _

theorem frameFaults_of_outer {f : Frame} {outer : List Frame} (houter : s.outer = f :: outer) :
    s.frameFaults = (f :: outer).reverse.flatMap Frame.faults ++ s.frame.faults := by
  rw [frameFaults_eq, houter]

end UnfinishedPattern

/-! ### One step of the two runs -/

variable {limit : UInt32} {offset : Nat} {c : Char} {e : SyntaxError}

namespace UnfinishedBounds

/-- The faults of bounds, once they are complete. -/
def resultFaults : Progress UnfinishedBounds (UInt32 × Bound) → List Cause
  | .going _ => []
  | .done bounds => (bounds.2.fault? bounds.1).toList

variable {b : UnfinishedBounds} {r : Progress UnfinishedBounds (UInt32 × Bound)}

theorem Step.strict (h : b.Step ⟨false, limit⟩ offset c r) :
    (b.Step ⟨true, limit⟩ offset c r ∧ resultFaults r = []) ∨
      ∃ e bounds, b.Fault ⟨true, limit⟩ offset c e ∧ e.cause.isInverted ∧ r = .done bounds ∧
        resultFaults r = [e.cause] := by
  cases h with
  | firstDigit hc hb => exact Or.inl ⟨.firstDigit hc hb, rfl⟩
  | digit hc hb fits => exact Or.inl ⟨.digit hc hb fits, rfl⟩
  | comma => exact Or.inl ⟨.comma, rfl⟩
  | exactly => exact Or.inl ⟨.exactly, by simp [resultFaults, Bound.fault?]⟩
  | atLeast => exact Or.inl ⟨.atLeast, rfl⟩
  | @between brace offset min run _ =>
    by_cases hlt : run.value < min
    · exact Or.inr ⟨_, _, .inverted rfl hlt, rfl, rfl, by simp [resultFaults, Bound.fault?, hlt]⟩
    · exact Or.inl ⟨.between fun _ => UInt32.not_lt.mp hlt,
        by simp [resultFaults, Bound.fault?, hlt]⟩

theorem Fault.strict (h : b.Fault ⟨false, limit⟩ offset c e) :
    b.Fault ⟨true, limit⟩ offset c e := by
  cases h with
  | tooLarge hc hb large => exact .tooLarge hc hb large
  | malformed hc hb hmin hrun => exact .malformed hc hb hmin hrun
  | inverted strict => cases strict

end UnfinishedBounds

namespace UnfinishedClass

/-- The faults of a class after one more character. -/
def resultFaults : Progress UnfinishedClass Node → List Cause
  | .going k => k.faults
  | .done n => n.faults

variable {k : UnfinishedClass} {r : Progress UnfinishedClass Node}

theorem faults_add (k : UnfinishedClass) (n : Node) : (k.add n).faults = k.faults ++ n.faults := by
  rw [faults, add, List.reverse_cons, List.flatMap_append, List.flatMap_singleton, faults]

theorem faults_add_literal (k : UnfinishedClass) (a : Char) :
    (k.add (.literal a)).faults = k.faults := by
  rw [faults_add, Node.faults, List.append_nil]

theorem faults_settle (k : UnfinishedClass) : k.settle.faults = k.faults := by
  rw [settle]
  split
  · exact faults_add_literal k _
  · rfl

theorem faults_node (k : UnfinishedClass) : k.node.faults = k.faults := by
  have hunion : (Node.alternation (k.entries.reverse.map .last)).faults = k.faults := by
    rw [Node.faults, Chain.faultsAll_map_last, faults]
  rw [node]
  split
  · rw [Node.faults, Chain.faults, hunion]
  · exact hunion

theorem faults_add_ordered {a : Char} (h : ¬c < a) : (k.add (.range a c)).faults = k.faults := by
  rw [faults_add, Node.faults, rangeFault?, if_neg h, Option.toList_none, List.append_nil]

theorem faults_add_inverted {a : Char} (h : c < a) :
    (k.add (.range a c)).faults = k.faults ++ [.invertedRange a c] := by
  rw [faults_add, Node.faults, rangeFault?, if_pos h, Option.toList_some]

/-- Behind a complete entry, lenient options report no fault at an earlier offset. -/
theorem not_reportable_add (k : UnfinishedClass) (n : Node) (x : Nat) :
    ¬(k.add n).Reportable ⟨false, limit⟩ x := by
  rintro (⟨⟨⟩, _⟩ | ⟨⟨⟩, _⟩)

theorem Step.strict (h : k.Step ⟨false, limit⟩ offset c r) :
    (k.Step ⟨true, limit⟩ offset c r ∧ resultFaults r = k.faults) ∨
      ∃ e k', k.Fault ⟨true, limit⟩ offset c e ∧ e.cause.isInverted ∧ r = .going k' ∧
        (∀ x, ¬k'.Reportable ⟨false, limit⟩ x) ∧ k'.faults = k.faults ++ [e.cause] := by
  cases h with
  | negate hk => exact Or.inl ⟨.negate hk, rfl⟩
  | close hk nonempty =>
    exact Or.inl ⟨.close hk nonempty, (faults_node k.settle).trans (faults_settle k)⟩
  | escape hk => exact Or.inl ⟨.escape hk, faults_settle k⟩
  | character hk notEnd notEscape =>
    exact Or.inl ⟨.character hk notEnd notEscape, faults_settle k⟩
  | escaped hk => exact Or.inl ⟨.escaped hk, rfl⟩
  | hyphen hk => exact Or.inl ⟨.hyphen hk, rfl⟩
  | finalHyphen hk =>
    refine Or.inl ⟨.finalHyphen hk, ?_⟩
    rw [resultFaults, faults_node, faults_add_literal, faults_add_literal]
  | hyphenEscape hk => exact Or.inl ⟨.hyphenEscape hk, rfl⟩
  | @range _ _ a hk notEnd notEscape _ =>
    by_cases hlt : c < a
    · exact Or.inr ⟨_, _, .inverted hk notEnd notEscape rfl hlt, rfl, rfl, not_reportable_add k _,
        faults_add_inverted hlt⟩
    · exact Or.inl ⟨.range hk notEnd notEscape fun _ => Char.not_lt.mp hlt, faults_add_ordered hlt⟩
  | @escapedRange _ _ a hk _ =>
    by_cases hlt : c < a
    · exact Or.inr ⟨_, _, .escapedInverted hk rfl hlt, rfl, rfl, not_reportable_add k _,
        faults_add_inverted hlt⟩
    · exact Or.inl ⟨.escapedRange hk fun _ => Char.not_lt.mp hlt, faults_add_ordered hlt⟩

theorem Fault.strict (h : k.Fault ⟨false, limit⟩ offset c e) :
    k.Fault ⟨true, limit⟩ offset c e := by
  cases h with
  | empty hk hentries => exact .empty hk hentries
  | inverted _ _ _ strict | escapedInverted _ strict => cases strict

end UnfinishedClass

namespace UnfinishedPattern

variable {s s' : UnfinishedPattern} {p : List Char}

theorem fault?_of_quantifier? {bounds : UInt32 × Bound} (h : quantifier? c = some bounds) :
    bounds.2.fault? bounds.1 = none := by
  rw [quantifier?] at h
  split_ifs at h <;> cases h <;> rfl

/-- A lenient step is a strict step that adds no fault, or it adds the fault that strict options
find, and leaves no earlier offset at which a fault can be reported. -/
theorem Step.strict (h : s.Step ⟨false, limit⟩ offset c s') :
    (s.Step ⟨true, limit⟩ offset c s' ∧ s'.faults = s.faults) ∨
      ∃ e, s.Fault ⟨true, limit⟩ offset c e ∧ e.cause.isInverted ∧
        (∀ x, ¬s'.focus.Reportable ⟨false, limit⟩ x) ∧ s'.faults = s.faults ++ [e.cause] := by
  cases h with
  | first hs =>
    refine Or.inl ⟨.first hs, ?_⟩
    rw [faults_beginElement, faults_eq_frameFaults (by rw [hs]; rfl)]
  | bar hs =>
    refine Or.inl ⟨.bar hs, ?_⟩
    rw [faults_of_element hs, ← frameFaults_nextBranch]
    exact faults_eq_frameFaults rfl
  | close hs houter =>
    refine Or.inl ⟨.close hs houter, ?_⟩
    rw [faults_of_element hs, frameFaults_of_outer houter, faults_complete, Frame.faults_node,
      List.append_assoc]
    rfl
  | brace hs withinLimit =>
    refine Or.inl ⟨.brace hs withinLimit, ?_⟩
    rw [faults_of_element hs]
    rfl
  | quantifier hs hc withinLimit =>
    refine Or.inl ⟨.quantifier hs hc withinLimit, ?_⟩
    rw [faults_of_element hs, faults_completeRepetition, fault?_of_quantifier? hc,
      Option.toList_none, List.append_nil]
  | next hs hc =>
    refine Or.inl ⟨.next hs hc, ?_⟩
    rw [faults_beginElement, frameFaults_add, faults_of_element hs]
  | escaped hs =>
    refine Or.inl ⟨.escaped hs, ?_⟩
    rw [faults_eq_frameFaults (s := s) (by rw [hs]; rfl)]
    exact List.append_nil _
  | emptyGroup hs =>
    refine Or.inl ⟨.emptyGroup hs, ?_⟩
    rw [faults_eq_frameFaults (s := s) (by rw [hs]; rfl)]
    exact List.append_nil _
  | group hs hc withinLimit =>
    refine Or.inl ⟨.group hs hc withinLimit, ?_⟩
    rw [faults_beginElement, frameFaults_open, faults_eq_frameFaults (by rw [hs]; rfl)]
  | inClass hs hk =>
    rcases hk.strict with ⟨hk, hfaults⟩ | ⟨e, k', hk, hcause, ⟨⟩, hx, hfaults⟩
    · refine Or.inl ⟨.inClass hs hk, ?_⟩
      rw [faults, faults, hs]
      exact congrArg _ hfaults
    · refine Or.inr ⟨e, .inClass hs hk, hcause, hx, ?_⟩
      rw [faults, faults, hs, List.append_assoc]
      exact congrArg _ hfaults
  | ofClass hs hk =>
    rcases hk.strict with ⟨hk, hfaults⟩ | ⟨e, k', hk, hcause, ⟨⟩, hx, hfaults⟩
    refine Or.inl ⟨.ofClass hs hk, ?_⟩
    rw [faults_complete, faults, hs]
    exact congrArg _ hfaults
  | inBounds hs hb =>
    rcases hb.strict with ⟨hb, hfaults⟩ | ⟨e, bounds, hb, hcause, ⟨⟩, hfaults⟩
    refine Or.inl ⟨.inBounds hs hb, ?_⟩
    rw [faults, faults, hs]
    rfl
  | ofBounds hs hb =>
    rw [faults_of_inBounds hs, faults_completeRepetition]
    rcases hb.strict with ⟨hb, hfaults⟩ | ⟨e, bounds, hb, hcause, ⟨⟩, hfaults⟩
    · exact Or.inl ⟨.ofBounds hs hb, (congrArg _ hfaults).trans (List.append_nil _)⟩
    · exact Or.inr ⟨e, .inBounds hs hb, hcause, fun _ => id, congrArg _ hfaults⟩

theorem Fault.strict (h : s.Fault ⟨false, limit⟩ offset c e) :
    s.Fault ⟨true, limit⟩ offset c e := by
  cases h with
  | unmatched hs houter => exact .unmatched hs houter
  | quantifier hs hc beyondLimit => exact .quantifier hs hc beyondLimit
  | group hs hc beyondLimit => exact .group hs hc beyondLimit
  | inClass hs hk => exact .inClass hs hk.strict
  | inBounds hs hb => exact .inBounds hs hb.strict

/-! ### The two runs -/

/-- How strict options read the text `p` that lenient options read to `s`: to the same state, which
has no faults, or to the first fault of that state, which is reported before every offset at which
lenient options can still report one. -/
inductive StrictRun (limit : UInt32) (p : List Char) (s : UnfinishedPattern) : Prop
  | same (hread : read ⟨true, limit⟩ {} 0 p = .ok s) (hfaults : s.faults = [])
  | fault {e more} (hread : read ⟨true, limit⟩ {} 0 p = .error e) (hcause : e.cause.isInverted)
      (hfaults : s.faults = e.cause :: more)
      (earlier : ∀ x, s.focus.Reportable ⟨false, limit⟩ x → e.offset < x)

theorem strictRun_of_read (h : read ⟨false, limit⟩ {} 0 p = .ok s) : StrictRun limit p s := by
  refine read_induction (P := StrictRun limit) (.same rfl rfl) ?_ h
  intro p s c s' hrun hstep
  have hstep := step_eq_ok_iff.mp hstep
  rcases hrun with ⟨hread, hfaults⟩ | @⟨e, more, hread, hcause, hfaults, earlier⟩
  · have hsnoc : read ⟨true, limit⟩ {} 0 (p ++ [c]) = s.step ⟨true, limit⟩ (utf8Len p) c := by
      rw [read_append_of_ok hread, read_singleton, Nat.zero_add]
    rcases hstep.strict with ⟨hs, hs'⟩ | ⟨e, he, hcause, hx, hs'⟩
    · exact .same (hsnoc.trans hs.step_eq) (hs'.trans hfaults)
    · have hfirst : s'.faults = [e.cause] := by rw [hs', hfaults, List.nil_append]
      exact .fault (hsnoc.trans he.step_eq) hcause hfirst fun x hx' => absurd hx' (hx x)
  · obtain ⟨extra, hextra⟩ : ∃ extra, s'.faults = s.faults ++ extra := by
      rcases hstep.strict with ⟨-, hs'⟩ | ⟨e', -, -, -, hs'⟩
      · exact ⟨[], by rw [hs', List.append_nil]⟩
      · exact ⟨[e'.cause], hs'⟩
    have hfirst : s'.faults = e.cause :: (more ++ extra) := by
      rw [hextra, hfaults, List.cons_append]
    refine .fault (read_append_of_error hread) hcause hfirst fun x hx => ?_
    rcases hstep.reportable hx with hx | rfl
    · exact earlier x hx
    · exact offset_lt_of_read_error hread

/-- The end of a pattern does not depend on whether options are strict. -/
theorem finish_strict (s : UnfinishedPattern) (stop : Nat) :
    s.finish ⟨true, limit⟩ stop = s.finish ⟨false, limit⟩ stop := rfl

/-- The tree of a pattern has the faults of what has been read of it. -/
theorem faults_of_finish {o : Options} {stop : Nat} {t : Chain} (h : s.finish o stop = .ok t) :
    t.faults = s.faults := by
  obtain ⟨houter, n, level, hs, rfl⟩ := finish_eq_ok_iff.mp h
  rw [Chain.faults, Frame.faults_node, faults_of_element hs, frameFaults_eq, houter]
  rfl

end UnfinishedPattern

/-! ### Parsing -/

section Parse

variable {p : String} {t : Chain}

/-- A tree without faults is the tree that strict options give. Otherwise they find its first
fault. -/
theorem parse_strict_of_ok (h : parse p ⟨false, limit⟩ = .ok t) :
    t.faults = [] ∧ parse p ⟨true, limit⟩ = .ok t ∨
      ∃ f more offset, t.faults = f :: more ∧ parse p ⟨true, limit⟩ = .error ⟨f, offset⟩ := by
  obtain ⟨s, hread, hfinish⟩ := exists_of_parse_ok h
  have ht := UnfinishedPattern.faults_of_finish hfinish
  rcases UnfinishedPattern.strictRun_of_read hread with
    ⟨hstrict, hfaults⟩ | ⟨hstrict, -, hfaults, -⟩
  · refine Or.inl ⟨ht.trans hfaults, ?_⟩
    rw [parse_of_read hstrict, UnfinishedPattern.finish_strict, hfinish]
  · exact Or.inr ⟨_, _, _, ht.trans hfaults, parse_of_read_error hstrict⟩

/-- A fault that lenient options find is what strict options find, unless something inverted stands
before it. -/
theorem parse_strict_of_error (h : parse p ⟨false, limit⟩ = .error e) :
    parse p ⟨true, limit⟩ = .error e ∨
      ∃ e', parse p ⟨true, limit⟩ = .error e' ∧ e'.cause.isInverted ∧ e'.offset < e.offset := by
  rcases exists_of_parse_error h with hread | ⟨s, hread, hfinish⟩
  · obtain ⟨q, c, r, s, hp, hq, hc⟩ := UnfinishedPattern.exists_of_read_error hread
    have hfault := UnfinishedPattern.step_eq_error_iff.mp hc
    rw [Nat.zero_add] at hfault
    rcases UnfinishedPattern.strictRun_of_read hq with
      ⟨hstrict, -⟩ | @⟨e', _, hstrict, hcause, -, earlier⟩
    · refine Or.inl (parse_of_read_error ?_)
      rw [hp, UnfinishedPattern.read_append_of_ok hstrict, Nat.zero_add]
      exact UnfinishedPattern.read_cons_of_step_error hfault.strict.step_eq
    · have hstop : UnfinishedPattern.read ⟨true, limit⟩ {} 0 p.toList = .error e' := by
        rw [hp, UnfinishedPattern.read_append_of_error hstrict]
      refine Or.inr ⟨e', parse_of_read_error hstop, hcause, ?_⟩
      rcases hfault.reportable with hx | hx
      · exact earlier _ hx
      · rw [hx]
        exact UnfinishedPattern.offset_lt_of_read_error hstrict
  · have hfault := UnfinishedPattern.finish_eq_error_iff.mp hfinish
    rcases UnfinishedPattern.strictRun_of_read hread with
      ⟨hstrict, -⟩ | @⟨e', _, hstrict, hcause, -, earlier⟩
    · left
      rw [parse_of_read hstrict, UnfinishedPattern.finish_strict, hfinish]
    · refine Or.inr ⟨e', parse_of_read_error hstrict, hcause, ?_⟩
      rcases hfault.reportable with hx | hx
      · exact earlier _ hx
      · rw [hx, ← utf8Len_toList]
        exact UnfinishedPattern.offset_lt_of_read_error hstrict

/-- Strict options give no tree with a fault. -/
theorem faults_eq_nil_of_parse {o : Options} (strict : o.rejectInverted) (h : parse p o = .ok t) :
    t.faults = [] := by
  obtain ⟨_, limit⟩ := o
  obtain rfl : _ = true := strict
  rcases hlenient : parse p ⟨false, limit⟩ with e | t'
  · rcases parse_strict_of_error hlenient with hstrict | ⟨e', hstrict, -⟩ <;>
      cases h.symm.trans hstrict
  · rcases parse_strict_of_ok hlenient with ⟨hfaults, hstrict⟩ | ⟨f, more, offset, -, hstrict⟩ <;>
      cases h.symm.trans hstrict
    exact hfaults

/-- Strict parsing is lenient parsing and a check of the tree. It gives the tree if the tree has no
faults, and otherwise the first of them. Where lenient parsing finds a fault, it finds that fault,
or an inverted range or inverted bounds before it. -/
theorem parse_strict (p : String) (limit : UInt32) :
    (∀ t, parse p ⟨false, limit⟩ = .ok t →
      (t.faults = [] → parse p ⟨true, limit⟩ = .ok t) ∧
        ∀ f more, t.faults = f :: more → ∃ offset, parse p ⟨true, limit⟩ = .error ⟨f, offset⟩) ∧
    (∀ e, parse p ⟨false, limit⟩ = .error e →
      parse p ⟨true, limit⟩ = .error e ∨
        ∃ e', parse p ⟨true, limit⟩ = .error e' ∧ e'.cause.isInverted ∧ e'.offset < e.offset) ∧
    ∀ t, parse p ⟨true, limit⟩ = .ok t → parse p ⟨false, limit⟩ = .ok t := by
  refine ⟨fun t ht => ?_, fun e => parse_strict_of_error, fun t ht => ?_⟩
  · rcases parse_strict_of_ok ht with ⟨hnil, hstrict⟩ | ⟨f, more, offset, hcons, hstrict⟩
    · exact ⟨fun _ => hstrict, fun f more hcons => by simp [hnil] at hcons⟩
    · refine ⟨fun hnil => by simp [hnil] at hcons, fun g rest hrest => ⟨offset, ?_⟩⟩
      cases hcons.symm.trans hrest
      exact hstrict
  · rcases hlenient : parse p ⟨false, limit⟩ with e | t'
    · rcases parse_strict_of_error hlenient with hstrict | ⟨e', hstrict, -⟩ <;>
        cases ht.symm.trans hstrict
    · rcases parse_strict_of_ok hlenient with ⟨-, hstrict⟩ | ⟨f, more, offset, -, hstrict⟩ <;>
        cases ht.symm.trans hstrict
      rfl

theorem parse_strict_inverted :
    (∃ offset, parse "[z-a]" ⟨true, 250⟩ = .error ⟨.invertedRange 'z' 'a', offset⟩) ∧
      ∃ e, parse "[z-a])" ⟨true, 250⟩ = .error e ∧ e.cause.isInverted ∧ e.offset < 5 := by
  have htree : parse "[z-a]" ⟨false, 250⟩ =
      .ok (.last (.alternation [.last (.alternation [.last (.range 'z' 'a')])])) := rfl
  have hclose : parse "[z-a])" ⟨false, 250⟩ = .error ⟨.unmatchedClose, 5⟩ := rfl
  have hother : parse "[z-a])" ⟨true, 250⟩ ≠ .error ⟨.unmatchedClose, 5⟩ := nofun
  exact ⟨((parse_strict "[z-a]" 250).1 _ htree).2 _ _ rfl,
    ((parse_strict "[z-a])" 250).2.1 _ hclose).resolve_left hother⟩

end Parse

end PatternTree
