import PatternTree.Proofs.SelfDelimiting
import PatternTree.Tree.Outline
/-!
# Outlines determine their trees

An outline is a text of lines, and a line is a depth and a label. The text determines the lines,
since no label begins with a blank and every label shows where it ends. The lines determine the
tree by their depths: what stands below a node is deeper than the node, so a line of the depth of a
chain begins its next node, and a line of a smaller depth ends it. An alternation without branches
is told from one with branches in the same way, by the depth of the next line.

## Main definitions

* `Label`, `OutlineLine` — what a line says, and a line with its depth.
* `Node.lines`, `Chain.lines` — the lines of a part of a tree.
* `EndsAt` — lines that end a chain in front of them.

## Main results

* `Chain.toList_outline` — an outline is the text of its lines.
* `Label.selfDelimiting_text`, `selfDelimiting_lineText` — labels and lines show where they end.
* `Node.lines_append_inj`, `Chain.lines_append_inj` — lines determine a part of a tree, and where
  it ends.
* `Chain.outline_inj` — outlines are equal just when the trees are.
-/

namespace PatternTree

/-- What a line of an outline says. -/
inductive Label where
  | empty
  | dot
  | literal (c : Char)
  | range (start stop : Char)
  | complement
  | alternation
  | branch
  | repetition (min : UInt32) (max : Bound)

/-- A line of an outline. -/
structure OutlineLine where
  /-- How many levels the line is indented. -/
  depth : Nat
  /-- What the line says. -/
  label : Label

namespace Label

/-- A label as it stands in an outline. -/
def text : Label → String
  | empty => "empty"
  | dot => "dot"
  | literal c => "literal " ++ quotedChar c
  | range start stop => "range " ++ quotedChar start ++ "-" ++ quotedChar stop
  | complement => "complement"
  | alternation => "alternation"
  | branch => "branch"
  | repetition min max => "repeat\x7b" ++ toString min.toNat ++ "," ++ max.text ++ "\x7d"

end Label

namespace OutlineLine

/-- A line as it stands in an outline. -/
def text (l : OutlineLine) : String :=
  blanks (2 * l.depth) ++ l.label.text ++ "\n"

/-- Adds a line to an outline. -/
def onto (done : String) (l : OutlineLine) : String :=
  lineOnto l.depth done l.label.text

theorem onto_eq : onto = fun done l => done ++ l.text := by
  funext done l
  rw [onto, lineOnto, text]
  simp only [String.append_assoc]

end OutlineLine

/-! ### The lines of a tree -/

/-- What the first line of a node says. -/
def Node.label : Node → Label
  | .empty => .empty
  | .dot => .dot
  | .literal c => .literal c
  | .range start stop => .range start stop
  | .complement _ => .complement
  | .alternation _ => .alternation
  | .repetition _ min max => .repetition min max

mutual

/-- The lines of a node. -/
def Node.lines (depth : Nat) (n : Node) : List OutlineLine :=
  ⟨depth, n.label⟩ ::
    match n with
    | .complement inner | .repetition inner _ _ => inner.lines (depth + 1)
    | .alternation branches => Chain.linesAll (depth + 1) branches
    | _ => []

/-- The lines of a chain. -/
def Chain.lines (depth : Nat) : Chain → List OutlineLine
  | .last n => n.lines depth
  | .link n next => n.lines depth ++ next.lines depth

/-- The lines of the branches of an alternation. -/
def Chain.linesAll (depth : Nat) : List Chain → List OutlineLine
  | [] => []
  | c :: cs => ⟨depth, .branch⟩ :: c.lines (depth + 1) ++ Chain.linesAll depth cs

end

mutual

/-- The outline of a node is made from its lines. -/
theorem Node.outlineOnto_eq : ∀ (n : Node) (depth : Nat) (done : String),
    n.outlineOnto depth done = (n.lines depth).foldl OutlineLine.onto done
  | .empty, _, _ | .dot, _, _ | .literal _, _, _ | .range _ _, _, _ => rfl
  | .complement inner, depth, _ => inner.outlineOnto_eq (depth + 1) _
  | .alternation branches, depth, _ => Chain.outlineAllOnto_eq branches (depth + 1) _
  | .repetition inner _ _, depth, _ => inner.outlineOnto_eq (depth + 1) _

theorem Chain.outlineOnto_eq : ∀ (c : Chain) (depth : Nat) (done : String),
    c.outlineOnto depth done = (c.lines depth).foldl OutlineLine.onto done
  | .last n, depth, done => n.outlineOnto_eq depth done
  | .link n next, depth, done => by
    rw [Chain.outlineOnto, next.outlineOnto_eq, n.outlineOnto_eq, Chain.lines, List.foldl_append]

theorem Chain.outlineAllOnto_eq : ∀ (cs : List Chain) (depth : Nat) (done : String),
    Chain.outlineAllOnto depth done cs = (Chain.linesAll depth cs).foldl OutlineLine.onto done
  | [], _, _ => rfl
  | c :: cs, depth, done => by
    rw [Chain.outlineAllOnto, Chain.outlineAllOnto_eq cs, c.outlineOnto_eq, Chain.linesAll,
      List.cons_append, List.foldl_cons, List.foldl_append]
    rfl

end

/-- The characters of an outline are those of its lines. -/
theorem Chain.toList_outline (c : Chain) :
    c.outline.toList = (c.lines 0).flatMap fun l => l.text.toList := by
  rw [Chain.outline, c.outlineOnto_eq, OutlineLine.onto_eq, toList_foldl_append]
  rfl

theorem boundText_injective : Function.Injective Bound.text := by
  have hinf : ∀ n : Nat, toString n ≠ "inf" := by
    intro n heq
    refine notMem_toString_nat (fun _ => Nat.digitChar_ne 'i' rfl) n ?_
    rw [heq]
    decide
  intro a b h
  cases a with
  | bounded m =>
    cases b with
    | bounded n => rw [UInt32.toNat_inj.mp (Nat.repr_inj.mp h)]
    | unbounded => exact absurd h (hinf m.toNat)
  | unbounded =>
    cases b with
    | bounded n => exact absurd h.symm (hinf n.toNat)
    | unbounded => rfl

theorem boundText_inj {a b : Bound} {x y : List Char}
    (h : a.text.toList ++ '}' :: x = b.text.toList ++ '}' :: y) : a = b ∧ x = y := by
  refine terminated_inj boundText_injective (fun c => ?_) h
  cases c with
  | bounded n => exact notMem_toString_nat (fun _ => Nat.digitChar_ne '}' rfl) n.toNat
  | unbounded => decide

namespace Label

theorem selfDelimiting_text : SelfDelimiting text := by
  intro a b x y h
  cases a with
  | literal c =>
    cases b with
    | literal d =>
      simp only [text, String.toList_append, List.append_assoc, List.append_cancel_left_eq] at h
      obtain ⟨rfl, hrest⟩ := selfDelimiting_quotedChar h
      exact ⟨rfl, hrest⟩
    | _ => simp [text] at h
  | range start stop =>
    cases b with
    | range start' stop' =>
      simp only [text, String.toList_append, List.append_assoc, List.append_cancel_left_eq] at h
      obtain ⟨rfl, hstop⟩ := selfDelimiting_quotedChar h
      obtain ⟨rfl, hrest⟩ := selfDelimiting_quotedChar (List.append_cancel_left hstop)
      exact ⟨rfl, hrest⟩
    | _ => simp [text] at h
  | repetition min max =>
    cases b with
    | repetition min' max' =>
      simp only [text, String.toList_append, List.append_assoc, List.append_cancel_left_eq] at h
      obtain ⟨rfl, hmax⟩ := decimal_inj (fun _ => Nat.digitChar_ne ',' rfl) h
      obtain ⟨rfl, hrest⟩ := boundText_inj hmax
      exact ⟨rfl, hrest⟩
    | _ => simp [text] at h
  | _ =>
    -- The other labels are fixed words, and no label begins with another.
    cases b <;> simp_all [text]

/-- A label does not begin with a blank. -/
theorem exists_text (l : Label) : ∃ c s, l.text.toList = c :: s ∧ c ≠ ' ' := by
  cases l <;> simp [text]

end Label

/-! ### The lines of an outline -/

/-- The blanks in front of a text that begins with another character are determined. -/
theorem replicate_append_inj {m n : Nat} {c d : Char} {x y : List Char} (hc : c ≠ ' ')
    (hd : d ≠ ' ') (h : List.replicate m ' ' ++ c :: x = List.replicate n ' ' ++ d :: y) :
    m = n ∧ c :: x = d :: y := by
  induction m generalizing n with
  | zero =>
    cases n with
    | zero => exact ⟨rfl, h⟩
    | succ n => exact absurd (List.cons.inj h).1 hc
  | succ m ih =>
    cases n with
    | zero => exact absurd (List.cons.inj h).1.symm hd
    | succ n =>
      obtain ⟨rfl, hrest⟩ := ih (List.cons.inj h).2
      exact ⟨rfl, hrest⟩

theorem selfDelimiting_lineText : SelfDelimiting OutlineLine.text := by
  rintro ⟨depth, label⟩ ⟨depth', label'⟩ x y h
  obtain ⟨c, s, hs, hc⟩ := label.exists_text
  obtain ⟨d, t, ht, hd⟩ := label'.exists_text
  simp only [OutlineLine.text, blanks, String.toList_append, String.toList_ofList,
    List.append_assoc, List.cons_append, hs, ht] at h
  obtain ⟨hdepth, hlabel⟩ := replicate_append_inj hc hd h
  rw [← List.cons_append, ← List.cons_append, ← hs, ← ht] at hlabel
  obtain ⟨rfl, hrest⟩ := Label.selfDelimiting_text hlabel
  rw [Nat.eq_of_mul_eq_mul_left Nat.zero_lt_two hdepth]
  exact ⟨rfl, List.append_cancel_left hrest⟩

theorem lineText_ne_nil (l : OutlineLine) : l.text.toList ≠ [] := by
  simp [OutlineLine.text]

/-! ### Lines determine trees -/

/-- Lines that end a chain of the given depth in front of them: there are none, or the first is less
deep. -/
def EndsAt (depth : Nat) (ls : List OutlineLine) : Prop :=
  ∀ l, ls.head? = some l → l.depth < depth

section

variable {depth : Nat} {x : List OutlineLine}

theorem endsAt_nil : EndsAt depth [] := by
  rintro l ⟨⟩

theorem endsAt_cons {l : OutlineLine} : EndsAt depth (l :: x) ↔ l.depth < depth :=
  ⟨fun h => h l rfl, by rintro h l ⟨⟩; exact h⟩

theorem EndsAt.succ (h : EndsAt depth x) : EndsAt (depth + 1) x :=
  fun l hl => Nat.lt_succ_of_lt (h l hl)

theorem Node.exists_lines (depth : Nat) (n : Node) :
    ∃ ls, n.lines depth = ⟨depth, n.label⟩ :: ls := by
  cases n <;> exact ⟨_, rfl⟩

/-- A chain begins with a line of its own depth. -/
theorem Chain.exists_lines (depth : Nat) (c : Chain) :
    ∃ ls, c.lines depth = ⟨depth, c.head.label⟩ :: ls := by
  cases c with
  | last n => exact n.exists_lines depth
  | link n next =>
    obtain ⟨ls, hls⟩ := n.exists_lines depth
    exact ⟨ls ++ next.lines depth, by rw [Chain.lines, hls, Chain.head, List.cons_append]⟩

theorem Chain.endsAt_lines (c : Chain) : EndsAt (depth + 1) (c.lines depth ++ x) := by
  obtain ⟨ls, hls⟩ := c.exists_lines depth
  rw [hls]
  exact endsAt_cons.mpr (Nat.lt_succ_self depth)

theorem Chain.not_endsAt_lines (c : Chain) : ¬EndsAt depth (c.lines depth ++ x) := by
  obtain ⟨ls, hls⟩ := c.exists_lines depth
  rw [hls]
  exact fun h => Nat.lt_irrefl depth (endsAt_cons.mp h)

theorem Chain.endsAt_linesAll (cs : List Chain) (hx : EndsAt depth x) :
    EndsAt (depth + 1) (Chain.linesAll depth cs ++ x) := by
  cases cs with
  | nil => exact hx.succ
  | cons c cs => exact endsAt_cons.mpr (Nat.lt_succ_self depth)

theorem Chain.not_endsAt_linesAll (c : Chain) (cs : List Chain) :
    ¬EndsAt depth (Chain.linesAll depth (c :: cs) ++ x) :=
  fun h => Nat.lt_irrefl depth (endsAt_cons.mp h)

end

mutual

/-- The lines of a node determine the node and where they end. -/
theorem Node.lines_append_inj : ∀ (n m : Node) {depth : Nat} {x y : List OutlineLine},
    EndsAt (depth + 1) x → EndsAt (depth + 1) y → n.lines depth ++ x = m.lines depth ++ y →
      n = m ∧ x = y
  | .empty, m, _, _, _, _, _, h | .dot, m, _, _, _, _, _, h | .literal _, m, _, _, _, _, _, h
  | .range _ _, m, _, _, _, _, _, h => by
    cases m <;> simp_all [Node.lines, Node.label]
  | .complement c, m, _, _, _, hx, hy, h => by
    cases m with
    | complement d =>
      obtain ⟨rfl, hrest⟩ := c.lines_append_inj d hx hy (List.cons.inj h).2
      exact ⟨rfl, hrest⟩
    | _ => simp [Node.lines, Node.label] at h
  | .alternation cs, m, _, _, _, hx, hy, h => by
    cases m with
    | alternation ds =>
      obtain ⟨rfl, hrest⟩ := Chain.linesAll_append_inj cs ds hx hy (List.cons.inj h).2
      exact ⟨rfl, hrest⟩
    | _ => simp [Node.lines, Node.label] at h
  | .repetition c min max, m, _, _, _, hx, hy, h => by
    cases m with
    | repetition d min' max' =>
      obtain ⟨hline, hlines⟩ := List.cons.inj h
      obtain ⟨rfl, rfl⟩ := Label.repetition.inj (OutlineLine.mk.inj hline).2
      obtain ⟨rfl, hrest⟩ := c.lines_append_inj d hx hy hlines
      exact ⟨rfl, hrest⟩
    | _ => simp [Node.lines, Node.label] at h

/-- The lines of a chain determine the chain and where they end. -/
theorem Chain.lines_append_inj : ∀ (c d : Chain) {depth : Nat} {x y : List OutlineLine},
    EndsAt depth x → EndsAt depth y → c.lines depth ++ x = d.lines depth ++ y → c = d ∧ x = y
  | .last n, .last m, _, _, _, hx, hy, h => by
    obtain ⟨rfl, hrest⟩ := n.lines_append_inj m hx.succ hy.succ h
    exact ⟨rfl, hrest⟩
  -- A chain that goes on has a line of its own depth where the other has ended.
  | .last n, .link m next, _, _, _, hx, hy, h => by
    rw [Chain.lines, Chain.lines, List.append_assoc] at h
    obtain ⟨-, rfl⟩ := n.lines_append_inj m hx.succ next.endsAt_lines h
    exact absurd hx next.not_endsAt_lines
  | .link n next, .last m, _, _, _, hx, hy, h => by
    rw [Chain.lines, Chain.lines, List.append_assoc] at h
    obtain ⟨-, rfl⟩ := n.lines_append_inj m next.endsAt_lines hy.succ h
    exact absurd hy next.not_endsAt_lines
  | .link n next, .link m next', _, _, _, hx, hy, h => by
    rw [Chain.lines, Chain.lines, List.append_assoc, List.append_assoc] at h
    obtain ⟨rfl, hnext⟩ := n.lines_append_inj m next.endsAt_lines next'.endsAt_lines h
    obtain ⟨rfl, hrest⟩ := next.lines_append_inj next' hx hy hnext
    exact ⟨rfl, hrest⟩

/-- The lines of the branches of an alternation determine the branches and where they end. -/
theorem Chain.linesAll_append_inj : ∀ (cs ds : List Chain) {depth : Nat} {x y : List OutlineLine},
    EndsAt depth x → EndsAt depth y → Chain.linesAll depth cs ++ x = Chain.linesAll depth ds ++ y →
      cs = ds ∧ x = y
  | [], [], _, _, _, _, _, h => ⟨rfl, h⟩
  | [], d :: ds, _, _, _, hx, _, h => by
    rw [Chain.linesAll, List.nil_append] at h
    exact absurd (h ▸ hx) (Chain.not_endsAt_linesAll d ds)
  | c :: cs, [], _, _, _, _, hy, h => by
    rw [Chain.linesAll.eq_1, List.nil_append] at h
    exact absurd (h ▸ hy) (Chain.not_endsAt_linesAll c cs)
  | c :: cs, d :: ds, _, _, _, hx, hy, h => by
    rw [Chain.linesAll, Chain.linesAll, List.append_assoc, List.append_assoc] at h
    obtain ⟨rfl, hbranches⟩ := c.lines_append_inj d (Chain.endsAt_linesAll cs hx)
      (Chain.endsAt_linesAll ds hy) (List.cons.inj h).2
    obtain ⟨rfl, hrest⟩ := Chain.linesAll_append_inj cs ds hx hy hbranches
    exact ⟨rfl, hrest⟩

end

/-- Outlines are equal just when the trees are. -/
theorem Chain.outline_inj (a b : Chain) : a.outline = b.outline ↔ a = b := by
  refine ⟨fun h => ?_, congrArg outline⟩
  have htexts : (a.lines 0).flatMap (fun l => l.text.toList) =
      (b.lines 0).flatMap fun l => l.text.toList := by
    rw [← a.toList_outline, ← b.toList_outline, h]
  have hlines := selfDelimiting_lineText.flatMap_injective lineText_ne_nil htexts
  exact (Chain.lines_append_inj a b endsAt_nil endsAt_nil (congrArg (· ++ []) hlines)).1

end PatternTree
