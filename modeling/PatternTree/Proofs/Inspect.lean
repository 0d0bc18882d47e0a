import Mathlib.Data.String.Basic
import PatternTree.Proofs.SelfDelimiting
import PatternTree.Tree.Inspect
/-!
# Constructor text determines its tree

In every layout the constructor text of a part of a tree shows where it ends. A name begins it that
is no beginning of another name, quoted characters and numbers show where they end, and what follows
an item of a list, a separator or the end of the list, can be told apart. A list on one line has a
comma or a bracket there. In a list that is spread over lines a comma and a new line follow every
item, and then the indentation of the next item, which is deeper than that of the closing bracket.

Both the nodes of a chain and the branches of an alternation are lists, and only the second may be
empty. A list of branches is told from an empty one by the bracket of its first branch.

## Main definitions

* `Layout.opening`, `Layout.closing` — the marks around the items of a group in a layout.
* `Layout.EndsNumber` — text behind which a number is read to its end.
* `Kind`, `Kind.name`, `Node.kind` — the kinds of nodes and their names.
* `Node.inspected`, `Chain.inspectedNodes` — the text of a node, and of the nodes of a chain.

## Main results

* `Layout.closing_append_ne` — the end of a list is not a separator.
* `selfDelimiting_kindName` — no name of a kind is the beginning of another one.
* `Node.inspectOnto_eq`, `Chain.inspectNodesOnto_eq` — what is written behind other text.
* `Node.inspected_append_inj`, `Chain.inspectedNodes_append_inj` — text determines a part of a tree,
  and where it ends.
* `selfDelimiting_inspect` — so does the text of a whole tree.
* `Chain.inspect_inj` — constructor texts in a layout are equal just when the trees are.
-/

namespace PatternTree

/-! ### The marks of a group -/

namespace Layout

/-- What stands in front of the first item of a group, from its opening mark on. -/
def opening (l : Layout) (b : Bracket) : String :=
  b.opening ++ l.lead b

/-- What stands behind the final item of a group, up to its closing mark. -/
def closing (l : Layout) (b : Bracket) : String :=
  l.trail b ++ b.closing

/-- Text that ends a number in front of it, since it begins with a mark that is no digit. -/
def EndsNumber (s : String) : Prop :=
  ∃ d t, s.toList = d :: t ∧ ∀ k, Nat.digitChar k ≠ d

variable {l : Layout} {b : Bracket} {x y : List Char}

theorem openOnto_eq (done : String) : l.openOnto b done = done ++ l.opening b :=
  String.append_assoc

theorem closeOnto_eq (done : String) : l.closeOnto b done = done ++ l.closing b :=
  String.append_assoc

theorem tuple_eq (name item : String) :
    l.tuple name item = name ++ l.opening .round ++ item ++ l.closing .round := by
  rw [tuple, closeOnto_eq, openOnto_eq]

theorem record_pair_eq (name field value field' value' : String) :
    l.record name [(field, value), (field', value')] =
      name ++ l.opening .curly ++ (field ++ ": " ++ value) ++ l.separator ++
        (field' ++ ": " ++ value') ++ l.closing .curly := by
  rw [record, closeOnto_eq, openOnto_eq]
  simp [String.append_assoc]

/-- The end of a list is not a separator, whatever follows the two. -/
theorem closing_append_ne : (l.closing .square).toList ++ x ≠ l.separator.toList ++ y := by
  cases l with
  | compact => simp [closing, trail, separator, Bracket.square]
  | spread level =>
    -- The next item is indented by four blanks more than the closing bracket.
    simp [closing, trail, separator, Bracket.square, blanks, Nat.mul_succ,
      ← List.replicate_append_replicate]

/-- A list without items is not the beginning of a list of lists. -/
theorem nil_append_ne :
    "[]".toList ++ x ≠ (l.opening .square).toList ++ ((l.deeper.opening .square).toList ++ y) := by
  cases l <;> simp [opening, lead, deeper, Bracket.square]

theorem endsNumber_separator (l : Layout) : EndsNumber l.separator := by
  refine ⟨',', l.separator.toList.tail, ?_, fun _ => Nat.digitChar_ne ',' rfl⟩
  cases l <;> simp [separator]

theorem endsNumber_closing_round (l : Layout) : EndsNumber (l.closing .round) := by
  cases l with
  | compact =>
    exact ⟨')', [], by simp [closing, trail, Bracket.round], fun _ => Nat.digitChar_ne ')' rfl⟩
  | spread level =>
    refine ⟨',', ((spread level).closing .round).toList.tail, ?_, fun _ => Nat.digitChar_ne ',' rfl⟩
    simp [closing, trail, Bracket.round]

theorem EndsNumber.decimal_inj {s : String} (hs : EndsNumber s) {m n : UInt32}
    (h : (toString m.toNat).toList ++ (s.toList ++ x) =
      (toString n.toNat).toList ++ (s.toList ++ y)) : m = n ∧ x = y := by
  obtain ⟨d, t, hd, hdigit⟩ := hs
  rw [hd] at h
  obtain ⟨hmn, hrest⟩ := PatternTree.decimal_inj hdigit h
  exact ⟨hmn, List.append_cancel_left hrest⟩

end Layout

theorem selfDelimiting_boundInspect (l : Layout) : SelfDelimiting (Bound.inspect l) := by
  intro a b x y h
  cases a with
  | bounded m =>
    cases b with
    | bounded n =>
      simp only [Bound.inspect, Layout.tuple_eq, String.toList_append, List.append_assoc,
        List.append_cancel_left_eq] at h
      obtain ⟨rfl, hrest⟩ := l.endsNumber_closing_round.decimal_inj h
      exact ⟨rfl, hrest⟩
    | unbounded => simp [Bound.inspect, Layout.tuple_eq] at h
  | unbounded =>
    cases b with
    | bounded n => simp [Bound.inspect, Layout.tuple_eq] at h
    | unbounded => exact ⟨rfl, List.append_cancel_left h⟩

/-! ### The text of a tree -/

/-- The kinds of nodes. -/
inductive Kind where
  | empty
  | dot
  | literal
  | range
  | complement
  | alternation
  | repetition

/-- The name of a kind, with which the text of a node begins. -/
def Kind.name : Kind → String
  | empty => "Empty"
  | dot => "Dot"
  | literal => "Literal"
  | range => "CharRange"
  | complement => "Complement"
  | alternation => "Alternation"
  | repetition => "Repeat"

/-- The kind of a node. -/
def Node.kind : Node → Kind
  | .empty => .empty
  | .dot => .dot
  | .literal _ => .literal
  | .range _ _ => .range
  | .complement _ => .complement
  | .alternation _ => .alternation
  | .repetition _ _ _ => .repetition

mutual

/-- The text of a node. -/
def Node.inspected (l : Layout) (n : Node) : String :=
  n.kind.name ++
    match n with
    | .empty | .dot => ""
    | .literal c => l.opening .round ++ quotedChar c ++ l.closing .round
    | .range start stop =>
      l.opening .curly ++ ("start: " ++ quotedChar start) ++ l.separator ++
        ("end: " ++ quotedChar stop) ++ l.closing .curly
    | .complement inner =>
      l.opening .round ++ (l.deeper.opening .square ++ inner.inspectedNodes l.deeper) ++
        l.closing .round
    | .alternation branches =>
      l.opening .round ++ Chain.inspectedAll l.deeper branches ++ l.closing .round
    | .repetition inner min max =>
      l.opening .curly ++
        ("node: " ++ (l.deeper.opening .square ++ inner.inspectedNodes l.deeper)) ++ l.separator ++
        ("min: " ++ toString min.toNat) ++ l.separator ++
        ("max: " ++ max.inspect l.deeper) ++ l.closing .curly

/-- The text of the nodes of a chain, up to the end of their list. -/
def Chain.inspectedNodes (l : Layout) : Chain → String
  | .last n => n.inspected l.deeper ++ l.closing .square
  | .link n next => n.inspected l.deeper ++ l.separator ++ next.inspectedNodes l

/-- The text of a list of chains. -/
def Chain.inspectedAll (l : Layout) : List Chain → String
  | [] => "[]"
  | c :: cs =>
    l.opening .square ++ (l.deeper.opening .square ++ c.inspectedNodes l.deeper) ++
      Chain.inspectedMore l cs

/-- The text of the chains that come after the first one of a list, up to the end of the list. -/
def Chain.inspectedMore (l : Layout) : List Chain → String
  | [] => l.closing .square
  | c :: cs =>
    l.separator ++ (l.deeper.opening .square ++ c.inspectedNodes l.deeper) ++
      Chain.inspectedMore l cs

end

mutual

/-- A node is written behind other text as its own text. -/
theorem Node.inspectOnto_eq : ∀ (n : Node) (l : Layout) (done : String),
    n.inspectOnto l done = done ++ n.inspected l
  | .empty, _, _ | .dot, _, _ => rfl
  | .literal c, l, done => by
    simp only [Node.inspectOnto, Layout.tuple_eq, Node.inspected, String.append_assoc]
    rfl
  | .range start stop, l, done => by
    simp only [Node.inspectOnto, Layout.record_pair_eq, Node.inspected, String.append_assoc]
    rfl
  | .complement inner, l, done => by
    rw [Node.inspectOnto, inner.inspectNodesOnto_eq, Layout.closeOnto_eq]
    simp only [Layout.openOnto_eq, String.append_assoc, Node.inspected]
    rfl
  | .alternation branches, l, done => by
    rw [Node.inspectOnto, Chain.inspectAllOnto_eq branches, Layout.closeOnto_eq]
    simp only [Layout.openOnto_eq, String.append_assoc, Node.inspected]
    rfl
  | .repetition inner min max, l, done => by
    simp only [Node.inspectOnto, inner.inspectNodesOnto_eq, Layout.closeOnto_eq, Layout.nextOnto,
      Layout.openOnto_eq, String.append_assoc, Node.inspected]
    rfl

/-- The nodes of a chain, with the end of their list, are written behind other text as their own
text. -/
theorem Chain.inspectNodesOnto_eq : ∀ (c : Chain) (l : Layout) (done : String),
    l.closeOnto .square (c.inspectNodesOnto l done) = done ++ c.inspectedNodes l
  | .last n, l, done => by
    rw [Layout.closeOnto_eq, Chain.inspectNodesOnto, n.inspectOnto_eq, String.append_assoc,
      Chain.inspectedNodes]
  | .link n next, l, done => by
    rw [Chain.inspectNodesOnto, next.inspectNodesOnto_eq, Layout.nextOnto, n.inspectOnto_eq]
    simp only [String.append_assoc, Chain.inspectedNodes]

theorem Chain.inspectAllOnto_eq : ∀ (cs : List Chain) (l : Layout) (done : String),
    Chain.inspectAllOnto l done cs = done ++ Chain.inspectedAll l cs
  | [], _, _ => rfl
  | c :: cs, l, done => by
    rw [Chain.inspectAllOnto, Chain.inspectMoreOnto_eq cs, c.inspectNodesOnto_eq]
    simp only [Layout.openOnto_eq, String.append_assoc, Chain.inspectedAll]

theorem Chain.inspectMoreOnto_eq : ∀ (cs : List Chain) (l : Layout) (done : String),
    l.closeOnto .square (Chain.inspectMoreOnto l done cs) = done ++ Chain.inspectedMore l cs
  | [], _, done => Layout.closeOnto_eq done
  | c :: cs, l, done => by
    rw [Chain.inspectMoreOnto, Chain.inspectMoreOnto_eq cs, c.inspectNodesOnto_eq]
    simp only [Layout.openOnto_eq, Layout.nextOnto, String.append_assoc, Chain.inspectedMore]

end

theorem Chain.inspect_eq (l : Layout) (c : Chain) :
    c.inspect l = l.opening .square ++ c.inspectedNodes l := by
  rw [Chain.inspect, c.inspectNodesOnto_eq, Layout.openOnto_eq, String.empty_append]

/-! ### Text determines trees -/

/-- No name of a kind is the beginning of another one. -/
theorem selfDelimiting_kindName : SelfDelimiting Kind.name := by
  intro a b x y h
  cases a <;> cases b <;> simp_all [Kind.name]

/-- Text determines the kind of a node. -/
theorem Node.kind_eq_of_inspected {n m : Node} {l : Layout} {x y : List Char}
    (h : (n.inspected l).toList ++ x = (m.inspected l).toList ++ y) : n.kind = m.kind := by
  rw [Node.inspected.eq_def l n, Node.inspected.eq_def l m] at h
  simp only [String.toList_append, List.append_assoc] at h
  exact (selfDelimiting_kindName h).1

mutual

/-- The text of a node determines the node and where it ends. -/
theorem Node.inspected_append_inj : ∀ (n m : Node) {l : Layout} {x y : List Char},
    (n.inspected l).toList ++ x = (m.inspected l).toList ++ y → n = m ∧ x = y
  | .empty, m, _, _, _, h | .dot, m, _, _, _, h => by
    -- Of the cases of `m` the one of the same kind is left, here and below.
    cases m <;> cases Node.kind_eq_of_inspected h
    exact ⟨rfl, List.append_cancel_left h⟩
  | .literal c, m, _, _, _, h => by
    cases m <;> cases Node.kind_eq_of_inspected h
    simp only [Node.inspected, Node.kind, String.toList_append, List.append_assoc,
      List.append_cancel_left_eq] at h
    obtain ⟨rfl, hrest⟩ := selfDelimiting_quotedChar h
    exact ⟨rfl, List.append_cancel_left hrest⟩
  | .range start stop, m, _, _, _, h => by
    cases m <;> cases Node.kind_eq_of_inspected h
    simp only [Node.inspected, Node.kind, String.toList_append, List.append_assoc,
      List.append_cancel_left_eq] at h
    obtain ⟨rfl, hstop⟩ := selfDelimiting_quotedChar h
    simp only [List.append_cancel_left_eq] at hstop
    obtain ⟨rfl, hrest⟩ := selfDelimiting_quotedChar hstop
    exact ⟨rfl, List.append_cancel_left hrest⟩
  | .complement c, m, _, _, _, h => by
    cases m <;> cases Node.kind_eq_of_inspected h
    simp only [Node.inspected, Node.kind, String.toList_append, List.append_assoc,
      List.append_cancel_left_eq] at h
    obtain ⟨rfl, hrest⟩ := c.inspectedNodes_append_inj _ h
    exact ⟨rfl, List.append_cancel_left hrest⟩
  | .alternation cs, m, _, _, _, h => by
    cases m <;> cases Node.kind_eq_of_inspected h
    simp only [Node.inspected, Node.kind, String.toList_append, List.append_assoc,
      List.append_cancel_left_eq] at h
    obtain ⟨rfl, hrest⟩ := Chain.inspectedAll_append_inj cs _ h
    exact ⟨rfl, List.append_cancel_left hrest⟩
  | .repetition c min max, m, l, _, _, h => by
    cases m <;> cases Node.kind_eq_of_inspected h
    simp only [Node.inspected, Node.kind, String.toList_append, List.append_assoc,
      List.append_cancel_left_eq] at h
    obtain ⟨rfl, hmin⟩ := c.inspectedNodes_append_inj _ h
    simp only [List.append_cancel_left_eq] at hmin
    obtain ⟨rfl, hmax⟩ := l.endsNumber_separator.decimal_inj hmin
    obtain ⟨rfl, hrest⟩ := selfDelimiting_boundInspect _ (List.append_cancel_left hmax)
    exact ⟨rfl, List.append_cancel_left hrest⟩

/-- The text of the nodes of a chain determines the chain and where the list ends. -/
theorem Chain.inspectedNodes_append_inj : ∀ (c d : Chain) {l : Layout} {x y : List Char},
    (c.inspectedNodes l).toList ++ x = (d.inspectedNodes l).toList ++ y → c = d ∧ x = y
  | .last n, .last m, _, _, _, h => by
    simp only [Chain.inspectedNodes, String.toList_append, List.append_assoc] at h
    obtain ⟨rfl, hrest⟩ := n.inspected_append_inj m h
    exact ⟨rfl, List.append_cancel_left hrest⟩
  | .last n, .link m next, _, _, _, h => by
    simp only [Chain.inspectedNodes, String.toList_append, List.append_assoc] at h
    exact absurd (n.inspected_append_inj m h).2 Layout.closing_append_ne
  | .link n next, .last m, _, _, _, h => by
    simp only [Chain.inspectedNodes, String.toList_append, List.append_assoc] at h
    exact absurd (n.inspected_append_inj m h).2.symm Layout.closing_append_ne
  | .link n next, .link m next', _, _, _, h => by
    simp only [Chain.inspectedNodes, String.toList_append, List.append_assoc] at h
    obtain ⟨rfl, hnext⟩ := n.inspected_append_inj m h
    obtain ⟨rfl, hrest⟩ := next.inspectedNodes_append_inj next' (List.append_cancel_left hnext)
    exact ⟨rfl, hrest⟩

/-- The text of a list of chains determines the chains and where the list ends. -/
theorem Chain.inspectedAll_append_inj : ∀ (cs ds : List Chain) {l : Layout} {x y : List Char},
    (Chain.inspectedAll l cs).toList ++ x = (Chain.inspectedAll l ds).toList ++ y →
      cs = ds ∧ x = y
  | [], [], _, _, _, h => ⟨rfl, List.append_cancel_left h⟩
  | [], d :: ds, _, _, _, h => by
    simp only [Chain.inspectedAll, String.toList_append, List.append_assoc] at h
    exact absurd h Layout.nil_append_ne
  | c :: cs, [], _, _, _, h => by
    simp only [Chain.inspectedAll, String.toList_append, List.append_assoc] at h
    exact absurd h.symm Layout.nil_append_ne
  | c :: cs, d :: ds, _, _, _, h => by
    simp only [Chain.inspectedAll, String.toList_append, List.append_assoc,
      List.append_cancel_left_eq] at h
    obtain ⟨rfl, hmore⟩ := c.inspectedNodes_append_inj d h
    obtain ⟨rfl, hrest⟩ := Chain.inspectedMore_append_inj cs ds hmore
    exact ⟨rfl, hrest⟩

theorem Chain.inspectedMore_append_inj : ∀ (cs ds : List Chain) {l : Layout} {x y : List Char},
    (Chain.inspectedMore l cs).toList ++ x = (Chain.inspectedMore l ds).toList ++ y →
      cs = ds ∧ x = y
  | [], [], _, _, _, h => ⟨rfl, List.append_cancel_left h⟩
  | [], d :: ds, _, _, _, h => by
    simp only [Chain.inspectedMore, String.toList_append, List.append_assoc] at h
    exact absurd h Layout.closing_append_ne
  | c :: cs, [], _, _, _, h => by
    simp only [Chain.inspectedMore, String.toList_append, List.append_assoc] at h
    exact absurd h.symm Layout.closing_append_ne
  | c :: cs, d :: ds, _, _, _, h => by
    simp only [Chain.inspectedMore, String.toList_append, List.append_assoc,
      List.append_cancel_left_eq] at h
    obtain ⟨rfl, hmore⟩ := c.inspectedNodes_append_inj d h
    obtain ⟨rfl, hrest⟩ := Chain.inspectedMore_append_inj cs ds hmore
    exact ⟨rfl, hrest⟩

end

/-- The text of a tree determines the tree and where it ends. -/
theorem selfDelimiting_inspect (l : Layout) : SelfDelimiting (Chain.inspect l) := by
  intro a b x y h
  simp only [Chain.inspect_eq, String.toList_append, List.append_assoc] at h
  exact a.inspectedNodes_append_inj b (List.append_cancel_left h)

/-- Constructor texts in a layout are equal just when the trees are. -/
theorem Chain.inspect_inj (l : Layout) (a b : Chain) : a.inspect l = b.inspect l ↔ a = b := by
  refine ⟨fun h => ?_, congrArg (inspect l)⟩
  have htexts : (a.inspect l).toList ++ [] = (b.inspect l).toList ++ [] := by rw [h]
  exact (selfDelimiting_inspect l htexts).1

end PatternTree
