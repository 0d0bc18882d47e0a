import PatternTree.Tree.Copy
/-!
# Copies are the trees that they are made from

A chain is copied from its end: the nodes behind the first one are copied and linked, each in front
of what follows it, and the copy of the first node is put in front of them. Nothing is left out,
repeated or moved on the way, neither along a chain nor in what a node stands over, so a copy is the
tree that it is made from.

## Main definitions

* `Node.inFrontOf` — a node and what follows it, if anything does.
* `Chain.linked?` — the chain of some nodes, linked from its end.

## Main results

* `Node.copy_eq`, `Chain.copyOnto_eq`, `Chain.copyAll_eq` — the copies of nodes, chains and lists of
  chains.
* `Chain.copy_eq_linked_and_eq` — how a chain is copied, and that the copy is the chain.
-/

namespace PatternTree

/-- The node `n`, followed by `next?` if that is a chain. -/
def Node.inFrontOf (n : Node) : (next? : Option Chain) → Chain
  | none => .last n
  | some next => (Chain.last n).followedBy next

namespace Chain

/-- The chain of some nodes, linked from the final one to the first; no nodes make no chain. -/
def linked? (ns : List Node) : Option Chain :=
  ns.reverse.foldl (fun next? n => some (n.inFrontOf next?)) none

theorem linked?_cons (n : Node) (ns : List Node) :
    linked? (n :: ns) = some (n.inFrontOf (linked? ns)) := by
  simp only [linked?, List.foldl_reverse, List.foldr_cons]

/-- The nodes of a chain make that chain. -/
theorem linked?_nodes : ∀ c : Chain, linked? c.nodes = some c
  | last _ => rfl
  | link n next => by
    rw [nodes_link, linked?_cons, linked?_nodes next]
    rfl

/-- A chain is its first node in front of the chain of the others. -/
theorem inFrontOf_linked? : ∀ c : Chain, c.head.inFrontOf (linked? c.nodes.tail) = c
  | last _ => rfl
  | link n next => by
    rw [nodes_link, List.tail_cons, linked?_nodes next]
    rfl

end Chain

mutual

/-- The copy of a node is the node. -/
theorem Node.copy_eq : ∀ n : Node, n.copy = n
  | .empty | .dot | .literal _ | .range _ _ => rfl
  | .complement inner => congrArg Node.complement (Chain.copyOnto_eq inner [])
  | .alternation branches => congrArg Node.alternation (Chain.copyAll_eq branches)
  | .repetition inner min max => by
    rw [Node.copy, Chain.copyOnto_eq inner []]
    rfl

/-- Copying a chain behind some nodes puts these in front of it. -/
theorem Chain.copyOnto_eq : ∀ (c : Chain) (done : List Node),
    c.copyOnto done = Chain.prepend done c
  | .last n, done => by rw [Chain.copyOnto, Node.copy_eq n]
  | .link n next, done => by
    rw [Chain.copyOnto, Node.copy_eq n, Chain.copyOnto_eq next]
    rfl

/-- The copies of some chains are the chains. -/
theorem Chain.copyAll_eq : ∀ cs : List Chain, Chain.copyAll cs = cs
  | [] => rfl
  | c :: cs => by
    rw [Chain.copyAll, Chain.copyOnto_eq c [], Chain.copyAll_eq cs]
    rfl

end

namespace Chain

/-- The copy of a chain is the chain. -/
theorem copy_eq (c : Chain) : c.copy = c :=
  copyOnto_eq c []

/-- What is taken out of a copied chain is the copy of what is taken out of the chain. -/
theorem map_copy (c? : Option Chain) : c?.map copy = c? := by
  rw [funext copy_eq, Option.map_id']

/-- A chain is copied by linking the copies of the nodes behind the first one from the end and
putting the copy of the first one in front. What comes out is the chain: as long, with the same
nodes in the same order. What follows a node of the copy is the copy of what follows it in the
chain, and so is each branch of an alternation and whatever a complement or a repetition stands
over. -/
theorem copy_eq_linked_and_eq (c : Chain) :
    c.copy = c.head.copy.inFrontOf (linked? (c.nodes.tail.map Node.copy)) ∧
      c.copy = c ∧ c.copy.length = c.length ∧ c.copy.nodes = c.nodes.map Node.copy ∧
      (∀ k, c.copy.suffix? k = (c.suffix? k).map copy) ∧
      (∀ i, c.copy.branch? i = (c.branch? i).map copy) ∧
      c.copy.inner? = c.inner?.map copy := by
  have hnodes (ns : List Node) : ns.map Node.copy = ns := by
    rw [funext Node.copy_eq, List.map_id']
  simp only [copy_eq, Node.copy_eq, hnodes, map_copy, inFrontOf_linked?, implies_true, and_self]

end Chain

end PatternTree
