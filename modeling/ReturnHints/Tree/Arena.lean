import ReturnHints.Tree.Kind

/-!
# Arenas of syntax nodes

Nodes are kept in one array and named by their place in it.  A number that names no node is a
valid question everywhere: it has no kind, no name, no parent and no children.

`Arena.attach?` is the only operation that makes children.  It refuses a child that already has
a parent and one that is the new parent itself or an ancestor of it, so that the child lists
form a forest.
-/

namespace ReturnHints

/-- The number of a node in its arena. -/
abbrev NodeId := Nat

namespace NodeId

/-- The 32-bit number that stands for "no node" where a link is written as a number. -/
def absent : NodeId := 4294967295

/-- A link read from its number. -/
def link (n : NodeId) : Option NodeId :=
  if n = absent then none else some n

/-- How a log line shows a node. -/
def shown (n : NodeId) : String :=
  "NodeIndex(" ++ toString n ++ ")"

end NodeId

/-- A node: its kind, the bytes `start` to `stop` of the text, the node that names it, its
parent, and its children from left to right. -/
structure Node where
  kind : Kind
  start : Nat
  stop : Nat
  name : Option NodeId := none
  parent : Option NodeId := none
  children : List NodeId := []
deriving DecidableEq, Inhabited

structure Arena where
  nodes : Array Node
deriving DecidableEq, Inhabited

namespace Arena

def empty : Arena := ⟨#[]⟩

def size (a : Arena) : Nat := a.nodes.size

/-! ## Questions -/

def node? (a : Arena) (i : NodeId) : Option Node := a.nodes[i]?

def kind? (a : Arena) (i : NodeId) : Option Kind := (a.node? i).map (·.kind)

def name? (a : Arena) (i : NodeId) : Option NodeId := (a.node? i).bind (·.name)

def parent? (a : Arena) (i : NodeId) : Option NodeId := (a.node? i).bind (·.parent)

def children (a : Arena) (i : NodeId) : List NodeId := ((a.node? i).map (·.children)).getD []

/-- A node, its parent, the parent of that one and so on: at most `n` of them. -/
def lineage (a : Arena) : Nat → NodeId → List NodeId
  | 0, _ => []
  | n + 1, i =>
    i :: match a.parent? i with
      | none => []
      | some p => a.lineage n p

/-! ## Operations -/

/-- Adds a node at the end; its number is the size of the arena before. -/
def add (a : Arena) (n : Node) : Arena := ⟨a.nodes.push n⟩

def modify (a : Arena) (i : NodeId) (f : Node → Node) : Arena := ⟨a.nodes.modify i f⟩

/-- Makes `c` the last child of `p`.  Refused if one of them names no node, if `c` has a parent,
or if `c` is `p` or an ancestor of `p`.  Without a cycle of parents, a lineage has at most one
entry more than there are nodes: the last one may name no node. -/
def attach? (a : Arena) (p c : NodeId) : Option Arena :=
  if p < a.size ∧ c < a.size ∧ a.parent? c = none ∧ c ∉ a.lineage (a.size + 1) p then
    some <| (a.modify c fun n => { n with parent := some p }).modify p
      fun n => { n with children := n.children ++ [c] }
  else none

/-! ## Lemmas -/

@[simp] theorem size_empty : empty.size = 0 := rfl

@[simp] theorem size_add (a : Arena) (n : Node) : (a.add n).size = a.size + 1 := by
  simp [size, add]

@[simp] theorem size_modify (a : Arena) (i : NodeId) (f : Node → Node) :
    (a.modify i f).size = a.size := by
  simp [size, modify]

theorem node?_add (a : Arena) (n : Node) (i : NodeId) :
    (a.add n).node? i = if i = a.size then some n else a.node? i := by
  simp only [node?, add, size, Array.getElem?_push]
  rfl

theorem node?_modify (a : Arena) (i : NodeId) (f : Node → Node) (j : NodeId) :
    (a.modify i f).node? j = if i = j then (a.node? j).map f else a.node? j := by
  simp [node?, modify, Array.getElem?_modify]

end Arena

end ReturnHints
