import ReturnHints.Tree.Arena

/-!
# Walking over the functions of a tree

A walk visits the descendants of a node in pre-order, from left to right, and stops at the
function-like ones; it goes on inside them, since functions hold functions.  It keeps the nodes
still to be visited on a stack, so that it can be advanced one function at a time.

In a forest every node is on the stack at most once, so the size of the arena bounds both the
visits between two functions and the number of functions.
-/

namespace ReturnHints

/-- The nodes still to be visited, the next one first. -/
structure Walk where
  pending : List NodeId
deriving DecidableEq, Inhabited

namespace Walk

/-- The walk over the descendants of `root`, which is not visited itself. -/
def below (a : Arena) (root : NodeId) : Walk := ⟨a.children root⟩

/-- The walk with nothing left to visit. -/
def finished : Walk := ⟨[]⟩

/-- Visits at most `n` nodes, up to the first function. -/
def advance (a : Arena) : Nat → List NodeId → Option (NodeId × Walk)
  | 0, _ => none
  | _ + 1, [] => none
  | n + 1, i :: rest =>
    match a.node? i with
    | none => advance a n rest
    | some node =>
      if node.kind.isFunctionLike then some (i, ⟨node.children ++ rest⟩)
      else advance a n (node.children ++ rest)

/-- The next function and the walk after it. -/
def next? (a : Arena) (w : Walk) : Option (NodeId × Walk) :=
  advance a a.size w.pending

/-- The next functions, at most `n`. -/
def take (a : Arena) : Nat → Walk → List NodeId
  | 0, _ => []
  | n + 1, w =>
    match w.next? a with
    | none => []
    | some (i, w) => i :: take a n w

/-- All functions of the walk. -/
def toList (a : Arena) (w : Walk) : List NodeId := take a a.size w

end Walk

/-- The functions below a node, in pre-order. -/
def Arena.functionsBelow (a : Arena) (root : NodeId) : List NodeId :=
  (Walk.below a root).toList a

end ReturnHints
