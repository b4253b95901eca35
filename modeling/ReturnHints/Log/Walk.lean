import ReturnHints.Log.Traced
import ReturnHints.Tree.Walk

/-!
# Walks with a journal

Every function that a walk reaches is logged at that moment.
-/

namespace ReturnHints

open Log (Traced)

/-- Logs that a walk has reached a node. -/
def Arena.announce (a : Arena) (n : NodeId) : Traced Unit :=
  match a.node? n with
  | none => return ()
  | some node => Traced.log (.found n node.kind node.start)

/-- The next function of a walk, logged. -/
def Walk.step (a : Arena) (w : Walk) : Traced (Option NodeId × Walk) :=
  match w.next? a with
  | none => return (none, w)
  | some (n, w) => do
    a.announce n
    return (some n, w)

/-- Nodes in order, each logged as reached. -/
def Arena.announceAll (a : Arena) : List NodeId → Traced (List NodeId)
  | [] => return []
  | n :: ns => do
    a.announce n
    return n :: (← a.announceAll ns)

/-- All functions of a walk, logged. -/
def Walk.collect (a : Arena) (w : Walk) : Traced (List NodeId) := a.announceAll (w.toList a)

end ReturnHints
