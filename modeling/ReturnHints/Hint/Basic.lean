import ReturnHints.Hint.Plan
import ReturnHints.Hint.Signature

/-!
# Hints

A hint says of one signature of a function which return type it has, and which text would write
that type into the source, if it can be written.  A function gets one hint for each of its
signatures, or none at all if the oracle fails it.
-/

namespace ReturnHints

open Log (Traced)

structure Hint where
  name : Option String
  returnType : String
  insertion : Option Insertion
deriving DecidableEq

/-- A function whose return types could not be had. -/
structure Failure where
  function : NodeId
  kind : Kind
  position : Position
  fault : TypeFault
deriving DecidableEq

def Failure.message (e : Failure) : String :=
  "cannot infer the return type of " ++ e.kind.name ++ " at " ++ e.position.shown

variable {τ σ ι : Type}

/-- The failure of a node; a number that names no node counts as an unknown one at the start. -/
def Failure.of (f : File) (n : NodeId) (fault : TypeFault) : Failure :=
  let (kind, start) := (f.arena.node? n).elim (.unknown, 0) fun node => (node.kind, node.start)
  { function := n, kind, position := f.positionOf start, fault }

namespace Hint

/-- The hint of each signature of a function. -/
def ofSignatures (f : File) (n : NodeId) : List Signature → Traced (List Hint)
  | [] => return []
  | s :: ss => do
    let plan ← Plan.logged f n s.returnType
    let rest ← ofSignatures f n ss
    return { name := s.name, returnType := s.returnType, insertion := plan.insertion? } :: rest

/-- The hints of a function. -/
def ofNode (o : Oracle τ σ ι) (f : File) (n : NodeId) : Traced (Except Failure (List Hint)) := do
  match ← Signature.ofNode o f n with
  | .error fault => return .error (.of f n fault)
  | .ok signatures => return .ok (← ofSignatures f n signatures)

/-- The hints of several functions, in order, up to the first failure. -/
def ofNodes (o : Oracle τ σ ι) (f : File) : List NodeId → Traced (Except Failure (List Hint))
  | [] => return .ok []
  | n :: ns => do
    match ← ofNode o f n with
    | .error e => return .error e
    | .ok hints => return (← ofNodes o f ns).map (hints ++ ·)

end Hint

end ReturnHints
