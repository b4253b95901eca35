import ReturnHints.Log.Traced
import ReturnHints.Tree.File

/-!
# Signatures of a function

The call signatures of a function, each with the name of the function and the text of its
return type, as the oracle answers.  The questions come in a fixed order, and the first one that
fails decides.
-/

namespace ReturnHints

open Log (Traced)

structure Signature where
  name : Option String
  returnType : String
deriving DecidableEq

namespace Signature

variable {τ σ ι : Type}

/-- The name of a function: that of the symbol behind its name node. -/
def declaredName (o : Oracle τ σ ι) (f : File) (n : NodeId) : Traced (Option String) :=
  match f.arena.name? n with
  | none => return none
  | some nameNode => do
    Traced.ask (.symbolAt nameNode)
    match o.symbolAt nameNode with
    | none => return none
    | some symbol =>
      Traced.ask (.symbolName nameNode)
      return some (o.symbolName symbol)

/-- The texts of the return types of signatures, of which the first is number `i`. -/
def returnTypes (o : Oracle τ σ ι) (n : NodeId) :
    Nat → List σ → Traced (Except TypeFault (List String))
  | _, [] => return .ok []
  | i, s :: ss => do
    Traced.ask (.returnType n i)
    match o.returnType s with
    | .error fault => return .error fault
    | .ok ty =>
      Traced.ask (.render n i)
      match o.render ty with
      | .error fault => return .error fault
      | .ok text => return (← returnTypes o n (i + 1) ss).map (text :: ·)

/-- The signatures of the function at a node. -/
def ofNode (o : Oracle τ σ ι) (f : File) (n : NodeId) :
    Traced (Except TypeFault (List Signature)) := do
  Traced.ask (.typeAt n)
  match o.typeAt n with
  | .error fault => return .error fault
  | .ok ty =>
    let name ← declaredName o f n
    Traced.ask (.signatures n)
    let texts ← returnTypes o n 0 (o.signatures ty)
    return texts.map (·.map fun returnType => { name, returnType })

end Signature

end ReturnHints
