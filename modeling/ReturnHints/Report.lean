import ReturnHints.Log.Walk
import ReturnHints.Options

/-!
# Reports

The report of a file has the hints of all functions below its root, in the order of the walk,
and an entry for each function that was skipped.
-/

namespace ReturnHints

open Log (Traced)

/-- A function left out of a report, with the reason. -/
structure Skipped where
  kind : Kind
  position : Position
  message : String
deriving DecidableEq

def Skipped.of (e : Failure) : Skipped :=
  { kind := e.kind, position := e.position, message := e.fault.message }

structure Report where
  fileName : String
  functions : List Hint := []
  skipped : List Skipped := []
deriving DecidableEq

namespace Report

/-- The texts to be inserted, in order. -/
def insertions (r : Report) : List Insertion := r.functions.filterMap (·.insertion)

def insertionCount (r : Report) : Nat := r.insertions.length

def hasFailures (r : Report) : Bool := !r.skipped.isEmpty

end Report

/-- The functions below the root of a file. -/
def File.functions (f : File) : List NodeId := f.arena.functionsBelow f.root

/-! ## Annotating -/

variable {τ σ ι : Type}

namespace Report

/-- Extends a report by the functions at `ns`.  Each is logged when it is reached.  A failure
is skipped, or ends the report, as the options say. -/
def extend (o : Oracle τ σ ι) (opts : Options) (f : File) :
    List NodeId → Report → Traced (Except Failure Report)
  | [], r => return .ok r
  | n :: ns, r => do
    f.arena.announce n
    match ← Hint.ofNode o f n with
    | .ok hints =>
      extend o opts f ns { r with functions := r.functions ++ hints.filter opts.keeps }
    | .error e =>
      if opts.isolateFailures then
        Traced.log (.skipped e.kind e.position e.fault)
        extend o opts f ns { r with skipped := r.skipped ++ [.of e] }
      else return .error e

/-- The report of a file. -/
def ofFile (o : Oracle τ σ ι) (opts : Options) (f : File) : Traced (Except Failure Report) := do
  Traced.log (.begun f.name)
  match ← extend o opts f f.functions { fileName := f.name } with
  | .error e => return .error e
  | .ok r =>
    Traced.log (.finished r.functions.length r.insertionCount r.skipped.length)
    return .ok r

end Report

/-- The hints of all functions of a file, or the first failure. -/
def Hint.ofFile (o : Oracle τ σ ι) (f : File) : Traced (Except Failure (List Hint)) := do
  let ns ← (Walk.below f.arena f.root).collect f.arena
  Hint.ofNodes o f ns

end ReturnHints
