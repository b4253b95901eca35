import ReturnHints.Report
import ReturnHints.Wire.Hint
import ReturnHints.Wire.Node
import ReturnHints.Wire.Options

/-!
# Reports on the wire
-/

namespace ReturnHints

open Json
open Log (Traced)

def Skipped.write (s : Skipped) : List Char :=
  writeObject [
    ("kind", s.kind.write), ("position", s.position.write), ("message", writeText s.message)]

/-- The skipped functions are left out if there are none. -/
def Report.write (r : Report) : List Char :=
  writeObject (
    ("fileName", writeText r.fileName)
      :: ("functions", writeList (r.functions.map Hint.write))
      :: if r.skipped.isEmpty then []
        else [("skipped", writeList (r.skipped.map Skipped.write))])

/-! ## Reports from written options -/

/-- Why there is no report. -/
inductive Error
  | options (fault : Fault)
  | resolution (failure : Failure)

variable {τ σ ι : Type}

/-- The report of a file, with the options of a JSON text, or the default ones. -/
def Report.ofText (o : Oracle τ σ ι) (options : Option String) (f : File) :
    Traced (Except Error (Options × Report)) :=
  match options.elim (.ok {}) Options.ofJson with
  | .error fault => return .error (.options fault)
  | .ok opts => do
    match ← Report.ofFile o opts f with
    | .error failure => return .error (.resolution failure)
    | .ok report => return .ok (opts, report)

end ReturnHints
