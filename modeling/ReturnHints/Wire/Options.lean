import ReturnHints.Json.Record
import ReturnHints.Json.Write
import ReturnHints.Options
import ReturnHints.Text.Blank

/-!
# Options on the wire

Options are written by hand, so a switch is a boolean or one of a few words.  A key that is no
option is refused.
-/

namespace ReturnHints

open Json

/-- The words of a switch. -/
def switchWord? (word : String) : Option Bool :=
  if word ∈ ["true", "1", "yes", "on"] then some true
  else if word ∈ ["false", "0", "no", "off"] then some false
  else none

/-- The switch that a value stands for. -/
def asSwitch : Found → Except Mismatch Bool
  | .bool b => .ok b
  | .text s => (switchWord? (Text.settingWord s)).elim (.error (.badSwitch s)) .ok
  | _ => .error .noSwitch

/-- Reads a switch.  The value is read as a whole first; one bracket around it is open. -/
def switch : Reader Bool := fun cs => do
  let (found, rest) ← value (maxOpen - 1) cs
  match asSwitch found with
  | .ok b => return (b, rest)
  | .error cause => .error (.mismatch cause)

namespace Options

structure Parts where
  isolateFailures : Option Bool := none
  includeAnonymous : Option Bool := none
  skipAnnotated : Option Bool := none

/-- An option that is not given has its default. -/
def record : Record Parts Options where
  name := "AnnotateOptions"
  fields := [
    .of "isolateFailures" (·.isolateFailures) (fun p b => { p with isolateFailures := some b })
      switch true,
    .of "includeAnonymous" (·.includeAnonymous) (fun p b => { p with includeAnonymous := some b })
      switch true,
    .of "skipAnnotated" (·.skipAnnotated) (fun p b => { p with skipAnnotated := some b })
      switch true]
  strict := true
  start := {}
  finish p :=
    let d : Options := {}
    .ok {
      isolateFailures := p.isolateFailures.getD d.isolateFailures
      includeAnonymous := p.includeAnonymous.getD d.includeAnonymous
      skipAnnotated := p.skipAnnotated.getD d.skipAnnotated }

/-- The options of a JSON text. -/
def ofJson (text : String) : Except Fault Options := readAll record.read text

def write (o : Options) : List Char :=
  writeObject [
    ("isolateFailures", writeBool o.isolateFailures),
    ("includeAnonymous", writeBool o.includeAnonymous),
    ("skipAnnotated", writeBool o.skipAnnotated)]

/-- The message of options of another shape. -/
def refusalMessage (cause : Mismatch) : String :=
  "invalid annotate options: " ++ cause.message

end Options

end ReturnHints
