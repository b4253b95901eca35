import ReturnHints.Hint.Basic
import ReturnHints.Json.Record
import ReturnHints.Json.Write

/-!
# Places, insertions and hints on the wire
-/

namespace ReturnHints

open Json

/-- The value of a field that has to be there. -/
def required {α : Type} (key : String) (a : Option α) : Except Mismatch α :=
  a.elim (.error (.missingField key)) .ok

/-! ## Places -/

structure Position.Parts where
  line : Option Nat := none
  character : Option Nat := none

def Position.record : Record Position.Parts Position where
  name := "Position"
  fields := [
    .of "line" (·.line) (fun p n => { p with line := some n }) readWord32 false,
    .of "character" (·.character) (fun p n => { p with character := some n }) readWord32 false]
  strict := false
  start := {}
  finish p := do
    let line ← required "line" p.line
    let character ← required "character" p.character
    return { line, character }

def Position.read : Reader Position := Position.record.read

def Position.write (p : Position) : List Char :=
  writeObject [("line", writeNatural p.line), ("character", writeNatural p.character)]

/-! ## Insertions -/

structure Insertion.Parts where
  position : Option Position := none
  text : Option String := none

def Insertion.record : Record Insertion.Parts Insertion where
  name := "TextToInsert"
  fields := [
    .of "position" (·.position) (fun p a => { p with position := some a }) Position.read false,
    .of "text" (·.text) (fun p a => { p with text := some a }) readText false]
  strict := false
  start := {}
  finish p := do
    let position ← required "position" p.position
    let text ← required "text" p.text
    return { position, text }

def Insertion.read : Reader Insertion := Insertion.record.read

def Insertion.write (i : Insertion) : List Char :=
  writeObject [("position", i.position.write), ("text", writeText i.text)]

/-! ## Hints -/

structure Hint.Parts where
  name : Option (Option String) := none
  returnType : Option String := none
  insertion : Option (Option Insertion) := none

/-- The name and the insertion may be absent or null. -/
def Hint.record : Record Hint.Parts Hint where
  name := "VisitedFunction"
  fields := [
    .of "name" (·.name) (fun p a => { p with name := some a }) (readNullable readText) true,
    .of "inferredReturnType" (·.returnType) (fun p a => { p with returnType := some a })
      readText false,
    .of "textToInsert" (·.insertion) (fun p a => { p with insertion := some a })
      (readNullable Insertion.read) true]
  strict := false
  start := {}
  finish p := do
    let returnType ← required "inferredReturnType" p.returnType
    return { name := p.name.getD none, returnType, insertion := p.insertion.getD none }

def Hint.read : Reader Hint := Hint.record.read

/-- An absent name or insertion is left out. -/
def Hint.write (h : Hint) : List Char :=
  writeObject (
    (h.name.map fun n => ("name", writeText n)).toList
      ++ ("inferredReturnType", writeText h.returnType)
      :: (h.insertion.map fun i => ("textToInsert", i.write)).toList)

end ReturnHints
